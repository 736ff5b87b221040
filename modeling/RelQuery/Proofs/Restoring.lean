import RelQuery.Proofs.Collecting

namespace RelQuery

namespace AggregateMap

variable {m : AggregateMap} {e : Expr} {calls : List Expr}

/-- The call that was filed under the name of a column. -/
def callFor (m : AggregateMap) : Expr → Expr
  | .column ⟨none, key⟩ => (m.lookup key).getD (.column ⟨none, key⟩)
  | e => e

/-- Puts calls back in the place of the columns that are named after them. -/
def restore (m : AggregateMap) (e : Expr) : Expr := e.mapNodes m.callFor

theorem Keyed.head_of_lookup {key : String} (hm : m.Keyed) (h : m.lookup key = some e) :
    key.toList.head? = some '#' := by
  rw [hm.eq_of_lookup h, aggregateKey, String.toList_append]
  rfl

theorem callFor_of_not_column (h : e.column? = none) : m.callFor e = e := by
  cases e with
  | column n => simp [Expr.column?] at h
  | _ => rfl

theorem restore_column (hm : m.Keyed) {n : ColumnName} (h : n.column.toList.head? ≠ some '#') :
    m.restore (.column n) = .column n := by
  have hself : m.restore (.column n) = m.callFor (.column n) := Expr.mapNodes_eq _ _
  rw [hself]
  obtain ⟨_ | table, key⟩ := n
  · cases hlookup : m.lookup key with
    | none => rw [callFor, hlookup, Option.getD_none]
    | some call => exact absurd (hm.head_of_lookup hlookup) h
  · rfl

theorem restore_call (m : AggregateMap) (call : Expr) :
    m.restore (.column (.unqualified (aggregateKey call))) =
      (m.lookup (aggregateKey call)).getD (.column (.unqualified (aggregateKey call))) :=
  Expr.mapNodes_eq _ _

/-- An expression comes out again if and only if each of its calls is found under its name. -/
theorem restore_hideCalls_iff (hm : m.Keyed) (h : e.Flat)
    (hcolumns : ∀ n ∈ e.columns, n.column.toList.head? ≠ some '#') :
    m.restore e.hideCalls = e ↔ ∀ call ∈ e.calls, m.lookup (aggregateKey call) = some call := by
  induction e using Expr.children_induction with
  | step e ih =>
    cases he : e.isAggregate with
    | true =>
      have hcall : e ∈ e.calls := by
        rw [Expr.calls_of_isAggregate he]
        exact List.mem_singleton_self e
      rw [Expr.hideCalls_call he (h e hcall), restore_call, Expr.calls_of_isAggregate he,
        List.forall_mem_singleton]
      cases m.lookup (aggregateKey e) with
      | none =>
        have hne : Expr.column (.unqualified (aggregateKey e)) ≠ e := by
          intro heq
          rw [← heq] at he
          exact absurd he Bool.false_ne_true
        simpa using hne
      | some call => simp
    | false =>
      rw [Expr.calls_eq he]
      cases hcolumn : e.column? with
      | some n =>
        have heq := Expr.column?_eq_some.1 hcolumn
        rw [heq] at hcolumns ⊢
        have hrestore := restore_column hm (hcolumns n (List.mem_singleton_self n))
        exact iff_of_true hrestore fun _ hcall => absurd hcall List.not_mem_nil
      | none =>
        have hparts : m.restore e.hideCalls = e.mapParts (m.restore ∘ Expr.hideCalls) := by
          have hself : m.restore e.hideCalls = m.callFor (e.hideCalls.mapParts m.restore) :=
            Expr.mapNodes_eq _ _
          rw [hself, Expr.hideCalls_eq he, Expr.mapParts_mapParts,
            callFor_of_not_column ((Expr.column?_mapParts _ e).trans hcolumn)]
        rw [hparts, Expr.mapParts_eq_self_iff]
        have hchild : ∀ c ∈ e.children, ((m.restore ∘ Expr.hideCalls) c = c ↔
            ∀ call ∈ c.calls, m.lookup (aggregateKey call) = some call) := by
          intro c hc
          refine ih c hc (h.of_mem_children he hc) fun n hn => hcolumns n ?_
          rw [Expr.columns_eq hcolumn]
          exact List.mem_flatMap.2 ⟨c, hc, hn⟩
        constructor
        · intro hall call hcall
          obtain ⟨c, hc, hcall⟩ := List.mem_flatMap.1 hcall
          exact (hchild c hc).1 (hall c hc) call hcall
        · intro hall c hc
          exact (hchild c hc).2 fun call hcall => hall call (List.mem_flatMap.2 ⟨c, hc, hcall⟩)

theorem mem_calls : e ∈ m.calls ↔ ∃ k, (k, e) ∈ m := by
  simp [AggregateMap.calls]

/-- After they were filed, calls are found under their names if and only if none of them is written
like a different one. -/
theorem lookup_file_iff (hm : m.Sorted) (hkeyed : m.Keyed) :
    (∀ call ∈ calls, (m.file calls).lookup (aggregateKey call) = some call) ↔
      ∀ call ∈ calls, ∀ f ∈ m.calls ++ calls, f.display = call.display → f = call := by
  constructor
  · intro hfound call hcall f hf hdisplay
    have hkey : aggregateKey f = aggregateKey call := aggregateKey_inj.2 hdisplay
    have hsame : (m.file calls).lookup (aggregateKey call) = some f := by
      rcases List.mem_append.1 hf with hf | hf
      · obtain ⟨k, hk⟩ := mem_calls.1 hf
        have hlookup := hm.lookup_of_mem hk
        have hname : k = aggregateKey f := hkeyed (k, f) hk
        rw [hname, hkey] at hlookup
        rw [lookup_file hm, hlookup, Option.some_or]
      · rw [← hkey]
        exact hfound f hf
    exact Option.some.inj (hsame.symm.trans (hfound call hcall))
  · intro hsame call hcall
    rw [lookup_file hm]
    cases hlookup : m.lookup (aggregateKey call) with
    | some f =>
      have hf : f ∈ m.calls := mem_calls.2 ⟨_, mem_of_lookup hlookup⟩
      have hdisplay := aggregateKey_inj.1 (hkeyed.eq_of_lookup hlookup)
      rw [Option.some_or, hsame call hcall f (List.mem_append_left calls hf) hdisplay.symm]
    | none =>
      rw [Option.none_or]
      cases hfind : calls.find? fun f => aggregateKey call = aggregateKey f with
      | none => exact absurd (List.find?_eq_none.1 hfind call hcall) (by simp)
      | some f =>
        have hf := List.mem_append_right m.calls (List.mem_of_find?_eq_some hfind)
        have hkey : aggregateKey call = aggregateKey f := by simpa using List.find?_some hfind
        rw [hsame call hcall f hf (aggregateKey_inj.1 hkey).symm]

end AggregateMap

namespace AggregateCollector

open AggregateMap

variable {e : Expr}

/-- Replacing the aggregate calls of an expression, behind any others, succeeds and leaves none of
them; every new column has its call, and no earlier call is touched. When the calls are put back,
the expression comes out if and only if none of its calls is written like a different one, be that
of the expression itself or from earlier on. -/
theorem replace_restores {c : AggregateCollector} (hc : c.Collected)
    (hcolumns : ∀ n ∈ e.columns, n.column.toList.head? ≠ some '#') (hflat : e.Flat) :
    ∃ r c', c.replace e = (.ok r, c') ∧ r.containsAggregate = false ∧
      (∀ n ∈ r.columns, n ∈ e.columns ∨
        ∃ key call, n = .unqualified key ∧ c'.collected.lookup key = some call) ∧
      (∀ key call, c.collected.lookup key = some call → c'.collected.lookup key = some call) ∧
      (c'.collected.restore r = e ↔ ∀ call ∈ e.calls, ∀ f ∈ c.collected.calls ++ e.calls,
        f.display = call.display → f = call) := by
  have hfiled := hc.filed
  have hkeyed := hfiled.keyed.file e.calls
  refine ⟨_, _, replace_eq hfiled.allowed hflat, Expr.containsAggregate_hideCalls hflat, ?_, ?_, ?_⟩
  · intro n hn
    rcases Expr.columns_hideCalls hflat hn with hn | ⟨call, hcall, rfl⟩
    · exact .inl hn
    · obtain ⟨f, hf⟩ := lookup_file_isSome hfiled.sorted hcall
      exact .inr ⟨_, f, rfl, hf⟩
  · intro key call hcall
    rw [lookup_file hfiled.sorted, hcall, Option.some_or]
  · rw [restore_hideCalls_iff hkeyed hflat hcolumns, lookup_file_iff hfiled.sorted hfiled.keyed]

/-- A sum that was collected before is found again in `SUM(a) + COUNT(*)`. -/
theorem replace_restores_sum :
    let sum : Expr := .aggregate .sum false (.column (.unqualified "a"))
    let both : Expr := .arith .add sum (.aggregateAll .count false)
    ∃ r c', (empty.replace sum).2.replace both = (.ok r, c') ∧ c'.collected.restore r = both := by
  intro sum both
  have hcollected : Collected (empty.replace sum).2 :=
    .replace (r := .column (.unqualified "#SUM(a)")) .empty rfl
  have hcalls : both.calls = [sum, .aggregateAll .count false] := rfl
  have hearlier : (empty.replace sum).2.collected.calls = [sum] := rfl
  have hflat : both.Flat := by
    rw [Expr.Flat, hcalls]
    simp [sum, Expr.children, Expr.containsAggregate, Expr.any, Expr.isAggregate]
  obtain ⟨r, c', hreplace, -, -, -, hrestore⟩ := replace_restores hcollected (by decide) hflat
  refine ⟨r, c', hreplace, hrestore.2 ?_⟩
  rw [hcalls, hearlier]
  simp [show sum.display = "SUM(a)" by decide,
    show (Expr.aggregateAll .count false).display = "COUNT(*)" by decide]

end AggregateCollector

end RelQuery
