import RelQuery.Grouping.Collector
import RelQuery.Proofs.Nodes

namespace RelQuery

namespace AggregateMap

variable {m : AggregateMap} {key k : String} {call e : Expr} {calls : List Expr}

/-- The names of the calls are in their order, none of them twice. -/
def Sorted (m : AggregateMap) : Prop := m.Pairwise fun a b => compare a.1 b.1 = .lt

/-- Every call is filed under its own name. -/
def Keyed (m : AggregateMap) : Prop := ∀ x ∈ m, x.1 = aggregateKey x.2

theorem mem_of_mem_insertNew {x : String × Expr} (h : x ∈ m.insertNew key call) :
    x = (key, call) ∨ x ∈ m := by
  induction m with
  | nil => exact .inl (List.mem_singleton.1 h)
  | cons y m ih =>
    rw [insertNew] at h
    split at h
    · exact List.mem_cons.1 h
    · exact .inr h
    · rcases List.mem_cons.1 h with rfl | h
      · exact .inr List.mem_cons_self
      · exact (ih h).imp_right (List.mem_cons_of_mem y)

theorem Sorted.insertNew (hm : m.Sorted) : (m.insertNew key call).Sorted := by
  induction m with
  | nil => exact List.pairwise_singleton _ _
  | cons y m ih =>
    obtain ⟨hlt, hsorted⟩ := List.pairwise_cons.1 hm
    rw [AggregateMap.insertNew]
    split
    · next hkey =>
      refine List.pairwise_cons.2 ⟨fun x hx => ?_, hm⟩
      rcases List.mem_cons.1 hx with rfl | hx
      · exact hkey
      · exact Std.TransCmp.lt_trans hkey (hlt x hx)
    · exact hm
    · next hkey =>
      refine List.pairwise_cons.2 ⟨fun x hx => ?_, ih hsorted⟩
      rcases mem_of_mem_insertNew hx with rfl | hx
      · exact Std.OrientedCmp.gt_iff_lt.1 hkey
      · exact hlt x hx

theorem lookup_eq_none (h : ∀ x ∈ m, compare k x.1 = .lt) : m.lookup k = none := by
  apply List.lookup_eq_none_iff.2
  intro x hx
  apply bne_iff_ne.2
  rintro rfl
  exact absurd (h x hx) (by simp)

theorem lookup_cons (x : String × Expr) (m : AggregateMap) (k : String) :
    List.lookup k (x :: m) = if k = x.1 then some x.2 else m.lookup k := by
  rw [List.lookup_cons]
  by_cases hk : k = x.1
  · rw [if_pos hk, hk, beq_self_eq_true]
  · rw [if_neg hk, beq_false_of_ne hk]

theorem lookup_insertNew (hm : m.Sorted) (key : String) (call : Expr) (k : String) :
    (m.insertNew key call).lookup k = (m.lookup k).or (if k = key then some call else none) := by
  induction m with
  | nil => exact (lookup_cons (key, call) [] k).trans (Option.none_or).symm
  | cons y m ih =>
    obtain ⟨hlt, hsorted⟩ := List.pairwise_cons.1 hm
    rw [insertNew]
    split
    · next hkey =>
      have hnone : List.lookup key (y :: m) = none := by
        apply lookup_eq_none
        intro x hx
        rcases List.mem_cons.1 hx with rfl | hx
        · exact hkey
        · exact Std.TransCmp.lt_trans hkey (hlt x hx)
      rw [lookup_cons]
      by_cases hk : k = key
      · rw [if_pos hk, if_pos hk, hk, hnone, Option.none_or]
      · rw [if_neg hk, if_neg hk, Option.or_none]
    · next hkey =>
      have heq : key = y.1 := Std.compare_eq_iff_eq.1 hkey
      rw [lookup_cons]
      by_cases hk : k = y.1
      · rw [if_pos hk, Option.some_or]
      · rw [if_neg hk, if_neg (heq ▸ hk), Option.or_none]
    · rw [lookup_cons, lookup_cons, ih hsorted]
      by_cases hk : k = y.1
      · rw [if_pos hk, if_pos hk, Option.some_or]
      · rw [if_neg hk, if_neg hk]

/-- Files calls under their names, one after the other. -/
def file (m : AggregateMap) (calls : List Expr) : AggregateMap :=
  calls.foldl (fun m call => m.insertNew (aggregateKey call) call) m

theorem Sorted.file (hm : m.Sorted) (calls : List Expr) : (m.file calls).Sorted := by
  induction calls generalizing m with
  | nil => exact hm
  | cons call calls ih => exact ih hm.insertNew

theorem lookup_file (hm : m.Sorted) (calls : List Expr) (k : String) :
    (m.file calls).lookup k = (m.lookup k).or (calls.find? fun call => k = aggregateKey call) := by
  induction calls generalizing m with
  | nil => exact (Option.or_none).symm
  | cons call calls ih =>
    have hstep : m.file (call :: calls) = (m.insertNew (aggregateKey call) call).file calls := rfl
    rw [hstep, ih hm.insertNew, lookup_insertNew hm, Option.or_assoc]
    by_cases hk : k = aggregateKey call
    · rw [if_pos hk, List.find?_cons_of_pos (by simpa using hk), Option.some_or]
    · rw [if_neg hk, List.find?_cons_of_neg (by simpa using hk), Option.none_or]

theorem lookup_file_isSome (hm : m.Sorted) (h : call ∈ calls) :
    ∃ f, (m.file calls).lookup (aggregateKey call) = some f := by
  rw [← Option.isSome_iff_exists, lookup_file hm, Option.isSome_or, Bool.or_eq_true]
  exact .inr (List.find?_isSome.2 ⟨call, h, by simp⟩)

theorem file_append (m : AggregateMap) (calls others : List Expr) :
    m.file (calls ++ others) = (m.file calls).file others := List.foldl_append

theorem mem_of_lookup (h : m.lookup k = some e) : (k, e) ∈ m := by
  obtain ⟨before, behind, rfl, -⟩ := List.lookup_eq_some_iff.1 h
  exact List.mem_append_right before List.mem_cons_self

theorem Sorted.lookup_of_mem (hm : m.Sorted) (h : (k, e) ∈ m) : m.lookup k = some e := by
  obtain ⟨before, behind, rfl⟩ := List.append_of_mem h
  obtain ⟨-, -, hacross⟩ := List.pairwise_append.1 hm
  refine List.lookup_eq_some_iff.2 ⟨before, behind, rfl, fun x hx => bne_iff_ne.2 ?_⟩
  rintro rfl
  exact absurd (hacross x hx (x.1, e) List.mem_cons_self) (by simp)

theorem Keyed.insertNew (hm : m.Keyed) (call : Expr) :
    (m.insertNew (aggregateKey call) call).Keyed := by
  intro x hx
  rcases mem_of_mem_insertNew hx with rfl | hx
  · rfl
  · exact hm x hx

theorem Keyed.file (hm : m.Keyed) (calls : List Expr) : (m.file calls).Keyed := by
  induction calls generalizing m with
  | nil => exact hm
  | cons call calls ih => exact ih (hm.insertNew call)

theorem Keyed.eq_of_lookup (hm : m.Keyed) (h : m.lookup k = some e) : k = aggregateKey e :=
  hm (k, e) (mem_of_lookup h)

theorem aggregateKey_inj {call other : Expr} :
    aggregateKey call = aggregateKey other ↔ call.display = other.display :=
  String.append_right_inj "#"

end AggregateMap

namespace Expr

variable {e : Expr}

mutual
/-- The outermost aggregate calls, from left to right. -/
def calls : Expr → List Expr
  | literal _ | column _ => []
  | compare _ l r | arith _ l r => calls l ++ calls r
  | connect _ es | call _ es => callsOf es
  | not e | negate e | isNull _ e => calls e
  | aggregate f distinct e => [aggregate f distinct e]
  | aggregateAll f distinct => [aggregateAll f distinct]

def callsOf : List Expr → List Expr
  | [] => []
  | e :: es => calls e ++ callsOf es
end

/-- No aggregate call contains another. -/
def Flat (e : Expr) : Prop := ∀ call ∈ e.calls, ∀ c ∈ call.children, c.containsAggregate = false

/-- The expression with a column in the place of each aggregate call. -/
def hideCalls (e : Expr) : Expr :=
  e.mapNodes fun x => if x.isAggregate then .column (.unqualified (aggregateKey x)) else x

theorem callsOf_eq (es : List Expr) : callsOf es = es.flatMap calls := by
  induction es with
  | nil => rfl
  | cons e es ih => rw [callsOf, List.flatMap_cons, ih]

theorem calls_eq (h : e.isAggregate = false) : e.calls = e.children.flatMap calls := by
  cases e <;> simp_all [calls, children, callsOf_eq, isAggregate]

theorem calls_of_isAggregate (h : e.isAggregate = true) : e.calls = [e] := by
  cases e <;> simp_all [calls, isAggregate]

theorem Flat.of_mem_children (h : e.Flat) (he : e.isAggregate = false) {c : Expr}
    (hc : c ∈ e.children) : c.Flat := by
  intro call hcall
  apply h call
  rw [calls_eq he]
  exact List.mem_flatMap.2 ⟨c, hc, hcall⟩

theorem hideCalls_eq (h : e.isAggregate = false) : e.hideCalls = e.mapParts hideCalls := by
  have hparts : e.hideCalls = _ := mapNodes_eq _ e
  rw [hparts, isAggregate_mapParts, h]
  rfl

theorem hideCalls_plain (h : e.containsAggregate = false) : e.hideCalls = e := by
  induction e using children_induction with
  | step e ih =>
    rw [containsAggregate_eq_false] at h
    rw [hideCalls_eq h.1, mapParts_eq_self_iff]
    intro c hc
    exact ih c hc (h.2 c hc)

theorem hideCalls_call (h : e.isAggregate = true)
    (hplain : ∀ c ∈ e.children, c.containsAggregate = false) :
    e.hideCalls = .column (.unqualified (aggregateKey e)) := by
  have hsame : e.mapParts hideCalls = e :=
    mapParts_eq_self_iff.2 fun c hc => hideCalls_plain (hplain c hc)
  have hparts : e.hideCalls = _ := mapNodes_eq _ e
  rw [hparts, show e.mapParts (mapNodes _) = e from hsame, if_pos h]

theorem containsAggregate_hideCalls (h : e.Flat) : e.hideCalls.containsAggregate = false := by
  induction e using children_induction with
  | step e ih =>
    cases he : e.isAggregate with
    | true =>
      have hplain := h e (by rw [calls_of_isAggregate he]; exact List.mem_singleton_self e)
      rw [hideCalls_call he hplain]
      rfl
    | false =>
      rw [hideCalls_eq he, containsAggregate_eq, isAggregate_mapParts, he, children_mapParts,
        List.any_map, Bool.false_or, List.any_eq_false]
      intro c hc
      simpa using ih c hc (h.of_mem_children he hc)

theorem columns_hideCalls (h : e.Flat) {n : ColumnName} (hn : n ∈ e.hideCalls.columns) :
    n ∈ e.columns ∨ ∃ call ∈ e.calls, n = .unqualified (aggregateKey call) := by
  induction e using children_induction with
  | step e ih =>
    cases he : e.isAggregate with
    | true =>
      have hcall : e ∈ e.calls := by
        rw [calls_of_isAggregate he]
        exact List.mem_singleton_self e
      rw [hideCalls_call he (h e hcall)] at hn
      exact .inr ⟨e, hcall, List.mem_singleton.1 hn⟩
    | false =>
      rw [hideCalls_eq he] at hn
      cases hcolumn : e.column? with
      | some k =>
        rw [column?_eq_some.1 hcolumn] at hn ⊢
        exact .inl hn
      | none =>
        rw [columns_eq ((column?_mapParts _ e).trans hcolumn), children_mapParts,
          List.flatMap_map] at hn
        obtain ⟨c, hc, hn⟩ := List.mem_flatMap.1 hn
        rw [columns_eq hcolumn, calls_eq he]
        rcases ih c hc (h.of_mem_children he hc) hn with hn | ⟨call, hcall, rfl⟩
        · exact .inl (List.mem_flatMap.2 ⟨c, hc, hn⟩)
        · exact .inr ⟨call, List.mem_flatMap.2 ⟨c, hc, hcall⟩, rfl⟩

end Expr

namespace AggregateCollector

open AggregateMap

variable {α β : Type} {x : Collecting α} {f : α → Collecting β} {m m' m'' : AggregateMap} {a : α}
  {b : β} {e : Expr}

/-- A computation succeeds outside of all calls, and files what it finds. -/
def Collects (x : Collecting α) (m m' : AggregateMap) (a : α) : Prop :=
  x.run.run ⟨m, none, 0⟩ = (.ok a, ⟨m', none, 0⟩)

theorem Collects.bind (hx : Collects x m m' a) (hf : Collects (f a) m' m'' b) :
    Collects (x >>= f) m m'' b := by
  unfold Collects at hx hf ⊢
  rw [ExceptT.run_bind, StateT.run_bind, hx]
  exact hf

theorem collects_pure (a : α) (m : AggregateMap) : Collects (pure a) m m a := rfl

theorem collects_mapM {f : Expr → Collecting Expr} {g : Expr → Expr} {es : List Expr}
    (h : ∀ c ∈ es, ∀ m, Collects (f c) m (m.file c.calls) (g c)) (m : AggregateMap) :
    Collects (es.mapM f) m (m.file (es.flatMap Expr.calls)) (es.map g) := by
  induction es generalizing m with
  | nil => exact collects_pure [] m
  | cons e es ih =>
    rw [List.mapM_cons, List.flatMap_cons, file_append]
    have hhead := h e List.mem_cons_self m
    have htail := ih (fun c hc => h c (List.mem_cons_of_mem e hc)) (m.file e.calls)
    exact hhead.bind (htail.bind (collects_pure _ _))

theorem collects_mapChildren {f : Expr → Collecting Expr} {g : Expr → Expr}
    (h : ∀ c ∈ e.children, ∀ m, Collects (f c) m (m.file c.calls) (g c)) (m : AggregateMap) :
    Collects (e.mapChildren f) m (m.file (e.children.flatMap Expr.calls)) (e.mapParts g) := by
  rw [Expr.mapChildren_eq, ← Expr.withParts_map]
  exact (collects_mapM h m).bind (collects_pure _ _)

theorem enter_plain (h : e.isAggregate = false) : enter e = pure () := by
  rw [enter, h]
  rfl

theorem leave_plain (h : e.isAggregate = false) : leave e = pure e := by
  rw [leave, h]
  rfl

def refusal (c : AggregateCollector) (call : Expr) : QueryError :=
  .illegalAggregate <|
    match c.disallowedIn with
    | some clause => .notAllowedIn clause call
    | none => .nested call

theorem run_enter (c : AggregateCollector) (he : e.isAggregate = true) : (enter e).run.run c =
    if c.disallowedIn = none ∧ c.depth = 0 then (.ok (), { c with depth := c.depth + 1 })
    else (.error (c.refusal e), c) := by
  obtain ⟨m, disallowed, depth⟩ := c
  rw [enter, he]
  cases disallowed with
  | some clause => rfl
  | none => cases depth <;> rfl

theorem traverse_plain (h : e.containsAggregate = false) :
    e.traverse enter leave = pure e := by
  induction e using Expr.children_induction with
  | step e ih =>
    rw [Expr.containsAggregate_eq_false] at h
    have hchildren : e.mapChildren (Expr.traverse enter leave) = pure (e.mapParts id) := by
      rw [← Expr.mapChildren_pure id]
      apply Expr.mapChildren_congr
      intro c hc
      exact ih c hc (h.2 c hc)
    rw [Expr.traverse_eq, enter_plain h.1, hchildren, Expr.mapParts_id, pure_bind, pure_bind,
      leave_plain h.1]

theorem check_plain {clause : String} (h : e.containsAggregate = false) :
    check clause e = .ok e := by
  rw [check, replace, traverse_plain h]
  rfl

/-- A call gives way to its column and is filed, unless its name is taken. -/
theorem collects_call (h : e.isAggregate = true)
    (hplain : ∀ c ∈ e.children, c.containsAggregate = false) (m : AggregateMap) :
    Collects (e.traverse enter leave) m (m.insertNew (aggregateKey e) e)
      (.column (.unqualified (aggregateKey e))) := by
  have hchildren : e.mapChildren (Expr.traverse enter leave) = pure (e.mapParts id) := by
    rw [← Expr.mapChildren_pure id]
    exact Expr.mapChildren_congr fun c hc => traverse_plain (hplain c hc)
  rw [Expr.traverse_eq, hchildren, Expr.mapParts_id, pure_bind, enter, leave, h]
  rfl

/-- The traversal files the outermost calls, each before those to the right of it. -/
theorem collects_traverse (h : e.Flat) (m : AggregateMap) :
    Collects (e.traverse enter leave) m (m.file e.calls) e.hideCalls := by
  induction e using Expr.children_induction generalizing m with
  | step e ih =>
    cases he : e.isAggregate with
    | true =>
      have hplain := h e (by rw [Expr.calls_of_isAggregate he]; exact List.mem_singleton_self e)
      rw [Expr.calls_of_isAggregate he, Expr.hideCalls_call he hplain]
      exact collects_call he hplain m
    | false =>
      rw [Expr.traverse_eq, enter_plain he, pure_bind, Expr.calls_eq he, Expr.hideCalls_eq he]
      have hchildren := collects_mapChildren (fun c hc => ih c hc (h.of_mem_children he hc)) m
      refine hchildren.bind ?_
      rw [leave_plain ((Expr.isAggregate_mapParts _ e).trans he)]
      exact collects_pure _ _

theorem replace_eq {c : AggregateCollector} (hc : c.disallowedIn = none) (h : e.Flat) :
    c.replace e = (.ok e.hideCalls, ⟨c.collected.file e.calls, none, 0⟩) := by
  have hcollects := collects_traverse h c.collected
  rw [replace, hc]
  exact hcollects

/-- What the earlier calls leave: aggregates are allowed, and the calls are filed under their
names. -/
structure Filed (c : AggregateCollector) : Prop where
  allowed : c.disallowedIn = none
  sorted : c.collected.Sorted
  keyed : c.collected.Keyed

/-- A computation leaves calls filed under their names, whether it succeeds or not. -/
def Keeps (x : Collecting α) : Prop := ∀ c : AggregateCollector, c.Filed → (x.run.run c).2.Filed

theorem keeps_pure (a : α) : Keeps (pure a) := fun _ hc => hc

theorem Keeps.bind (hx : Keeps x) (hf : ∀ a, Keeps (f a)) : Keeps (x >>= f) := by
  intro c hc
  have hfirst := hx c hc
  rw [ExceptT.run_bind, StateT.run_bind]
  rcases hrun : x.run.run c with ⟨e | a, c'⟩ <;> rw [hrun] at hfirst
  · exact hfirst
  · exact hf a c' hfirst

theorem keeps_mapM {f : Expr → Collecting Expr} {es : List Expr} (h : ∀ c ∈ es, Keeps (f c)) :
    Keeps (es.mapM f) := by
  induction es with
  | nil => exact keeps_pure []
  | cons e es ih =>
    rw [List.mapM_cons]
    have htail := ih fun c hc => h c (List.mem_cons_of_mem e hc)
    exact (h e List.mem_cons_self).bind fun _ => htail.bind fun _ => keeps_pure _

theorem keeps_mapChildren {f : Expr → Collecting Expr} (h : ∀ c ∈ e.children, Keeps (f c)) :
    Keeps (e.mapChildren f) := by
  rw [Expr.mapChildren_eq]
  exact (keeps_mapM h).bind fun _ => keeps_pure _

theorem keeps_enter (e : Expr) : Keeps (enter e) := by
  cases he : e.isAggregate with
  | false =>
    rw [enter_plain he]
    exact keeps_pure ()
  | true =>
    intro c hc
    rw [run_enter c he]
    split
    · exact ⟨hc.allowed, hc.sorted, hc.keyed⟩
    · exact hc

theorem keeps_leave (e : Expr) : Keeps (leave e) := by
  intro c hc
  unfold leave
  split
  · exact ⟨hc.allowed, hc.sorted.insertNew, hc.keyed.insertNew e⟩
  · exact hc

theorem keeps_traverse (e : Expr) : Keeps (e.traverse enter leave) := by
  induction e using Expr.children_induction with
  | step e ih =>
    rw [Expr.traverse_eq]
    exact (keeps_enter e).bind fun _ => (keeps_mapChildren ih).bind fun e => keeps_leave e

theorem Filed.replace {c : AggregateCollector} (hc : c.Filed) (e : Expr) : (c.replace e).2.Filed :=
  keeps_traverse e _ ⟨hc.allowed, hc.sorted, hc.keyed⟩

/-- The collectors that successful replacements lead to, with aggregates allowed. -/
inductive Collected : AggregateCollector → Prop
  | empty : Collected empty
  | replace {c : AggregateCollector} {e r : Expr} :
      Collected c → (c.replace e).1 = .ok r → Collected (c.replace e).2

theorem Collected.filed {c : AggregateCollector} (h : c.Collected) : c.Filed := by
  induction h with
  | empty => exact ⟨rfl, List.Pairwise.nil, fun x hx => absurd hx List.not_mem_nil⟩
  | replace _ _ ih => exact ih.replace _

end AggregateCollector

end RelQuery
