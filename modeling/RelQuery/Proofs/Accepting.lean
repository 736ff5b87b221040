import RelQuery.Proofs.GroupKeys
import RelQuery.Proofs.Plain

namespace RelQuery

namespace Expr

variable {e x : Expr}

/-- Some aggregate call stands in the argument of another. -/
def Nested (e : Expr) : Prop :=
  ∃ call : Expr, call.Within e ∧ call.isAggregate = true ∧
    ∃ a ∈ call.children, a.containsAggregate = true

theorem isAggregate_of_within (h : x.Within e) (he : e.containsAggregate = false) :
    x.isAggregate = false :=
  (containsAggregate_eq_false.1 (h.any_eq_false he)).1

theorem isAggregate_of_mem_calls (h : x ∈ e.calls) : x.isAggregate = true := by
  induction e using children_induction with
  | step e ih =>
    cases he : e.isAggregate with
    | true =>
      rw [calls_of_isAggregate he] at h
      exact List.mem_singleton.1 h ▸ he
    | false =>
      rw [calls_eq he] at h
      obtain ⟨c, hc, h⟩ := List.mem_flatMap.1 h
      exact ih c hc h

/-- A node is flat when its parts are, or when it is a call of which no part holds another. -/
theorem Flat.of_children (he : e.isAggregate = false) (h : ∀ c ∈ e.children, c.Flat) : e.Flat := by
  intro call hcall
  rw [calls_eq he] at hcall
  obtain ⟨c, hc, hcall⟩ := List.mem_flatMap.1 hcall
  exact h c hc call hcall

theorem Flat.of_call (he : e.isAggregate = true)
    (h : ∀ c ∈ e.children, c.containsAggregate = false) : e.Flat := by
  intro call hcall
  rw [calls_of_isAggregate he] at hcall
  exact List.mem_singleton.1 hcall ▸ h

/-- In a flat expression no call stands in the argument of another, however deep. -/
theorem Flat.not_nested (h : e.Flat) : ¬ e.Nested := by
  rintro ⟨call, hwithin, hcall, a, ha, hcontains⟩
  induction hwithin with
  | self =>
    have hmem : call ∈ call.calls := by
      rw [calls_of_isAggregate hcall]
      exact List.mem_singleton_self call
    have hplain := h call hmem a ha
    exact absurd hcontains (by simp [hplain])
  | @part c e hc hwithin ih =>
    cases he : e.isAggregate with
    | false => exact ih (h.of_mem_children he hc)
    | true =>
      have hplain := h e (by rw [calls_of_isAggregate he]; exact List.mem_singleton_self e) c hc
      exact absurd hcall (by simp [isAggregate_of_within hwithin hplain])

theorem containsAggregate_mapNodes {f : Expr → Expr} (hf : ∀ x, f x = x ∨ ∃ n, f x = .column n)
    (h : e.containsAggregate = false) : (e.mapNodes f).containsAggregate = false := by
  induction e using children_induction with
  | step e ih =>
    rw [containsAggregate_eq_false] at h
    have hparts : (e.mapParts (mapNodes f)).containsAggregate = false := by
      rw [containsAggregate_eq_false, isAggregate_mapParts, children_mapParts]
      exact ⟨h.1, List.forall_mem_map.2 fun c hc => ih c hc (h.2 c hc)⟩
    rw [mapNodes_eq]
    rcases hf (e.mapParts (mapNodes f)) with heq | ⟨n, heq⟩
    · rw [heq]
      exact hparts
    · rw [heq]
      rfl

end Expr

theorem containsAggregate_replaceGrouped {e : Expr} (groupBy : List Expr)
    (h : e.containsAggregate = false) : (replaceGrouped groupBy e).containsAggregate = false := by
  refine Expr.containsAggregate_mapNodes (fun x => ?_) h
  split
  · exact .inr ⟨_, rfl⟩
  · exact .inl rfl

namespace AggregateMap

variable {m : AggregateMap} {calls : List Expr} {call : Expr}

theorem mem_of_mem_file {x : String × Expr} (h : x ∈ m.file calls) : x ∈ m ∨ x.2 ∈ calls := by
  induction calls generalizing m with
  | nil => exact .inl h
  | cons call calls ih =>
    rcases ih (m := m.insertNew (aggregateKey call) call) h with h | h
    · rcases mem_of_mem_insertNew h with rfl | h
      · exact .inr List.mem_cons_self
      · exact .inl h
    · exact .inr (List.mem_cons_of_mem call h)

theorem mem_calls_of_file (h : call ∈ AggregateMap.calls (file [] calls)) : call ∈ calls := by
  obtain ⟨x, hx, rfl⟩ := List.mem_map.1 h
  exact (mem_of_mem_file hx).resolve_left List.not_mem_nil

end AggregateMap

namespace AggregateCollector

open AggregateMap

variable {α β : Type} {c c' : AggregateCollector} {x : Collecting α} {f : α → Collecting β}
  {I : AggregateCollector → Prop} {P Q : Prop} {e r : Expr} {es rs : List Expr}

/-- Every call is refused: the clause may hold none, or this is the argument of a call. -/
def Refusing (c : AggregateCollector) : Prop := c.disallowedIn.isSome = true ∨ 0 < c.depth

/-- Calls may come, and this is the argument of none. -/
def Outside (c : AggregateCollector) : Prop := c.disallowedIn = none ∧ c.depth = 0

/-- When a computation succeeds, it has kept an invariant of the collector and something is
known. -/
def Tells (I : AggregateCollector → Prop) (x : Collecting α) (P : Prop) : Prop :=
  ∀ ⦃c a c'⦄, I c → x.run.run c = (.ok a, c') → I c' ∧ P

theorem run_bind_ok {b : β} : (x >>= f).run.run c = (.ok b, c') ↔
    ∃ a c₁, x.run.run c = (.ok a, c₁) ∧ (f a).run.run c₁ = (.ok b, c') := by
  rw [ExceptT.run_bind, StateT.run_bind]
  rcases hrun : x.run.run c with ⟨e | a, c₁⟩
  · refine ⟨fun h => ?_, fun ⟨_, _, h, _⟩ => ?_⟩
    · exact absurd (Prod.mk.inj h).1 (by simp)
    · exact absurd (Prod.mk.inj h).1 (by simp)
  · refine ⟨fun h => ⟨a, c₁, rfl, h⟩, fun ⟨_, _, h, hf⟩ => ?_⟩
    obtain ⟨ha, rfl⟩ := Prod.mk.inj h
    obtain rfl := Except.ok.inj ha
    exact hf

theorem tells_pure (a : α) : Tells I (pure a) True := by
  intro c b c' hc h
  obtain ⟨-, rfl⟩ := Prod.mk.inj h
  exact ⟨hc, trivial⟩

theorem Tells.bind (hx : Tells I x P) (hf : ∀ a, Tells I (f a) Q) : Tells I (x >>= f) (P ∧ Q) := by
  intro c b c' hc h
  obtain ⟨a, c₁, hrun, h⟩ := run_bind_ok.1 h
  obtain ⟨hc₁, hP⟩ := hx hc hrun
  obtain ⟨hc', hQ⟩ := hf a hc₁ h
  exact ⟨hc', hP, hQ⟩

theorem Tells.imp (hx : Tells I x P) (h : P → Q) : Tells I x Q :=
  fun _ _ _ hc hrun => (hx hc hrun).imp_right h

theorem tells_mapM {g : Expr → Collecting Expr} {R : Expr → Prop}
    (h : ∀ e ∈ es, Tells I (g e) (R e)) : Tells I (es.mapM g) (∀ e ∈ es, R e) := by
  induction es with
  | nil => exact (tells_pure []).imp fun _ e he => absurd he List.not_mem_nil
  | cons e es ih =>
    rw [List.mapM_cons]
    have htail := ih fun e' he' => h e' (List.mem_cons_of_mem e he')
    refine Tells.imp ((h e List.mem_cons_self).bind fun _ => htail.bind fun _ => tells_pure _) ?_
    exact fun h => List.forall_mem_cons.2 ⟨h.1, h.2.1⟩

theorem tells_mapChildren {g : Expr → Collecting Expr} {R : Expr → Prop}
    (h : ∀ c ∈ e.children, Tells I (g c) (R c)) :
    Tells I (e.mapChildren g) (∀ c ∈ e.children, R c) := by
  rw [Expr.mapChildren_eq]
  exact ((tells_mapM h).bind fun _ => tells_pure _).imp And.left

theorem enter_refused (hc : c.Refusing) (he : e.isAggregate = true) :
    (enter e).run.run c = (.error (c.refusal e), c) := by
  rw [run_enter c he, if_neg]
  rintro ⟨hallowed, hdepth⟩
  rcases hc with hc | hc
  · simp [hallowed] at hc
  · omega

theorem enter_refusing (hc : c.Refusing) (h : (enter e).run.run c = (.ok (), c')) :
    e.isAggregate = false ∧ c' = c := by
  cases he : e.isAggregate with
  | false =>
    rw [enter_plain he] at h
    exact ⟨rfl, (Prod.mk.inj h).2.symm⟩
  | true =>
    rw [enter_refused hc he] at h
    exact absurd (Prod.mk.inj h).1 (by simp)

theorem enter_outside (hc : c.Outside) (he : e.isAggregate = true) :
    (enter e).run.run c = (.ok (), { c with depth := c.depth + 1 }) := by
  rw [run_enter c he]
  exact if_pos hc

theorem refusing_within (c : AggregateCollector) : Refusing { c with depth := c.depth + 1 } :=
  .inr (Nat.succ_pos c.depth)

/-- Where calls are refused, only expressions without calls come through. -/
theorem tells_plain (e : Expr) :
    Tells Refusing (e.traverse enter leave) (e.containsAggregate = false) := by
  induction e using Expr.children_induction with
  | step e ih =>
    intro c a c' hc h
    have hplain : e.containsAggregate = false := by
      rw [Expr.traverse_eq] at h
      obtain ⟨_, c₁, henter, h⟩ := run_bind_ok.1 h
      obtain ⟨_, c₂, hchildren, -⟩ := run_bind_ok.1 h
      obtain ⟨he, rfl⟩ := enter_refusing hc henter
      exact Expr.containsAggregate_eq_false.2 ⟨he, (tells_mapChildren ih hc hchildren).2⟩
    rw [traverse_plain hplain] at h
    obtain ⟨-, rfl⟩ := Prod.mk.inj h
    exact ⟨hc, hplain⟩

/-- Elsewhere, only expressions in which no call contains another come through. -/
theorem tells_flat (e : Expr) : Tells Outside (e.traverse enter leave) e.Flat := by
  induction e using Expr.children_induction with
  | step e ih =>
    intro c a c' hc h
    have hflat : e.Flat := by
      rw [Expr.traverse_eq] at h
      obtain ⟨_, c₁, henter, h⟩ := run_bind_ok.1 h
      obtain ⟨_, c₂, hchildren, -⟩ := run_bind_ok.1 h
      cases he : e.isAggregate with
      | true =>
        rw [enter_outside hc he] at henter
        obtain ⟨-, rfl⟩ := Prod.mk.inj henter
        exact .of_call he
          (tells_mapChildren (fun c _ => tells_plain c) (refusing_within c) hchildren).2
      | false =>
        rw [enter_plain he] at henter
        obtain ⟨-, rfl⟩ := Prod.mk.inj henter
        exact .of_children he (tells_mapChildren ih hc hchildren).2
    obtain ⟨m, disallowed, depth⟩ := c
    obtain ⟨rfl, rfl⟩ : disallowed = none ∧ depth = 0 := hc
    have hcollects : Collects _ m _ _ := collects_traverse hflat m
    obtain ⟨-, rfl⟩ := Prod.mk.inj (h.symm.trans hcollects)
    exact ⟨⟨rfl, rfl⟩, hflat⟩

theorem check_eq_ok {clause : String} :
    check clause e = .ok r ↔ e.containsAggregate = false ∧ r = e := by
  constructor
  · intro h
    have hrefusing : (refusing clause).Refusing := .inl rfl
    have hplain := (tells_plain e hrefusing (Prod.ext h rfl)).2
    exact ⟨hplain, Except.ok.inj (h.symm.trans (check_plain hplain))⟩
  · rintro ⟨hplain, rfl⟩
    exact check_plain hplain

theorem replaceAll_ok (hc : c.disallowedIn = none) (h : c.replaceAll es = .ok (rs, c')) :
    (∀ e ∈ es, e.Flat) ∧ rs = es.map Expr.hideCalls ∧ c'.disallowedIn = none ∧
      c'.collected = c.collected.file (es.flatMap Expr.calls) := by
  induction es generalizing c rs with
  | nil =>
    obtain ⟨rfl, rfl⟩ := Prod.mk.inj (Except.ok.inj h)
    exact ⟨fun e he => absurd he List.not_mem_nil, rfl, hc, rfl⟩
  | cons e es ih =>
    rcases hreplace : c.replace e with ⟨result, c₁⟩
    simp only [replaceAll, hreplace] at h
    obtain ⟨r, hr, h⟩ := Except.bind_eq_ok.1 h
    obtain ⟨⟨rs', c₂⟩, hrest, h⟩ := Except.bind_eq_ok.1 h
    obtain ⟨rfl, rfl⟩ := Prod.mk.inj (Except.ok.inj h)
    rw [hr] at hreplace
    have houtside : Outside { c with depth := 0 } := ⟨hc, rfl⟩
    have hflat : e.Flat := (tells_flat e houtside hreplace).2
    rw [replace_eq hc hflat] at hreplace
    obtain ⟨hr, rfl⟩ := Prod.mk.inj hreplace
    obtain rfl := Except.ok.inj hr
    obtain ⟨hflats, rfl, hallowed, hcollected⟩ := ih rfl hrest
    refine ⟨List.forall_mem_cons.2 ⟨hflat, hflats⟩, rfl, hallowed, ?_⟩
    rw [hcollected, List.flatMap_cons, file_append]

end AggregateCollector

namespace Planning.Outputs

variable {o o' : Outputs} {e : Expr} {items : List SelectItem} {es : List Expr}

def exprs (o : Outputs) : List Expr :=
  itemExprs o.items ++ o.having.toList ++ o.orderBy.map OrderKey.expr

theorem mem_exprs : e ∈ o.exprs ↔
    e ∈ itemExprs o.items ∨ o.having = some e ∨ e ∈ o.orderBy.map OrderKey.expr := by
  rw [exprs, List.mem_append, List.mem_append, Option.mem_toList, or_assoc]

theorem mem_of_mem_setItems (hes : es.length = (itemExprs items).length)
    (h : e ∈ itemExprs (setItems items es)) : e ∈ es := by
  induction items generalizing es with
  | nil => exact absurd h List.not_mem_nil
  | cons item items ih =>
    cases item with
    | wildcard t =>
      have heq : setItems (.wildcard t :: items) es = .wildcard t :: setItems items es := by
        cases es <;> rfl
      rw [heq] at h
      exact ih hes h
    | expr e' a =>
      cases es with
      | nil => simp [itemExprs] at hes
      | cons f fs =>
        rcases List.mem_cons.1 h with rfl | h
        · exact List.mem_cons_self
        · exact List.mem_cons_of_mem f (ih (Nat.succ.inj hes) h)

/-- What is collected from comes through flat, no call is left in the outputs, and nothing but their
calls is filed. -/
theorem collect_ok {calls : AggregateMap} (h : o.collect = .ok (o', calls)) :
    (∀ e ∈ o.exprs, e.Flat) ∧ (∀ e ∈ o'.exprs, e.containsAggregate = false) ∧
      ∀ call ∈ calls.calls, ∃ e ∈ o.exprs, call ∈ e.calls := by
  obtain ⟨⟨items, c₁⟩, h₁, h⟩ := Except.bind_eq_ok.1 h
  obtain ⟨⟨having, c₂⟩, h₂, h⟩ := Except.bind_eq_ok.1 h
  obtain ⟨⟨keys, c₃⟩, h₃, h⟩ := Except.bind_eq_ok.1 h
  obtain ⟨rfl, rfl⟩ := Prod.mk.inj (Except.ok.inj h)
  obtain ⟨hitems, rfl, hc₁, hcalls₁⟩ := AggregateCollector.replaceAll_ok rfl h₁
  obtain ⟨hhaving, rfl, hc₂, hcalls₂⟩ := AggregateCollector.replaceAll_ok hc₁ h₂
  obtain ⟨horderBy, rfl, -, hcalls₃⟩ := AggregateCollector.replaceAll_ok hc₂ h₃
  have hflat : ∀ e ∈ o.exprs, e.Flat := by
    refine List.forall_mem_append.2 ⟨List.forall_mem_append.2 ⟨hitems, hhaving⟩, horderBy⟩
  have hhide : ∀ {es : List Expr} {e}, (∀ e ∈ es, e.Flat) → e ∈ es.map Expr.hideCalls →
      e.containsAggregate = false := by
    intro es e hes he
    obtain ⟨e', he', rfl⟩ := List.mem_map.1 he
    exact Expr.containsAggregate_hideCalls (hes e' he')
  refine ⟨hflat, fun e he => ?_, fun call hcall => ?_⟩
  · rcases mem_exprs.1 he with he | he | he
    · exact hhide hitems (mem_of_mem_setItems (List.length_map _) he)
    · exact hhide hhaving (List.mem_of_head? he)
    · rw [List.map_map, List.zipWith_map_right, List.zipWith_self, List.map_map] at he
      obtain ⟨k, hk, rfl⟩ := List.mem_map.1 he
      exact Expr.containsAggregate_hideCalls (horderBy _ (List.mem_map_of_mem hk))
  · rw [hcalls₃, hcalls₂, hcalls₁, ← AggregateMap.file_append, ← AggregateMap.file_append] at hcall
    have hcall := AggregateMap.mem_calls_of_file hcall
    rw [← List.flatMap_append, ← List.flatMap_append, ← List.append_assoc] at hcall
    exact List.mem_flatMap.1 hcall

theorem itemExprs_map (f : Expr → Expr) (items : List SelectItem) :
    itemExprs (items.map (.map f)) = (itemExprs items).map f := by
  induction items with
  | nil => rfl
  | cons item items ih =>
    cases item with
    | wildcard t => exact ih
    | expr e a => exact congrArg (f e :: ·) ih

theorem overGroups_plain (groupBy : List Expr) (h : ∀ e ∈ o.exprs, e.containsAggregate = false) :
    ∀ e ∈ (o.overGroups groupBy).exprs, e.containsAggregate = false := by
  have hmap : (o.overGroups groupBy).exprs = o.exprs.map (replaceGrouped groupBy) := by
    simp only [exprs, overGroups, itemExprs_map, List.map_append, List.map_map, Option.toList_map]
    rfl
  rw [hmap]
  exact List.forall_mem_map.2 fun e he => containsAggregate_replaceGrouped groupBy (h e he)

end Planning.Outputs

end RelQuery
