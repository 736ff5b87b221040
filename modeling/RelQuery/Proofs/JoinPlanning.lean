import RelQuery.Proofs.Collecting
import RelQuery.Proofs.JoinColumns
import RelQuery.Proofs.Layers

namespace RelQuery

namespace Planning

variable {db : Storage} {config : Config} {c cl cr : Cursor} {kind : JoinKind}
  {condition : JoinCondition} {ls rs : Schema} {predicate : Option Expr} {L R : List Row}
  {l r : Row}

/-- Under what a condition asks, its terms are its predicate and the shared names. -/
theorem joinTerms_eq (h : condition.Suits ls rs) :
    joinTerms ls rs condition = .ok (condition.predicate ls rs, condition.sharedNames ls rs) := by
  have hshared : ∀ names : List String, (∀ k ∈ names, (ls.columns.map Column.name).count k = 1) →
      (∀ k ∈ names, (rs.columns.map Column.name).count k = 1) → joinTerms.shared ls rs names =
        .ok (Expr.conjunction? (names.map (JoinCondition.equation ls rs)), names) := by
    intro names hl hr
    rw [joinTerms.shared, mapM_sharedPair hl hr]
    simp only [bind, Except.bind, List.map_map]
    rfl
  match condition with
  | .none => rfl
  | .on p =>
    rw [joinTerms, AggregateCollector.check_plain (h.plain p rfl)]
    rfl
  | .using names => exact hshared names h.shared_left h.shared_right
  | .natural => exact hshared _ h.shared_left h.shared_right

section Exchange

theorem resolves_comm (h : Join.Resolves predicate ls rs) : Join.Resolves predicate rs ls :=
  fun p hp x hx => by
    rw [Schema.resolves_concat_comm]
    exact h p hp x hx

theorem holds_comm {p : Expr} (h : ∀ x ∈ p.columns, (ls.concat rs).resolves x = true) (l r : Row) :
    p.holds (.pair rs r ls l) = p.holds (.pair ls l rs r) :=
  Expr.holds_congr fun x hx => Environment.lookup_pair_comm l r (h x hx)

theorem trueFor_comm (h : Join.Resolves predicate ls rs) (l r : Row) :
    Join.trueFor predicate rs ls r l = Join.trueFor predicate ls rs l r := by
  match predicate with
  | none => rfl
  | some p =>
    have heval : p.eval (.pair rs r ls l) = p.eval (.pair ls l rs r) :=
      Expr.eval_congr p fun x hx => Environment.lookup_pair_comm l r (h p rfl x hx)
    rw [Join.trueFor, Join.trueFor, heval]

end Exchange

section Joined

variable (hl : Cursor.prepared cl.plan config = .ok cl)
  (hr : Cursor.prepared cr.plan config = .ok cr)

include hl hr

theorem prepared_joinPlan (kind : JoinKind) (h : Join.Resolves predicate cl.schema cr.schema) :
    ∃ c, Cursor.prepared (joinPlan kind predicate cl.plan cr.plan) config = .ok c := by
  unfold joinPlan
  split
  · exact Cursor.prepared_join hr hl rfl (resolves_comm h)
  · next hkind => exact Cursor.prepared_join hl hr (by simp [Join.checkKind, hkind]) h

theorem joinPlan_prepared
    (h : Cursor.prepared (joinPlan kind predicate cl.plan cr.plan) config = .ok c) :
    Join.Resolves predicate cl.schema cr.schema ∧ c.schema = kind.joined cl.schema cr.schema := by
  unfold joinPlan at h
  split at h
  · next hkind =>
    obtain ⟨hresolves, hschema⟩ := Cursor.join_prepared hr hl h
    subst hkind
    exact ⟨resolves_comm hresolves, hschema⟩
  · exact Cursor.join_prepared hl hr h

/-- The plan of a join gives the rows of the reference join of its kind on its condition. -/
theorem gives_joinPlan (hsuits : condition.Suits cl.schema cr.schema)
    (h : Cursor.prepared (joinPlan kind (condition.predicate cl.schema cr.schema) cl.plan cr.plan)
      config = .ok c)
    (hL : cl.Gives db L) (hR : cr.Gives db R) (hlw : ∀ l ∈ L, l.length = cl.schema.width)
    (hrw : ∀ r ∈ R, r.length = cr.schema.width)
    (htotal : ∀ p, condition.predicate cl.schema cr.schema = some p → ∀ l ∈ L, ∀ r ∈ R,
      ∃ b, p.holds (.pair cl.schema l cr.schema r) = .ok b) :
    c.Gives db (kind.reference (condition.passes cl.schema cr.schema) (· ++ ·) cl.schema.width
      cr.schema.width L R) := by
  have hresolves := (joinPlan_prepared hl hr h).1
  have htables := hsuits.predicate_resolves.1 hresolves
  have htest : ∀ l ∈ L, ∀ r ∈ R, Join.trueFor (condition.predicate cl.schema cr.schema) cl.schema
      cr.schema l r = condition.passes cl.schema cr.schema l r := fun l hl r hr =>
    hsuits.trueFor_predicate htables (hlw l hl) (hrw r hr) fun p hp => htotal p hp l hl r hr
  unfold joinPlan at h
  split at h
  · next hkind =>
    subst hkind
    -- The inputs are exchanged, and the condition is looked at from the other side.
    have hgives := Cursor.gives_join hr hl h hR hL (fun p hp r hr l hl => by
      rw [holds_comm (hresolves p hp)]
      exact htotal p hp l hl r hr) hrw
    rw [Join.reference_congr fun r hr l hl => (trueFor_comm hresolves l r).trans (htest l hl r hr)]
      at hgives
    rw [← Join.reference_rightOuter]
    exact hgives
  · have hgives := Cursor.gives_join hl hr h hL hR htotal hlw
    rw [Join.reference_congr htest] at hgives
    exact hgives

end Joined

/-- What a join of plans consists of: the plan of the join itself and, where columns are shared, a
projection over it. -/
theorem join_eq_ok (h : condition.Suits cl.schema cr.schema) :
    join config cl cr kind condition = .ok c ↔
      ∃ cj, Cursor.prepared
          (joinPlan kind (condition.predicate cl.schema cr.schema) cl.plan cr.plan)
        config = .ok cj ∧
        if condition.sharedNames cl.schema cr.schema = [] then c = cj
        else ∃ items, sharedItems kind cl.schema cr.schema
          (condition.sharedNames cl.schema cr.schema) = .ok items ∧
            Cursor.prepared (.project items cj.plan) config = .ok c := by
  rw [join, joinTerms_eq h]
  simp only [bind, Except.bind]
  rcases hj : Cursor.prepared (joinPlan kind (condition.predicate cl.schema cr.schema) cl.plan
    cr.plan) config with e | cj
  · simp
  simp only [List.isEmpty_iff, Except.ok.injEq, exists_eq_left']
  split
  · simp [eq_comm]
  · rcases sharedItems kind cl.schema cr.schema (condition.sharedNames cl.schema cr.schema) with
      e | items
    · simp
    · simp [layer]

theorem length_of_mem_reference {test : Row → Row → Bool} {x : Row}
    (hlw : ∀ l ∈ L, l.length = ls.width) (hrw : ∀ r ∈ R, r.length = rs.width)
    (hx : x ∈ kind.reference test (· ++ ·) ls.width rs.width L R) :
    x.length = (kind.joined ls rs).width := by
  have hmem := Join.mem_reference hx
  unfold JoinKind.joined
  split at hmem
  · next hkind =>
    rw [if_pos hkind]
    exact hlw x hmem
  · next hkind =>
    obtain ⟨l, r, hl, hr, rfl⟩ := hmem
    have hll : l.length = ls.width := by
      obtain hl | rfl := hl
      · exact hlw l hl
      · exact List.length_replicate
    have hrl : r.length = rs.width := by
      obtain hr | rfl := hr
      · exact hrw r hr
      · exact List.length_replicate
    rw [if_neg hkind, List.length_append, hll, hrl]
    exact List.length_append.symm

section Main

variable (hl : Cursor.prepared cl.plan config = .ok cl)
  (hr : Cursor.prepared cr.plan config = .ok cr)
  (hsuits : condition.Suits cl.schema cr.schema)

include hl hr hsuits

theorem join_succeeds
    (h : kind.Nameable cl.schema cr.schema (condition.sharedNames cl.schema cr.schema)) :
    ∃ c, join config cl cr kind condition = .ok c := by
  obtain ⟨cj, hj⟩ := prepared_joinPlan hl hr kind (hsuits.predicate_resolves.2 h.shared)
  by_cases hnil : condition.sharedNames cl.schema cr.schema = []
  · exact ⟨cj, (join_eq_ok hsuits).2 ⟨cj, hj, by rw [if_pos hnil]⟩⟩
  · have hitems := sharedItems_eq kind hsuits.shared_left hsuits.shared_right
    have hresolve := resolveItems_shared hsuits hnil h hitems
    rw [← (joinPlan_prepared hl hr hj).2] at hresolve
    obtain ⟨c, hc⟩ := Cursor.prepared_project (Cursor.prepared_plan hj) hresolve
    exact ⟨c, (join_eq_ok hsuits).2 ⟨cj, hj, by rw [if_neg hnil]; exact ⟨_, hitems, hc⟩⟩⟩

theorem nameable_of_join (h : join config cl cr kind condition = .ok c) :
    kind.Nameable cl.schema cr.schema (condition.sharedNames cl.schema cr.schema) := by
  obtain ⟨cj, hj, hc⟩ := (join_eq_ok hsuits).1 h
  obtain ⟨hresolves, hschema⟩ := joinPlan_prepared hl hr hj
  refine ⟨hsuits.predicate_resolves.1 hresolves, fun hnil => ?_⟩
  rw [if_neg hnil] at hc
  obtain ⟨items, hitems, hc⟩ := hc
  obtain ⟨os, hos, -⟩ := Cursor.project_prepared (Cursor.prepared_plan hj) hc
  rw [hschema] at hos
  exact named_of_resolveItems hsuits hitems hos

theorem join_result (h : join config cl cr kind condition = .ok c) :
    c.schema = kind.columns cl.schema cr.schema (condition.sharedNames cl.schema cr.schema) ∧
      ∀ {db L R}, cl.Gives db L → cr.Gives db R → (∀ l ∈ L, l.length = cl.schema.width) →
        (∀ r ∈ R, r.length = cr.schema.width) →
        (∀ p, condition.predicate cl.schema cr.schema = some p → ∀ l ∈ L, ∀ r ∈ R,
          ∃ b, p.holds (.pair cl.schema l cr.schema r) = .ok b) →
        c.Gives db ((kind.reference (condition.passes cl.schema cr.schema) (· ++ ·) cl.schema.width
          cr.schema.width L R).map
            (kind.shape cl.schema cr.schema (condition.sharedNames cl.schema cr.schema))) := by
  have hnameable := nameable_of_join hl hr hsuits h
  obtain ⟨cj, hj, hc⟩ := (join_eq_ok hsuits).1 h
  have hschema := (joinPlan_prepared hl hr hj).2
  by_cases hnil : condition.sharedNames cl.schema cr.schema = []
  · rw [if_pos hnil] at hc
    subst hc
    rw [hnil, JoinKind.columns_nil]
    refine ⟨hschema, fun {db L R} hL hR hlw hrw htotal => ?_⟩
    have hgives := gives_joinPlan hl hr hsuits hj hL hR hlw hrw htotal
    -- Without shared columns there is no projection, and nothing for it to do.
    have hid : ∀ x ∈ kind.reference (condition.passes cl.schema cr.schema) (· ++ ·) cl.schema.width
        cr.schema.width L R, kind.shape cl.schema cr.schema [] x = id x := fun x hx =>
      JoinKind.shape_nil (length_of_mem_reference hlw hrw hx)
    rw [List.map_congr_left hid, List.map_id]
    exact hgives
  · rw [if_neg hnil] at hc
    obtain ⟨items, hitems, hc⟩ := hc
    obtain ⟨os, hos, hcolumns, hproject⟩ := Cursor.project_prepared (Cursor.prepared_plan hj) hc
    rw [hschema] at hos hproject
    rw [resolveItems_shared hsuits hnil hnameable hitems] at hos
    obtain rfl := Except.ok.inj hos
    refine ⟨hcolumns.trans (columns_outputs ..), fun {db L R} hL hR hlw hrw htotal => ?_⟩
    exact hproject (gives_joinPlan hl hr hsuits hj hL hR hlw hrw htotal) fun x hx =>
      outputRow_shared hsuits kind hnameable.shared (length_of_mem_reference hlw hrw hx)

end Main

end Planning

end RelQuery
