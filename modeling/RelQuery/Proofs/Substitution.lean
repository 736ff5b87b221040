import RelQuery.Proofs.Nodes
import RelQuery.Query.Reference

namespace RelQuery.Expr

variable {env env' : Environment} {f : Expr → Expr} {e : Expr} {es : List Expr}

theorem evalTerms_map (op : Connective) (sawNull : Bool)
    (h : ∀ c ∈ es, (f c).eval env' = c.eval env) :
    evalTerms env' op sawNull (es.map f) = evalTerms env op sawNull es := by
  induction es generalizing sawNull with
  | nil => rfl
  | cons e es ih =>
    have hrest := fun sawNull => ih sawNull fun c hc => h c (List.mem_cons_of_mem e hc)
    simp only [List.map_cons, evalTerms, h e List.mem_cons_self, hrest]

theorem evalAll_map (h : ∀ c ∈ es, (f c).eval env' = c.eval env) :
    evalAll env' (es.map f) = evalAll env es := by
  induction es with
  | nil => rfl
  | cons e es ih =>
    have hrest := ih fun c hc => h c (List.mem_cons_of_mem e hc)
    simp only [List.map_cons, evalAll, h e List.mem_cons_self, hrest]

theorem eval_mapParts (haggregate : e.isAggregate = false) (hcolumn : e.column? = none)
    (h : ∀ c ∈ e.children, (f c).eval env' = c.eval env) :
    (e.mapParts f).eval env' = e.eval env := by
  cases e with
  | literal => rfl
  | column n => simp [column?] at hcolumn
  | compare op l r | arith op l r =>
    simp only [mapParts, eval, h l (by simp [children]), h r (by simp [children])]
  | connect op es => exact evalTerms_map op false h
  | not e | negate e | isNull n e => simp only [mapParts, eval, h e (by simp [children])]
  | call g es =>
    have hargs : evalAll env' (es.map f) = evalAll env es := evalAll_map h
    rw [mapParts, eval, eval, hargs]
  | aggregate | aggregateAll => simp [isAggregate] at haggregate

theorem evalWith_eq {ρ : Meaning} (hplain : e.containsAggregate = false)
    (h : ∀ n ∈ e.columns, ∃ v, ρ n = .ok v ∧ env.lookup n = .ok v) :
    e.evalWith ρ = e.eval env := by
  induction e using children_induction with
  | step e ih =>
    rw [containsAggregate_eq_false] at hplain
    rw [evalWith, mapNodes_eq]
    cases hcolumn : e.column? with
    | some n =>
      rw [column?_eq_some.1 hcolumn] at h ⊢
      obtain ⟨v, hρ, hlookup⟩ := h n (List.mem_singleton_self n)
      simp only [mapParts, meant, hρ, eval, hlookup]
    | none =>
      have hmeant : meant ρ (e.mapParts (mapNodes (meant ρ))) =
          e.mapParts (mapNodes (meant ρ)) := by
        have hnone := (column?_mapParts (mapNodes (meant ρ)) e).trans hcolumn
        cases hparts : e.mapParts (mapNodes (meant ρ)) with
        | column n => simp [hparts, column?] at hnone
        | _ => rfl
      rw [hmeant]
      refine eval_mapParts hplain.1 hcolumn fun c hc => ih c hc (hplain.2 c hc) fun n hn => h n ?_
      rw [columns_eq hcolumn]
      exact List.mem_flatMap.2 ⟨c, hc, hn⟩

end RelQuery.Expr
