import RelQuery.Expr.Eval

namespace RelQuery

theorem Value.truth_ofTruth (t : Option Bool) : (ofTruth t).truth = .ok t := by
  rcases t with _ | b
  · rfl
  · rfl

namespace Expr

variable {env : Environment} {op : Connective} {e : Expr} {es fs : List Expr}

/-- How a connective goes on from the truth value of a term. -/
def goOn (env : Environment) (op : Connective) (sawNull : Bool) (es : List Expr) :
    Option Bool → Except EvalError Value
  | some b => if b = op.decisive then .ok (.bool b) else evalTerms env op sawNull es
  | none => evalTerms env op true es

theorem evalTerms_cons (sawNull : Bool) : evalTerms env op sawNull (e :: es) =
    ((e.eval env).bind Value.truth).bind (goOn env op sawNull es) := by
  rw [evalTerms]
  cases e.eval env with
  | error err => rfl
  | ok v =>
    cases v.truth with
    | error err => rfl
    | ok t => cases t <;> rfl

/-- The terms of an inner connective stand for it: what it answers, known or unknown, makes the
outer one go on as its terms would have. -/
theorem evalTerms_append (sawNull sawNull' : Bool) :
    ((evalTerms env op sawNull' es).bind Value.truth).bind (goOn env op sawNull fs) =
      evalTerms env op (sawNull || sawNull') (es ++ fs) := by
  -- by the inner terms: a decisive one ends both sides, an unknown one is remembered in the flag
  induction es generalizing sawNull' with
  | nil =>
    cases sawNull' with
    | false => cases op <;> simp [evalTerms, Except.bind, Value.truth, goOn, Connective.decisive]
    | true => simp [evalTerms, Except.bind, Value.truth, goOn]
  | cons e es ih =>
    rw [List.cons_append, evalTerms_cons, evalTerms_cons]
    cases (e.eval env).bind Value.truth with
    | error err => rfl
    | ok t =>
      rcases t with _ | b
      · simpa [Except.bind, goOn] using ih true
      · by_cases hb : b = op.decisive
        · simp [Except.bind, goOn, hb, Value.truth]
        · simpa [Except.bind, goOn, hb] using ih sawNull'

theorem evalTerms_flatten (sawNull : Bool) :
    evalTerms env op sawNull (connect op es :: fs) = evalTerms env op sawNull (es ++ fs) := by
  rw [evalTerms_cons, eval, evalTerms_append, Bool.or_false]

theorem evalTerms_termsOf (sawNull : Bool) :
    evalTerms env op sawNull (termsOf op e ++ fs) = evalTerms env op sawNull (e :: fs) := by
  unfold termsOf
  split
  · next op' es =>
    split
    · next h => rw [h, evalTerms_flatten]
    · rfl
  · rfl

theorem evalTerms_cons_congr
    (h : ∀ sawNull, evalTerms env op sawNull es = evalTerms env op sawNull fs)
    (sawNull : Bool) : evalTerms env op sawNull (e :: es) = evalTerms env op sawNull (e :: fs) := by
  have hgoOn : goOn env op sawNull es = goOn env op sawNull fs := by
    funext t
    rcases t with _ | b
    · exact h true
    · exact congrArg (ite (b = op.decisive) _) (h sawNull)
  rw [evalTerms_cons, evalTerms_cons, hgoOn]

theorem eval_join (env : Environment) (op : Connective) (a b : Expr) :
    (join op a b).eval env = (connect op [a, b]).eval env := by
  have hb : ∀ sawNull, evalTerms env op sawNull (termsOf op b) = evalTerms env op sawNull [b] :=
    fun sawNull => by rw [← evalTerms_termsOf, List.append_nil]
  rw [join, eval, eval, evalTerms_termsOf, evalTerms_cons_congr hb]

theorem eval_connect_singleton (env : Environment) (op : Connective) (e : Expr) :
    (connect op [e]).eval env = ((e.eval env).bind Value.truth).map Value.ofTruth := by
  rw [eval, evalTerms_cons]
  cases (e.eval env).bind Value.truth with
  | error err => rfl
  | ok t => cases op <;> rcases t with _ | _ | _ <;> rfl

theorem holds_eq (e : Expr) (env : Environment) :
    e.holds env = ((e.eval env).bind Value.truth).map (·.getD false) := by
  unfold holds
  cases e.eval env with
  | error err => rfl
  | ok v => rfl

theorem holds_connect_singleton (env : Environment) (op : Connective) (e : Expr) :
    (connect op [e]).holds env = e.holds env := by
  rw [holds_eq, holds_eq, eval_connect_singleton]
  cases (e.eval env).bind Value.truth with
  | error err => rfl
  | ok t => exact congrArg (Except.map _) (Value.truth_ofTruth t)

theorem eval_not (e : Expr) (env : Environment) : (Expr.not e).eval env =
    ((e.eval env).bind Value.truth).map fun t => .ofTruth (t.map (!·)) := by
  rw [eval]
  cases e.eval env with
  | error err => rfl
  | ok v => rfl

/-- Connectives with opposite decisive values look at the negated terms in the same way. -/
theorem evalTerms_map_not {op' : Connective} (h : op'.decisive = !op.decisive) (sawNull : Bool) :
    evalTerms env op' sawNull (es.map .not) =
      ((evalTerms env op sawNull es).bind Value.truth).map fun t => .ofTruth (t.map (!·)) := by
  induction es generalizing sawNull with
  | nil =>
    cases sawNull <;> simp [evalTerms, Except.bind, Except.map, Value.truth, Value.ofTruth, h]
  | cons e es ih =>
    rw [List.map_cons, evalTerms_cons, evalTerms_cons, eval_not]
    cases (e.eval env).bind Value.truth with
    | error err => rfl
    | ok t =>
      rcases t with _ | b
      · simpa [Except.bind, Except.map, Value.truth, Value.ofTruth, goOn] using ih true
      · by_cases hb : b = op.decisive
        · simp [Except.bind, Except.map, Value.truth, Value.ofTruth, goOn, h, hb]
        · simpa [Except.bind, Except.map, Value.truth, Value.ofTruth, goOn, h, hb] using ih sawNull

theorem eval_not_connect (env : Environment) {op op' : Connective} (h : op'.decisive = !op.decisive)
    (es : List Expr) :
    (Expr.not (connect op es)).eval env = (connect op' (es.map .not)).eval env := by
  rw [eval_not, eval, eval, evalTerms_map_not h]

theorem holds_conjunction {c : Expr} (h : conjunction? es = some c) (env : Environment) :
    c.holds env = (connect .and es).holds env := by
  unfold conjunction? at h
  split at h
  · simp at h
  · next e =>
    obtain rfl := Option.some.inj h
    exact (holds_connect_singleton env .and e).symm
  · obtain rfl := Option.some.inj h
    rfl

theorem exists_conjunction (e : Expr) (es : List Expr) : ∃ c, conjunction? (e :: es) = some c := by
  cases es with
  | nil => exact ⟨e, rfl⟩
  | cons e' es => exact ⟨connect .and (e :: e' :: es), rfl⟩

/-- Builders keep the meaning: joined expressions are those of the connective of the two, a
conjunction holds where the connective of its terms does, and a negation moves to the terms of the
other connective. -/
theorem eval_builders (env : Environment) :
    (∀ a b : Expr, (a.and b).eval env = (connect .and [a, b]).eval env) ∧
    (∀ a b : Expr, (a.or b).eval env = (connect .or [a, b]).eval env) ∧
    (∀ e es, ∃ c, conjunction? (e :: es) = some c ∧
      c.holds env = (connect .and (e :: es)).holds env) ∧
    (∀ es, (Expr.not (connect .and es)).eval env = (connect .or (es.map .not)).eval env) ∧
    (∀ es, (Expr.not (connect .or es)).eval env = (connect .and (es.map .not)).eval env) := by
  refine ⟨eval_join env .and, eval_join env .or, fun e es => ?_, eval_not_connect env rfl,
    eval_not_connect env rfl⟩
  obtain ⟨c, hc⟩ := exists_conjunction e es
  exact ⟨c, hc, holds_conjunction hc env⟩

end Expr

end RelQuery
