import RelQuery.Grouping.Accumulator
import RelQuery.Proofs.Computations
import RelQuery.Proofs.Nodes
import RelQuery.Proofs.Resolution

namespace RelQuery

/-- Errors of the values, whatever columns they come from. -/
def EvalError.ofValues : EvalError → Bool
  | unresolved _ | tupleTooShort _ | ungrouped _ => false
  | _ => true

namespace Value

variable {G : EvalError → Prop} (hG : ∀ e : EvalError, e.ofValues = true → G e)

include hG

theorem checked_meets (i : Int) : Except.Meets (fun _ => True) G (checked i) := by
  unfold checked
  split
  · trivial
  · exact hG _ rfl

theorem arith_meets (op : ArithOp) (v w : Value) :
    Except.Meets (fun _ => True) G (v.arith op w) := by
  unfold arith
  split
  · trivial
  · trivial
  · unfold intArith
    split
    · exact checked_meets hG _
    · exact checked_meets hG _
    · exact checked_meets hG _
    · split
      · exact hG _ rfl
      · exact checked_meets hG _
    · split
      · exact hG _ rfl
      · split
        · exact checked_meets hG _
        · exact hG _ rfl
  · split
    · unfold floatArith
      split
      · trivial
      · trivial
      · trivial
      · split
        · exact hG _ rfl
        · trivial
      · split
        · exact hG _ rfl
        · trivial
    · exact hG _ rfl

theorem compareWith_meets (op : Comparison) (v w : Value) :
    Except.Meets (fun _ => True) G (v.compareWith op w) := by
  unfold compareWith
  split
  · trivial
  · split
    · trivial
    · exact hG _ rfl

theorem negate_meets (v : Value) : Except.Meets (fun _ => True) G v.negate := by
  unfold negate
  split
  · trivial
  · exact checked_meets hG _
  · trivial
  · exact hG _ rfl

theorem truth_meets (v : Value) : Except.Meets (fun _ => True) G v.truth := by
  unfold truth
  split
  · trivial
  · trivial
  · exact hG _ rfl

theorem apply_meets (f : ScalarFunction) (vs : List Value) :
    Except.Meets (fun _ => True) G (Value.apply f vs) := by
  unfold Value.apply
  split
  · trivial
  · trivial
  · exact checked_meets hG _
  · trivial
  · trivial
  · trivial
  · exact hG _ rfl
  · exact hG _ rfl

end Value

/-- The errors that an evaluation may have: those of the values, and those of the columns. -/
structure Environment.Permits (env : Environment) (G : EvalError → Prop) : Prop where
  values : ∀ e : EvalError, e.ofValues = true → G e
  lookup : ∀ c, Except.Meets (fun _ => True) G (env.lookup c)

namespace Expr

variable {G : EvalError → Prop} {env : Environment} {es : List Expr}

theorem evalTerms_meets (hG : ∀ e : EvalError, e.ofValues = true → G e)
    (hes : ∀ e ∈ es, Except.Meets (fun _ => True) G (e.eval env)) (op : Connective)
    (sawNull : Bool) : Except.Meets (fun _ => True) G (evalTerms env op sawNull es) := by
  induction es generalizing sawNull with
  | nil => exact trivial
  | cons e es ih =>
    obtain ⟨he, hes⟩ := List.forall_mem_cons.1 hes
    refine he.bind fun v _ => (Value.truth_meets hG v).bind fun t _ => ?_
    cases t with
    | none => exact ih hes true
    | some b =>
      dsimp only
      split
      · trivial
      · exact ih hes sawNull

theorem evalAll_meets (hes : ∀ e ∈ es, Except.Meets (fun _ => True) G (e.eval env)) :
    Except.Meets (fun _ => True) G (evalAll env es) := by
  induction es with
  | nil => exact trivial
  | cons e es ih =>
    obtain ⟨he, hes⟩ := List.forall_mem_cons.1 hes
    exact he.bind fun v _ => (ih hes).bind fun vs _ => trivial

/-- Besides the errors of values, an evaluation has those of its columns and of aggregate calls. -/
theorem eval_meets_of_columns (hG : ∀ e : EvalError, e.ofValues = true → G e) (e : Expr)
    (hcolumns : ∀ c ∈ e.columns, Except.Meets (fun _ => True) G (env.lookup c))
    (hagg : e.containsAggregate = true → ∀ a, G (.ungrouped a)) :
    Except.Meets (fun _ => True) G (e.eval env) := by
  induction e using children_induction with
  | step e ih =>
    have hparts : ∀ c ∈ e.children, Except.Meets (fun _ => True) G (c.eval env) := fun c hc =>
      ih c hc (fun r hr => hcolumns r (columns_subset_of_mem_children hc hr)) fun h => hagg (by
        rw [containsAggregate_eq, Bool.or_eq_true, List.any_eq_true]
        exact .inr ⟨c, hc, h⟩)
    cases e with
    | literal v => exact trivial
    | column c => exact hcolumns c (List.mem_singleton_self c)
    | aggregate f d e => exact hagg (by rw [containsAggregate_eq]; rfl) _
    | aggregateAll f d => exact hagg (by rw [containsAggregate_eq]; rfl) _
    | compare op l r =>
      have hl := hparts l List.mem_cons_self
      have hr := hparts r (List.mem_cons_of_mem l List.mem_cons_self)
      exact hl.bind fun v _ => hr.bind fun w _ => Value.compareWith_meets hG op v w
    | arith op l r =>
      have hl := hparts l List.mem_cons_self
      have hr := hparts r (List.mem_cons_of_mem l List.mem_cons_self)
      exact hl.bind fun v _ => hr.bind fun w _ => Value.arith_meets hG op v w
    | not e =>
      have he := List.forall_mem_singleton.1 hparts
      exact he.bind fun v _ => (Value.truth_meets hG v).bind fun _ _ => trivial
    | negate e =>
      have he := List.forall_mem_singleton.1 hparts
      exact he.bind fun v _ => Value.negate_meets hG v
    | isNull n e =>
      have he := List.forall_mem_singleton.1 hparts
      exact he.bind fun v _ => trivial
    | connect op es => exact evalTerms_meets hG hparts op false
    | call f es =>
      exact (evalAll_meets hparts).bind fun vs _ => (Value.apply_meets hG f vs).bind fun _ _ =>
        trivial

/-- Besides the errors that an environment permits, an evaluation has those of aggregate calls. -/
theorem eval_meets (hpermits : env.Permits G) (e : Expr)
    (hagg : e.containsAggregate = true → ∀ a, G (.ungrouped a)) :
    Except.Meets (fun _ => True) G (e.eval env) :=
  eval_meets_of_columns hpermits.values e (fun c _ => hpermits.lookup c) hagg

theorem holds_meets (hG : ∀ e : EvalError, e.ofValues = true → G e) {e : Expr}
    (he : Except.Meets (fun _ => True) G (e.eval env)) :
    Except.Meets (fun _ => True) G (e.holds env) :=
  he.bind fun v _ => (Value.truth_meets hG v).bind fun _ _ => trivial

end Expr

namespace Environment

variable {env : Environment} {c : ColumnName}

/-- Every row in scope has a value for each column of its schema. -/
def Full (env : Environment) : Prop := ∀ b ∈ env.bindings, b.2.length = b.1.width

theorem full_single {s : Schema} {r : Row} (h : r.length = s.width) : (single s r).Full :=
  List.forall_mem_singleton.2 h

theorem full_pair {s s' : Schema} {r r' : Row} (h : r.length = s.width)
    (h' : r'.length = s'.width) :
    (pair s r s' r').Full :=
  List.forall_mem_cons.2 ⟨h, List.forall_mem_singleton.2 h'⟩

/-- Where rows have a value for each column, no row is too short for a reference. -/
theorem Full.lookup (h : env.Full) (c : ColumnName) :
    Except.Meets (fun _ => True) (fun e => ∀ n, e ≠ .tupleTooShort n) (env.lookup c) := by
  have hfound : none ∉ env.found c := by
    intro hnone
    obtain ⟨b, hb, hmem⟩ := List.mem_flatMap.1 hnone
    obtain ⟨i, hi, hnone⟩ := List.mem_map.1 hmem
    have hlt : i < b.2.length := (h b hb).symm ▸ Schema.lt_of_mem_positions hi
    rw [List.getElem?_eq_getElem hlt] at hnone
    exact absurd hnone (by simp)
  unfold Environment.lookup
  split
  · exact fun n => by simp
  · next hnone => exact absurd (hnone ▸ List.mem_cons_self) hfound
  · trivial
  · exact fun n => by simp

theorem Full.permits (h : env.Full) : env.Permits fun e => ∀ n, e ≠ .tupleTooShort n where
  values e he n := by
    rintro rfl
    simp [EvalError.ofValues] at he
  lookup := h.lookup

theorem permits_grouped (env : Environment) : env.Permits fun e => ∀ a, e ≠ .ungrouped a where
  values e he a := by
    rintro rfl
    simp [EvalError.ofValues] at he
  lookup c := by
    unfold Environment.lookup
    split
    · exact fun a => by simp
    · exact fun a => by simp
    · trivial
    · exact fun a => by simp

end Environment

namespace Accumulator

variable {G : EvalError → Prop} (hG : ∀ e : EvalError, e.ofValues = true → G e)

include hG

theorem summand_meets (f : AggregateFunction) (v : Value) :
    Except.Meets (fun _ => True) G (summand f v) := by
  unfold summand
  split
  · trivial
  · exact hG _ rfl

theorem addTo_meets (f : AggregateFunction) (v w : Value) :
    Except.Meets (fun _ => True) G (addTo f v w) := by
  unfold addTo
  split
  · split
    · trivial
    · exact hG _ rfl
  · split
    · trivial
    · exact hG _ rfl

theorem add_meets (a : Accumulator) (v : Value) :
    Except.Meets (fun b => b.call = a.call) G (a.add v) := by
  obtain ⟨⟨fn, arg, distinct⟩, seen, count, total, extreme⟩ := a
  cases fn with
  | count => exact rfl
  | sum | avg =>
    refine (summand_meets hG _ v).bind fun w _ => ?_
    cases total with
    | none => exact rfl
    | some t => exact (addTo_meets hG _ t w).bind fun _ _ => rfl
  | min | max =>
    unfold add
    dsimp only
    split <;> exact rfl

theorem take_meets (a : Accumulator) (v : Value) :
    Except.Meets (fun b => b.call = a.call) G (a.take v) := by
  unfold take
  split
  · exact rfl
  · split
    · split
      · exact rfl
      · exact add_meets hG _ v
    · exact add_meets hG a v

/-- An accumulator takes a row in when its argument has a value, and stays one of its call. -/
theorem update_meets {a : Accumulator} {env : Environment}
    (ha : ∀ e, a.call.arg = some e → Except.Meets (fun _ => True) G (e.eval env)) :
    Except.Meets (fun b => b.call = a.call) G (a.update env) := by
  unfold update
  split
  · exact rfl
  · next e he => exact (ha e he).bind fun v _ => take_meets hG a v

end Accumulator

end RelQuery
