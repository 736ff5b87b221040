import RelQuery.Expr.Typing
import RelQuery.Proofs.Evaluation
import RelQuery.Proofs.StoredValues

namespace RelQuery

/-- What a value is at run time, beside NULL. -/
inductive Shape
  | truth | integer | double | text
  deriving DecidableEq

def Value.shape? : Value → Option Shape
  | null => none
  | bool _ => some .truth
  | int _ => some .integer
  | float _ => some .double
  | text _ => some .text

namespace SqlType

variable {t u : SqlType} {v w : Value}

/-- The shape of the values of a type. -/
def shape : SqlType → Shape
  | boolean => .truth
  | tinyInt | smallInt | integer | bigInt => .integer
  | float | double => .double
  | char _ | varChar _ => .text

/-- A value of the type at run time: NULL, or of the shape of the type. -/
def Holds (t : SqlType) (v : Value) : Prop := ∀ k, v.shape? = some k → k = t.shape

theorem isInteger_iff : t.isInteger = true ↔ t.shape = .integer := by
  cases t <;> simp [isInteger, shape]

theorem holds_null : t.Holds .null := fun _ hk => nomatch hk

theorem holds_of_shape {k : Shape} (hv : v.shape? = some k) : t.Holds v ↔ k = t.shape :=
  ⟨fun h => h k hv, fun h _ hk => (Option.some.inj (hv.symm.trans hk)).symm.trans h⟩

theorem holds_of_fits (h : v = .null ∨ t.Fits v) : t.Holds v := by
  rcases h with rfl | h
  · exact holds_null
  · cases t <;> cases v <;> simp [Fits, Holds, shape, Value.shape?] at h ⊢

end SqlType

/-- A row has a value for each column, of the type of the column. -/
def Schema.Holds (s : Schema) (r : Row) : Prop :=
  List.Forall₂ (fun c v => c.type.Holds v) s.columns r

theorem Schema.Fits.holds {s : Schema} {r : Row} (h : s.Fits r) : s.Holds r :=
  h.imp fun _ _ => SqlType.holds_of_fits

/-- The result of a computation is of a type, if there is one. -/
abbrev Gives {ε : Type} (t : SqlType) (x : Except ε Value) : Prop :=
  Except.Meets t.Holds (fun _ => True) x

namespace Value

variable {t u : SqlType} {v w : Value}

theorem isNull_of_shape? {k : Shape} (h : v.shape? = some k) : v.isNull = false := by
  cases v <;> simp [shape?, isNull] at h ⊢

theorem exists_shape? (h : v.isNull = false) : ∃ k, v.shape? = some k := by
  cases v <;> simp [shape?, isNull] at h ⊢

theorem sqlType_holds (v : Value) : v.sqlType.Holds v := by
  cases v <;> simp [SqlType.Holds, SqlType.shape, shape?, sqlType, SqlType.varCharOf]

theorem compareWith_gives (op : Comparison) (v w : Value) :
    Gives .boolean (v.compareWith op w) := by
  unfold compareWith
  split
  · exact SqlType.holds_null
  · split
    · exact (SqlType.holds_of_shape rfl).2 rfl
    · trivial

theorem ofTruth_holds (b : Option Bool) : SqlType.boolean.Holds (ofTruth b) := by
  cases b with
  | none => exact SqlType.holds_null
  | some b => exact (SqlType.holds_of_shape rfl).2 rfl

theorem checked_gives (h : t.shape = .integer) (i : Int) : Gives t (checked i) := by
  unfold checked ofInt?
  split
  · next heq =>
    split at heq
    · obtain rfl := Option.some.inj heq
      exact (SqlType.holds_of_shape rfl).2 h.symm
    · simp at heq
  · trivial

theorem intArith_gives (op : ArithOp) (a b : Int) : Gives .bigInt (intArith op a b) := by
  have hchecked := fun i => checked_gives (t := .bigInt) rfl i
  unfold intArith
  split
  · exact hchecked _
  · exact hchecked _
  · exact hchecked _
  · split
    · trivial
    · exact hchecked _
  · split
    · trivial
    · split
      · exact hchecked _
      · trivial

theorem floatArith_gives (op : ArithOp) (x y : Double) : Gives .double (floatArith op x y) := by
  have hfloat : ∀ z, SqlType.double.Holds (float z) := fun z => (SqlType.holds_of_shape rfl).2 rfl
  unfold floatArith
  split
  · exact hfloat _
  · exact hfloat _
  · exact hfloat _
  · split
    · trivial
    · exact hfloat _
  · split
    · trivial
    · exact hfloat _

/-- Arithmetic gives integers from integers, and doubles once one side is a double. -/
theorem arith_gives (op : ArithOp) {result : SqlType} (hv : t.Holds v) (hw : u.Holds w)
    (hresult : (if t.isInteger && u.isInteger then .bigInt else .double) = result) :
    Gives result (v.arith op w) := by
  unfold arith
  split
  · exact SqlType.holds_null
  · exact SqlType.holds_null
  · next a b =>
    have ht : t.isInteger = true := SqlType.isInteger_iff.2 (hv _ rfl).symm
    have hu : u.isInteger = true := SqlType.isInteger_iff.2 (hw _ rfl).symm
    rw [ht, hu] at hresult
    obtain rfl : .bigInt = result := hresult
    exact intArith_gives op _ _
  · next hints =>
    split
    · next hx hy =>
      -- One of the sides is not an integer, and so is not of an integer type.
      have hfloat : ∀ {t : SqlType} {z}, t.Holds (float z) → ¬t.isInteger = true :=
        fun h hinteger =>
        absurd ((h _ rfl).trans (SqlType.isInteger_iff.1 hinteger)) (by decide)
      have hsides : (t.isInteger && u.isInteger) = false := by
        rw [Bool.and_eq_false_iff, ← Bool.not_eq_true, ← Bool.not_eq_true]
        cases v <;> cases w <;> simp [toDouble?] at hx hy hints
        · exact .inr (hfloat hw)
        · exact .inl (hfloat hv)
        · exact .inl (hfloat hv)
      rw [hsides] at hresult
      obtain rfl : .double = result := hresult
      exact floatArith_gives op _ _
    · trivial

theorem negate_gives (hv : t.Holds v) : Gives t v.negate := by
  cases v with
  | null => exact SqlType.holds_null
  | int i => exact checked_gives (hv _ rfl).symm _
  | float x => exact (SqlType.holds_of_shape rfl).2 (hv _ rfl)
  | bool b => trivial
  | text s => trivial

/-- All functions but `COALESCE` give values of the type of their first argument. -/
theorem apply_gives {f : ScalarFunction} (hf : f ≠ .coalesce) {vs : List Value}
    (hvs : ∀ v, vs.head? = some v → t.Holds v) : Gives t (Value.apply f vs) := by
  unfold Value.apply
  split
  · exact absurd rfl hf
  · exact SqlType.holds_null
  · exact checked_gives (hvs _ rfl _ rfl).symm _
  · exact (SqlType.holds_of_shape rfl).2 (hvs _ rfl _ rfl)
  · exact (SqlType.holds_of_shape rfl).2 (hvs _ rfl _ rfl)
  · exact (SqlType.holds_of_shape rfl).2 (hvs _ rfl _ rfl)
  · trivial
  · trivial

end Value

namespace Environment

variable {s : Schema} {r : Row}

theorem lookup_gives (hr : s.Holds r) (c : ColumnName) :
    Gives ((Expr.column c).sqlType s) ((single s r).lookup c) := by
  have hlength : r.length = s.width := hr.length_eq.symm
  cases hresolve : s.resolve c with
  | ok x =>
    obtain ⟨info, i⟩ := x
    obtain ⟨hi, rfl⟩ := List.getElem?_eq_some_iff.1 (Schema.resolve_eq_ok_iff.1 hresolve).1
    have hlt : i < r.length := hlength ▸ hi
    rw [lookup_single hresolve hlength, Expr.sqlType, hresolve, List.getElem?_eq_getElem hlt]
    exact hr.get hi hlt
  | error e =>
    have hfound : (single s r).found c = (s.positions c).map (r[·]?) := by
      simp [found, single]
    unfold lookup
    split
    · trivial
    · trivial
    · next v hone =>
      have hresolves : s.resolves c = true := Schema.resolves_iff_length.2 (by
        rw [← List.length_map (r[·]?), ← hfound, hone]
        rfl)
      obtain ⟨info, i, hok⟩ := Schema.resolves_iff.1 hresolves
      simp [hok] at hresolve
    · trivial

end Environment

namespace Expr

variable {s : Schema} {r : Row} {env : Environment} {c d e : Expr} {es : List Expr} {v : Value}

/-- The argument whose value `COALESCE` gives: the first that is not NULL, where all have values. -/
inductive Picks (env : Environment) : List Expr → Expr → Prop
  | here {b : Expr} {es : List Expr} {v : Value} {vs : List Value} : b.eval env = .ok v →
      v.isNull = false → evalAll env es = .ok vs → Picks env (b :: es) b
  | later {e b : Expr} {es : List Expr} : e.eval env = .ok .null → Picks env es b →
      Picks env (e :: es) b

theorem Picks.mem {b : Expr} (h : Picks env es b) : b ∈ es := by
  induction h with
  | here => exact List.mem_cons_self
  | later _ _ ih => exact List.mem_cons_of_mem _ ih

theorem Picks.exists_value {b : Expr} (h : Picks env es b) :
    ∃ v, b.eval env = .ok v ∧ v.isNull = false := by
  induction h with
  | here hv hnull _ => exact ⟨_, hv, hnull⟩
  | later _ _ ih => exact ih

theorem exists_picks : (∃ b, Picks env es b ∧ b.eval env = .ok v) ↔
    ∃ vs, evalAll env es = .ok vs ∧ vs.find? (fun v => !v.isNull) = some v := by
  constructor
  · rintro ⟨b, hpicks, hb⟩
    induction hpicks with
    | here hw hnull hvs =>
      obtain rfl := Except.ok.inj (hw.symm.trans hb)
      exact ⟨_, by rw [evalAll, hw, hvs]; rfl, List.find?_cons_of_pos (by simp [hnull])⟩
    | later he _ ih =>
      obtain ⟨vs, hvs, hfind⟩ := ih hb
      exact ⟨_, by rw [evalAll, he, hvs]; rfl,
        (List.find?_cons_of_neg (by simp [Value.isNull])).trans hfind⟩
  · rintro ⟨vs, hvs, hfind⟩
    induction es generalizing vs with
    | nil =>
      obtain rfl := Except.ok.inj hvs
      simp at hfind
    | cons e es ih =>
      obtain ⟨w, hw, hvs⟩ := Except.bind_eq_ok.1 hvs
      obtain ⟨ws, hws, hvs⟩ := Except.bind_eq_ok.1 hvs
      obtain rfl := Except.ok.inj hvs
      rw [List.find?_cons] at hfind
      split at hfind
      · next hnull =>
        obtain rfl := Option.some.inj hfind
        exact ⟨e, .here hw (by simpa using hnull) hws, hw⟩
      · next hnull =>
        obtain ⟨b, hpicks, hb⟩ := ih ws hws hfind
        obtain rfl : w = .null := by cases w <;> simp [Value.isNull] at hnull ⊢
        exact ⟨b, .later hw hpicks, hb⟩

theorem eval_call (f : ScalarFunction) (es : List Expr) :
    (call f es).eval env = evalAll env es >>= Value.apply f := by
  rw [eval]
  cases evalAll env es with
  | error e => rfl
  | ok vs =>
    change (Value.apply f vs >>= fun v => Except.ok v) = Value.apply f vs
    cases Value.apply f vs <;> rfl

theorem eval_coalesce (hv : v.isNull = false) : (call .coalesce es).eval env = .ok v ↔
    ∃ b, Picks env es b ∧ b.eval env = .ok v := by
  have happly : ∀ vs : List Value, Value.apply .coalesce vs = .ok v ↔
      vs.find? (fun v => !v.isNull) = some v := by
    intro vs
    rw [Value.apply, Except.ok.injEq]
    cases vs.find? fun v => !v.isNull with
    | some w => simp
    | none =>
      have hnull : Value.null ≠ v := by
        rintro rfl
        simp [Value.isNull] at hv
      simpa using hnull
  rw [eval_call, Except.bind_eq_ok, exists_picks]
  simp only [happly]

/-- Each `COALESCE` in an expression picks an argument that is declared to be of the shape of the
first. -/
def Coherent (s : Schema) (r : Row) (e : Expr) : Prop :=
  ∀ a as, (call .coalesce (a :: as)).Within e → ∀ b, Picks (.single s r) (a :: as) b →
    (b.sqlType s).shape = (a.sqlType s).shape

/-- An expression and all its parts have values of the types they are declared to have. -/
def Sound (s : Schema) (r : Row) (e : Expr) : Prop :=
  ∀ d : Expr, d.Within e → ∀ v, d.eval (.single s r) = .ok v → (d.sqlType s).Holds v

/-- An expression is coherent on all rows if each `COALESCE` in it has arguments of one shape. -/
theorem coherent_of_shapes (h : ∀ a as, (call .coalesce (a :: as)).Within e → ∀ b ∈ as,
    (b.sqlType s).shape = (a.sqlType s).shape) (r : Row) : e.Coherent s r := by
  intro a as hcall b hpicks
  rcases List.mem_cons.1 hpicks.mem with rfl | hb
  · rfl
  · exact h a as hcall b hb

theorem Coherent.of_within (h : e.Coherent s r) (hd : d.Within e) : d.Coherent s r :=
  fun a as hcall => h a as (hcall.trans hd)

theorem evalTerms_gives (op : Connective) (sawNull : Bool) (es : List Expr) :
    Gives .boolean (evalTerms env op sawNull es) := by
  have hbool : ∀ b, SqlType.boolean.Holds (.bool b) := fun b => (SqlType.holds_of_shape rfl).2 rfl
  induction es generalizing sawNull with
  | nil =>
    rw [evalTerms]
    split
    · exact SqlType.holds_null
    · exact hbool _
  | cons e es ih =>
    rw [evalTerms]
    rcases e.eval env with err | v
    · trivial
    · change Gives .boolean (v.truth >>= _)
      rcases v.truth with err | _ | b
      · trivial
      · exact ih true
      · change Gives .boolean (if b = op.decisive then _ else _)
        split
        · exact hbool b
        · exact ih sawNull

/-- A node has a value of its type if its parts have, and it does not pick another shape. -/
theorem eval_gives (hr : s.Holds r) (e : Expr) (he : e.Coherent s r) :
    Gives (e.sqlType s) (e.eval (.single s r)) := by
  induction e using children_induction with
  | step e ih =>
    have hparts : ∀ c ∈ e.children, Gives (c.sqlType s) (c.eval (.single s r)) := fun c hc =>
      ih c hc (he.of_within (.part hc (.self c)))
    cases e with
    | literal v => exact v.sqlType_holds
    | column c => exact Environment.lookup_gives hr c
    | aggregate | aggregateAll => trivial
    | compare op l r =>
      have hl := hparts l List.mem_cons_self
      have hr := hparts r (List.mem_cons_of_mem l List.mem_cons_self)
      exact hl.bind fun v _ => hr.bind fun w _ => Value.compareWith_gives op v w
    | arith op l r =>
      have hl := hparts l List.mem_cons_self
      have hr := hparts r (List.mem_cons_of_mem l List.mem_cons_self)
      exact hl.bind fun v hv => hr.bind fun w hw => Value.arith_gives op hv hw rfl
    | connect op es => exact evalTerms_gives op false es
    | not e =>
      have he := hparts e List.mem_cons_self
      refine he.bind fun v _ => ?_
      rcases v.truth with err | t
      · trivial
      · exact Value.ofTruth_holds _
    | negate e => exact (hparts e List.mem_cons_self).bind fun v hv => Value.negate_gives hv
    | isNull negated e =>
      exact (hparts e List.mem_cons_self).bind fun v _ => (SqlType.holds_of_shape rfl).2 rfl
    | call f es =>
      rw [eval_call]
      cases es with
      | nil =>
        cases f with
        | coalesce => exact SqlType.holds_null
        | abs | lower | upper => trivial
      | cons a as =>
        have ha := hparts a List.mem_cons_self
        by_cases hf : f = .coalesce
        · subst hf
          rw [← eval_call]
          cases hv : (call .coalesce (a :: as)).eval (.single s r) with
          | error err => trivial
          | ok v =>
            intro k hk
            obtain ⟨b, hpicks, hb⟩ := (eval_coalesce (Value.isNull_of_shape? hk)).1 hv
            have hholds := hparts b hpicks.mem
            rw [hb] at hholds
            exact (hholds k hk).trans (he a as (.self _) b hpicks)
        · have hhead : Except.Meets (fun vs : List Value => ∀ v, vs.head? = some v →
              (a.sqlType s).Holds v) (fun _ => True) (evalAll (.single s r) (a :: as)) := by
            refine ha.bind fun v hv => ?_
            cases evalAll (.single s r) as with
            | error err => trivial
            | ok vs =>
              intro w hw
              obtain rfl := Option.some.inj hw
              exact hv
          exact hhead.bind fun vs hvs => Value.apply_gives hf hvs

/-- An expression and all its parts have values of their types just if no `COALESCE` in it picks an
argument that is declared to be of another shape than the first. -/
theorem sound_iff_coherent (hr : s.Holds r) : e.Sound s r ↔ e.Coherent s r := by
  constructor
  · intro h a as hcall b hpicks
    obtain ⟨v, hb, hnull⟩ := hpicks.exists_value
    obtain ⟨k, hk⟩ := Value.exists_shape? hnull
    have hfirst := h _ hcall v ((eval_coalesce hnull).2 ⟨b, hpicks, hb⟩) k hk
    have hpicked := h b (.trans (.part hpicks.mem (.self b)) hcall) v hb k hk
    exact hpicked.symm.trans hfirst
  · intro h d hd v hv
    have hgives := eval_gives hr d (h.of_within hd)
    rwa [hv] at hgives

end Expr

end RelQuery
