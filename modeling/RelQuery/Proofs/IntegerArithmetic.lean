import RelQuery.Expr.Eval

namespace RelQuery

/-- Integers that have a 64-bit representation. -/
def Fits64 (n : Int) : Prop := Int64.minValue.toInt ≤ n ∧ n ≤ Int64.maxValue.toInt

instance (n : Int) : Decidable (Fits64 n) := inferInstanceAs (Decidable (_ ∧ _))

theorem fits64_toInt (a : Int64) : Fits64 a.toInt := ⟨a.minValue_le_toInt, a.toInt_le⟩

/-- Division with remainder, toward zero: the remainder is less than the divisor in magnitude and
has the sign of the dividend. -/
structure Division (a b q r : Int) : Prop where
  eq : a = q * b + r
  lt : r.natAbs < b.natAbs
  sign : r ≠ 0 → r.sign = a.sign

namespace Division

variable {a b q r : Int}

theorem tdiv_tmod (hb : b ≠ 0) : Division a b (a.tdiv b) (a.tmod b) where
  eq := (Int.tdiv_mul_add_tmod a b).symm
  lt := by
    rw [Int.natAbs_tmod]
    exact Nat.mod_lt _ (Int.natAbs_pos.2 hb)
  sign hr := by rw [Int.sign_tmod, if_neg (mt Int.tmod_eq_zero_of_dvd hr)]

theorem divisor_ne_zero (h : Division a b q r) : b ≠ 0 := by
  rintro rfl
  exact Nat.not_lt_zero _ h.lt

theorem nonneg (h : Division a b q r) (ha : 0 ≤ a) : 0 ≤ r := by
  by_cases hr : r = 0
  · exact Int.le_of_eq hr.symm
  · exact Int.sign_nonneg_iff.1 (h.sign hr ▸ Int.sign_nonneg_iff.2 ha)

theorem nonpos (h : Division a b q r) (ha : a ≤ 0) : r ≤ 0 := by
  by_cases hr : r = 0
  · exact Int.le_of_eq hr
  · exact Int.sign_nonpos_iff.1 (h.sign hr ▸ Int.sign_nonpos_iff.2 ha)

theorem unique (h : Division a b q r) : q = a.tdiv b ∧ r = a.tmod b := by
  have heq : r + b * q = a := by rw [h.eq, Int.mul_comm, Int.add_comm]
  have hlt := h.lt
  rcases Int.le_total 0 a with ha | ha
  · have hr := h.nonneg ha
    obtain ⟨hq, hm⟩ := (Int.tdiv_tmod_unique ha h.divisor_ne_zero).2 ⟨heq, hr, by omega⟩
    exact ⟨hq.symm, hm.symm⟩
  · have hr := h.nonpos ha
    obtain ⟨hq, hm⟩ := (Int.tdiv_tmod_unique' ha h.divisor_ne_zero).2 ⟨heq, by omega, hr⟩
    exact ⟨hq.symm, hm.symm⟩

theorem natAbs_le (h : Division a b q r) : r.natAbs ≤ a.natAbs := by
  rw [h.unique.2, Int.natAbs_tmod]
  exact Nat.mod_le _ _

/-- The remainder and the product of the quotient with the divisor lie between zero and the
dividend. -/
theorem fits (h : Division a b q r) (ha : Fits64 a) : Fits64 r ∧ Fits64 (q * b) := by
  have hmin : Int64.minValue.toInt = -9223372036854775808 := rfl
  have hmax : Int64.maxValue.toInt = 9223372036854775807 := rfl
  obtain ⟨hlow, hhigh⟩ := ha
  have hle := h.natAbs_le
  have heq := h.eq
  unfold Fits64
  rcases Int.le_total 0 a with ha | ha
  · have hr := h.nonneg ha
    omega
  · have hr := h.nonpos ha
    omega

end Division

namespace ArithOp

/-- The operators that divide. -/
def Divides (op : ArithOp) : Prop := op = div ∨ op = rem

/-- The exact result of an operator; there is none for a zero divisor. -/
def Exact (op : ArithOp) (a b n : Int) : Prop :=
  match op with
  | add => n = a + b
  | sub => n = a - b
  | mul => n = a * b
  | div => ∃ r, Division a b n r
  | rem => ∃ q, Division a b q n

theorem exact_div {a b n : Int} : div.Exact a b n ↔ b ≠ 0 ∧ n = a.tdiv b := by
  constructor
  · rintro ⟨r, h⟩
    exact ⟨h.divisor_ne_zero, h.unique.1⟩
  · rintro ⟨hb, rfl⟩
    exact ⟨_, .tdiv_tmod hb⟩

theorem exact_rem {a b n : Int} : rem.Exact a b n ↔ b ≠ 0 ∧ n = a.tmod b := by
  constructor
  · rintro ⟨q, h⟩
    exact ⟨h.divisor_ne_zero, h.unique.2⟩
  · rintro ⟨hb, rfl⟩
    exact ⟨_, .tdiv_tmod hb⟩

/-- The least integer and -1: their quotient is the one that does not fit into 64 bits. -/
def Extreme (a b : Int64) : Prop := a = Int64.minValue ∧ b = -1

theorem natAbs_tdiv_le_half {a b : Int} (hb : 1 < b.natAbs) : (a.tdiv b).natAbs ≤ a.natAbs / 2 :=
  calc
    (a.tdiv b).natAbs = a.natAbs / b.natAbs := Int.natAbs_tdiv a b
    _ ≤ a.natAbs / 2 := Nat.div_le_div_left hb (by decide)

theorem tdiv_le_iff {a b : Int64} (hb : b.toInt ≠ 0) :
    a.toInt.tdiv b.toInt ≤ Int64.maxValue.toInt ↔ ¬ Extreme a b := by
  have hmin : Int64.minValue.toInt = -9223372036854775808 := rfl
  have hmax : Int64.maxValue.toInt = 9223372036854775807 := rfl
  obtain ⟨hlow, hhigh⟩ := fits64_toInt a
  constructor
  · rintro hle ⟨rfl, rfl⟩
    exact absurd hle (by decide)
  · intro h
    by_cases hone : b.toInt.natAbs = 1
    · rcases (by omega : b.toInt = 1 ∨ b.toInt = -1) with hb | hb
      · rw [hb, Int.tdiv_one]
        exact hhigh
      · have hne : a.toInt ≠ Int64.minValue.toInt := fun ha =>
          h ⟨Int64.toInt_inj.1 ha, Int64.toInt_inj.1 hb⟩
        rw [hb, Int.tdiv_neg, Int.tdiv_one]
        omega
    -- any other divisor leaves at most half of the dividend
    · have hhalf := @natAbs_tdiv_le_half a.toInt b.toInt (by omega)
      omega

end ArithOp

/-- What a checked computation of integers gives: its exact result where there is one that fits, an
error where the result is undefined or does not fit, and an overflow also where a result is lost. -/
structure Computes (x : Except EvalError Value) (exact : Int → Prop) (undefined lost : Prop) :
    Prop where
  ok_iff : ∀ v, x = .ok v ↔ ∃ n : Int64, v = .int n ∧ exact n.toInt ∧ ¬ lost
  error_iff : ∀ e, x = .error e ↔
    e = .divisionByZero ∧ undefined ∨ e = .overflow ∧ ((∃ n, exact n ∧ ¬ Fits64 n) ∨ lost)

namespace Value

theorem checked_toInt (n : Int64) : checked n.toInt = .ok (int n) := by
  have hfits : ofInt? n.toInt = some (int (.ofInt n.toInt)) := if_pos (fits64_toInt n)
  unfold checked
  rw [hfits, Int64.ofInt_toInt]

theorem checked_of_not_fits {i : Int} (h : ¬ Fits64 i) : checked i = .error .overflow := by
  have hnone : ofInt? i = none := if_neg h
  unfold checked
  rw [hnone]

theorem exists_toInt {i : Int} (h : Fits64 i) : ∃ n : Int64, n.toInt = i :=
  ⟨.ofInt i, Int64.toInt_ofInt_of_le h.1 (Int.lt_of_le_sub_one h.2)⟩

end Value

namespace Computes

variable {exact : Int → Prop} {undefined lost : Prop} {i : Int}

theorem of_checked (h : ∀ n, exact n ↔ n = i) (hdefined : ¬ undefined) (hkept : ¬ lost) :
    Computes (Value.checked i) exact undefined lost := by
  by_cases hfits : Fits64 i
  · obtain ⟨m, rfl⟩ := Value.exists_toInt hfits
    constructor
    · intro v
      simp [Value.checked_toInt, h, hkept, Int64.toInt_inj, eq_comm]
    · intro e
      simp [Value.checked_toInt, h, hdefined, hkept, hfits]
  · rw [Value.checked_of_not_fits hfits]
    constructor
    · intro v
      simp only [reduceCtorEq, h, false_iff]
      rintro ⟨n, -, hn, -⟩
      exact hfits (hn ▸ fits64_toInt n)
    · intro e
      simp [h, hdefined, hfits, eq_comm]

theorem of_undefined (h : ∀ n, ¬ exact n) (hundefined : undefined) (hkept : ¬ lost) :
    Computes (.error .divisionByZero) exact undefined lost where
  ok_iff v := by simp [h]
  error_iff e := by simp [h, hundefined, hkept, eq_comm]

theorem of_lost (hdefined : ¬ undefined) (hlost : lost) :
    Computes (.error .overflow) exact undefined lost where
  ok_iff v := by simp [hlost]
  error_iff e := by simp [hdefined, hlost, eq_comm]

end Computes

namespace Value

open ArithOp

theorem intArith_computes (op : ArithOp) (a b : Int64) :
    Computes (intArith op a.toInt b.toInt) (op.Exact a.toInt b.toInt) (op.Divides ∧ b = 0)
      (op = .rem ∧ Extreme a b) := by
  have hzero : b.toInt = 0 ↔ b = 0 := ⟨fun h => Int64.toInt_inj.1 h, fun h => by rw [h]; rfl⟩
  cases op with
  | add | sub | mul => exact .of_checked (fun _ => Iff.rfl) (by simp [Divides]) (by simp)
  | div =>
    dsimp only [intArith]
    by_cases hb : b = 0
    · rw [if_pos (hzero.2 hb)]
      exact .of_undefined (fun n h => (exact_div.1 h).1 (hzero.2 hb)) (by simp [Divides, hb])
        (by simp)
    · have hb' := mt hzero.1 hb
      rw [if_neg hb']
      exact .of_checked (fun n => by simp [exact_div, hb']) (by simp [hb]) (by simp)
  | rem =>
    dsimp only [intArith]
    by_cases hb : b = 0
    · rw [if_pos (hzero.2 hb)]
      refine .of_undefined (fun n h => (exact_rem.1 h).1 (hzero.2 hb)) ⟨.inr rfl, hb⟩ ?_
      rintro ⟨-, -, rfl⟩
      exact absurd hb (by decide)
    · have hb' := mt hzero.1 hb
      have hle := tdiv_le_iff (a := a) hb'
      -- the remainder itself always fits; what is checked is the quotient
      rw [if_neg hb']
      split
      · next hkept =>
        exact .of_checked (fun n => by simp [exact_rem, hb']) (by simp [hb])
          fun h => hle.1 hkept h.2
      · next hlost => exact .of_lost (by simp [hb]) ⟨rfl, Classical.not_not.1 (mt hle.2 hlost)⟩

theorem negate_computes (a : Int64) :
    Computes (negate (int a)) (fun n => n = -a.toInt) False False :=
  .of_checked (fun _ => Iff.rfl) id id

theorem abs_computes (a : Int64) :
    Computes (Value.apply .abs [int a]) (fun n => n = a.toInt.natAbs) False False :=
  .of_checked (fun _ => Iff.rfl) id id

end Value

namespace Expr

variable {env : Environment} {l r : Expr} {a b : Int64}

theorem eval_arith (op : ArithOp) (hl : l.eval env = .ok (.int a))
    (hr : r.eval env = .ok (.int b)) :
    (Expr.arith op l r).eval env = Value.intArith op a.toInt b.toInt := by
  rw [eval, hl, hr]
  rfl

/-- Arithmetic on integers, negation and the absolute value are exact where the exact result fits
into 64 bits; they fail for a zero divisor and for overflow alone, and for overflow also in the
remainder of the least integer by -1. What is divided is recovered from the quotient and the
remainder. -/
theorem eval_integers (hl : l.eval env = .ok (.int a)) (hr : r.eval env = .ok (.int b)) :
    (∀ op, Computes ((Expr.arith op l r).eval env) (op.Exact a.toInt b.toInt)
      (op.Divides ∧ b = 0) (op = .rem ∧ a = Int64.minValue ∧ b = -1)) ∧
    Computes ((Expr.negate l).eval env) (fun n => n = -a.toInt) False False ∧
    Computes ((Expr.call .abs [l]).eval env) (fun n => n = a.toInt.natAbs) False False ∧
    (∀ q, (Expr.arith .div l r).eval env = .ok (.int q) →
      ∃ m, (Expr.arith .rem l r).eval env = .ok (.int m) ∧ a.toInt = q.toInt * b.toInt + m.toInt ∧
        (Expr.arith .add (.arith .mul (.arith .div l r) r) (.arith .rem l r)).eval env =
          .ok (.int a)) ∧
    EvalError.divisionByZero.message = "division by zero" ∧
    EvalError.overflow.message = "integer overflow" := by
  have hop : ∀ op, Computes ((Expr.arith op l r).eval env) (op.Exact a.toInt b.toInt)
      (op.Divides ∧ b = 0) (op = .rem ∧ a = Int64.minValue ∧ b = -1) := fun op => by
    rw [eval_arith op hl hr]
    exact Value.intArith_computes op a b
  refine ⟨hop, ?_, ?_, ?_, rfl, rfl⟩
  · have heval : (Expr.negate l).eval env = (Value.int a).negate := by
      rw [eval, hl]
      rfl
    rw [heval]
    exact Value.negate_computes a
  · have heval : (Expr.call .abs [l]).eval env = Value.apply .abs [.int a] := by
      rw [eval, evalAll, hl, evalAll]
      exact bind_pure (Value.apply .abs [.int a])
    rw [heval]
    exact Value.abs_computes a
  · intro q hq
    obtain ⟨n, hn, ⟨s, hdiv⟩, -⟩ := ((hop .div).ok_iff _).1 hq
    obtain rfl := Value.int.inj hn
    obtain ⟨hs, hproduct⟩ := hdiv.fits (fits64_toInt a)
    obtain ⟨m, rfl⟩ := Value.exists_toInt hs
    obtain ⟨k, hk⟩ := Value.exists_toInt hproduct
    have hkept : ¬ ArithOp.Extreme a b :=
      (ArithOp.tdiv_le_iff hdiv.divisor_ne_zero).1 (hdiv.unique.1 ▸ q.toInt_le)
    have hrem : (Expr.arith .rem l r).eval env = .ok (.int m) :=
      ((hop .rem).ok_iff _).2 ⟨m, rfl, ⟨_, hdiv⟩, fun h => hkept h.2⟩
    have hmul : (Expr.arith .mul (.arith .div l r) r).eval env = .ok (.int k) := by
      rw [eval_arith .mul hq hr, ← Value.checked_toInt k, hk]
      rfl
    refine ⟨m, hrem, hdiv.eq, ?_⟩
    rw [eval_arith .add hmul hrem, ← Value.checked_toInt a, hdiv.eq, ← hk]
    rfl

theorem eval_integers_least :
    (literal (.int Int64.minValue)).eval ⟨[]⟩ = .ok (.int Int64.minValue) ∧
      (literal (.int (-1))).eval ⟨[]⟩ = .ok (.int (-1)) ∧
      ∀ op, Computes
        ((Expr.arith op (.literal (.int Int64.minValue)) (.literal (.int (-1)))).eval ⟨[]⟩)
        (op.Exact Int64.minValue.toInt (-1 : Int64).toInt) (op.Divides ∧ (-1 : Int64) = 0)
        (op = .rem ∧ Int64.minValue = Int64.minValue ∧ (-1 : Int64) = -1) :=
  ⟨rfl, rfl, (eval_integers rfl rfl).1⟩

/-- The remainder of the least integer by -1 is zero, but its evaluation overflows. -/
theorem eval_rem_least :
    ArithOp.rem.Exact Int64.minValue.toInt (-1) 0 ∧ Fits64 0 ∧
      (Expr.arith .rem (.literal (.int Int64.minValue)) (.literal (.int (-1)))).eval ⟨[]⟩ =
        .error .overflow :=
  ⟨⟨9223372036854775808, rfl, by decide, fun h => absurd rfl h⟩, by decide, rfl⟩

end Expr

end RelQuery
