import Mathlib
import RelQuery.Proofs.Packing
import RelQuery.Number.Binary

namespace RelQuery

open Float.Model (Format UnpackedFloat totalExponent)
open Float.Model.UnpackedFloat

namespace UnitInterval

variable {spec : Format} {f g : UnpackedFloat} {m n k : Nat}

/-- A number of the unit interval, of the form `m * 2 ^ -k` with `m ≤ 2 ^ k`. Rounding keeps it. -/
def InUnit : UnpackedFloat → Prop
  | .zero _ => True
  | .finite .positive m e _ => ∃ k : Nat, e = -k ∧ m ≤ 2 ^ k
  | _ => False

theorem InUnit.cases (h : InUnit f) :
    (∃ s, f = .zero s) ∨
      ∃ (m k : Nat) (hm : 0 < m), f = .finite .positive m (-(k : Int)) hm ∧ m ≤ 2 ^ k := by
  match f, h with
  | .zero s, _ => exact .inl ⟨s, rfl⟩
  | .finite .positive m _ hm, ⟨k, rfl, h⟩ => exact .inr ⟨m, k, hm, rfl, h⟩

theorem code_two_pow_shiftRight (k j : Nat) :
    Mantissa.code (ExtendedMantissa.ofMantissaAndAccuracy (2 ^ (k + j)) .exact >>> j) =
      4 * 2 ^ k := by
  induction j generalizing k with
  | zero => rfl
  | succ j ih =>
    have hsplit : k + (j + 1) = k + 1 + j := by omega
    rw [Mantissa.shiftRight_succ, Mantissa.code_shiftRightOne, hsplit, ih,
      Nat.mul_div_cancel_left _ (by decide), Nat.mul_mod_right, if_pos rfl, Nat.pow_succ]
    ring

theorem roundedMantissa_two_pow_shiftRight (k j : Nat) :
    (ExtendedMantissa.ofMantissaAndAccuracy (2 ^ (k + j)) .exact >>> j).roundedMantissa =
      2 ^ k := by
  rw [Mantissa.roundedMantissa_eq, code_two_pow_shiftRight, Nat.mul_mod_right,
    Nat.mul_div_cancel_left _ (by decide), if_pos (by decide), Nat.add_zero]

theorem mantissa_ofMantissaAndAccuracy (m : Nat) (acc : Accuracy) :
    (ExtendedMantissa.ofMantissaAndAccuracy m acc).mantissa = m := by
  rcases acc with _ | (_ | _ | _) <;> rfl

theorem minExponent_nonpos (spec : Format) : spec.minExponent ≤ 0 := by
  have hpos := spec.hm
  rw [Packing.minExponent_eq]
  omega

/-- A number of the unit interval is never shifted past the unit digit. -/
theorem exists_shiftToTargetExponent (spec : Format) (acc : Accuracy) (h : m ≤ 2 ^ k) :
    ∃ j ≤ k, shiftToTargetExponent spec m (-(k : Int)) acc =
      (ExtendedMantissa.ofMantissaAndAccuracy m acc >>> j, -((k - j : Nat) : Int)) := by
  have hlog : m.log2 ≤ k := by
    rcases eq_or_ne m 0 with rfl | hm
    · exact Nat.log2_zero ▸ Nat.zero_le k
    · exact (Double.log2_mono hm h).trans_eq Nat.log2_two_pow
  have hmin := minExponent_nonpos spec
  have hbits := Packing.mantissaBits_eq spec
  have htarget : spec.targetExponent (totalExponent m (-(k : Int))) ≤ 0 := by
    unfold Format.targetExponent totalExponent
    omega
  refine ⟨(spec.targetExponent (totalExponent m (-(k : Int))) - -(k : Int)).toNat, by omega, ?_⟩
  rw [shiftToTargetExponent, shiftToExponent]
  congr 1
  omega

theorem inUnit_roundWithAccuracy {acc : Accuracy}
    (h : Mantissa.code (ExtendedMantissa.ofMantissaAndAccuracy m acc) ≤ 4 * 2 ^ k) :
    InUnit (roundWithAccuracy spec .positive m (-(k : Int)) acc) := by
  have hm : m ≤ 2 ^ k := by
    rw [← mantissa_ofMantissaAndAccuracy m acc, Mantissa.mantissa_eq]
    omega
  obtain ⟨j, hj, hfirst⟩ := exists_shiftToTargetExponent spec acc hm
  set r := (ExtendedMantissa.ofMantissaAndAccuracy m acc >>> j).roundedMantissa with hr
  -- rounding is monotone and keeps powers of two, one among them
  have hround : r ≤ 2 ^ (k - j) := by
    rw [← roundedMantissa_two_pow_shiftRight (k - j) j, Nat.sub_add_cancel hj]
    exact Mantissa.roundedMantissa_mono (Mantissa.code_shiftRight_mono h j)
  obtain ⟨l, hl, hsecond⟩ := exists_shiftToTargetExponent spec .exact hround
  have hcut : r / 2 ^ l ≤ 2 ^ (k - j - l) := by
    rw [← Nat.pow_div hl Nat.two_pos]
    exact Nat.div_le_div_right hround
  simp only [roundWithAccuracy, hfirst, ← hr, hsecond, Double.mantissa_exact]
  split
  · trivial
  · exact ⟨_, rfl, hcut⟩

theorem inUnit_round (h : n ≤ 2 ^ k) :
    InUnit (UnpackedFloat.round spec .positive n (-(k : Int))) := by
  set d := (-(k : Int) - spec.targetExponent (totalExponent n (-(k : Int)))).toNat
  have hexp : -(k : Int) - d = -((k + d : Nat) : Int) := by omega
  rw [UnpackedFloat.round, decreaseExponent, Nat.shiftLeft_eq, hexp]
  apply inUnit_roundWithAccuracy
  rw [Double.code_exact, Nat.pow_add]
  exact Nat.mul_le_mul_left 4 (Nat.mul_le_mul_right _ h)

theorem inUnit_mul (hf : InUnit f) (hg : InUnit g) : InUnit (UnpackedFloat.mul spec f g) := by
  obtain ⟨s, rfl⟩ | ⟨m, k, hm, rfl, h⟩ := hf.cases <;>
    obtain ⟨t, rfl⟩ | ⟨n, l, hn, rfl, h'⟩ := hg.cases
  · trivial
  · trivial
  · trivial
  · have hexp : -(k : Int) + -(l : Int) = -((k + l : Nat) : Int) := by omega
    simp only [UnpackedFloat.mul, hexp]
    apply inUnit_roundWithAccuracy
    rw [Double.code_exact, Nat.pow_add]
    exact Nat.mul_le_mul_left 4 (Nat.mul_le_mul h h')

/-- One in unpacked form, with `k` places after the point. -/
def one (k : Nat) : UnpackedFloat := .finite .positive (2 ^ k) (-k) (Nat.two_pow_pos k)

theorem inUnit_sub (hf : InUnit f) : InUnit (UnpackedFloat.sub spec (one k) f) := by
  obtain ⟨s, rfl⟩ | ⟨m, l, hm, rfl, h⟩ := hf.cases
  · exact ⟨k, rfl, le_rfl⟩
  · have hmin : min (-(k : Int)) (-(l : Int)) = -((max k l : Nat) : Int) := by omega
    have hk : (-(k : Int) - -((max k l : Nat) : Int)).toNat = max k l - k := by omega
    have hl : (-(l : Int) - -((max k l : Nat) : Int)).toNat = max k l - l := by omega
    have hone : 2 ^ k * 2 ^ (max k l - k) = 2 ^ max k l := by
      rw [← Nat.pow_add, Nat.add_sub_cancel' (le_max_left k l)]
    have hle : m * 2 ^ (max k l - l) ≤ 2 ^ max k l := by
      calc m * 2 ^ (max k l - l) ≤ 2 ^ l * 2 ^ (max k l - l) := Nat.mul_le_mul_right _ h
        _ = 2 ^ max k l := by rw [← Nat.pow_add, Nat.add_sub_cancel' (le_max_right k l)]
    simp only [one, UnpackedFloat.sub, decreaseExponent, Nat.shiftLeft_eq, hmin, hk, hl, hone,
      Sign.apply, UnpackedFloat.normalize]
    rw [← Nat.cast_sub hle]
    split
    · exact absurd (compare_lt_iff_lt.1 ‹_›) (Int.natCast_nonneg _).not_gt
    · trivial
    · apply inUnit_round
      omega

theorem code_le (m : Nat) (acc : Accuracy) :
    Mantissa.code (ExtendedMantissa.ofMantissaAndAccuracy m acc) < 4 * (m + 1) := by
  rcases acc with _ | (_ | _ | _) <;>
    simp only [ExtendedMantissa.ofMantissaAndAccuracy, Mantissa.code] <;> split_ifs <;> omega

/-- A bound of a quotient is a bound of its digits and of what is left over. -/
theorem code_quotient_le {b : Nat} (h : n ≤ m * b) :
    Mantissa.code (ExtendedMantissa.ofMantissaAndAccuracy (n / b) (accuracyOfFraction (n % b) b)) ≤
      4 * m := by
  have hdiv : n / b ≤ m := Nat.div_le_of_le_mul (Nat.mul_comm m b ▸ h)
  by_cases hmod : n % b = 0
  · rw [hmod, accuracyOfFraction, if_pos rfl, Double.code_exact]
    omega
  · have hlt : n / b < m := by
      refine lt_of_le_of_ne hdiv fun heq => hmod ?_
      have hsum := Nat.div_add_mod n b
      rw [heq, Nat.mul_comm] at hsum
      omega
    have hcode := code_le (n / b) (accuracyOfFraction (n % b) b)
    omega

theorem inUnit_div {e : Int} {hm : 0 < m} (h : 2 ^ k ≤ m) (he : -(k : Int) ≤ e) :
    InUnit (UnpackedFloat.div spec (one k) (.finite .positive m e hm)) := by
  set t := min (-(k : Int) - e) (spec.targetExponent
    (totalExponent (2 ^ k) (-k) - totalExponent m e)) with ht
  set d := (-(k : Int) - e - t).toNat with hd
  have hexp : t = -((-t).toNat : Int) := by omega
  have hdiv : UnpackedFloat.div spec (one k) (.finite .positive m e hm) =
      roundWithAccuracy spec .positive (2 ^ k <<< d / m) t
        (accuracyOfFraction (2 ^ k <<< d % m) m) := rfl
  rw [hdiv, hexp]
  apply inUnit_roundWithAccuracy
  apply code_quotient_le
  rw [Nat.shiftLeft_eq, Nat.mul_comm (2 ^ k)]
  exact Nat.mul_le_mul (Nat.pow_le_pow_right Nat.two_pos (by omega)) h

end UnitInterval

namespace Single

open UnitInterval

variable {x y : Float32}

/-- A number of the unit interval. -/
def IsFraction (x : Float32) : Prop := 0.0 ≤ x ∧ x ≤ 1.0

theorem unpack_one : (1.0 : Float32).toModel.unpack = one 23 := by
  rfl

theorem unpack_zero : (0.0 : Float32).toModel.unpack = .zero .positive := by
  rfl

theorem le_iff : x ≤ y ↔ UnpackedFloat.le x.toModel.unpack y.toModel.unpack = true :=
  decide_eq_true_iff

theorem lt_iff : x < y ↔ UnpackedFloat.lt x.toModel.unpack y.toModel.unpack = true :=
  decide_eq_true_iff

section Canonical

variable {m : Nat} {e : Int} {hm : 0 < m}

theorem inUnit_finite_iff (h : Packing.Canonical .binary32 m e) :
    InUnit (.finite .positive m e hm) ↔ e < -23 ∨ e = -23 ∧ m ≤ 2 ^ 23 := by
  have hdigits : m < 2 ^ 24 := h.digits
  constructor
  · rintro ⟨k, rfl, hk⟩
    rcases lt_trichotomy k 23 with hlt | rfl | hgt
    · have hlead : 2 ^ 23 ≤ m := h.leading (by
        have hmin : Format.minExponent .binary32 = -149 := rfl
        omega)
      exact absurd (hlead.trans hk) (Nat.pow_lt_pow_right Nat.one_lt_two hlt).not_ge
    · exact .inr ⟨rfl, hk⟩
    · exact .inl (by omega)
  · rintro (hlt | ⟨rfl, hle⟩)
    · refine ⟨(-e).toNat, by omega, hdigits.le.trans ?_⟩
      exact Nat.pow_le_pow_right Nat.two_pos (by omega)
    · exact ⟨23, rfl, hle⟩

theorem le_one_iff : UnpackedFloat.le (.finite .positive m e hm) (one 23) = true ↔
      e < -23 ∨ e = -23 ∧ m ≤ 2 ^ 23 := by
  simp only [UnpackedFloat.le, UnpackedFloat.compare, one, Option.any_some,
    Ordering.isLE_then_iff_or, compare_lt_iff_lt, compare_eq_iff_eq, Nat.isLE_compare,
    Nat.cast_ofNat]

theorem one_lt_iff : UnpackedFloat.lt (one 23) (.finite .positive m e hm) = true ↔
      ¬ (e < -23 ∨ e = -23 ∧ m ≤ 2 ^ 23) := by
  simp only [UnpackedFloat.lt, UnpackedFloat.compare, one, beq_iff_eq, Option.some_inj,
    Ordering.then_eq_lt, compare_lt_iff_lt, compare_eq_iff_eq]
  omega

end Canonical

theorem isFraction_iff : IsFraction x ↔ InUnit x.toModel.unpack := by
  rw [IsFraction, le_iff, le_iff, unpack_zero, unpack_one]
  cases hx : x.toModel.unpack with
  | notANumber => exact ⟨fun h => Bool.noConfusion h.1, False.elim⟩
  | infinity s =>
    cases s with
    | negative => exact ⟨fun h => Bool.noConfusion h.1, False.elim⟩
    | positive => exact ⟨fun h => Bool.noConfusion h.2, False.elim⟩
  | zero s => exact ⟨fun _ => trivial, fun _ => ⟨rfl, rfl⟩⟩
  | finite s m e hm =>
    cases s with
    | negative => exact ⟨fun h => Bool.noConfusion h.1, False.elim⟩
    | positive =>
      rw [le_one_iff, inUnit_finite_iff (Packing.canonical_of_unpack hx)]
      exact and_iff_right rfl

theorem inUnit_subnormal {mantissa : Nat} (h : mantissa < 2 ^ 23) :
    InUnit (Packing.ofFields .binary32 .positive 0 mantissa) := by
  rw [Packing.ofFields, if_neg (by decide), if_pos rfl]
  split_ifs
  · trivial
  · exact ⟨149, rfl, h.le.trans (Nat.pow_le_pow_right Nat.two_pos (by decide))⟩

theorem inUnit_unpack_pack {f : UnpackedFloat} (h : InUnit f) :
    InUnit (unpack .binary32 (pack .binary32 f)) := by
  obtain ⟨s, rfl⟩ | ⟨m, k, hm, rfl, hle⟩ := h.cases
  · rw [pack, Packing.unpack_packedZero]
    trivial
  have hbias : Format.exponentBias .binary32 = 127 := rfl
  have hbits : Format.mantissaBits .binary32 = 24 := rfl
  have hcapacity : 2 ^ Format.exponentBits .binary32 = 256 := rfl
  have hmin : Format.minExponent .binary32 = -149 := rfl
  simp only [pack, hbias, hbits, hcapacity]
  split_ifs with hover hlog
  · omega
  · obtain ⟨hlead, hdigits⟩ := (Nat.log2_eq_iff hm.ne').1 (Nat.succ.inj hlog)
    rw [Packing.unpack_packComponents, BitVec.toNat_ofNat, BitVec.toNat_ofNat]
    rw [hcapacity, Nat.mod_eq_of_lt (by omega)]
    rcases Nat.eq_zero_or_pos (-(k : Int) + (127 : Nat) + (23 : Nat)).toNat with hzero | hpos
    · rw [hzero]
      exact inUnit_subnormal (Nat.mod_lt _ (by decide))
    · have hcanonical : Packing.Canonical .binary32 m (-(k : Int)) :=
        ⟨hdigits, by omega, fun _ => hlead⟩
      rw [Packing.ofFields_leading hm hcanonical hlead (by omega) (by omega)]
      exact h
  · rw [Packing.unpack_packComponents, BitVec.toNat_zero, BitVec.toNat_ofNat]
    exact inUnit_subnormal (Nat.mod_lt _ (by decide))

theorem isFraction_zero : IsFraction 0.0 := isFraction_iff.2 trivial

theorem isFraction_one : IsFraction 1.0 := isFraction_iff.2 ⟨23, rfl, le_rfl⟩

theorem isNaN_eq (x : Float32) : x.isNaN = x.toModel.unpack.isNaN := rfl

theorem IsFraction.isNaN_eq_false (h : IsFraction x) : x.isNaN = false := by
  rw [isFraction_iff] at h
  rw [isNaN_eq]
  obtain ⟨s, hx⟩ | ⟨m, k, hm, hx, -⟩ := h.cases <;> rw [hx] <;> rfl

theorem isFraction_clampUnit (h : x.isNaN = false) : IsFraction (clampUnit x) := by
  unfold clampUnit
  split_ifs with hneg hbig
  · exact isFraction_zero
  · exact isFraction_one
  rw [lt_iff, unpack_zero] at hneg
  rw [lt_iff, unpack_one] at hbig
  rw [isNaN_eq] at h
  rw [isFraction_iff]
  cases hx : x.toModel.unpack with
  | notANumber => rw [hx] at h; exact Bool.noConfusion h
  | infinity s =>
    rw [hx] at hneg hbig
    cases s with
    | negative => exact absurd rfl hneg
    | positive => exact absurd rfl hbig
  | zero s => trivial
  | finite s m e hm =>
    rw [hx] at hneg hbig
    cases s with
    | negative => exact absurd rfl hneg
    | positive =>
      rw [one_lt_iff, not_not] at hbig
      exact (inUnit_finite_iff (Packing.canonical_of_unpack hx)).2 hbig

theorem isFraction_mul (hx : IsFraction x) (hy : IsFraction y) : IsFraction (x * y) := by
  rw [isFraction_iff] at *
  exact inUnit_unpack_pack (inUnit_mul hx hy)

theorem isFraction_one_sub (hx : IsFraction x) : IsFraction (1.0 - x) := by
  rw [isFraction_iff] at *
  apply inUnit_unpack_pack
  rw [unpack_one]
  exact inUnit_sub hx

/-- A count is rounded to at least one, and may be too large to be finite. -/
theorem isFraction_reciprocal {n : Nat} (hn : n ≠ 0) : IsFraction (1.0 / ofNat n) := by
  obtain ⟨m, e, hm, hround, hcanonical, htotal⟩ :=
    Packing.exists_round .binary32 .positive (e := 0) hn (by decide)
  have hnormal : UnpackedFloat.normalize .binary32 n 0 .positive = .finite .positive m e hm := by
    rw [Packing.normalize_of_ne_zero (Int.natCast_ne_zero.2 hn), if_neg (by omega),
      Int.natAbs_natCast, hround]
  have hcount : (ofNat n).toModel.unpack =
      unpack .binary32 (pack .binary32 (.finite .positive m e hm)) := hnormal ▸ rfl
  have hlog : m.log2 < 24 := (Nat.log2_lt hm.ne').2 hcanonical.digits
  have he : -23 ≤ e := by
    unfold totalExponent at htotal
    omega
  have hlead : 2 ^ 23 ≤ m := hcanonical.leading (lt_of_lt_of_le (by decide) he)
  rw [isFraction_iff]
  apply inUnit_unpack_pack
  rw [unpack_one, hcount]
  -- a count too large for the format is infinite, and its reciprocal is zero
  rcases Packing.unpack_pack_finite .positive hm hcanonical with hfits | hlarge
  · rw [hfits]
    exact inUnit_div hlead he
  · rw [hlarge]
    trivial

theorem isFraction_product {xs : List Float32} (h : ∀ x ∈ xs, IsFraction x) :
    IsFraction (product xs) := by
  have hfold : ∀ y, IsFraction y → IsFraction (xs.foldl (· * ·) y) := by
    induction xs with
    | nil => exact fun _ hy => hy
    | cons x xs ih =>
      intro y hy
      exact ih (fun z hz => h z (List.mem_cons_of_mem x hz)) _
        (isFraction_mul hy (h x List.mem_cons_self))
  exact hfold 1.0 isFraction_one

theorem isNaN_mul (h : x.isNaN = true ∨ y.isNaN = true) : (x * y).isNaN = true := by
  have hmul : (x * y).isNaN =
      (UnpackedFloat.mul .binary32 x.toModel.unpack y.toModel.unpack).isNaN :=
    Packing.isNaN_unpack_pack _
  rw [hmul]
  rcases h with h | h <;> rw [Packing.eq_notANumber h]
  · rfl
  · cases x.toModel.unpack <;> rfl

theorem isNaN_one_sub (h : x.isNaN = true) : (1.0 - x).isNaN = true := by
  have hsub : (1.0 - x).isNaN =
      (UnpackedFloat.sub .binary32 (one 23) x.toModel.unpack).isNaN :=
    Packing.isNaN_unpack_pack _
  rw [hsub, Packing.eq_notANumber h]
  rfl

theorem isNaN_clampUnit (h : x.isNaN = true) : (clampUnit x).isNaN = true := by
  have hx := Packing.eq_notANumber h
  rw [clampUnit, if_neg (by rw [lt_iff, hx]; exact Bool.noConfusion),
    if_neg (by rw [lt_iff, hx]; exact Bool.noConfusion)]
  exact h

theorem isNaN_product {xs : List Float32} (hx : x ∈ xs) (h : x.isNaN = true) :
    (product xs).isNaN = true := by
  have hfold : ∀ y : Float32, y.isNaN = true ∨ x ∈ xs → (xs.foldl (· * ·) y).isNaN = true := by
    clear hx
    induction xs with
    | nil => exact fun y hy => hy.resolve_right List.not_mem_nil
    | cons z xs ih =>
      intro y hy
      apply ih
      rcases hy with hy | hy
      · exact .inl (isNaN_mul (.inl hy))
      · rcases List.mem_cons.1 hy with rfl | hy
        · exact .inl (isNaN_mul (.inr h))
        · exact .inr hy
  exact hfold 1.0 (.inr hx)

/-- A number of the unit interval, unless a condition leaves no number at all. -/
structure FractionUnless (p : Prop) (x : Float32) : Prop where
  isFraction : ¬p → IsFraction x
  isNaN : p → x.isNaN = true

namespace FractionUnless

variable {p : Prop}

theorem of_not (hp : ¬p) (hx : IsFraction x) : FractionUnless p x :=
  ⟨fun _ => hx, fun h => absurd h hp⟩

theorem isFraction_iff (h : FractionUnless p x) : IsFraction x ↔ ¬p := by
  refine ⟨fun hx hp => ?_, h.isFraction⟩
  exact Bool.false_ne_true (hx.isNaN_eq_false.symm.trans (h.isNaN hp))

theorem one_sub (h : FractionUnless p x) : FractionUnless p (1.0 - x) :=
  ⟨fun hp => isFraction_one_sub (h.isFraction hp), fun hp => isNaN_one_sub (h.isNaN hp)⟩

theorem clampUnit (h : FractionUnless p x) : FractionUnless p (Single.clampUnit x) :=
  ⟨fun hp => isFraction_clampUnit (h.isFraction hp).isNaN_eq_false,
    fun hp => isNaN_clampUnit (h.isNaN hp)⟩

theorem product {α : Type} {p : α → Prop} {f : α → Float32} {as : List α}
    (h : ∀ a ∈ as, FractionUnless (p a) (f a)) :
    FractionUnless (∃ a ∈ as, p a) (Single.product (as.map f)) := by
  constructor
  · intro hnone
    refine isFraction_product (List.forall_mem_map.2 fun a ha => ?_)
    exact (h a ha).isFraction fun hp => hnone ⟨a, ha, hp⟩
  · rintro ⟨a, ha, hp⟩
    exact isNaN_product (List.mem_map_of_mem ha) ((h a ha).isNaN hp)

end FractionUnless

end Single

end RelQuery
