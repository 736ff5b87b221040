import Mathlib
import RelQuery.Proofs.Packing
import RelQuery.Number.Binary

namespace RelQuery

open Float.Model (Format UnpackedFloat)
open Float.Model.UnpackedFloat

namespace Packing

variable {spec : Format} {f g : UnpackedFloat} {m n : Nat} {e l : Int}

theorem Canonical.le_of_scaled_eq (h : Canonical spec m e) (h' : Canonical spec n l)
    (heq : m * 2 ^ (e - min e l).toNat = n * 2 ^ (l - min e l).toNat) : l ≤ e := by
  -- with the lower exponent, the first mantissa would need a digit more than the format has
  by_contra hlt
  have hlead : 2 ^ spec.mantissaBitsWithoutImplicit ≤ n := h'.leading (by have := h.least; omega)
  have hdigits : m < 2 ^ spec.mantissaBits := h.digits
  have hzero : (e - min e l).toNat = 0 := by omega
  have htwo : 2 ≤ 2 ^ (l - min e l).toNat := Nat.le_self_pow (by omega) 2
  rw [hzero, Nat.pow_zero, Nat.mul_one] at heq
  rw [two_pow_mantissaBits, heq, Nat.mul_comm n] at hdigits
  exact absurd hdigits (Nat.mul_le_mul htwo hlead).not_gt

theorem Canonical.eq_of_scaled_eq (h : Canonical spec m e) (h' : Canonical spec n l)
    (heq : m * 2 ^ (e - min e l).toNat = n * 2 ^ (l - min e l).toNat) : m = n ∧ e = l := by
  obtain rfl : e = l := by
    refine le_antisymm (h'.le_of_scaled_eq h ?_) (h.le_of_scaled_eq h' heq)
    rw [min_comm, heq]
  exact ⟨Nat.eq_of_mul_eq_mul_right (Nat.two_pow_pos _) heq, rfl⟩

theorem isNaN_roundWithAccuracy (s : Sign) (m : Nat) (e : Int) (acc : Accuracy) :
    (roundWithAccuracy spec s m e acc).isNaN = false := by
  unfold roundWithAccuracy
  dsimp only
  split <;> rfl

theorem isNaN_normalize (i e : Int) (zeroSign : Sign) :
    (UnpackedFloat.normalize spec i e zeroSign).isNaN = false := by
  unfold UnpackedFloat.normalize UnpackedFloat.round
  split
  · exact isNaN_roundWithAccuracy ..
  · rfl
  · exact isNaN_roundWithAccuracy ..

theorem apply_inj {s t : Sign} (hm : 0 < m) (hn : 0 < n) (h : s.apply m = t.apply n) :
    s = t ∧ m = n := by
  cases s <;> cases t <;> simp only [Sign.apply] at h
  · exact ⟨rfl, by omega⟩
  · omega
  · omega
  · exact ⟨rfl, by omega⟩

/-- The difference of two finite numbers is zero only if they are equal. -/
theorem exists_sub_finite {s t : Sign} {hm : 0 < m} {hn : 0 < n} (h : Canonical spec m e)
    (h' : Canonical spec n l)
    (hne : UnpackedFloat.beq (.finite t n l hn) (.finite s m e hm) = false) :
    ∃ u k i hk, UnpackedFloat.sub spec (.finite s m e hm) (.finite t n l hn) = .finite u k i hk ∧
      Canonical spec k i := by
  simp only [UnpackedFloat.sub, decreaseExponent, Nat.shiftLeft_eq]
  refine exists_normalize .positive (fun hzero => ?_) (le_min h.least h'.least)
  obtain ⟨rfl, heq⟩ := apply_inj (Nat.mul_pos hm (Nat.two_pow_pos _))
    (Nat.mul_pos hn (Nat.two_pow_pos _)) (sub_eq_zero.1 hzero)
  obtain ⟨rfl, rfl⟩ := h.eq_of_scaled_eq h' heq
  cases s <;> simp [UnpackedFloat.beq, UnpackedFloat.compare] at hne

theorem isFinite_of_unpack_pack (h : (unpack spec (pack spec f)).isFinite = true) :
    f.isFinite = true := by
  cases f with
  | notANumber => rwa [pack, unpack_packedNaN] at h
  | infinity s => rwa [pack, unpack_packedInfinity] at h
  | zero s => rfl
  | finite s m e hm => rfl

theorem isFinite_sub (h : (UnpackedFloat.sub spec f g).isFinite = true) :
    f.isFinite = true ∧ g.isFinite = true := by
  cases f with
  | notANumber => exact Bool.noConfusion h
  | infinity s =>
    cases g with
    | infinity t => cases s <;> cases t <;> exact Bool.noConfusion h
    | _ => exact Bool.noConfusion h
  | zero s | finite s =>
    cases g with
    | notANumber | infinity => exact Bool.noConfusion h
    | zero | finite => exact ⟨rfl, rfl⟩

theorem isNaN_sub (h : (UnpackedFloat.sub spec f g).isNaN = true) :
    f.isNaN = true ∨ g.isNaN = true ∨ f.isFinite = false ∧ g.isFinite = false := by
  cases f with
  | notANumber => exact .inl rfl
  | infinity s =>
    cases g with
    | notANumber => exact .inr (.inl rfl)
    | infinity t => exact .inr (.inr ⟨rfl, rfl⟩)
    | zero | finite => exact Bool.noConfusion h
  | zero s =>
    cases g with
    | notANumber => exact .inr (.inl rfl)
    | zero t => cases s <;> cases t <;> exact Bool.noConfusion h
    | infinity | finite => exact Bool.noConfusion h
  | finite s m e hm =>
    cases g with
    | notANumber => exact .inr (.inl rfl)
    | finite t n l hn =>
      simp only [UnpackedFloat.sub, isNaN_normalize] at h
      exact Bool.noConfusion h
    | infinity | zero => exact Bool.noConfusion h

/-- An infinity, or a finite number other than zero in the format's own form. -/
def Nonzero (spec : Format) (f : UnpackedFloat) : Prop :=
  (∃ s, f = .infinity s) ∨ ∃ s m e hm, f = .finite s m e hm ∧ Canonical spec m e

theorem Nonzero.unpack_pack (h : Nonzero spec f) : Nonzero spec (unpack spec (pack spec f)) := by
  obtain ⟨s, rfl⟩ | ⟨s, m, e, hm, rfl, hcanonical⟩ := h
  · exact .inl ⟨s, unpack_packedInfinity s⟩
  · rcases unpack_pack_finite s hm hcanonical with hfits | hlarge
    · exact .inr ⟨s, m, e, hm, hfits, hcanonical⟩
    · exact .inl ⟨s, hlarge⟩

theorem nonzero_sub {b c : BitVec spec.numBits} (hb : (unpack spec b).isNaN = false)
    (hc : (unpack spec c).isNaN = false)
    (hne : UnpackedFloat.beq (unpack spec c) (unpack spec b) = false) :
    Nonzero spec (UnpackedFloat.sub spec (unpack spec b) (unpack spec c)) := by
  cases hf : unpack spec b with
  | notANumber => simp [hf, UnpackedFloat.isNaN] at hb
  | infinity s =>
    cases hg : unpack spec c with
    | notANumber => simp [hg, UnpackedFloat.isNaN] at hc
    | infinity t =>
      rw [hf, hg] at hne
      cases s <;> cases t
      · exact Bool.noConfusion hne
      · exact .inl ⟨.negative, rfl⟩
      · exact .inl ⟨.positive, rfl⟩
      · exact Bool.noConfusion hne
    | zero t => exact .inl ⟨s, rfl⟩
    | finite t n l hn => exact .inl ⟨s, rfl⟩
  | zero s =>
    cases hg : unpack spec c with
    | notANumber => simp [hg, UnpackedFloat.isNaN] at hc
    | infinity t => exact .inl ⟨-t, rfl⟩
    | zero t =>
      rw [hf, hg] at hne
      exact Bool.noConfusion hne
    | finite t n l hn => exact .inr ⟨-t, n, l, hn, rfl, canonical_of_unpack hg⟩
  | finite s m e hm =>
    cases hg : unpack spec c with
    | notANumber => simp [hg, UnpackedFloat.isNaN] at hc
    | infinity t => exact .inl ⟨-t, rfl⟩
    | zero t => exact .inr ⟨s, m, e, hm, rfl, canonical_of_unpack hf⟩
    | finite t n l hn =>
      rw [hf, hg] at hne
      exact .inr (exists_sub_finite (canonical_of_unpack hf) (canonical_of_unpack hg) hne)

end Packing

namespace Double

variable {x y low high : Float}

theorem isNaN_eq (x : Float) : x.isNaN = x.toModel.unpack.isNaN := rfl

theorem isFinite_eq (x : Float) : x.isFinite = x.toModel.unpack.isFinite := rfl

theorem isNaN_sub_eq (x y : Float) : (x - y).isNaN =
    (UnpackedFloat.sub .binary64 x.toModel.unpack y.toModel.unpack).isNaN :=
  Packing.isNaN_unpack_pack _

theorem isNaN_div_eq (x y : Float) : (x / y).isNaN =
    (UnpackedFloat.div .binary64 x.toModel.unpack y.toModel.unpack).isNaN :=
  Packing.isNaN_unpack_pack _

theorem isNaN_eq_unpack (x : Double) : x.isNaN = (unpack .binary64 x.bits.toBitVec).isNaN :=
  Packing.isNaN_unpack_pack _

theorem isNaN_ofFloat (x : Float) : (ofFloat x).isNaN = x.isNaN := isNaN_eq_unpack _

theorem isNaN_ofInt (i : Int) : (ofInt i).isNaN = false :=
  (isNaN_ofFloat _).trans ((Packing.isNaN_unpack_pack _).trans (Packing.isNaN_normalize ..))

theorem toNat_unpackExponent (b : BitVec (Format.numBits .binary64)) :
    (@unpackExponent .binary64 b).toNat = b.toNat / 2 ^ 52 % 2 ^ 11 := by
  simp [unpackExponent, Nat.shiftRight_eq_div_pow]

theorem toNat_unpackMantissa (b : BitVec (Format.numBits .binary64)) :
    (@unpackMantissa .binary64 b).toNat = b.toNat % 2 ^ 52 := by
  simp [unpackMantissa]

theorem isNaN_unpack_iff (b : BitVec (Format.numBits .binary64)) :
    (unpack .binary64 b).isNaN = true ↔
      b.toNat / 2 ^ 52 % 2 ^ 11 = 2 ^ 11 - 1 ∧ b.toNat % 2 ^ 52 ≠ 0 := by
  rw [Packing.unpack_eq_ofFields, toNat_unpackExponent, toNat_unpackMantissa, Packing.ofFields]
  split_ifs <;> simp_all [UnpackedFloat.isNaN]

theorem ofDouble_eq_notANumber_iff (x : Double) :
    BinaryNumber.ofDouble x = .notANumber ↔ x.isNaN = true := by
  have hbits : x.bits.toBitVec.toNat = x.bits.toNat := rfl
  have hfraction : twoPow BinaryFormat.double.fractionBits = 2 ^ 52 := rfl
  have hexponent : twoPow BinaryFormat.double.exponentBits = 2 ^ 11 := rfl
  rw [isNaN_eq_unpack, isNaN_unpack_iff, hbits, BinaryNumber.ofDouble, BinaryNumber.decode,
    hfraction,
    hexponent]
  split_ifs <;> simp_all

theorem place?_eq_none_iff (x : Double) : place? x = none ↔ x.isNaN = true := by
  have hbits : x.bits.toBitVec.toNat = x.bits.toNat := rfl
  have hsign : signBit = 2 ^ 63 := rfl
  rw [isNaN_eq_unpack, isNaN_unpack_iff, hbits, place?, hsign]
  split
  · simp only [reduceCtorEq, false_iff]
    omega
  · simp only [true_iff]
    omega

theorem isNaN_toSingle (x : Double) : (toSingle x).isNaN = x.isNaN := by
  rw [Bool.eq_iff_iff, ← ofDouble_eq_notANumber_iff, toSingle]
  cases BinaryNumber.ofDouble x with
  | notANumber => exact iff_of_true rfl rfl
  | infinite s => cases s <;> exact iff_of_false Bool.false_ne_true BinaryNumber.noConfusion
  | finite s m e =>
    have hnearest : (Float32.ofModel (.pack (nearest .binary32 s m e))).isNaN = false :=
      (Packing.isNaN_unpack_pack _).trans (Packing.isNaN_normalize ..)
    exact iff_of_false (Bool.eq_false_iff.1 hnearest) BinaryNumber.noConfusion

/-- The difference of two numbers that differ is a number other than zero. -/
theorem nonzero_sub (hx : x.isNaN = false) (hy : y.isNaN = false) (hne : (y == x) = false) :
    Packing.Nonzero .binary64 (x - y).toModel.unpack :=
  (Packing.nonzero_sub hx hy hne).unpack_pack

/-- A quotient by what is not zero is lost only where both sides are too large. -/
theorem isNaN_div_iff (hy : Packing.Nonzero .binary64 y.toModel.unpack) :
    (x / y).isNaN = true ↔ x.isNaN = true ∨ x.isFinite = false ∧ y.isFinite = false := by
  rw [isNaN_div_eq, isNaN_eq, isFinite_eq, isFinite_eq]
  obtain ⟨s, hg⟩ | ⟨s, m, e, hm, hg, -⟩ := hy <;> rw [hg]
  · cases x.toModel.unpack <;> simp [UnpackedFloat.div, UnpackedFloat.isNaN, UnpackedFloat.isFinite]
  · cases x.toModel.unpack with
    | finite =>
      simp only [UnpackedFloat.div, Packing.isNaN_roundWithAccuracy]
      simp [UnpackedFloat.isNaN, UnpackedFloat.isFinite]
    | _ => simp [UnpackedFloat.div, UnpackedFloat.isNaN, UnpackedFloat.isFinite]

theorem isFinite_sub (h : x.isFinite = false ∨ y.isFinite = false) : (x - y).isFinite = false := by
  by_contra hfinite
  have hpacked : (unpack .binary64 (pack .binary64
      (UnpackedFloat.sub .binary64 x.toModel.unpack y.toModel.unpack))).isFinite = true :=
    Bool.eq_true_of_not_eq_false hfinite
  obtain ⟨hx, hy⟩ := Packing.isFinite_sub (Packing.isFinite_of_unpack_pack hpacked)
  rcases h with h | h
  · exact Bool.false_ne_true (h.symm.trans hx)
  · exact Bool.false_ne_true (h.symm.trans hy)

theorem isNaN_sub (h : (x - y).isNaN = true) :
    x.isNaN = true ∨ y.isNaN = true ∨ x.isFinite = false ∧ y.isFinite = false :=
  Packing.isNaN_sub ((isNaN_sub_eq x y).symm.trans h)

theorem isNaN_sub_of_isNaN (h : x.isNaN = true ∨ y.isNaN = true) : (x - y).isNaN = true := by
  rw [isNaN_sub_eq]
  rcases h with h | h <;> rw [Packing.eq_notANumber h]
  · rfl
  · cases x.toModel.unpack <;> rfl

theorem isFinite_of_isNaN (h : x.isNaN = true) : x.isFinite = false := by
  rw [isFinite_eq, Packing.eq_notANumber h]
  rfl

/-- A distance `d` from a bound over the length of the range is not a number if the constant `x` is
not, or if both are too large. -/
theorem isNaN_ratio_iff {d l : Float} (hl : Packing.Nonzero .binary64 l.toModel.unpack)
    (hx : x.isNaN = true → d.isNaN = true)
    (hd : d.isNaN = true → x.isNaN = true ∨ l.isFinite = false) :
    (d / l).isNaN = true ↔ x.isNaN = true ∨ d.isFinite = false ∧ l.isFinite = false := by
  rw [isNaN_div_iff hl]
  constructor
  · rintro (h | h)
    · exact (hd h).imp_right fun hl => ⟨isFinite_of_isNaN h, hl⟩
    · exact .inr h
  · exact Or.imp_left hx

end Double

end RelQuery
