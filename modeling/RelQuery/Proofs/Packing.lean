import Mathlib
import RelQuery.Proofs.Rounding

namespace RelQuery

open Float.Model (Format UnpackedFloat totalExponent)
open Float.Model.UnpackedFloat

namespace Packing

variable {spec : Format} {s : Sign} {m n : Nat} {e : Int}

/-- The one form of a finite number in a format: the exponent is the least one, or the leading digit
of the mantissa stands in the first of its places. -/
structure Canonical (spec : Format) (m : Nat) (e : Int) : Prop where
  digits : m < 2 ^ spec.mantissaBits
  least : spec.minExponent ≤ e
  leading : spec.minExponent < e → 2 ^ spec.mantissaBitsWithoutImplicit ≤ m

def ofFields (spec : Format) (s : Sign) (exponent mantissa : Nat) : UnpackedFloat :=
  if exponent = 2 ^ spec.exponentBits - 1 then
    if mantissa = 0 then .infinity s else .notANumber
  else if exponent = 0 then
    if h : mantissa = 0 then .zero s
    else .finite s mantissa spec.minExponent (Nat.pos_of_ne_zero h)
  else
    .finite s (2 ^ spec.mantissaBitsWithoutImplicit + mantissa) (exponent + spec.minExponent - 1)
      (Nat.add_pos_left (Nat.two_pow_pos _) _)

theorem mantissaBits_eq (spec : Format) :
    spec.mantissaBits = spec.mantissaBitsWithoutImplicit + 1 := Nat.add_comm _ _

theorem minExponent_eq (spec : Format) :
    spec.minExponent = 1 - (spec.exponentBias + spec.mantissaBitsWithoutImplicit : Int) := by
  have hpos : 1 ≤ 2 ^ (spec.exponentBits - 1) := Nat.one_le_two_pow
  rw [Format.minExponent, Format.exponentBias, mantissaBits_eq, Nat.cast_sub hpos]
  push_cast
  ring

theorem two_le_two_pow_exponentBits (spec : Format) : 2 ≤ 2 ^ spec.exponentBits :=
  Nat.pow_le_pow_right Nat.two_pos spec.he

theorem two_pow_mantissaBits (spec : Format) :
    2 ^ spec.mantissaBits = 2 * 2 ^ spec.mantissaBitsWithoutImplicit := by
  rw [mantissaBits_eq, Nat.pow_succ']

theorem eq_allOnes_iff {n : Nat} (v : BitVec n) : v = -1#n ↔ v.toNat = 2 ^ n - 1 := by
  rw [← BitVec.toNat_inj, BitVec.neg_one_eq_allOnes, BitVec.toNat_allOnes]

theorem eq_zero_iff {n : Nat} (v : BitVec n) : v = 0#n ↔ v.toNat = 0 := by
  rw [← BitVec.toNat_inj, BitVec.toNat_zero]

theorem toNat_implicit {n : Nat} (mantissa : BitVec n) :
    (1#1 ++ mantissa).toNat = 2 ^ n + mantissa.toNat := by
  rw [BitVec.toNat_append, ← Nat.shiftLeft_add_eq_or_of_lt mantissa.isLt]
  simp [Nat.shiftLeft_eq]

theorem unpack_eq_ofFields (b : BitVec spec.numBits) :
    unpack spec b =
      ofFields spec (.ofBitVec (unpackSign b)) (unpackExponent b).toNat
        (unpackMantissa b).toNat := by
  have hnormal : ((unpackExponent b).toNat : Int) -
      (spec.exponentBias + spec.mantissaBitsWithoutImplicit) =
        (unpackExponent b).toNat + spec.minExponent - 1 := by
    rw [minExponent_eq]
    ring
  unfold unpack ofFields
  simp only [eq_allOnes_iff, eq_zero_iff, toNat_implicit, hnormal]
  split_ifs with hones hmant hexp hmant
  · rfl
  · rfl
  · rfl
  · have hleast : ((unpackExponent b).toNat : Int) + spec.minExponent - 1 + 1 =
        spec.minExponent := by
      rw [hexp]
      ring
    simp only [hleast]
  · rfl

theorem ofBitVec_toBitVec (s : Sign) : Sign.ofBitVec s.toBitVec = s := by
  cases s <;> rfl

theorem unpackSign_packComponents (s : Sign) (exponent : BitVec spec.exponentBits)
    (mantissa : BitVec spec.mantissaBitsWithoutImplicit) :
    unpackSign (packComponents spec s exponent mantissa) = s.toBitVec := by
  ext i hi
  obtain rfl : i = 0 := by omega
  simp [unpackSign, packComponents, BitVec.getLsbD_append, BitVec.getElem_append]

theorem unpack_packComponents (s : Sign) (exponent : BitVec spec.exponentBits)
    (mantissa : BitVec spec.mantissaBitsWithoutImplicit) :
    unpack spec (packComponents spec s exponent mantissa) =
      ofFields spec s exponent.toNat mantissa.toNat := by
  rw [unpack_eq_ofFields, unpackSign_packComponents, unpackExponent_packComponents,
    unpackMantissa_packComponents, ofBitVec_toBitVec]

theorem unpack_packedInfinity (s : Sign) : unpack spec (packedInfinity spec s) = .infinity s := by
  rw [packedInfinity, unpack_packComponents, (eq_allOnes_iff _).1 rfl]
  simp [ofFields]

theorem unpack_packedZero (s : Sign) : unpack spec (packedZero spec s) = .zero s := by
  have htwo := two_le_two_pow_exponentBits spec
  rw [packedZero, unpack_packComponents]
  simp [ofFields]
  omega

theorem unpack_packedNaN (spec : Format) : unpack spec (packedNaN spec) = .notANumber := by
  have hlt : 2 ^ (spec.mantissaBitsWithoutImplicit - 1) < 2 ^ spec.mantissaBitsWithoutImplicit :=
    Nat.pow_lt_pow_right Nat.one_lt_two (Nat.sub_lt spec.hm Nat.one_pos)
  have hquiet : ((1#_ : BitVec spec.mantissaBitsWithoutImplicit) <<<
      (spec.mantissaBitsWithoutImplicit - 1)).toNat =
        2 ^ (spec.mantissaBitsWithoutImplicit - 1) := by
    rw [← BitVec.twoPow_eq, BitVec.toNat_twoPow, Nat.mod_eq_of_lt hlt]
  rw [packedNaN, unpack_packComponents, hquiet, (eq_allOnes_iff _).1 rfl]
  simp [ofFields]

theorem canonical_of_unpack {b : BitVec spec.numBits} {hm : 0 < m}
    (h : unpack spec b = .finite s m e hm) : Canonical spec m e := by
  have hmant := (unpackMantissa b).isLt
  have hbits := two_pow_mantissaBits spec
  rw [unpack_eq_ofFields, ofFields] at h
  split_ifs at h with hones hzero hexp hzero
  · obtain ⟨-, rfl, rfl⟩ := UnpackedFloat.finite.inj h
    exact ⟨by omega, le_rfl, fun hlt => absurd hlt (lt_irrefl _)⟩
  · obtain ⟨-, rfl, rfl⟩ := UnpackedFloat.finite.inj h
    exact ⟨by omega, by omega, fun _ => Nat.le_add_right _ _⟩

theorem ofFields_leading {exponent : Nat} (hm : 0 < m) (h : Canonical spec m e)
    (hlead : 2 ^ spec.mantissaBitsWithoutImplicit ≤ m)
    (he : (exponent : Int) = e - spec.minExponent + 1)
    (hfit : exponent + 1 < 2 ^ spec.exponentBits) :
    ofFields spec s exponent (m % 2 ^ spec.mantissaBitsWithoutImplicit) = .finite s m e hm := by
  have hdigits := h.digits
  have hleast := h.least
  rw [two_pow_mantissaBits] at hdigits
  have hmant : 2 ^ spec.mantissaBitsWithoutImplicit +
      m % 2 ^ spec.mantissaBitsWithoutImplicit = m := by
    rw [Nat.mod_eq_sub_mod hlead, Nat.mod_eq_of_lt (by omega), Nat.add_sub_cancel' hlead]
  have hexp : (exponent : Int) + spec.minExponent - 1 = e := by omega
  rw [ofFields, if_neg (by omega), if_neg (by omega)]
  simp only [hmant, hexp]

/-- A number in the format's own form survives packing, unless its exponent is too large. -/
theorem unpack_pack_finite (s : Sign) (hm : 0 < m) (h : Canonical spec m e) :
    unpack spec (pack spec (.finite s m e hm)) = .finite s m e hm ∨
      unpack spec (pack spec (.finite s m e hm)) = .infinity s := by
  have hleast := h.least
  have htwo := two_le_two_pow_exponentBits spec
  have hmin := minExponent_eq spec
  have hbits := mantissaBits_eq spec
  simp only [pack]
  split_ifs with hover hlog
  · exact .inr (unpack_packedInfinity s)
  · have hlead : 2 ^ spec.mantissaBitsWithoutImplicit ≤ m := by
      rw [← Nat.le_log2 hm.ne']
      omega
    rw [unpack_packComponents, BitVec.toNat_ofNat, BitVec.toNat_ofNat, Nat.mod_eq_of_lt (by omega)]
    exact .inl (ofFields_leading hm h hlead (by omega) (by omega))
  · have hshort : m < 2 ^ spec.mantissaBitsWithoutImplicit := by
      have hlog' := (Nat.log2_lt hm.ne').2 h.digits
      rw [← Nat.log2_lt hm.ne']
      omega
    -- a mantissa without a leading digit stands at the least exponent only
    have he : e = spec.minExponent := by
      by_contra hne
      have := h.leading (by omega)
      omega
    subst he
    rw [unpack_packComponents, BitVec.toNat_zero, BitVec.toNat_ofNat, Nat.mod_eq_of_lt hshort,
      ofFields, if_neg (by omega), if_pos rfl, dif_neg hm.ne']
    exact .inl rfl

theorem eq_notANumber {f : UnpackedFloat} (h : f.isNaN = true) : f = .notANumber := by
  cases f with
  | notANumber => rfl
  | _ => exact Bool.noConfusion h

theorem isNaN_ofFields {exponent mantissa : Nat} (h : exponent + 1 < 2 ^ spec.exponentBits) :
    (ofFields spec s exponent mantissa).isNaN = false := by
  rw [ofFields, if_neg (by omega)]
  split_ifs <;> rfl

theorem isNaN_unpack_pack (f : UnpackedFloat) : (unpack spec (pack spec f)).isNaN = f.isNaN := by
  have htwo := two_le_two_pow_exponentBits spec
  cases f with
  | notANumber => exact congrArg UnpackedFloat.isNaN (unpack_packedNaN spec)
  | infinity s => exact congrArg UnpackedFloat.isNaN (unpack_packedInfinity s)
  | zero s => exact congrArg UnpackedFloat.isNaN (unpack_packedZero s)
  | finite s m e hm =>
    simp only [pack]
    split_ifs with hover hlog
    · rw [unpack_packedInfinity]
      rfl
    · rw [unpack_packComponents, BitVec.toNat_ofNat, Nat.mod_eq_of_lt (by omega)]
      exact isNaN_ofFields (by omega)
    · rw [unpack_packComponents, BitVec.toNat_zero]
      exact isNaN_ofFields htwo

theorem log2_mul_two_pow (hn : n ≠ 0) (k : Nat) : (n * 2 ^ k).log2 = n.log2 + k := by
  induction k with
  | zero => rw [Nat.pow_zero, Nat.mul_one, Nat.add_zero]
  | succ k ih =>
    have hpos : n * 2 ^ k ≠ 0 := Nat.mul_ne_zero hn (Nat.two_pow_pos k).ne'
    rw [Nat.pow_succ', Nat.mul_left_comm, Nat.log2_two_mul hpos, ih, Nat.add_assoc]

theorem log2_div_two_pow {k : Nat} (hn : n ≠ 0) (hk : k ≤ n.log2) :
    n / 2 ^ k ≠ 0 ∧ (n / 2 ^ k).log2 = n.log2 - k := by
  have hlow : 2 ^ (n.log2 - k) ≤ n / 2 ^ k := by
    rw [Nat.le_div_iff_mul_le (Nat.two_pow_pos k), ← Nat.pow_add, Nat.sub_add_cancel hk]
    exact Nat.log2_self_le hn
  have hhigh : n / 2 ^ k < 2 ^ (n.log2 - k + 1) := by
    rw [Nat.div_lt_iff_lt_mul (Nat.two_pow_pos k), ← Nat.pow_add,
      show n.log2 - k + 1 + k = n.log2 + 1 by omega]
    exact Nat.lt_log2_self
  have hpos : n / 2 ^ k ≠ 0 := (lt_of_lt_of_le (Nat.two_pow_pos _) hlow).ne'
  exact ⟨hpos, (Nat.log2_eq_iff hpos).2 ⟨hlow, hhigh⟩⟩

theorem targetExponent_totalExponent (spec : Format) (n : Nat) (e : Int) :
    spec.targetExponent (totalExponent n e) =
      max (n.log2 + 1 + e - spec.mantissaBits) spec.minExponent := rfl

theorem canonical_leading {k : Nat} (hn : n ≠ 0) (hleast : spec.minExponent ≤ e)
    (hk : spec.targetExponent (totalExponent n e) = e + k) :
    n / 2 ^ k ≠ 0 ∧ Canonical spec (n / 2 ^ k) (e + k) ∧
      totalExponent (n / 2 ^ k) (e + k) = totalExponent n e := by
  have hbits := mantissaBits_eq spec
  have htarget := targetExponent_totalExponent spec n e
  obtain ⟨hpos, hlog⟩ := log2_div_two_pow hn (k := k) (by omega)
  refine ⟨hpos, ⟨?_, by omega, fun hlt => ?_⟩, ?_⟩
  · rw [← Nat.log2_lt hpos]
    omega
  · rw [← Nat.le_log2 hpos]
    omega
  · unfold totalExponent
    omega

theorem le_targetExponent (hn : n ≠ 0)
    (hlead : spec.minExponent < e → 2 ^ spec.mantissaBitsWithoutImplicit ≤ n) :
    e ≤ spec.targetExponent (totalExponent n e) := by
  have hbits := mantissaBits_eq spec
  have htarget := targetExponent_totalExponent spec n e
  by_cases hlt : spec.minExponent < e
  · have hlog := (Nat.le_log2 hn).2 (hlead hlt)
    omega
  · omega

theorem exists_shiftToTargetExponent (acc : Accuracy)
    (he : e ≤ spec.targetExponent (totalExponent n e)) :
    ∃ k : Nat, spec.targetExponent (totalExponent n e) = e + k ∧
      shiftToTargetExponent spec n e acc =
        (ExtendedMantissa.ofMantissaAndAccuracy n acc >>> k, e + k) := by
  obtain ⟨k, hk⟩ := Int.le.dest he
  refine ⟨k, hk.symm, ?_⟩
  rw [shiftToTargetExponent, shiftToExponent, ← hk, add_sub_cancel_left, Int.toNat_natCast]

/-- The leading digits are rounded, and cut once more where rounding has made them one too many. -/
theorem exists_roundWithAccuracy (s : Sign) (hn : n ≠ 0) (hleast : spec.minExponent ≤ e)
    (he : e ≤ spec.targetExponent (totalExponent n e)) :
    ∃ m' e' h, roundWithAccuracy spec s n e .exact = .finite s m' e' h ∧ Canonical spec m' e' ∧
      totalExponent n e ≤ totalExponent m' e' := by
  obtain ⟨k, hk, hfirst⟩ := exists_shiftToTargetExponent .exact he
  obtain ⟨hpos, hcut, htotal⟩ := canonical_leading hn hleast hk
  set r := (ExtendedMantissa.ofMantissaAndAccuracy n .exact >>> k).roundedMantissa with hr
  have hlow : n / 2 ^ k ≤ r := by
    rw [← Double.mantissa_exact]
    exact Mantissa.le_roundedMantissa _
  have hne : r ≠ 0 := ((Nat.pos_of_ne_zero hpos).trans_le hlow).ne'
  have hgrow : totalExponent n e ≤ totalExponent r (e + k) := by
    have hlog := Double.log2_mono hpos hlow
    rw [← htotal, totalExponent, totalExponent]
    omega
  obtain ⟨l, hl, hsecond⟩ := exists_shiftToTargetExponent (n := r) .exact
    (le_targetExponent hne fun h => (hcut.leading h).trans hlow)
  obtain ⟨hpos', hcut', htotal'⟩ := canonical_leading hne hcut.least hl
  have hround : roundWithAccuracy spec s n e .exact =
      .finite s (r / 2 ^ l) (e + k + l) (Nat.pos_of_ne_zero hpos') := by
    simp only [roundWithAccuracy, hfirst, ← hr, hsecond, Double.mantissa_exact]
    rw [dif_neg hpos']
  exact ⟨_, _, _, hround, hcut', hgrow.trans_eq htotal'.symm⟩

/-- A number that is no finer than the format keeps its first digit when it is rounded. -/
theorem exists_round (spec : Format) (s : Sign) (hn : n ≠ 0) (he : spec.minExponent ≤ e) :
    ∃ m' e' h, UnpackedFloat.round spec s n e = .finite s m' e' h ∧ Canonical spec m' e' ∧
      totalExponent n e ≤ totalExponent m' e' := by
  set k := (e - spec.targetExponent (totalExponent n e)).toNat with hk
  have hmin : spec.minExponent ≤ spec.targetExponent (totalExponent n e) := le_max_right _ _
  have htotal : totalExponent (n * 2 ^ k) (e - k) = totalExponent n e := by
    unfold totalExponent
    rw [log2_mul_two_pow hn]
    push_cast
    ring
  rw [UnpackedFloat.round, decreaseExponent, Nat.shiftLeft_eq, ← hk, ← htotal]
  refine exists_roundWithAccuracy s (Nat.mul_ne_zero hn (Nat.two_pow_pos k).ne') ?_ ?_
  · omega
  · rw [htotal]
    omega

theorem normalize_of_ne_zero {i : Int} {zeroSign : Sign} (hi : i ≠ 0) :
    UnpackedFloat.normalize spec i e zeroSign =
      UnpackedFloat.round spec (if i < 0 then .negative else .positive) i.natAbs e := by
  rw [UnpackedFloat.normalize]
  split <;> rename_i h
  · have hneg : i < 0 := compare_lt_iff_lt.1 h
    rw [if_pos hneg, show (-i).toNat = i.natAbs by omega]
  · exact absurd (compare_eq_iff_eq.1 h) hi
  · have hpos : 0 < i := compare_gt_iff_gt.1 h
    rw [if_neg hpos.not_gt, show i.toNat = i.natAbs by omega]

theorem exists_normalize {i : Int} (zeroSign : Sign) (hi : i ≠ 0) (he : spec.minExponent ≤ e) :
    ∃ s m' e' h, UnpackedFloat.normalize spec i e zeroSign = .finite s m' e' h ∧
      Canonical spec m' e' := by
  obtain ⟨m', e', h, hround, hcanonical, -⟩ := exists_round spec
    (if i < 0 then .negative else .positive) (Int.natAbs_ne_zero.2 hi) he
  exact ⟨_, m', e', h, (normalize_of_ne_zero hi).trans hround, hcanonical⟩

end Packing

end RelQuery
