import Mathlib
import RelQuery.Value

namespace RelQuery

open Float.Model (Format UnpackedFloat totalExponent)
open Float.Model.UnpackedFloat

namespace Mantissa

variable {a b : ExtendedMantissa}

/-- A mantissa and its two residual bits as one number. -/
def code (a : ExtendedMantissa) : Nat :=
  4 * a.mantissa + (if a.roundBit then 2 else 0) + if a.stickyBit then 1 else 0

theorem mantissa_eq (a : ExtendedMantissa) : a.mantissa = code a / 4 := by
  unfold code
  split_ifs <;> omega

theorem code_shiftRightOne (a : ExtendedMantissa) :
    code a.shiftRightOne = 2 * (code a / 4) + if code a % 4 = 0 then 0 else 1 := by
  obtain ⟨m, r, s⟩ := a
  cases r <;> cases s <;> simp [code, ExtendedMantissa.shiftRightOne] <;> split_ifs <;> omega

theorem code_shiftRightOne_mono (h : code a ≤ code b) :
    code a.shiftRightOne ≤ code b.shiftRightOne := by
  rw [code_shiftRightOne, code_shiftRightOne]
  split <;> split <;> omega

theorem shiftRight_succ (a : ExtendedMantissa) (k : Nat) :
    a >>> (k + 1) = (a >>> k).shiftRightOne := rfl

theorem code_shiftRight_mono (h : code a ≤ code b) (k : Nat) : code (a >>> k) ≤ code (b >>> k) := by
  induction k with
  | zero => exact h
  | succ k ih =>
    rw [shiftRight_succ, shiftRight_succ]
    exact code_shiftRightOne_mono ih

theorem mantissa_shiftRight (a : ExtendedMantissa) (k : Nat) :
    (a >>> k).mantissa = a.mantissa / 2 ^ k := by
  induction k with
  | zero => exact (Nat.div_one _).symm
  | succ k ih =>
    calc (a >>> (k + 1)).mantissa = (a >>> k).mantissa / 2 := rfl
      _ = a.mantissa / 2 ^ (k + 1) := by rw [ih, Nat.div_div_eq_div_mul, Nat.pow_succ]

/-- What is below a half is dropped, what is above is carried, and a half goes to the even side. -/
theorem roundedMantissa_eq (a : ExtendedMantissa) :
    a.roundedMantissa = code a / 4 +
      if code a % 4 < 2 then 0 else if code a % 4 = 2 then code a / 4 % 2 else 1 := by
  obtain ⟨m, r, s⟩ := a
  cases r <;> cases s <;>
    simp [code, ExtendedMantissa.roundedMantissa, ExtendedMantissa.accuracy,
      Float.Model.UnpackedFloat.Accuracy.roundToNearestEven] <;> (try split_ifs) <;> omega

theorem roundedMantissa_mono (h : code a ≤ code b) : a.roundedMantissa ≤ b.roundedMantissa := by
  rw [roundedMantissa_eq, roundedMantissa_eq]
  rcases (Nat.div_le_div_right (c := 4) h).lt_or_eq with hlt | heq
  · split_ifs <;> omega
  · rw [heq]
    split_ifs <;> omega

theorem le_roundedMantissa (a : ExtendedMantissa) : a.mantissa ≤ a.roundedMantissa := by
  rw [mantissa_eq, roundedMantissa_eq]
  exact Nat.le_add_right _ _

theorem roundedMantissa_le (a : ExtendedMantissa) : a.roundedMantissa ≤ a.mantissa + 1 := by
  rw [mantissa_eq, roundedMantissa_eq]
  split_ifs <;> omega

end Mantissa

namespace Double

variable {m n : Nat}

/-- The leading 53 of the binary digits of a number, rounded to the nearest, ties to even. -/
def rounded (n : Nat) : Nat :=
  ((ExtendedMantissa.ofMantissaAndAccuracy n .exact) >>> (n.log2 - 52)).roundedMantissa

/-- The same of a number that may have fewer digits, filled up with zeros. -/
def leading (n : Nat) : Nat := rounded (n * 2 ^ (52 - n.log2))

/-- The place of the double nearest to a number. Between two powers of two the doubles are counted
by their leading digits, so the number of binary digits weighs `2 ^ 52`. -/
def rank (n : Nat) : Nat :=
  if n = 0 then 0 else (n.log2 + 1022) * 2 ^ 52 + leading n

theorem code_exact (n : Nat) :
    Mantissa.code (ExtendedMantissa.ofMantissaAndAccuracy n .exact) = 4 * n := rfl

theorem mantissa_exact (n k : Nat) :
    ((ExtendedMantissa.ofMantissaAndAccuracy n .exact) >>> k).mantissa = n / 2 ^ k :=
  Mantissa.mantissa_shiftRight _ k

theorem le_rounded (h : 52 ≤ n.log2) : 2 ^ 52 ≤ rounded n := by
  have hn : n ≠ 0 := by
    rintro rfl
    simp at h
  have hdigits : 2 ^ 52 ≤ n / 2 ^ (n.log2 - 52) := by
    rw [Nat.le_div_iff_mul_le (Nat.two_pow_pos _), ← Nat.pow_add, Nat.add_sub_cancel' h]
    exact Nat.log2_self_le hn
  rw [← mantissa_exact] at hdigits
  exact hdigits.trans (Mantissa.le_roundedMantissa _)

theorem rounded_le (n : Nat) : rounded n ≤ 2 ^ 53 := by
  have hdigits : n / 2 ^ (n.log2 - 52) < 2 ^ 53 := by
    rw [Nat.div_lt_iff_lt_mul (Nat.two_pow_pos _), ← Nat.pow_add]
    exact Nat.lt_log2_self.trans_le (Nat.pow_le_pow_right (by decide) (by omega))
  rw [← mantissa_exact] at hdigits
  exact (Mantissa.roundedMantissa_le _).trans hdigits

theorem rounded_mono (h : n ≤ m) (hlog : n.log2 = m.log2) : rounded n ≤ rounded m := by
  unfold rounded
  rw [← hlog]
  apply Mantissa.roundedMantissa_mono
  apply Mantissa.code_shiftRight_mono
  rw [code_exact, code_exact]
  exact Nat.mul_le_mul_left _ h

theorem rounded_of_log2_le (h : n.log2 ≤ 52) : rounded n = n := by
  rw [rounded, Nat.sub_eq_zero_of_le h]
  rfl

theorem log2_shifted (hn : n ≠ 0) : (n * 2 ^ (52 - n.log2)).log2 = max n.log2 52 := by
  have hlow : 2 ^ n.log2 ≤ n := Nat.log2_self_le hn
  have hhigh : n < 2 ^ (n.log2 + 1) := Nat.lt_log2_self
  have hpos := Nat.two_pow_pos (52 - n.log2)
  rw [Nat.log2_eq_iff (Nat.mul_ne_zero hn hpos.ne')]
  rw [show max n.log2 52 = n.log2 + (52 - n.log2) by omega, Nat.pow_add, Nat.add_right_comm,
    Nat.pow_add]
  exact ⟨Nat.mul_le_mul_right _ hlow, Nat.mul_lt_mul_of_pos_right hhigh hpos⟩

theorem le_leading (hn : n ≠ 0) : 2 ^ 52 ≤ leading n :=
  le_rounded (by rw [log2_shifted hn]; exact le_max_right _ _)

theorem leading_le (n : Nat) : leading n ≤ 2 ^ 53 := rounded_le _

theorem leading_of_log2_le (hn : n ≠ 0) (hlog : n.log2 ≤ 52) :
    leading n = n * 2 ^ (52 - n.log2) :=
  rounded_of_log2_le (by rw [log2_shifted hn, max_eq_right hlog])

theorem leading_mono (hn : n ≠ 0) (h : n ≤ m) (hlog : n.log2 = m.log2) :
    leading n ≤ leading m := by
  apply rounded_mono
  · rw [← hlog]
    exact Nat.mul_le_mul_right _ h
  · rw [log2_shifted hn, log2_shifted (by omega), hlog]

theorem log2_mono (hn : n ≠ 0) (h : n ≤ m) : n.log2 ≤ m.log2 :=
  (Nat.le_log2 (by omega)).2 ((Nat.log2_self_le hn).trans h)

theorem rank_of_ne (hn : n ≠ 0) : rank n = (n.log2 + 1022) * 2 ^ 52 + leading n :=
  if_neg hn

theorem rank_pos (hn : n ≠ 0) : 0 < rank n := by
  rw [rank_of_ne hn]
  omega

/-- The smallest number with more binary digits comes after all with fewer. -/
theorem rank_le_of_log2_lt (hlog : n.log2 < m.log2) :
    (n.log2 + 1022) * 2 ^ 52 + 2 ^ 53 ≤ rank m := by
  have hm : m ≠ 0 := by
    rintro rfl
    simp at hlog
  have hlead := le_leading hm
  rw [rank_of_ne hm]
  omega

theorem rank_mono (h : n ≤ m) : rank n ≤ rank m := by
  by_cases hn : n = 0
  · simp [rank, hn]
  rw [rank_of_ne hn]
  rcases (log2_mono hn h).lt_or_eq with hlog | hlog
  · exact (Nat.add_le_add_left (leading_le n) _).trans (rank_le_of_log2_lt hlog)
  · rw [rank_of_ne (by omega), hlog]
    exact Nat.add_le_add_left (leading_mono hn h hlog) _

theorem rank_lt (h : n < m) (hn : n < 2 ^ 53) : rank n < rank m := by
  by_cases h0 : n = 0
  · simpa [h0, rank] using rank_pos (by omega : m ≠ 0)
  have hm : m ≠ 0 := by omega
  have hshort : n.log2 ≤ 52 := Nat.lt_succ_iff.1 ((Nat.log2_lt h0).2 hn)
  rw [rank_of_ne h0, leading_of_log2_le h0 hshort]
  rcases (log2_mono h0 h.le).lt_or_eq with hlog | hlog
  · refine lt_of_lt_of_le (Nat.add_lt_add_left ?_ _) (rank_le_of_log2_lt hlog)
    calc n * 2 ^ (52 - n.log2) < 2 ^ (n.log2 + 1) * 2 ^ (52 - n.log2) :=
          Nat.mul_lt_mul_of_pos_right Nat.lt_log2_self (Nat.two_pow_pos _)
      _ = 2 ^ 53 := by
          rw [← Nat.pow_add]
          congr 1
          omega
  · rw [rank_of_ne hm, leading_of_log2_le hm (hlog ▸ hshort), hlog]
    exact Nat.add_lt_add_left (Nat.mul_lt_mul_of_pos_right h (Nat.two_pow_pos _)) _

theorem targetExponent_eq {e : Int} (he : -52 ≤ e) :
    Format.binary64.targetExponent (totalExponent n e) = n.log2 - 52 + e := by
  simp only [Format.targetExponent, totalExponent, Format.mantissaBits, Format.minExponent]
  norm_num
  omega

theorem decreaseExponent_eq (n : Nat) :
    decreaseExponent n 0 (n.log2 - 52) = (n * 2 ^ (52 - n.log2), -↑(52 - n.log2)) := by
  have hshift : ((0 : Int) - (n.log2 - 52)).toNat = 52 - n.log2 := by omega
  rw [decreaseExponent, hshift, Nat.shiftLeft_eq, zero_sub]

theorem log2_eq_of_lt (h : 2 ^ 52 ≤ n) (hlt : n < 2 ^ 53) : n.log2 = 52 :=
  (Nat.log2_eq_iff (by omega)).2 ⟨h, hlt⟩

theorem shiftToTargetExponent_exact (n : Nat) {e : Int} (he : -52 ≤ e) :
    shiftToTargetExponent .binary64 n e .exact =
      ((ExtendedMantissa.ofMantissaAndAccuracy n .exact) >>> (n.log2 - 52),
        e + (n.log2 - 52 : Nat)) := by
  have hshift : (n.log2 - 52 + e - e : Int).toNat = n.log2 - 52 := by omega
  rw [shiftToTargetExponent, targetExponent_eq he, shiftToExponent, hshift]

/-- The bits of a number with 53 binary digits; the first of them is not stored. -/
theorem pack_finite {s : Sign} {e : Int} {h : 0 < n} (hlog : n.log2 = 52) (he : -1074 ≤ e)
    (hmax : e < 972) :
    (pack .binary64 (.finite s n e h)).toNat =
      s.toBitVec.toNat * 2 ^ 63 + ((e + 1075).toNat * 2 ^ 52 + (n - 2 ^ 52)) := by
  have hbias : e + Format.binary64.exponentBias + Format.binary64.mantissaBitsWithoutImplicit =
      e + 1075 := by
    rw [add_assoc]
    rfl
  have hmant : Format.binary64.mantissaBits = 53 := rfl
  unfold pack
  simp only [hbias, hmant, hlog]
  rw [if_neg (by omega), if_pos trivial, packComponents, BitVec.toNat_append, BitVec.toNat_append]
  rw [BitVec.toNat_ofNat, BitVec.toNat_ofNat]
  have hn := (Nat.log2_eq_iff h.ne').1 hlog
  have hmantissa : n % 2 ^ 52 = n - 2 ^ 52 := by omega
  have hexponent : (e + 1075).toNat % 2 ^ 11 = (e + 1075).toNat := Nat.mod_eq_of_lt (by omega)
  rw [hmantissa, hexponent]
  rw [← Nat.shiftLeft_add_eq_or_of_lt (by omega), ← Nat.shiftLeft_add_eq_or_of_lt (by omega)]
  simp only [Nat.shiftLeft_eq]
  omega

/-- A mantissa of at least 53 binary digits is cut to its rounded leading digits. -/
theorem pack_roundWithAccuracy (s : Sign) {e : Int} (hlog : 52 ≤ n.log2) (he : -52 ≤ e)
    (hmax : e + n.log2 < 512) :
    (pack .binary64 (roundWithAccuracy .binary64 s n e .exact)).toNat =
      s.toBitVec.toNat * 2 ^ 63 + ((e + n.log2 + 1022).toNat * 2 ^ 52 + rounded n) := by
  have hfirst := shiftToTargetExponent_exact n he
  have hlow := le_rounded hlog
  have hhigh := rounded_le n
  have hsecond := shiftToTargetExponent_exact (rounded n) (e := e + (n.log2 - 52 : Nat)) (by omega)
  rw [rounded] at hsecond
  simp only [roundWithAccuracy, hfirst, hsecond, mantissa_exact]
  simp only [← rounded.eq_1]
  rcases hhigh.lt_or_eq with hlt | heq
  · have hlog' := log2_eq_of_lt hlow hlt
    simp only [hlog', Nat.sub_self, pow_zero, Nat.div_one]
    rw [dif_neg (by omega), pack_finite hlog' (by omega) (by omega)]
    omega
  · have hhalf : 2 ^ 53 / 2 ^ (53 - 52) = 2 ^ 52 := by decide
    simp only [heq, Nat.log2_two_pow, hhalf]
    rw [dif_neg (by decide), pack_finite Nat.log2_two_pow (by omega) (by omega)]
    omega

theorem pack_round (s : Sign) (hn : n ≠ 0) (hmax : n < 2 ^ 64) :
    (pack .binary64 (UnpackedFloat.round .binary64 s n 0)).toNat =
      s.toBitVec.toNat * 2 ^ 63 + rank n := by
  have hlog : n.log2 < 64 := (Nat.log2_lt hn).2 hmax
  have hshift := log2_shifted hn
  rw [UnpackedFloat.round, targetExponent_eq (by decide), add_zero, decreaseExponent_eq]
  rw [pack_roundWithAccuracy s (by omega) (by omega) (by omega), rank_of_ne hn, leading, hshift]
  congr 4
  omega

/-- The place of the double nearest to an integer. -/
def place (i : Int) : Int := if i < 0 then -rank i.natAbs else rank i.natAbs

theorem rank_le (hmax : n < 2 ^ 64) : rank n ≤ 0x7ff0000000000000 := by
  by_cases hn : n = 0
  · simp [hn, rank]
  have hlog : n.log2 < 64 := (Nat.log2_lt hn).2 hmax
  have hlead := leading_le n
  rw [rank_of_ne hn]
  omega

theorem bits_ofInt {i : Int} (hmax : i.natAbs < 2 ^ 64) :
    (ofInt i).bits.toNat = (if i < 0 then 2 ^ 63 else 0) + rank i.natAbs := by
  have hbits : (ofInt i).bits.toNat =
      (pack .binary64 (UnpackedFloat.normalize .binary64 i 0 .positive)).toNat := rfl
  rw [hbits, UnpackedFloat.normalize]
  split <;> rename_i hi
  · have hneg : i < 0 := compare_lt_iff_lt.1 hi
    rw [show (-i).toNat = i.natAbs by omega, pack_round _ (by omega) hmax, if_pos hneg]
    rfl
  · have hzero : i = 0 := compare_eq_iff_eq.1 hi
    rw [hzero]
    rfl
  · have hpos : 0 < i := compare_gt_iff_gt.1 hi
    rw [show i.toNat = i.natAbs by omega, pack_round _ (by omega) hmax, if_neg (by omega)]
    rfl

theorem place?_ofInt {i : Int} (hmax : i.natAbs < 2 ^ 64) : place? (ofInt i) = some (place i) := by
  have hrank := rank_le hmax
  have hsign : signBit = 2 ^ 63 := rfl
  rw [place?, bits_ofInt hmax, hsign, place]
  by_cases hi : i < 0
  · rw [if_pos hi, if_pos hi, if_pos (by omega), if_neg (by omega), Nat.add_mod_left,
      Nat.mod_eq_of_lt (by omega)]
  · rw [if_neg hi, if_neg hi, Nat.zero_add, Nat.mod_eq_of_lt (by omega), if_pos hrank,
      if_pos (by omega)]

theorem place_mono {i j : Int} (h : i ≤ j) : place i ≤ place j := by
  unfold place
  split_ifs with hi hj
  · have := rank_mono (show j.natAbs ≤ i.natAbs by omega)
    omega
  · omega
  · omega
  · have := rank_mono (show i.natAbs ≤ j.natAbs by omega)
    omega

theorem place_lt {i j : Int} (h : i < j) (hi : -2 ^ 53 ≤ i) (hj : j ≤ 2 ^ 53) :
    place i < place j := by
  unfold place
  split_ifs with hineg hjneg
  · have := rank_lt (show j.natAbs < i.natAbs by omega) (by omega)
    omega
  · have := rank_pos (show i.natAbs ≠ 0 by omega)
    omega
  · omega
  · have := rank_lt (show i.natAbs < j.natAbs by omega) (by omega)
    omega

end Double

end RelQuery
