import RelQuery.SqlType

namespace RelQuery

/-- A beginning of a text that ends with a whole character and needs at most `n` bytes. No other one
is longer. -/
structure LongestWithin (n : Nat) (s p : String) : Prop where
  begins : ∃ rest, s = p ++ rest
  fits : p.utf8ByteSize ≤ n
  longest : ∀ q rest, s = q ++ rest → q.utf8ByteSize ≤ n → q.utf8ByteSize ≤ p.utf8ByteSize

variable {s p : String} {n i j : Nat}

theorem isValid_iff_exists_size :
    String.Pos.Raw.IsValid s ⟨i⟩ ↔ ∃ p rest, s = p ++ rest ∧ p.utf8ByteSize = i := by
  rw [String.Pos.Raw.isValid_iff_exists_append]
  refine exists_congr fun p => exists_congr fun rest => and_congr_right fun _ => ?_
  rw [String.Pos.Raw.ext_iff, eq_comm]
  rfl

theorem upTo?_append (p rest : String) : upTo? (p ++ rest) p.utf8ByteSize = some p := by
  rw [upTo?, dif_pos (isValid_iff_exists_size.2 ⟨p, rest, rfl, rfl⟩), Option.some.injEq,
    ← String.toByteArray_inj, String.toByteArray_extract, String.toByteArray_append]
  exact ByteArray.extract_append_eq_left rfl

/-- The second byte is inside a character. -/
example : upTo? "aé" 2 = none ∧ lastCut "aé" 2 = 1 := by decide

theorem lastCut_le (s : String) (i : Nat) : lastCut s i ≤ i := by
  induction i with
  | zero => exact Nat.le_refl 0
  | succ i ih =>
    rw [lastCut]
    split
    · exact Nat.le_refl _
    · exact Nat.le_succ_of_le ih

theorem le_lastCut (hj : String.Pos.Raw.IsValid s ⟨j⟩) (hji : j ≤ i) : j ≤ lastCut s i := by
  induction i with
  | zero => exact hji
  | succ i ih =>
    rw [lastCut]
    split
    · exact hji
    · next hnot =>
      refine ih (Nat.le_of_lt_succ (Nat.lt_of_le_of_ne hji ?_))
      rintro rfl
      exact hnot (String.Pos.Raw.isValid_eq_true_iff.2 hj)

theorem exists_upTo?_lastCut (s : String) (n : Nat) :
    ∃ p, upTo? s (lastCut s n) = some p ∧ LongestWithin n s p := by
  obtain ⟨p, rest, hs, hsize⟩ := isValid_iff_exists_size.1 (isValid_lastCut s n)
  refine ⟨p, ?_, ⟨rest, hs⟩, hsize ▸ lastCut_le s n, fun q rest' hq hfits => ?_⟩
  · rw [← hsize, hs]
    exact upTo?_append p rest
  · rw [hsize]
    exact le_lastCut (isValid_iff_exists_size.2 ⟨q, rest', hq, rfl⟩) hfits

/-- There is no room left for another character, and none needs more than four bytes. -/
theorem LongestWithin.le_size_add (h : LongestWithin n s p) (hlong : n < s.utf8ByteSize) :
    n ≤ p.utf8ByteSize + 3 := by
  obtain ⟨rest, hs⟩ := h.begins
  cases hrest : rest.toList with
  | nil =>
    have hempty : rest = "" := String.toList_eq_nil_iff.1 hrest
    have hfits := h.fits
    rw [hs, hempty, String.append_empty] at hlong
    omega
  | cons c cs =>
    have hcut : s = p ++ String.singleton c ++ String.ofList cs := by
      rw [hs, String.append_assoc, ← String.ofList_cons, ← hrest, String.ofList_toList]
    have hsize : (p ++ String.singleton c).utf8ByteSize = p.utf8ByteSize + c.utf8Size := by
      rw [String.utf8ByteSize_append, String.utf8ByteSize_singleton]
    have hfour := c.utf8Size_le_four
    have hpos := c.utf8Size_pos
    refine Nat.le_of_not_lt fun hroom => ?_
    have hle := h.longest (p ++ String.singleton c) _ hcut (by omega)
    omega

theorem exists_clip? (s : String) : ∃ shown, clip? s = some shown ∧
    ((s.utf8ByteSize ≤ clipLimit ∧ shown = s) ∨
      (clipLimit < s.utf8ByteSize ∧ ∃ p, LongestWithin clipLimit s p ∧ shown = p ++ "...")) := by
  by_cases hshort : s.utf8ByteSize ≤ clipLimit
  · exact ⟨s, if_pos hshort, .inl ⟨hshort, rfl⟩⟩
  · obtain ⟨p, hcut, hlongest⟩ := exists_upTo?_lastCut s clipLimit
    refine ⟨p ++ "...", ?_, .inr ⟨Nat.lt_of_not_le hshort, p, hlongest, rfl⟩⟩
    rw [clip?, if_neg hshort, hcut]
    rfl

/-- Clipping a text for a message does not fail. A text of at most 100 bytes is shown whole; of a
longer one the longest beginning of whole characters within 100 bytes, which are at least 97, and
three dots. -/
theorem ValueError.shows_longest (s : String) : ∃ shown, clip? s = some shown ∧
    (∀ expected actual, mismatchOf expected actual s = typeMismatch expected actual (some shown)) ∧
    (∀ expected, rangeOf expected s = outOfRange expected shown) ∧
    ((s.utf8ByteSize ≤ 100 ∧ shown = s) ∨
      (100 < s.utf8ByteSize ∧ ∃ p, LongestWithin 100 s p ∧ 97 ≤ p.utf8ByteSize ∧
        shown = p ++ "...")) := by
  obtain ⟨shown, hclip, hcases⟩ := exists_clip? s
  have hshown : clip s = shown := Option.get_of_eq_some _ hclip
  refine ⟨shown, hclip, fun expected actual => ?_, fun expected => ?_, ?_⟩
  · rw [mismatchOf, hshown]
  · rw [rangeOf, hshown]
  · refine hcases.imp_right fun ⟨hlong, p, hlongest, hp⟩ => ⟨hlong, p, hlongest, ?_, hp⟩
    have hsize : 100 ≤ p.utf8ByteSize + 3 := hlongest.le_size_add hlong
    omega

end RelQuery
