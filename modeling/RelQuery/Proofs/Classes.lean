import RelQuery.Grouping.Reference
import RelQuery.Proofs.Keys

namespace RelQuery

section Lists

variable {α : Type} {p : α → α → Bool}

theorem mem_of_mem_loop {a : α} {as bs : List α}
    (h : a ∈ List.eraseDupsBy.loop p as bs) : a ∈ as ∨ a ∈ bs := by
  induction as generalizing bs with
  | nil => exact .inr (List.mem_reverse.1 h)
  | cons b as ih =>
    rw [List.eraseDupsBy.loop] at h
    split at h
    · exact (ih h).imp_left (List.mem_cons_of_mem b)
    · rcases ih h with h | h
      · exact .inl (List.mem_cons_of_mem b h)
      · rcases List.mem_cons.1 h with rfl | h
        · exact .inl List.mem_cons_self
        · exact .inr h

theorem eraseDupsBy_loop_concat (as bs : List α) (a : α) :
    List.eraseDupsBy.loop p (as ++ [a]) bs =
      if (List.eraseDupsBy.loop p as bs).any (p a) then List.eraseDupsBy.loop p as bs
      else List.eraseDupsBy.loop p as bs ++ [a] := by
  induction as generalizing bs with
  | nil =>
    rw [List.nil_append, List.eraseDupsBy.loop, List.eraseDupsBy.loop, List.any_reverse]
    cases bs.any (p a) <;> simp [List.eraseDupsBy.loop]
  | cons b as ih =>
    rw [List.cons_append, List.eraseDupsBy.loop, List.eraseDupsBy.loop]
    cases bs.any (p b) with
    | true => exact ih bs
    | false => exact ih (b :: bs)

theorem eraseDupsBy_concat (as : List α) (a : α) :
    (as ++ [a]).eraseDupsBy p =
      if (as.eraseDupsBy p).any (p a) then as.eraseDupsBy p else as.eraseDupsBy p ++ [a] :=
  eraseDupsBy_loop_concat as [] a

end Lists

namespace Row

variable {k l m : Row}

theorem alike_self (k : Row) : k.alike k = true := alike_iff_unsigned.2 rfl

theorem alike_symm (h : k.alike l = true) : l.alike k = true :=
  alike_iff_unsigned.2 (alike_iff_unsigned.1 h).symm

theorem alike_comm (k l : Row) : k.alike l = l.alike k :=
  Bool.eq_iff_iff.2 ⟨alike_symm, alike_symm⟩

theorem alike_trans (hkl : k.alike l = true) (hlm : l.alike m = true) : k.alike m = true :=
  alike_iff_unsigned.2 ((alike_iff_unsigned.1 hkl).trans (alike_iff_unsigned.1 hlm))

end Row

namespace Grouping

variable {key : Row → Row} {css : List (List Row)} {xs ys : List Row} {x : Row}

/-- Classes of rows in the order in which they begin: every row is in one of them, and two rows are
in the same if and only if their keys are alike. -/
structure Partitions (key : Row → Row) (css : List (List Row)) (xs : List Row) : Prop where
  perm : css.flatten.Perm xs
  alike : ∀ ys ∈ css, ∀ x ∈ ys, ∀ y ∈ ys, (key x).alike (key y) = true
  apart : css.Pairwise fun ys zs => ∀ x ∈ ys, ∀ y ∈ zs, ¬(key x).alike (key y) = true
  ordered : (css.filterMap List.head?).Sublist xs

/-- To prove something of rows, it may be assumed of those outside the class of the first. -/
@[elab_as_elim]
theorem classes_induction (key : Row → Row) {motive : List Row → Prop} (xs : List Row)
    (nil : motive []) (cons : ∀ x xs, motive (xs.filter fun y => !(key x).alike (key y)) →
      motive (x :: xs)) : motive xs := by
  induction h : xs.length using Nat.strong_induction_on generalizing xs with
  | _ n ih =>
    cases xs with
    | nil => exact nil
    | cons x xs =>
      refine cons x xs (ih _ ?_ _ rfl)
      rw [← h, List.length_cons]
      exact Nat.lt_succ_of_le (List.length_filter_le ..)

theorem classes_cons (key : Row → Row) (x : Row) (xs : List Row) :
    classes key (x :: xs) = (x :: xs.filter fun y => (key x).alike (key y)) ::
      classes key (xs.filter fun y => !(key x).alike (key y)) := by
  rw [classes]

theorem isEmpty_classes (key : Row → Row) (xs : List Row) :
    (classes key xs).isEmpty = xs.isEmpty := by
  cases xs with
  | nil =>
    rw [classes]
    rfl
  | cons x xs => rw [classes_cons, List.isEmpty_cons, List.isEmpty_cons]

theorem ne_nil_of_mem_classes (h : ys ∈ classes key xs) : ys ≠ [] := by
  induction xs using classes_induction key with
  | nil => simp [classes] at h
  | cons x xs ih =>
    rw [classes_cons] at h
    rcases List.mem_cons.1 h with rfl | h
    · exact List.cons_ne_nil _ _
    · exact ih h

theorem partitions_classes (key : Row → Row) (xs : List Row) :
    Partitions key (classes key xs) xs := by
  induction xs using classes_induction key with
  | nil =>
    rw [classes]
    exact ⟨.refl _, fun _ h => absurd h List.not_mem_nil, .nil, .slnil⟩
  | cons x xs ih =>
    have hhead : ∀ y ∈ x :: xs.filter (fun y => (key x).alike (key y)),
        (key x).alike (key y) = true :=
      List.forall_mem_cons.2 ⟨Row.alike_self _, fun y hy => (List.mem_filter.1 hy).2⟩
    rw [classes_cons]
    constructor
    · rw [List.flatten_cons, List.cons_append]
      exact .cons x ((ih.perm.append_left _).trans (List.filter_append_perm _ xs))
    · exact List.forall_mem_cons.2
        ⟨fun y hy z hz => Row.alike_trans (Row.alike_symm (hhead y hy)) (hhead z hz), ih.alike⟩
    · refine List.pairwise_cons.2 ⟨fun zs hzs y hy z hz hyz => ?_, ih.apart⟩
      have hrest := ih.perm.subset (List.mem_flatten.2 ⟨zs, hzs, hz⟩)
      have hnot : (key x).alike (key z) = false := by simpa using (List.mem_filter.1 hrest).2
      exact Bool.false_ne_true (hnot.symm.trans (Row.alike_trans (hhead y hy) hyz))
    · exact (ih.ordered.trans List.filter_sublist).cons_cons x

theorem keysOf_classes (key : Row → Row) (xs : List Row) :
    (classes key xs).map (keysOf key) = (xs.map key).eraseDupsBy Row.alike := by
  induction xs using classes_induction key with
  | nil =>
    rw [classes]
    rfl
  | cons x xs ih =>
    have houtside : ((xs.map key).filter fun k => decide (k.alike (key x) = false)) =
        (xs.filter fun y => !(key x).alike (key y)).map key := by
      rw [List.filter_map]
      refine congrArg _ (List.filter_congr fun y _ => ?_)
      rw [Function.comp_apply, Row.alike_comm]
      cases (key x).alike (key y) <;> rfl
    rw [classes_cons, List.map_cons, List.map_cons, List.eraseDupsBy_cons, houtside, ih]
    rfl

theorem partitions_classesBy (key : Row → Row) (groupBy : List Expr) (xs : List Row) :
    Partitions key (classesBy key groupBy xs) xs := by
  rw [classesBy]
  split
  · next h =>
    have hnil : xs = [] := List.isEmpty_iff.1 (Bool.and_eq_true_iff.1 h).2
    subst hnil
    exact ⟨.refl _, by simp, List.pairwise_singleton .., .slnil⟩
  · exact partitions_classes key xs

theorem classes_subset_classesBy (key : Row → Row) (groupBy : List Expr) (xs : List Row) :
    classes key xs ⊆ classesBy key groupBy xs := by
  rw [classesBy]
  split
  · next h =>
    have hnil : xs = [] := List.isEmpty_iff.1 (Bool.and_eq_true_iff.1 h).2
    subst hnil
    rw [classes]
    exact List.nil_subset _
  · exact List.Subset.refl _

theorem mem_classesBy {groupBy : List Expr} (h : ys ∈ classesBy key groupBy xs) :
    ys ∈ classes key xs ∨ ys = [] := by
  rw [classesBy] at h
  split at h
  · exact .inr (List.mem_singleton.1 h)
  · exact .inl h

theorem sized_keysOf (hys : ys ≠ []) (h : ∀ y ∈ ys, (key y).Sized) : (keysOf key ys).Sized := by
  obtain ⟨y, zs, rfl⟩ := List.exists_cons_of_ne_nil hys
  exact h y List.mem_cons_self

/-- Takes a row into the class of its keys, or into a new one behind the others. -/
def extend (key : Row → Row) (x : Row) : List (List Row) → List (List Row)
  | [] => [[x]]
  | ys :: css =>
    if (keysOf key ys).alike (key x) then (ys ++ [x]) :: css else ys :: extend key x css

theorem classes_concat (key : Row → Row) (xs : List Row) (x : Row) :
    classes key (xs ++ [x]) = extend key x (classes key xs) := by
  induction xs using classes_induction key with
  | nil => simp [classes, extend]
  | cons y ys ih =>
    rw [List.cons_append, classes_cons, classes_cons, extend, keysOf, List.filter_append,
      List.filter_append]
    cases halike : (key y).alike (key x) with
    | true => simp [halike]
    | false => simp [halike, ih]

theorem exists_prefix_of_mem_extend (key : Row → Row) (x : Row) (h : ys ∈ css) :
    ∃ zs ∈ extend key x css, ys <+: zs := by
  induction css with
  | nil => exact absurd h List.not_mem_nil
  | cons zs css ih =>
    rw [extend]
    split
    · rcases List.mem_cons.1 h with rfl | h
      · exact ⟨ys ++ [x], List.mem_cons_self, List.prefix_append ..⟩
      · exact ⟨ys, List.mem_cons_of_mem _ h, List.prefix_rfl⟩
    · rcases List.mem_cons.1 h with rfl | h
      · exact ⟨ys, List.mem_cons_self, List.prefix_rfl⟩
      · obtain ⟨zs, hzs, hpre⟩ := ih h
        exact ⟨zs, List.mem_cons_of_mem _ hzs, hpre⟩

theorem exists_prefix_of_mem_classes (h : ys ∈ classes key xs) (more : List Row) :
    ∃ zs ∈ classes key (xs ++ more), ys <+: zs := by
  induction more generalizing xs ys with
  | nil => exact ⟨ys, by rwa [List.append_nil], List.prefix_rfl⟩
  | cons x more ih =>
    obtain ⟨zs, hzs, hpre⟩ := exists_prefix_of_mem_extend key x h
    rw [← classes_concat] at hzs
    obtain ⟨us, hus, hmore⟩ := ih hzs
    rw [List.append_assoc] at hus
    exact ⟨us, hus, hpre.trans hmore⟩

end Grouping

end RelQuery
