import Mathlib.Tactic
import RelQuery.Storage.Ledger

namespace RelQuery

namespace Page

variable {size : Nat} {p : Page} {ps : List Page} {row : Row} {i j : Nat}

/-- Pages as inserts leave them: all but the last are full, and none is empty. -/
def Filled (size : Nat) : List Page → Prop
  | [] => True
  | [p] => 0 < p.length ∧ p.length ≤ size
  | p :: q :: ps => p.length = size ∧ Filled size (q :: ps)

theorem Filled.full (h : Filled size ps) : ∀ p ∈ ps.dropLast, p.length = size := by
  fun_induction Filled size ps with
  | case1 => simp
  | case2 p => simp
  | case3 p q ps ih =>
    rw [List.dropLast_cons_cons]
    exact List.forall_mem_cons.2 ⟨h.1, ih h.2⟩

theorem Filled.nonempty (hsize : 0 < size) (h : Filled size ps) : ∀ p ∈ ps, p ≠ [] := by
  fun_induction Filled size ps with
  | case1 => simp
  | case2 p =>
    intro q hq
    rw [List.mem_singleton.1 hq, ← List.length_pos_iff]
    exact h.1
  | case3 p q ps ih =>
    have hp : p ≠ [] := List.length_pos_iff.1 (by omega)
    exact List.forall_mem_cons.2 ⟨hp, ih h.2⟩

theorem Filled.congr {qs : List Page} (hlength : qs.map List.length = ps.map List.length)
    (h : Filled size ps) : Filled size qs := by
  fun_induction Filled size ps generalizing qs with
  | case1 =>
    rw [List.map_nil, List.map_eq_nil_iff] at hlength
    rw [hlength]
    trivial
  | case2 p =>
    obtain ⟨q, rfl, hq⟩ := List.map_eq_singleton_iff.1 hlength
    rw [Filled, hq]
    exact h
  | case3 p q ps ih =>
    obtain ⟨p', qs, rfl, hp', hrest⟩ := List.map_eq_cons_iff.1 hlength
    have hqs := ih hrest h.2
    obtain ⟨q', qs', rfl, -, -⟩ := List.map_eq_cons_iff.1 hrest
    exact ⟨hp'.trans h.1, hqs⟩

/-- An insert puts the row behind all slots, and numbers it by how many there are. -/
theorem Filled.append (row : Row) (hsize : 0 < size) (h : Filled size ps) :
    Filled size (append size row ps).1 ∧
      (append size row ps).1.flatten = ps.flatten ++ [some row] ∧
      (append size row ps).2 = (ps.flatten.length / size, ps.flatten.length % size) := by
  induction ps using Page.append.induct size row with
  | case1 =>
    rw [Page.append]
    simp only [Filled, List.flatten_nil, List.length_nil, Nat.zero_div, Nat.zero_mod]
    exact ⟨⟨Nat.one_pos, hsize⟩, rfl, trivial⟩
  | case2 p hlt =>
    rw [Page.append, if_pos hlt]
    simp only [Filled, List.length_append, List.length_singleton, List.flatten_cons,
      List.flatten_nil, List.append_nil, Nat.div_eq_of_lt hlt, Nat.mod_eq_of_lt hlt]
    exact ⟨⟨by omega, by omega⟩, trivial, trivial⟩
  | case3 p hlt =>
    have hp : p.length = size := by
      have hle := h.2
      omega
    rw [Page.append, if_neg hlt]
    simp only [Filled, List.flatten_cons, List.flatten_nil, List.append_nil, hp,
      Nat.div_self hsize, Nat.mod_self]
    exact ⟨⟨trivial, Nat.one_pos, hsize⟩, trivial, trivial⟩
  | case4 p q ps pages n slot heq ih =>
    obtain ⟨hp, hrest⟩ := h
    have hstep := ih hrest
    rw [heq] at hstep
    obtain ⟨hfilled, hflatten, hplace⟩ := hstep
    obtain ⟨hn, hslot⟩ := Prod.mk.inj hplace
    rw [Page.append, heq]
    -- The first page is full and is passed over, which counts one page and no slot.
    have hcons : Filled size (p :: pages) := by
      cases pages with
      | nil => simp at hflatten
      | cons q' pages => exact ⟨hp, hfilled⟩
    refine ⟨hcons, ?_, ?_⟩
    · have hcut : (p :: q :: ps).flatten = p ++ (q :: ps).flatten := List.flatten_cons
      rw [hcut, List.append_assoc, ← hflatten]
      rfl
    · rw [List.flatten_cons, List.length_append, hp, Nat.add_div_left _ hsize, Nat.add_mod_left,
        ← hn, ← hslot]

theorem Filled.length_le (h : Filled size ps) : ∀ p ∈ ps, p.length ≤ size := by
  fun_induction Filled size ps with
  | case1 => simp
  | case2 p =>
    intro q hq
    rw [List.mem_singleton.1 hq]
    exact h.2
  | case3 p q ps ih => exact List.forall_mem_cons.2 ⟨Nat.le_of_eq h.1, ih h.2⟩

theorem Filled.tail (h : Filled size (p :: ps)) : Filled size ps := by
  cases ps with
  | nil => trivial
  | cons q ps => exact h.2

theorem Filled.slot_eq (h : Filled size ps) (i j : Nat) :
    (ps[i]?.bind fun p => p[j]?) = if j < size then ps.flatten[i * size + j]? else none := by
  induction ps generalizing i with
  | nil => simp
  | cons p ps ih =>
    have hle : p.length ≤ size := h.length_le p List.mem_cons_self
    cases i with
    | zero =>
      rw [List.getElem?_cons_zero, Option.bind_some, Nat.zero_mul, Nat.zero_add, List.flatten_cons]
      by_cases hj : j < p.length
      · rw [if_pos (by omega), List.getElem?_append_left hj]
      · rw [List.getElem?_eq_none (by omega)]
        by_cases hjs : j < size
        · -- Only the last page may be short, and nothing comes behind it.
          have hnil : ps = [] := by
            cases ps with
            | nil => rfl
            | cons q ps =>
              have hfull := h.1
              omega
          rw [if_pos hjs, hnil, List.flatten_nil, List.append_nil,
            List.getElem?_eq_none (by omega)]
        · rw [if_neg hjs]
    | succ i =>
      rw [List.getElem?_cons_succ, ih h.tail, List.flatten_cons]
      by_cases hjs : j < size
      · have hmul : (i + 1) * size = size + i * size := by rw [Nat.succ_mul, Nat.add_comm]
        rw [if_pos hjs, if_pos hjs, List.getElem?_append_right (by omega)]
        cases ps with
        | nil => simp
        | cons q ps =>
          have hfull : p.length = size := h.1
          rw [hfull, hmul, show size + i * size + j - size = i * size + j by omega]
      · rw [if_neg hjs, if_neg hjs]

theorem Filled.flatten_modify (h : Filled size ps) (hj : j < size) (i : Nat)
    (contents : Option Row) : (ps.modify i (·.set j contents)).flatten =
      ps.flatten.set (i * size + j) contents := by
  induction ps generalizing i with
  | nil => simp
  | cons p ps ih =>
    have hle : p.length ≤ size := h.length_le p List.mem_cons_self
    cases i with
    | zero =>
      rw [List.modify_zero_cons, List.flatten_cons, List.flatten_cons, Nat.zero_mul, Nat.zero_add]
      by_cases hjp : j < p.length
      · rw [List.set_append_left _ _ hjp]
      · have hnil : ps = [] := by
          cases ps with
          | nil => rfl
          | cons q ps =>
            have hfull := h.1
            omega
        rw [hnil, List.flatten_nil, List.append_nil, List.append_nil]
    | succ i =>
      rw [List.modify_succ_cons, List.flatten_cons, List.flatten_cons, ih h.tail]
      have hmul : (i + 1) * size = size + i * size := by rw [Nat.succ_mul, Nat.add_comm]
      rw [List.set_append_right _ _ (by omega)]
      cases ps with
      | nil => simp
      | cons q ps =>
        have hfull : p.length = size := h.1
        rw [hfull, hmul, show size + i * size + j - size = i * size + j by omega]

theorem Filled.modify (h : Filled size ps) (i j : Nat) (contents : Option Row) :
    Filled size (ps.modify i (·.set j contents)) := by
  refine h.congr (List.ext_getElem (by simp) fun k hk hk' => ?_)
  simp only [List.getElem_map, List.getElem_modify]
  split <;> simp

section Live

/-- The live rows of a page with their slots, which are numbered from `i`. -/
def live (i : Nat) (p : Page) : List (Nat × Row) :=
  (p.zipIdx i).filterMap fun s => s.1.map (s.2, ·)

/-- The live rows of pages with their pages and slots; the pages are numbered from `n`. -/
def places (n : Nat) : List Page → List (Nat × Nat × Row)
  | [] => []
  | p :: ps => (p.live 0).map (n, ·) ++ places (n + 1) ps

theorem live_none (i : Nat) (p : Page) : live i (none :: p) = live (i + 1) p := by
  simp [live, List.zipIdx_cons]

theorem live_some (i : Nat) (r : Row) (p : Page) :
    live i (some r :: p) = (i, r) :: live (i + 1) p := by
  simp [live, List.zipIdx_cons]

theorem first_eq (i : Nat) (p : Page) : first i p = (live i p).head? := by
  induction p generalizing i with
  | nil => rfl
  | cons s p ih =>
    cases s with
    | none => rw [first, ih, live_none]
    | some r => rw [first, live_some, List.head?_cons]

theorem first_drop (i slot : Nat) (p : Page) :
    first (i + slot) (p.drop slot) = (live i p).find? fun x => i + slot ≤ x.1 := by
  induction p generalizing i slot with
  | nil => simp [live, first]
  | cons s p ih =>
    cases slot with
    | zero =>
      rw [List.drop_zero, first_eq, Nat.add_zero]
      -- No slot comes before the first, so the test is passed by all.
      have hall : ∀ x ∈ live i (s :: p), i ≤ x.1 := by
        intro x hx
        obtain ⟨⟨s', k⟩, hk, hx⟩ := List.mem_filterMap.1 hx
        obtain ⟨r, -, rfl⟩ := Option.map_eq_some_iff.1 hx
        exact (List.mem_zipIdx hk).1
      cases hlive : live i (s :: p) with
      | nil => rfl
      | cons x xs =>
        have hx : i ≤ x.1 := hall x (hlive ▸ List.mem_cons_self)
        rw [List.head?_cons, List.find?_cons_of_pos (by simpa using hx)]
    | succ slot =>
      have hstep := ih (i + 1) slot
      rw [show i + 1 + slot = i + (slot + 1) by omega] at hstep
      rw [List.drop_succ_cons, hstep]
      cases s with
      | none => rw [live_none]
      | some r => rw [live_some, List.find?_cons_of_neg (by simp)]

theorem le_of_mem_places {n : Nat} {x : Nat × Nat × Row} (h : x ∈ places n ps) : n ≤ x.1 := by
  induction ps generalizing n with
  | nil => exact absurd h List.not_mem_nil
  | cons p ps ih =>
    rcases List.mem_append.1 h with h | h
    · obtain ⟨y, -, rfl⟩ := List.mem_map.1 h
      exact Nat.le_refl n
    · have hle := ih h
      omega

/-- In the order of pages and slots, a live row does not come before the given place. -/
def isFrom (page slot : Nat) (x : Nat × Nat × Row) : Bool :=
  page < x.1 || (page == x.1 && slot ≤ x.2.1)

theorem firstFrom_eq (n slot : Nat) (ps : List Page) :
    firstFrom n slot ps = (places n ps).find? (isFrom n slot) := by
  induction ps generalizing n slot with
  | nil => rfl
  | cons p ps ih =>
    have hhere : ((p.live 0).map (n, ·)).find? (isFrom n slot) =
        (first slot (p.drop slot)).map (n, ·) := by
      rw [List.find?_map]
      have hfirst := first_drop 0 slot p
      rw [Nat.zero_add] at hfirst
      rw [hfirst]
      congr 2
      funext x
      simp [isFrom]
    have hbehind : (places (n + 1) ps).find? (isFrom n slot) =
        (places (n + 1) ps).find? (isFrom (n + 1) 0) := by
      apply List.find?_congr
      intro x hx
      have hle := le_of_mem_places hx
      simp only [isFrom, Nat.zero_le, decide_true, Bool.and_true]
      rw [Bool.eq_iff_iff]
      simp only [Bool.or_eq_true, Bool.and_eq_true, decide_eq_true_eq, beq_iff_eq]
      omega
    rw [firstFrom, places, List.find?_append, hhere, hbehind, ih]
    cases first slot (p.drop slot) <;> rfl

theorem firstFrom_drop (page slot : Nat) (ps : List Page) :
    firstFrom page slot (ps.drop page) = (places 0 ps).find? (isFrom page slot) := by
  rw [firstFrom_eq]
  have hdrop : ∀ n, (places (n + page) (ps.drop page)).find? (isFrom (n + page) slot) =
      (places n ps).find? (isFrom (n + page) slot) := by
    intro n
    induction page generalizing n ps with
    | zero => rfl
    | succ page ih =>
      cases ps with
      | nil => rfl
      | cons p ps =>
        have hbefore : ((p.live 0).map (n, ·)).find? (isFrom (n + (page + 1)) slot) = none := by
          rw [List.find?_eq_none]
          intro x hx
          obtain ⟨y, -, rfl⟩ := List.mem_map.1 hx
          simp only [isFrom, Bool.or_eq_true, Bool.and_eq_true, decide_eq_true_eq, beq_iff_eq]
          omega
        have hstep := ih ps (n + 1)
        rw [show n + 1 + page = n + (page + 1) by omega] at hstep
        rw [List.drop_succ_cons, places, List.find?_append, hbefore, Option.none_or, hstep]
  have hzero := hdrop 0
  rw [Nat.zero_add] at hzero
  exact hzero

/-- The live rows of filled pages are those of their slots, placed by their numbers. -/
theorem Filled.places_eq (hsize : 0 < size) (h : Filled size ps) (n : Nat) :
    places n ps = (ps.flatten.zipIdx (n * size)).filterMap fun s =>
      s.1.map fun r => (s.2 / size, s.2 % size, r) := by
  induction ps generalizing n with
  | nil => rfl
  | cons p ps ih =>
    have hle : p.length ≤ size := h.length_le p List.mem_cons_self
    have hhere : (p.live 0).map (n, ·) = (p.zipIdx (n * size)).filterMap fun s =>
        s.1.map fun r => (s.2 / size, s.2 % size, r) := by
      have hshift : p.zipIdx (n * size) = (p.zipIdx 0).map fun s => (s.1, n * size + s.2) :=
        List.zipIdx_eq_map_add ..
      rw [live, List.map_filterMap, hshift, List.filterMap_map]
      apply List.filterMap_congr
      rintro ⟨s, k⟩ hk
      have hlt : k < size := by
        have hkp := (List.mem_zipIdx hk).2.1
        omega
      have hdiv : (n * size + k) / size = n := by
        rw [Nat.mul_comm, Nat.mul_add_div hsize, Nat.div_eq_of_lt hlt, Nat.add_zero]
      have hmod : (n * size + k) % size = k := by
        rw [Nat.mul_comm, Nat.mul_add_mod, Nat.mod_eq_of_lt hlt]
      cases s with
      | none => rfl
      | some r => simp [hdiv, hmod]
    rw [places, hhere, ih h.tail, List.flatten_cons, List.zipIdx_append, List.filterMap_append]
    cases ps with
    | nil => simp
    | cons q ps =>
      have hfull : p.length = size := h.1
      rw [hfull, Nat.succ_mul]

end Live

end Page

end RelQuery
