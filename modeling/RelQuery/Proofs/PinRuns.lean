import Mathlib.Algebra.Order.Group.Multiset
import Mathlib.Data.Multiset.Count
import RelQuery.Pins.Counts

namespace RelQuery

def pinsOf (ts : List Tuple) : Multiset PageId := ↑(ts.filterMap Tuple.pin?)

@[simp] theorem pinsOf_nil : pinsOf [] = 0 := rfl

theorem pinsOf_append (ts us : List Tuple) : pinsOf (ts ++ us) = pinsOf ts + pinsOf us := by
  simp [pinsOf, List.filterMap_append]

theorem pinsOf_cons (t : Tuple) (ts : List Tuple) : pinsOf (t :: ts) = pinsOf [t] + pinsOf ts :=
  pinsOf_append [t] ts

theorem mem_pinsOf {p : PageId} {ts : List Tuple} : p ∈ pinsOf ts ↔ ∃ t ∈ ts, t.pin? = some p := by
  simp [pinsOf]

theorem count_pinsOf (p : PageId) (ts : List Tuple) : (pinsOf ts).count p = Tuple.pinsOn p ts := by
  rw [pinsOf, Multiset.coe_count, List.count_filterMap, Tuple.pinsOn]

theorem Tuple.isPinned_eq (t : Tuple) : t.isPinned = t.pin?.isSome := by
  rcases t with ⟨values, _ | ⟨location, _ | _⟩⟩ <;> rfl

theorem pinsOf_eq_zero {ts : List Tuple} : pinsOf ts = 0 ↔ ∀ t ∈ ts, t.pin? = none := by
  simp [pinsOf, List.filterMap_eq_nil_iff]

theorem isPinned_of_pinsOf_eq_zero {ts : List Tuple} (h : pinsOf ts = 0) :
    ∀ t ∈ ts, t.isPinned = false := by
  intro t ht
  rw [t.isPinned_eq, pinsOf_eq_zero.1 h t ht]
  rfl

/-- Events that can happen to the pins that are alive: a pin is only released where there is one,
and only taken on one of the given pages. -/
inductive PinRun (pages : PageId → Prop) : Multiset PageId → List PinEvent → Multiset PageId → Prop
  | nil (a) : PinRun pages a [] a
  | taken {p a es b} : pages p → PinRun pages (p ::ₘ a) es b → PinRun pages a (.taken p :: es) b
  | released {p a es b} : PinRun pages a es b → PinRun pages (p ::ₘ a) (.released p :: es) b

namespace PinCounts

theorem count_cons (r : PageId) (k : Int) (m : PinCounts) (q : PageId) :
    count ((r, k) :: m) q = if r = q then k else m.count q := by
  by_cases hq : r = q
  · rw [if_pos hq, count, List.lookup_cons, hq, beq_self_eq_true]
    rfl
  · rw [if_neg hq, count, List.lookup_cons, beq_eq_false_iff_ne.2 (Ne.symm hq)]
    rfl

theorem count_add (m : PinCounts) (p q : PageId) (n : Int) :
    (m.add p n).count q = m.count q + if p = q then n else 0 := by
  induction m with
  | nil =>
    rw [add, count_cons]
    simp [count]
  | cons e m ih =>
    obtain ⟨r, k⟩ := e
    by_cases hr : r = p
    · subst hr
      rw [add, if_pos rfl, count_cons, count_cons]
      split <;> omega
    · rw [add, if_neg hr, count_cons, count_cons, ih]
      split
      · next hq =>
        subst hq
        rw [if_neg (Ne.symm hr)]
        omega
      · rfl

theorem count_apply (m : PinCounts) (e : PinEvent) (p : PageId) :
    (m.apply e).count p = m.count p + e.change p := by
  cases e <;> exact count_add ..

def Follows (m : PinCounts) (a : Multiset PageId) : Prop := ∀ p, m.count p = a.count p

end PinCounts

namespace PinRun

variable {pages pages' : PageId → Prop} {a b c : Multiset PageId} {es fs : List PinEvent}

theorem mono (h : PinRun pages a es b) (hpages : ∀ p, pages p → pages' p) :
    PinRun pages' a es b := by
  induction h with
  | nil a => exact .nil a
  | taken hp _ ih => exact .taken (hpages _ hp) ih
  | released _ ih => exact .released ih

theorem trans (h : PinRun pages a es b) (h' : PinRun pages b fs c) :
    PinRun pages a (es ++ fs) c := by
  induction h with
  | nil a => exact h'
  | taken hp _ ih => exact .taken hp (ih h')
  | released _ ih => exact .released (ih h')

theorem frame (h : PinRun pages a es b) (c : Multiset PageId) :
    PinRun pages (a + c) es (b + c) := by
  induction h with
  | nil a => exact .nil _
  | taken hp _ ih => exact .taken hp (by rwa [Multiset.cons_add] at ih)
  | released _ ih =>
    rw [Multiset.cons_add]
    exact .released ih

theorem taken_tuple {t : Tuple} (h : ∀ p, t.pin? = some p → pages p) :
    PinRun pages 0 t.taken (pinsOf [t]) := by
  cases hp : t.pin? with
  | none => simp [Tuple.taken, pinsOf, hp, PinRun.nil]
  | some p => simpa [Tuple.taken, pinsOf, hp] using PinRun.taken (h p hp) (.nil (p ::ₘ 0))

theorem released_tuple (t : Tuple) : PinRun pages (pinsOf [t]) t.released 0 := by
  cases hp : t.pin? with
  | none => simp [Tuple.released, pinsOf, hp, PinRun.nil]
  | some p =>
    have hrun : PinRun pages (p ::ₘ 0) [.released p] 0 := .released (.nil 0)
    simpa [Tuple.released, pinsOf, hp] using hrun

theorem release_all (ts : List Tuple) : PinRun pages (pinsOf ts) (Tuple.releaseAll ts) 0 := by
  induction ts with
  | nil => exact .nil 0
  | cons t ts ih =>
    rw [pinsOf_cons, Tuple.releaseAll, List.flatMap_cons]
    have hfirst : PinRun pages _ t.released (0 + pinsOf ts) := (released_tuple t).frame (pinsOf ts)
    rw [zero_add] at hfirst
    exact hfirst.trans ih

theorem count_run (h : PinRun pages a es b) {m : PinCounts} (hm : m.Follows a) :
    (m.run es).Follows b := by
  induction h generalizing m with
  | nil a => exact hm
  | @taken p a es b _ _ ih =>
    apply ih
    intro q
    rw [PinCounts.count_apply, hm, Multiset.count_cons]
    simp only [PinEvent.change, eq_comm (a := p) (b := q)]
    split <;> push_cast <;> omega
  | @released p a es b _ ih =>
    apply ih
    intro q
    rw [PinCounts.count_apply, hm, Multiset.count_cons]
    simp only [PinEvent.change, eq_comm (a := p) (b := q)]
    split <;> push_cast <;> omega

theorem of_prefix (h : PinRun pages a es b) (hfs : fs <+: es) : ∃ c, PinRun pages a fs c := by
  induction h generalizing fs with
  | nil a =>
    obtain rfl := List.prefix_nil.1 hfs
    exact ⟨a, .nil a⟩
  | @taken p a es b hp _ ih =>
    cases fs with
    | nil => exact ⟨a, .nil a⟩
    | cons f fs =>
      obtain ⟨rfl, hrest⟩ := List.cons_prefix_cons.1 hfs
      obtain ⟨c, hc⟩ := ih hrest
      exact ⟨c, .taken hp hc⟩
  | @released p a es b _ ih =>
    cases fs with
    | nil => exact ⟨_, .nil _⟩
    | cons f fs =>
      obtain ⟨rfl, hrest⟩ := List.cons_prefix_cons.1 hfs
      obtain ⟨c, hc⟩ := ih hrest
      exact ⟨c, .released hc⟩

theorem count_nonneg (h : PinRun pages a es b) {m : PinCounts} (hm : m.Follows a) (hfs : fs <+: es)
    (p : PageId) : 0 ≤ (m.run fs).count p := by
  obtain ⟨c, hc⟩ := h.of_prefix hfs
  rw [hc.count_run hm p]
  exact Int.natCast_nonneg _

/-- A pin that is alive at the end was there before, or is on one of the given pages. -/
theorem mem_or (h : PinRun pages a es b) {p : PageId} (hp : p ∈ b) : p ∈ a ∨ pages p := by
  induction h with
  | nil a => exact .inl hp
  | @taken q a es b hq _ ih =>
    rcases ih hp with hmem | hpage
    · rcases Multiset.mem_cons.1 hmem with rfl | hmem
      · exact .inr hq
      · exact .inl hmem
    · exact .inr hpage
  | released _ ih => exact (ih hp).imp_left (Multiset.mem_cons_of_mem ·)

end PinRun

end RelQuery
