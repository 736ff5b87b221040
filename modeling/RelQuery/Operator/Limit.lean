import RelQuery.Operator.Basic

namespace RelQuery

namespace Limit

structure Counters where
  skipped : Nat
  returned : Nat
  done : Bool
  deriving DecidableEq

def Counters.zero : Counters := ⟨0, 0, false⟩

structure State (σ : Type) where
  status : Status
  counters : Counters
  mark : Option Counters
  child : σ

variable {σ : Type}

def profile (limit : Option Nat) (offset : Nat) (child : Status) : Profile :=
  ⟨child.schema, CostModel.limit child.cost limit offset, child.columns⟩

/-- Skips so many tuples; tells whether the child had them all. -/
def skip (next : σ → Outcome (Option Tuple) σ) :
    Nat → Counters → σ → Outcome Bool (Counters × σ)
  | 0, c, s => (.ok true, c, s)
  | n + 1, c, s =>
    match next s with
    | (.error e, s) => (.error e, c, s)
    | (.ok none, s) => (.ok false, { c with done := true }, s)
    | (.ok (some _), s) => skip next n { c with skipped := c.skipped + 1 } s

theorem skip_le {next : σ → Outcome (Option Tuple) σ} {m : σ → Nat}
    (hnext : ∀ {s s' t}, next s = (.ok (some t), s') → m s' < m s) {n : Nat} {c c' : Counters}
    {s s' : σ} (h : skip next n c s = (.ok true, c', s')) : m s' ≤ m s := by
  induction n generalizing c s with
  | zero =>
    simp only [skip, Prod.mk.injEq] at h
    exact Nat.le_of_eq (by rw [h.2.2])
  | succ n ih =>
    rw [skip] at h
    split at h
    · simp at h
    · simp at h
    · next t cs hcs => exact Nat.le_trans (ih h) (Nat.le_of_lt (hnext hcs))

def reached (limit : Option Nat) (c : Counters) : Bool := limit.any (· ≤ c.returned)

/-- The next tuple of the window; no tuple is asked for behind its end. -/
def next (limit : Option Nat) (offset : Nat) (pull : σ → Outcome (Option Tuple) σ) (s : State σ) :
    Outcome (Option Tuple) (State σ) :=
  if s.counters.done || reached limit s.counters then
    (.ok none, { s with counters := { s.counters with done := true } })
  else
    match skip pull (offset - s.counters.skipped) s.counters s.child with
    | (.error e, c, cs) => (.error e, { s with counters := c, child := cs })
    | (.ok false, c, cs) => (.ok none, { s with counters := c, child := cs })
    | (.ok true, c, cs) =>
      match pull cs with
      | (.error e, cs) => (.error e, { s with counters := c, child := cs })
      | (.ok none, cs) => (.ok none, { s with counters := { c with done := true }, child := cs })
      | (.ok (some t), cs) =>
        (.ok (some t),
          { s with
            status := s.status.count
            counters := { c with returned := c.returned + 1 }
            child := cs })

def remaining (f : σ → Nat) (s : State σ) : Nat := if s.counters.done then 0 else f s.child

theorem next_some {limit : Option Nat} {offset : Nat} {pull : σ → Outcome (Option Tuple) σ}
    {m : σ → Nat} (hpull : ∀ {s s' t}, pull s = (.ok (some t), s') → m s' < m s) {s s' : State σ}
    {t : Tuple} (h : next limit offset pull s = (.ok (some t), s')) :
    remaining m s' < remaining m s := by
  unfold next at h
  split at h
  · simp at h
  · next hopen =>
    split at h
    · simp at h
    · simp at h
    · next c cs hskip =>
      have hle := skip_le hpull hskip
      split at h
      · simp at h
      · simp at h
      · next u ds hds =>
        have hlt := hpull hds
        have hnow : remaining m s = m s.child := by
          have : s.counters.done = false := by simp_all
          simp [remaining, this]
        have hthen : remaining m s' ≤ m ds := by
          obtain ⟨-, rfl⟩ := Prod.mk.inj h
          simp only [remaining]
          split <;> omega
        omega

def prepare (limit : Option Nat) (offset : Nat) (child : Operator) (c : Config)
    (s : State child.State) : Outcome Unit (State child.State) :=
  match child.prepare c s.child with
  | (.error e, cs) => (.error e, { s with child := cs })
  | (.ok _, cs) =>
    (.ok (),
      { s with status := s.status.settle (profile limit offset (child.status cs)), child := cs })

def rewind (f : σ → Outcome Unit σ) (s : State σ) : Outcome Unit (State σ) :=
  match s.status.check .limit with
  | .error e => (.error e, s)
  | .ok _ =>
    ((f s.child).1,
      { s with status := s.status.restart, counters := .zero, child := (f s.child).2 })

theorem rewind_ok {f : σ → Outcome Unit σ} {s s' : State σ} (h : rewind f s = (.ok (), s')) :
    f s.child = (.ok (), s'.child) ∧ s'.status = s.status.restart ∧ s'.counters = .zero := by
  unfold rewind at h
  split at h
  · simp at h
  · simp only [Prod.mk.injEq] at h
    obtain ⟨h, rfl⟩ := h
    exact ⟨Prod.ext h rfl, rfl, rfl⟩

def setMark (marks : Bool) (f : σ → Outcome Unit σ) (s : State σ) : Outcome Unit (State σ) :=
  if marks then
    match f s.child with
    | (.error e, c) => (.error e, { s with child := c })
    | (.ok _, c) => (.ok (), { s with mark := some s.counters, child := c })
  else
    (.error (.invalidState (.unmarkable .limit)), s)

def reset (marks : Bool) (f : σ → Outcome Unit σ) (s : State σ) : Outcome Unit (State σ) :=
  if marks then
    match s.mark with
    | none => (.error (.invalidState (.noMark .limit)), s)
    | some m =>
      match f s.child with
      | (.error e, c) => (.error e, { s with child := c })
      | (.ok _, c) => (.ok (), { s with counters := m, child := c })
  else
    (.error (.invalidState (.unmarkable .limit)), s)

def label (limit : Option Nat) (offset : Nat) : String :=
  match limit with
  | some l => "Limit[limit=" ++ toString l ++ ", offset=" ++ toString offset ++ "]"
  | none => "Limit[offset=" ++ toString offset ++ "]"

end Limit

def Operator.limit (limit : Option Nat) (offset : Nat) (child : Operator) : Operator where
  State := Limit.State child.State
  start := ⟨.fresh, .zero, none, child.start⟩
  marks := child.marks
  orderedBy := child.orderedBy
  status := Limit.State.status
  prepare := Limit.prepare limit offset child
  rewind := Limit.rewind child.rewind
  next db := Limit.next limit offset (child.next db)
  mark := Limit.setMark child.marks child.mark
  reset := Limit.reset child.marks child.reset
  cleanUp s := { s with child := child.cleanUp s.child }
  supply := child.supply
  remaining db := Limit.remaining (child.remaining db)
  kept s := child.kept s.child
  report s :=
    .node .limit (Limit.label limit offset) s.status child.marks child.orderedBy
      [child.report s.child]
  next_lt := Limit.next_some child.next_lt
  rewind_le h := by
    obtain ⟨hchild, -, hzero⟩ := Limit.rewind_ok h
    simpa [Limit.remaining, hzero, Limit.Counters.zero] using child.rewind_le hchild

end RelQuery
