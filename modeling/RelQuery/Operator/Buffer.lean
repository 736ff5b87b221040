import RelQuery.Operator.Basic

namespace RelQuery

structure Buffered (σ : Type) where
  status : Status
  rows : List Tuple
  loaded : Bool
  position : Nat
  mark : Option Nat
  child : σ

namespace Buffered

variable {σ β : Type}

def fresh (child : σ) : Buffered σ := ⟨.fresh, [], false, 0, none, child⟩

/-- Folds a step over all tuples still to come. A failure leaves the input where it is. -/
def fold (step : β → Tuple → Except QueryError β) (next : σ → Outcome (Option Tuple) σ) :
    Nat → β → σ → Outcome β σ
  | 0, b, s => (.ok b, s)
  | fuel + 1, b, s =>
    match next s with
    | (.error e, s) => (.error e, s)
    | (.ok none, s) => (.ok b, s)
    | (.ok (some t), s) =>
      match step b t with
      | .error e => (.error e, s)
      | .ok b => fold step next fuel b s

theorem fold_le {step : β → Tuple → Except QueryError β} {next : σ → Outcome (Option Tuple) σ}
    {m : σ → Nat} (size : β → Nat)
    (hnext : ∀ {s s' t}, next s = (.ok (some t), s') → m s' < m s)
    (hstep : ∀ {b b' t}, step b t = .ok b' → size b' ≤ size b + 1) {fuel : Nat} {b b' : β}
    {s s' : σ} (h : fold step next fuel b s = (.ok b', s')) : size b' ≤ size b + m s := by
  induction fuel generalizing b s with
  | zero =>
    simp only [fold, Prod.mk.injEq, Except.ok.injEq] at h
    exact h.1 ▸ Nat.le_add_right ..
  | succ fuel ih =>
    rw [fold] at h
    split at h
    · simp at h
    · simp only [Prod.mk.injEq, Except.ok.injEq] at h
      exact h.1 ▸ Nat.le_add_right ..
    · next t c hc =>
      split at h
      · simp at h
      · next b₁ hb₁ =>
        have hlt := hnext hc
        have hle := hstep hb₁
        have hrest := ih h
        omega

/-- Prepares the child and then the operator, whose profile follows from the child's. -/
def prepare (f : σ → Outcome Unit σ) (profile : σ → Except QueryError Profile) (s : Buffered σ) :
    Outcome Unit (Buffered σ) :=
  match f s.child with
  | (.error e, c) => (.error e, { s with child := c })
  | (.ok _, c) =>
    match profile c with
    | .error e => (.error e, { s with child := c })
    | .ok p => (.ok (), { s with status := s.status.settle p, child := c })

def rewind (kind : OperatorKind) (f : σ → Outcome Unit σ) (s : Buffered σ) :
    Outcome Unit (Buffered σ) :=
  match s.status.check kind with
  | .error e => (.error e, s)
  | .ok _ =>
    ((f s.child).1,
      { s with
        status := s.status.restart, rows := [], loaded := false, position := 0
        child := (f s.child).2 })

theorem rewind_ok {kind : OperatorKind} {f : σ → Outcome Unit σ} {s s' : Buffered σ}
    (h : rewind kind f s = (.ok (), s')) :
    f s.child = (.ok (), s'.child) ∧ s'.loaded = false ∧ s'.position = 0 := by
  unfold rewind at h
  split at h
  · simp at h
  · simp only [Prod.mk.injEq] at h
    obtain ⟨h, rfl⟩ := h
    exact ⟨Prod.ext h rfl, rfl, rfl⟩

def hand (s : Buffered σ) : Outcome (Option Tuple) (Buffered σ) :=
  match s.rows[s.position]? with
  | none => (.ok none, s)
  | some t => (.ok (some t), { s with status := s.status.count, position := s.position + 1 })

def next (load : σ → Outcome (List Tuple) σ) (s : Buffered σ) :
    Outcome (Option Tuple) (Buffered σ) :=
  if s.loaded then s.hand
  else
    match load s.child with
    | (.error e, c) => (.error e, { s with child := c })
    | (.ok rows, c) => hand { s with rows := rows, loaded := true, child := c }

def setMark (s : Buffered σ) : Outcome Unit (Buffered σ) :=
  (.ok (), { s with mark := some s.position })

def reset (kind : OperatorKind) (s : Buffered σ) : Outcome Unit (Buffered σ) :=
  match s.mark with
  | some p => (.ok (), { s with position := p })
  | none => (.error (.invalidState (.noMark kind)), s)

/-- Gives up the buffer; the position stays. -/
def cleanUp (f : σ → σ) (s : Buffered σ) : Buffered σ :=
  { s with rows := [], loaded := false, child := f s.child }

/-- The rows still in the buffer, or as many as the input can still give. -/
def remaining (extra : Nat) (f : σ → Nat) (s : Buffered σ) : Nat :=
  if s.loaded then s.rows.length - s.position else f s.child + extra - s.position

theorem hand_some {s s' : Buffered σ} {t : Tuple} (h : hand s = (.ok (some t), s')) :
    s.position < s.rows.length ∧ s'.rows = s.rows ∧ s'.loaded = s.loaded ∧
      s'.position = s.position + 1 := by
  unfold hand at h
  split at h
  · simp at h
  · next hrow =>
    obtain ⟨-, rfl⟩ := Prod.mk.inj h
    exact ⟨(List.getElem?_eq_some_iff.1 hrow).1, rfl, rfl, rfl⟩

theorem next_some {load : σ → Outcome (List Tuple) σ} {extra : Nat} {m : σ → Nat}
    (hload : ∀ {s s' rows}, load s = (.ok rows, s') → rows.length ≤ m s + extra)
    {s s' : Buffered σ} {t : Tuple} (h : next load s = (.ok (some t), s')) :
    remaining extra m s' < remaining extra m s := by
  unfold next at h
  split at h
  · next hloaded =>
    obtain ⟨hlt, hrows, hl, hpos⟩ := hand_some h
    simp only [remaining, hl, hloaded, hrows, hpos, if_true]
    omega
  · next hloaded =>
    split at h
    · simp at h
    · next rows c hc =>
      obtain ⟨hlt, hrows, hl, hpos⟩ := hand_some h
      have hle := hload hc
      simp only [remaining, hl, hloaded, hrows, hpos, if_true, Bool.false_eq_true, if_false] at *
      omega

end Buffered

/-- How the rows are made of the whole input; there may be a few more of them than input rows. -/
structure Buffered.Loader (child : Operator) where
  load : Storage → child.State → Outcome (List Tuple) child.State
  extra : Nat
  length_load : ∀ {db s s' rows}, load db s = (.ok rows, s') →
    rows.length ≤ child.remaining db s + extra

/-- An operator that loads its rows from the whole input of its child. -/
def Operator.buffered (kind : OperatorKind) (orderedBy : List OrderKey) (label : String)
    (child : Operator) (profile : Config → Status → Except QueryError Profile)
    (loader : Buffered.Loader child) : Operator where
  State := Buffered child.State
  start := .fresh child.start
  marks := true
  orderedBy := orderedBy
  status := Buffered.status
  prepare c := Buffered.prepare (child.prepare c) fun s => profile c (child.status s)
  rewind := Buffered.rewind kind child.rewind
  next db := Buffered.next (loader.load db)
  mark := Buffered.setMark
  reset := Buffered.reset kind
  cleanUp := Buffered.cleanUp child.cleanUp
  supply db := child.supply db + loader.extra
  remaining db := Buffered.remaining loader.extra (child.remaining db)
  kept s := s.rows ++ child.kept s.child
  report s := .node kind label s.status true orderedBy [child.report s.child]
  next_lt := Buffered.next_some loader.length_load
  rewind_le h := by
    obtain ⟨hchild, hloaded, hpos⟩ := Buffered.rewind_ok h
    simpa [Buffered.remaining, hloaded, hpos] using child.rewind_le hchild

end RelQuery
