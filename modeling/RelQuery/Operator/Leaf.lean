import RelQuery.Operator.Basic

namespace RelQuery

/-- The state of an operator without children. -/
structure Leaf (κ : Type) where
  status : Status
  position : κ
  mark : Option κ

namespace Leaf

/-- Where tuples come from: what stands at each position, and where the position moves. -/
structure Source (κ : Type) where
  first : κ
  pull : Storage → Schema → κ → Outcome (Option Tuple) κ
  /-- A bound on the tuples from a position on. -/
  remaining : Storage → κ → Nat
  pull_lt : ∀ {db s p p' t}, pull db s p = (.ok (some t), p') → remaining db p' < remaining db p

variable {κ : Type}

def prepare (profile : Except QueryError Profile) (s : Leaf κ) : Outcome Unit (Leaf κ) :=
  match profile with
  | .error e => (.error e, s)
  | .ok p => (.ok (), { s with status := s.status.settle p })

def rewind (kind : OperatorKind) (first : κ) (s : Leaf κ) : Outcome Unit (Leaf κ) :=
  match s.status.check kind with
  | .error e => (.error e, s)
  | .ok _ => (.ok (), { s with status := s.status.restart, position := first })

/-- Takes a tuple from the position on and counts it. -/
def next (pull : Schema → κ → Outcome (Option Tuple) κ) (s : Leaf κ) :
    Outcome (Option Tuple) (Leaf κ) :=
  let (r, p) := pull s.status.schema s.position
  let status := match r with
    | .ok (some _) => s.status.count
    | _ => s.status
  (r, { s with status := status, position := p })

def setMark (s : Leaf κ) : Outcome Unit (Leaf κ) :=
  (.ok (), { s with mark := some s.position })

def reset (kind : OperatorKind) (s : Leaf κ) : Outcome Unit (Leaf κ) :=
  match s.mark with
  | some p => (.ok (), { s with position := p })
  | none => (.error (.invalidState (.noMark kind)), s)

theorem next_eq {pull : Schema → κ → Outcome (Option Tuple) κ} {s s' : Leaf κ}
    {r : Except QueryError (Option Tuple)} (h : next pull s = (r, s')) :
    pull s.status.schema s.position = (r, s'.position) ∧ s'.status.profile = s.status.profile ∧
      s'.mark = s.mark := by
  simp only [next, Prod.mk.injEq] at h
  obtain ⟨h, rfl⟩ := h
  refine ⟨Prod.ext h rfl, ?_, rfl⟩
  dsimp only
  split <;> rfl

theorem rewind_ok {kind : OperatorKind} {first : κ} {s s' : Leaf κ}
    (h : rewind kind first s = (.ok (), s')) :
    s' = { s with status := s.status.restart, position := first } := by
  unfold rewind at h
  split at h
  · simp at h
  · exact (Prod.mk.inj h).2.symm

end Leaf

def Operator.leaf {κ : Type} (kind : OperatorKind) (label : String)
    (profile : Config → Except QueryError Profile) (source : Leaf.Source κ) : Operator where
  State := Leaf κ
  start := ⟨.fresh, source.first, none⟩
  marks := true
  orderedBy := []
  status := Leaf.status
  prepare c := Leaf.prepare (profile c)
  rewind := Leaf.rewind kind source.first
  next db := Leaf.next (source.pull db)
  mark := Leaf.setMark
  reset := Leaf.reset kind
  cleanUp s := s
  supply db := source.remaining db source.first
  remaining db s := source.remaining db s.position
  kept _ := []
  report s := .node kind label s.status true [] []
  next_lt h := source.pull_lt (Leaf.next_eq h).1
  rewind_le h := Nat.le_of_eq (by rw [Leaf.rewind_ok h])

end RelQuery
