import RelQuery.Estimate.Config
import RelQuery.Expr.Eval
import RelQuery.SelectItem
import RelQuery.Storage.Basic

namespace RelQuery

/-- What preparation settles about the result of an operator. -/
structure Profile where
  schema : Schema
  cost : PlanCost
  columns : List ColumnStats

/-- The state that every operator has. -/
structure Status where
  profile : Option Profile
  produced : Nat

namespace Status

def fresh : Status := ⟨none, 0⟩

def prepared (s : Status) : Bool := s.profile.isSome

/-- The schema of the result, empty before preparation. -/
def schema (s : Status) : Schema := (s.profile.map Profile.schema).getD .empty

def cost (s : Status) : PlanCost := (s.profile.map Profile.cost).getD .zero

def columns (s : Status) : List ColumnStats := (s.profile.map Profile.columns).getD []

def settle (s : Status) (p : Profile) : Status := { s with profile := some p }

def restart (s : Status) : Status := { s with produced := 0 }

def count (s : Status) : Status := { s with produced := s.produced + 1 }

def check (s : Status) (kind : OperatorKind) : Except QueryError Unit :=
  if s.prepared then .ok () else .error (.invalidState (.unprepared kind))

end Status

/-- The result of an operation and the state it leaves, also when it fails. -/
abbrev Outcome (α σ : Type) := Except QueryError α × σ

/-- What can be seen of an operator and of those below it. -/
inductive Report
  | node (kind : OperatorKind) (label : String) (status : Status) (marks : Bool)
      (orderedBy : List OrderKey) (children : List Report)

structure Operator where
  State : Type
  start : State
  /-- Whether positions can be marked. -/
  marks : Bool
  /-- The order in which the tuples come, as far as it is known. -/
  orderedBy : List OrderKey
  status : State → Status
  prepare : Config → State → Outcome Unit State
  rewind : State → Outcome Unit State
  next : Storage → State → Outcome (Option Tuple) State
  mark : State → Outcome Unit State
  reset : State → Outcome Unit State
  cleanUp : State → State
  /-- A bound on the tuples of a run. -/
  supply : Storage → Nat
  /-- A bound on the tuples still to come; every tuple lowers it. -/
  remaining : Storage → State → Nat
  /-- Every tuple that the state holds. -/
  kept : State → List Tuple
  report : State → Report
  next_lt : ∀ {db s s' t}, next db s = (.ok (some t), s') → remaining db s' < remaining db s
  rewind_le : ∀ {db s s'}, rewind s = (.ok (), s') → remaining db s' ≤ supply db

namespace Operator

def accepts (s : Schema) (p : Expr) (t : Tuple) : Except QueryError Bool :=
  (p.holds (.single s t.values)).mapError .evaluation

/-- The value of an expression on a row of one schema. -/
def evalRow (s : Schema) (e : Expr) (r : Row) : Except QueryError Value :=
  (e.eval (.single s r)).mapError .evaluation

def resolveAll (s : Schema) (names : List ColumnName) : Except QueryError Unit :=
  (s.check names).mapError .ofResolve

end Operator

/-- The state of an operator that works on its child's tuples one by one. -/
structure Wrapped (κ σ : Type) where
  status : Status
  /-- What preparation settles besides the profile. -/
  settled : κ
  child : σ

namespace Wrapped

variable {κ σ α : Type}

def lift (f : σ → Outcome α σ) (s : Wrapped κ σ) : Outcome α (Wrapped κ σ) :=
  ((f s.child).1, { s with child := (f s.child).2 })

/-- Prepares the child and then the operator, whose profile follows from the child's. -/
def prepare (f : σ → Outcome Unit σ) (settle : σ → Except QueryError (Profile × κ))
    (s : Wrapped κ σ) : Outcome Unit (Wrapped κ σ) :=
  match f s.child with
  | (.error e, c) => (.error e, { s with child := c })
  | (.ok _, c) =>
    match settle c with
    | .error e => (.error e, { s with child := c })
    | .ok (p, k) => (.ok (), { status := s.status.settle p, settled := k, child := c })

def rewind (kind : OperatorKind) (f : σ → Outcome Unit σ) (s : Wrapped κ σ) :
    Outcome Unit (Wrapped κ σ) :=
  match s.status.check kind with
  | .error e => (.error e, s)
  | .ok _ => lift f { s with status := s.status.restart }

theorem lift_ok {f : σ → Outcome α σ} {s s' : Wrapped κ σ} {a : α}
    (h : lift f s = (.ok a, s')) : f s.child = (.ok a, s'.child) := by
  simp only [lift, Prod.mk.injEq] at h
  obtain ⟨h, rfl⟩ := h
  exact Prod.ext h rfl

theorem rewind_ok {kind : OperatorKind} {f : σ → Outcome Unit σ} {s s' : Wrapped κ σ}
    (h : rewind kind f s = (.ok (), s')) : f s.child = (.ok (), s'.child) := by
  unfold rewind at h
  split at h
  · simp at h
  · exact lift_ok (s := { s with status := s.status.restart }) h

/-- Marks or resets the child, where it can be marked. -/
def marking (refusal : StateError) (marks : Bool) (f : σ → Outcome Unit σ) (s : Wrapped κ σ) :
    Outcome Unit (Wrapped κ σ) :=
  if marks then lift f s else (.error (.invalidState refusal), s)

end Wrapped

/-- What an operator adds to its child. -/
structure Wrapped.Body (κ : Type) (child : Operator) where
  start : κ
  settle : Config → Status → Except QueryError (Profile × κ)
  next : Storage → Wrapped κ child.State → Outcome (Option Tuple) (Wrapped κ child.State)
  next_some : ∀ {db s s' t}, next db s = (.ok (some t), s') →
    child.remaining db s'.child < child.remaining db s.child

/-- An operator that has no state of its own in a run. -/
def Operator.wrapped {κ : Type} (kind : OperatorKind) (label : String) (marks : Bool)
    (refusal : StateError) (orderedBy : List OrderKey) (child : Operator)
    (body : Wrapped.Body κ child) : Operator where
  State := Wrapped κ child.State
  start := ⟨.fresh, body.start, child.start⟩
  marks := marks
  orderedBy := orderedBy
  status := Wrapped.status
  prepare c := Wrapped.prepare (child.prepare c) fun s => body.settle c (child.status s)
  rewind := Wrapped.rewind kind child.rewind
  next := body.next
  mark := Wrapped.marking refusal marks child.mark
  reset := Wrapped.marking refusal marks child.reset
  cleanUp s := { s with child := child.cleanUp s.child }
  supply := child.supply
  remaining db s := child.remaining db s.child
  kept s := child.kept s.child
  report s := .node kind label s.status marks orderedBy [child.report s.child]
  next_lt := body.next_some
  rewind_le h := child.rewind_le (Wrapped.rewind_ok h)

end RelQuery
