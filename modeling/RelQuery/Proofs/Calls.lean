import RelQuery.Proofs.Trace

namespace RelQuery

/-- The calls that drive a prepared operator. -/
inductive Call
  | rewind | next | mark | reset | cleanUp
  deriving DecidableEq

/-- Which calls a sequence may hold besides `rewind` and `next`, and whether they may fail. -/
structure Policy where
  mark : Bool
  reset : Bool
  cleanUp : Bool
  failure : Bool

namespace Policy

def any : Policy := ⟨true, true, true, true⟩

/-- Runs from the start, which may be broken off and may fail. -/
def runs : Policy := ⟨false, false, false, true⟩

/-- Calls that succeed, without a clean-up. -/
def smooth : Policy := ⟨true, true, false, false⟩

/-- Calls that succeed and leave the marks alone. -/
def unmarking : Policy := ⟨false, true, false, false⟩

def admits (π : Policy) : Call → Bool
  | .rewind | .next => true
  | .mark => π.mark
  | .reset => π.reset
  | .cleanUp => π.cleanUp

def Tolerates {α : Type} (π : Policy) (r : Except QueryError α) : Prop :=
  π.failure = true ∨ r.isOk = true

/-- All that one policy allows is allowed by another. -/
structure Le (π ρ : Policy) : Prop where
  admits : ∀ c, π.admits c = true → ρ.admits c = true
  failure : π.failure = true → ρ.failure = true

variable {α β : Type} {π ρ : Policy}

theorem tolerates_ok (a : α) : π.Tolerates (.ok a : Except QueryError α) := .inr rfl

theorem Tolerates.of_error {e : QueryError} (h : π.Tolerates (.error e : Except QueryError α)) :
    π.Tolerates (.error e : Except QueryError β) :=
  h.elim .inl fun h => by simp [Except.isOk, Except.toBool] at h

theorem Tolerates.ok {r : Except QueryError α} (h : π.Tolerates r) (hπ : π.failure = false) :
    ∃ a, r = .ok a := by
  cases r with
  | error e => simp [Tolerates, hπ, Except.isOk, Except.toBool] at h
  | ok a => exact ⟨a, rfl⟩

theorem Le.tolerates (h : π.Le ρ) {r : Except QueryError α} (hr : π.Tolerates r) : ρ.Tolerates r :=
  hr.imp_left h.failure

theorem le_any (π : Policy) : π.Le any := ⟨fun c _ => by cases c <;> rfl, fun _ => rfl⟩

theorem unmarking_le_smooth : unmarking.Le smooth :=
  ⟨fun c => by cases c <;> decide, fun h => h⟩

end Policy

namespace Operator

variable {o c : Operator} {db : Storage} {π ρ : Policy}

def call (o : Operator) (db : Storage) : Call → o.State → Outcome Unit o.State
  | .rewind => o.rewind
  | .next => fun s => ((o.next db s).1.map fun _ => (), (o.next db s).2)
  | .mark => o.mark
  | .reset => o.reset
  | .cleanUp => fun s => (.ok (), o.cleanUp s)

/-- Calls, one after the other, whatever comes of them. -/
def after (o : Operator) (db : Storage) (calls : List Call) (s : o.State) : o.State :=
  calls.foldl (fun s call => (o.call db call s).2) s

/-- One call that a policy allows leads from a state to another. -/
def Step (o : Operator) (db : Storage) (π : Policy) (s s' : o.State) : Prop :=
  ∃ call r, π.admits call = true ∧ o.call db call s = (r, s') ∧ π.Tolerates r

/-- Calls that a policy allows lead from a state to another. -/
def Reaches (o : Operator) (db : Storage) (π : Policy) : o.State → o.State → Prop :=
  Relation.ReflTransGen (o.Step db π)

namespace Reaches

variable {s s' s'' : o.State}

theorem refl : o.Reaches db π s s := Relation.ReflTransGen.refl

theorem trans (h : o.Reaches db π s s') (h' : o.Reaches db π s' s'') : o.Reaches db π s s'' :=
  Relation.ReflTransGen.trans h h'

theorem rewind {r : Except QueryError Unit} (h : o.rewind s = (r, s')) (hr : π.Tolerates r) :
    o.Reaches db π s s' :=
  .single ⟨.rewind, r, rfl, h, hr⟩

theorem next {r : Except QueryError (Option Tuple)} (h : o.next db s = (r, s'))
    (hr : π.Tolerates r) : o.Reaches db π s s' := by
  refine .single ⟨.next, r.map fun _ => (), rfl, by simp [call, h], hr.imp_right fun h => ?_⟩
  cases r <;> simp_all [Except.map, Except.isOk, Except.toBool]

theorem mark {r : Except QueryError Unit} (h : o.mark s = (r, s')) (hm : π.mark = true)
    (hr : π.Tolerates r) : o.Reaches db π s s' :=
  .single ⟨.mark, r, hm, h, hr⟩

theorem reset {r : Except QueryError Unit} (h : o.reset s = (r, s')) (hm : π.reset = true)
    (hr : π.Tolerates r) : o.Reaches db π s s' :=
  .single ⟨.reset, r, hm, h, hr⟩

theorem cleanUp (hm : π.cleanUp = true) : o.Reaches db π s (o.cleanUp s) :=
  .single ⟨.cleanUp, .ok (), hm, rfl, .inr rfl⟩

theorem mono (hπ : π.Le ρ) (h : o.Reaches db π s s') : o.Reaches db ρ s s' := by
  refine Relation.ReflTransGen.mono ?_ _ _ h
  rintro a b ⟨call, r, hcall, hr, ht⟩
  exact ⟨call, r, hπ.admits _ hcall, hr, hπ.tolerates ht⟩

theorem any (h : o.Reaches db π s s') : o.Reaches db .any s s' := h.mono π.le_any

theorem keeps {α : Type} (f : o.State → α) (hf : ∀ {s s'}, o.Step db π s s' → f s' = f s)
    (h : o.Reaches db π s s') : f s' = f s := by
  induction h with
  | refl => rfl
  | tail _ step ih => rw [hf step, ih]

/-- A sequence of calls on an operator runs a sequence of calls on a child. -/
theorem lift (f : o.State → c.State)
    (hf : ∀ {s s'}, o.Step db π s s' → c.Reaches db π (f s) (f s'))
    (h : o.Reaches db π s s') : c.Reaches db π (f s) (f s') :=
  Relation.ReflTransGen.lift' f (fun _ _ => hf) _ _ h

end Reaches

theorem reaches_after (o : Operator) (db : Storage) (calls : List Call) (s : o.State) :
    o.Reaches db .any s (o.after db calls s) := by
  induction calls generalizing s with
  | nil => exact .refl
  | cons call calls ih =>
    exact .trans (.single ⟨call, _, by cases call <;> rfl, rfl, .inl rfl⟩) (ih _)

theorem Step.rec_calls {motive : Prop} {s s' : o.State} (h : o.Step db π s s')
    (rewind : ∀ r, o.rewind s = (r, s') → π.Tolerates r → motive)
    (next : ∀ r, o.next db s = (r, s') → π.Tolerates r → motive)
    (mark : ∀ r, π.mark = true → o.mark s = (r, s') → π.Tolerates r → motive)
    (reset : ∀ r, π.reset = true → o.reset s = (r, s') → π.Tolerates r → motive)
    (cleanUp : π.cleanUp = true → s' = o.cleanUp s → motive) : motive := by
  obtain ⟨call, r, hadmit, hcall, hr⟩ := h
  cases call with
  | rewind => exact rewind r hcall hr
  | next =>
    -- A call forgets the tuple, but not whether there was an error.
    obtain ⟨rfl, hs⟩ := Prod.mk.inj hcall
    refine next _ (Prod.ext rfl hs) (hr.imp_right fun h => ?_)
    cases hn : (o.next db s).1 <;> simp_all [Except.map, Except.isOk, Except.toBool]
  | mark => exact mark r hadmit hcall hr
  | reset => exact reset r hadmit hcall hr
  | cleanUp => exact cleanUp hadmit (Prod.mk.inj hcall).2.symm

end Operator

end RelQuery
