import Mathlib.Logic.Relation
import Mathlib.Tactic
import RelQuery.Plan

namespace RelQuery

/-- The tuples of a run, and how it ends. -/
@[ext]
structure Trace where
  tuples : List Tuple
  ending : Except QueryError Unit

namespace Trace

def nil : Trace := ⟨[], .ok ()⟩

def failed (e : QueryError) : Trace := ⟨[], .error e⟩

def cons (t : Tuple) (tr : Trace) : Trace := ⟨t :: tr.tuples, tr.ending⟩

def rows (tr : Trace) : List Row := tr.tuples.map Tuple.values

/-- The tuples that a function makes of others, up to the first that it refuses. -/
def chooseFrom (f : Tuple → Except QueryError (Option Tuple)) (ending : Except QueryError Unit) :
    List Tuple → Trace
  | [] => ⟨[], ending⟩
  | t :: ts =>
    match f t with
    | .error e => failed e
    | .ok none => chooseFrom f ending ts
    | .ok (some u) => (chooseFrom f ending ts).cons u

def choose (f : Tuple → Except QueryError (Option Tuple)) (tr : Trace) : Trace :=
  chooseFrom f tr.ending tr.tuples

def drop (n : Nat) (tr : Trace) : Trace := ⟨tr.tuples.drop n, tr.ending⟩

/-- At most so many tuples; what comes behind them does not matter. -/
def take (n : Nat) (tr : Trace) : Trace :=
  if n ≤ tr.tuples.length then ⟨tr.tuples.take n, .ok ()⟩ else tr

/-- Folds a step over all tuples, when the trace ends well. -/
def fold {β : Type} (step : β → Tuple → Except QueryError β) (b : β) (tr : Trace) :
    Except QueryError β := do
  let b ← tr.tuples.foldlM step b
  tr.ending
  .ok b

@[simp]
theorem choose_nil (f : Tuple → Except QueryError (Option Tuple)) : nil.choose f = nil := rfl

theorem choose_cons (f : Tuple → Except QueryError (Option Tuple)) (t : Tuple) (tr : Trace) :
    (tr.cons t).choose f =
      match f t with
      | .error e => failed e
      | .ok none => tr.choose f
      | .ok (some u) => (tr.choose f).cons u := rfl

end Trace

namespace Operator

variable {o : Operator} {db : Storage} {s s' : o.State} {t : Tuple}

/-- What repeated calls of `next` give from a state on. -/
def trace (o : Operator) (db : Storage) (s : o.State) : Trace :=
  match _h : o.next db s with
  | (.error e, _) => .failed e
  | (.ok none, _) => .nil
  | (.ok (some t), s') => (o.trace db s').cons t
termination_by o.remaining db s
decreasing_by exact o.next_lt ‹_›

theorem trace_of_error {e : QueryError} (h : o.next db s = (.error e, s')) :
    o.trace db s = .failed e := by
  rw [trace]
  split <;> simp_all

theorem trace_of_none (h : o.next db s = (.ok none, s')) : o.trace db s = .nil := by
  rw [trace]
  split <;> simp_all

theorem trace_of_some (h : o.next db s = (.ok (some t), s')) :
    o.trace db s = (o.trace db s').cons t := by
  rw [trace]
  split <;> simp_all

/-- To prove something of a state, it may be assumed of the state that the next tuple leaves. -/
theorem next_induction (db : Storage) {motive : o.State → Prop}
    (step : ∀ s, (∀ t s', o.next db s = (.ok (some t), s') → motive s') → motive s)
    (s : o.State) : motive s := by
  -- `next` need not lead to a smaller state, but it leaves less of the run to come.
  induction h : o.remaining db s using Nat.strong_induction_on generalizing s with
  | _ n ih =>
    refine step s fun t s' hs => ih _ ?_ s' rfl
    exact h ▸ o.next_lt hs

theorem next_of_trace_nil (h : o.trace db s = .nil) : ∃ s', o.next db s = (.ok none, s') := by
  rcases hs : o.next db s with ⟨_ | _ | t, s'⟩
  · simp [trace_of_error hs, Trace.failed, Trace.nil] at h
  · exact ⟨s', rfl⟩
  · simp [trace_of_some hs, Trace.cons, Trace.nil] at h

theorem next_of_trace_failed {e : QueryError} (h : o.trace db s = .failed e) :
    ∃ s', o.next db s = (.error e, s') := by
  rcases hs : o.next db s with ⟨e' | _ | t, s'⟩
  · simp only [trace_of_error hs, Trace.failed, Trace.mk.injEq, Except.error.injEq] at h
    exact ⟨s', by rw [h.2]⟩
  · simp [trace_of_none hs, Trace.failed, Trace.nil] at h
  · simp [trace_of_some hs, Trace.cons, Trace.failed] at h

theorem next_of_trace_cons {tr : Trace} (h : o.trace db s = tr.cons t) :
    ∃ s', o.next db s = (.ok (some t), s') ∧ o.trace db s' = tr := by
  rcases hs : o.next db s with ⟨e | _ | u, s'⟩
  · simp [trace_of_error hs, Trace.cons, Trace.failed] at h
  · simp [trace_of_none hs, Trace.cons, Trace.nil] at h
  · simp only [trace_of_some hs, Trace.cons, Trace.mk.injEq, List.cons.injEq] at h
    obtain ⟨⟨rfl, htuples⟩, hending⟩ := h
    exact ⟨s', rfl, Trace.ext htuples hending⟩

/-- Two states have the same trace when they are related in a way that `next` does not see and
keeps. -/
theorem trace_eq_of_related {c : Operator} {R : o.State → c.State → Prop}
    (hR : ∀ {s s'}, R s s' → (o.next db s).1 = (c.next db s').1 ∧
      ∀ t, (o.next db s).1 = .ok (some t) → R (o.next db s).2 (c.next db s').2)
    {s : o.State} {s' : c.State} (h : R s s') : o.trace db s = c.trace db s' := by
  induction s using next_induction db generalizing s' with
  | step s ih =>
    obtain ⟨hout, hnext⟩ := hR h
    -- Both calls have the same result, so that the cases of one are the cases of the other.
    rcases hs : o.next db s with ⟨e | _ | t, s₁⟩ <;> rcases hs' : c.next db s' with ⟨r, s₁'⟩ <;>
      simp only [hs, hs'] at hout hnext <;> subst hout
    · rw [trace_of_error hs, trace_of_error hs']
    · rw [trace_of_none hs, trace_of_none hs']
    · rw [trace_of_some hs, trace_of_some hs', ih t s₁ hs (hnext t rfl)]

end Operator

end RelQuery
