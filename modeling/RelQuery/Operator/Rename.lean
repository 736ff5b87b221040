import RelQuery.Operator.Basic

namespace RelQuery

namespace Rename

def profile (table : String) (child : Status) : Profile :=
  ⟨child.schema.rename table, child.cost, child.columns⟩

def next (child : Operator) (db : Storage) (s : Wrapped Unit child.State) :
    Outcome (Option Tuple) (Wrapped Unit child.State) :=
  match child.next db s.child with
  | (.ok (some t), c) => (.ok (some t), { s with status := s.status.count, child := c })
  | (r, c) => (r, { s with child := c })

theorem next_some {child : Operator} {db : Storage} {s s' : Wrapped Unit child.State} {t : Tuple}
    (h : next child db s = (.ok (some t), s')) :
    child.remaining db s'.child < child.remaining db s.child := by
  unfold next at h
  split at h
  · next u c hc =>
    obtain ⟨-, rfl⟩ := Prod.mk.inj h
    exact child.next_lt hc
  · next r c hr hc =>
    obtain ⟨rfl, -⟩ := Prod.mk.inj h
    exact absurd rfl (hr t)

end Rename

def Operator.rename (table : String) (child : Operator) : Operator :=
  .wrapped .rename ("Rename[resultTableName=" ++ table ++ "]") child.marks (.unmarkable .rename) []
    child
    { start := ()
      settle := fun _ s => .ok (Rename.profile table s, ())
      next := Rename.next child
      next_some := Rename.next_some }

namespace Barrier

def profile (child : Status) : Profile := ⟨child.schema, child.cost, child.columns⟩

def next (child : Operator) (db : Storage) : Wrapped Unit child.State →
    Outcome (Option Tuple) (Wrapped Unit child.State) :=
  Wrapped.lift (child.next db)

theorem next_some {child : Operator} {db : Storage} {s s' : Wrapped Unit child.State} {t : Tuple}
    (h : next child db s = (.ok (some t), s')) :
    child.remaining db s'.child < child.remaining db s.child :=
  child.next_lt (Wrapped.lift_ok h)

end Barrier

/-- Passes tuples on without counting them, and cannot be marked. -/
def Operator.barrier (child : Operator) : Operator :=
  .wrapped .rename "NoMark" false .barrier [] child
    { start := ()
      settle := fun _ s => .ok (Barrier.profile s, ())
      next := Barrier.next child
      next_some := Barrier.next_some }

end RelQuery
