import RelQuery.Proofs.Replay

namespace RelQuery

variable {c : Operator} {db : Storage} {π : Policy}

section Wrapped

variable {κ : Type} {kind : OperatorKind} {label : String} {marks : Bool} {refusal : StateError}
  {orderedBy : List OrderKey} {body : Wrapped.Body κ c}
  {s s' : Wrapped κ c.State}

/-- What a call on a wrapped operator does to the child and to what is settled. -/
def Wrapped.Moves (c : Operator) (db : Storage) (π : Policy) (s s' : Wrapped κ c.State) : Prop :=
  c.Reaches db π s.child s'.child ∧
    (s'.status.profile, s'.settled) = (s.status.profile, s.settled)

theorem Wrapped.lift_moves {f : c.State → Outcome Unit c.State} {r : Except QueryError Unit}
    (hf : ∀ {a b}, f a = (r, b) → c.Reaches db π a b) (h : Wrapped.lift f s = (r, s')) :
    Wrapped.Moves c db π s s' := by
  obtain ⟨hr, rfl⟩ := Prod.mk.inj h
  exact ⟨hf (Prod.ext hr rfl), rfl⟩

theorem Wrapped.rewind_moves {r : Except QueryError Unit}
    (h : Wrapped.rewind kind c.rewind s = (r, s')) (hr : π.Tolerates r) :
    Wrapped.Moves c db π s s' := by
  unfold Wrapped.rewind at h
  split at h
  · obtain ⟨-, rfl⟩ := Prod.mk.inj h
    exact ⟨.refl, rfl⟩
  · exact Wrapped.lift_moves (s := { s with status := s.status.restart }) (fun h => .rewind h hr) h

theorem Wrapped.marking_moves {f : c.State → Outcome Unit c.State} {r : Except QueryError Unit}
    (hf : ∀ {a b}, f a = (r, b) → c.Reaches db π a b)
    (h : Wrapped.marking refusal marks f s = (r, s')) : Wrapped.Moves c db π s s' := by
  unfold Wrapped.marking at h
  split at h
  · exact Wrapped.lift_moves hf h
  · obtain ⟨-, rfl⟩ := Prod.mk.inj h
    exact ⟨.refl, rfl⟩

theorem Wrapped.rewind_of_prepared (h : s.status.check kind = .ok ()) :
    Wrapped.rewind kind c.rewind s =
      ((c.rewind s.child).1, ⟨s.status.restart, s.settled, (c.rewind s.child).2⟩) := by
  rw [Wrapped.rewind, h]
  rfl

theorem Wrapped.rewind_of_unprepared {e : QueryError} (h : s.status.check kind = .error e) :
    Wrapped.rewind kind c.rewind s = (.error e, s) := by
  rw [Wrapped.rewind, h]

theorem Wrapped.marking_ok {f : c.State → Outcome Unit c.State}
    (h : Wrapped.marking refusal marks f s = (.ok (), s')) :
    marks = true ∧ f s.child = (.ok (), s'.child) := by
  unfold Wrapped.marking at h
  split at h
  · next hmarks => exact ⟨hmarks, Wrapped.lift_ok h⟩
  · simp at h

theorem Wrapped.marking_of_ok {f : c.State → Outcome Unit c.State} {d : c.State}
    (hmarks : marks = true) (h : f s.child = (.ok (), d)) :
    Wrapped.marking refusal marks f s = (.ok (), ⟨s.status, s.settled, d⟩) := by
  rw [Wrapped.marking, if_pos hmarks, Wrapped.lift, h]

theorem wrapped_moves
    (hnext : ∀ {s r s'}, body.next db s = (r, s') → π.Tolerates r → Wrapped.Moves c db π s s')
    (h : (Operator.wrapped kind label marks refusal orderedBy c body).Step db π s s') :
    Wrapped.Moves c db π s s' := by
  refine h.rec_calls ?rewind ?next ?mark ?reset ?cleanUp
  case rewind => exact fun r h hr => Wrapped.rewind_moves h hr
  case next => exact fun r h hr => hnext h hr
  case mark => exact fun r hm h hr => Wrapped.marking_moves (fun h => .mark h hm hr) h
  case reset => exact fun r hm h hr => Wrapped.marking_moves (fun h => .reset h hm hr) h
  case cleanUp =>
    rintro hm rfl
    exact ⟨.cleanUp hm, rfl⟩

/-- A wrapped operator keeps in step with its child. -/
def Passes.wrapped (gives : κ → Option Profile → Schema → Trace → Trace)
    (hnext : ∀ {π s r s'}, body.next db s = (r, s') → π.Tolerates r → Wrapped.Moves c db π s s')
    (htrace : ∀ s : Wrapped κ c.State,
      (Operator.wrapped kind label marks refusal orderedBy c body).trace db s =
        gives s.settled s.status.profile (c.status s.child).schema (c.trace db s.child)) :
    Passes (.wrapped kind label marks refusal orderedBy c body) c db where
  Fixed := Option Profile × κ
  Place := Unit
  child := Wrapped.child
  fixed s := (s.status.profile, s.settled)
  place _ := ()
  marked _ := if marks then some () else none
  origin := ()
  profile f := f.1
  check f := Status.check ⟨f.1, 0⟩ kind
  gives f s _ := gives f.2 f.1 s
  status_profile _ := rfl
  step h := by
    obtain ⟨hreach, hprofile⟩ := wrapped_moves hnext h
    exact ⟨hreach, hprofile, fun _ => rfl⟩
  trace_eq := htrace
  rewind_refused h := congrArg Prod.fst (Wrapped.rewind_of_unprepared h)
  rewind_passed h := by
    have heq := Wrapped.rewind_of_prepared h
    exact ⟨congrArg Prod.fst heq, congrArg (fun x => x.2.child) heq, rfl⟩
  mark_ok h := by
    obtain ⟨hmarks, hchild⟩ := Wrapped.marking_ok h
    exact ⟨hchild, rfl, if_pos hmarks⟩
  reset_ok hp h := by
    have hmarks : marks = true := by
      by_contra hm
      simp [hm] at hp
    exact ⟨_, Wrapped.marking_of_ok hmarks h, rfl, rfl⟩

end Wrapped

end RelQuery
