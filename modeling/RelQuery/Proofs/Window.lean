import RelQuery.Proofs.Replay

namespace RelQuery

namespace Trace

variable {t : Tuple} {tr : Trace} {e : QueryError} {n : Nat}

@[simp]
theorem drop_zero : tr.drop 0 = tr := rfl

@[simp]
theorem drop_succ_cons : (tr.cons t).drop (n + 1) = tr.drop n := rfl

@[simp]
theorem drop_nil : nil.drop n = nil := by simp [drop, nil]

@[simp]
theorem drop_failed : (failed e).drop n = failed e := by simp [drop, failed]

@[simp]
theorem take_zero : tr.take 0 = nil := by simp [take, nil]

@[simp]
theorem take_nil : nil.take n = nil := by
  unfold take
  split <;> simp [nil]

@[simp]
theorem take_succ_failed : (failed e).take (n + 1) = failed e := by simp [take, failed]

@[simp]
theorem take_succ_cons : (tr.cons t).take (n + 1) = (tr.take n).cons t := by
  by_cases h : n ≤ tr.tuples.length <;> simp [take, cons, h]

def takeUpTo : Option Nat → Trace → Trace
  | some n, tr => tr.take n
  | none, tr => tr

end Trace

namespace Limit

variable {c : Operator} {db : Storage} {π : Policy} {limit : Option Nat} {offset : Nat}

/-- The tuples that the counters leave of what the child gives. -/
def window (limit : Option Nat) (offset : Nat) (k : Counters) (tr : Trace) : Trace :=
  if k.done then .nil
  else (tr.drop (offset - k.skipped)).takeUpTo (limit.map (· - k.returned))

variable {s s' : State c.State}

/-- What a call does to the child, to the profile and to the mark. -/
def Moves (c : Operator) (db : Storage) (π : Policy) (s s' : State c.State) : Prop :=
  c.Reaches db π s.child s'.child ∧ s'.status.profile = s.status.profile ∧
    (π.mark = false → s'.mark = s.mark)

theorem skip_reaches {n : Nat} {k k' : Counters} {a b : c.State} {r : Except QueryError Bool}
    (h : skip (c.next db) n k a = (r, k', b)) (hr : π.Tolerates r) : c.Reaches db π a b := by
  induction n generalizing k a with
  | zero =>
    simp only [skip, Prod.mk.injEq] at h
    obtain ⟨-, -, rfl⟩ := h
    exact .refl
  | succ n ih =>
    rw [skip] at h
    rcases ha : c.next db a with ⟨e | _ | t, a'⟩ <;> simp only [ha] at h
    · simp only [Prod.mk.injEq] at h
      obtain ⟨rfl, -, rfl⟩ := h
      exact .next ha hr.of_error
    · simp only [Prod.mk.injEq] at h
      obtain ⟨-, -, rfl⟩ := h
      exact .next ha (.inr rfl)
    · exact (Operator.Reaches.next ha (.inr rfl)).trans (ih h)

theorem next_moves {r : Except QueryError (Option Tuple)}
    (h : Limit.next limit offset (c.next db) s = (r, s')) (hr : π.Tolerates r) :
    Moves c db π s s' := by
  unfold Limit.next at h
  split at h
  · obtain ⟨-, rfl⟩ := Prod.mk.inj h
    exact ⟨.refl, rfl, fun _ => rfl⟩
  · rcases hskip : skip (c.next db) (offset - s.counters.skipped) s.counters s.child with
      ⟨e | _ | _, k, a⟩ <;> simp only [hskip] at h
    · obtain ⟨rfl, rfl⟩ := Prod.mk.inj h
      exact ⟨skip_reaches hskip hr.of_error, rfl, fun _ => rfl⟩
    · obtain ⟨-, rfl⟩ := Prod.mk.inj h
      exact ⟨skip_reaches hskip (.inr rfl), rfl, fun _ => rfl⟩
    · have hreach : c.Reaches db π s.child a := skip_reaches hskip (.inr rfl)
      rcases ha : c.next db a with ⟨e | _ | t, b⟩ <;> simp only [ha] at h
      · obtain ⟨rfl, rfl⟩ := Prod.mk.inj h
        exact ⟨hreach.trans (.next ha hr.of_error), rfl, fun _ => rfl⟩
      · obtain ⟨-, rfl⟩ := Prod.mk.inj h
        exact ⟨hreach.trans (.next ha (.inr rfl)), rfl, fun _ => rfl⟩
      · obtain ⟨-, rfl⟩ := Prod.mk.inj h
        exact ⟨hreach.trans (.next ha (.inr rfl)), rfl, fun _ => rfl⟩

theorem rewind_moves {r : Except QueryError Unit} (h : Limit.rewind c.rewind s = (r, s'))
    (hr : π.Tolerates r) : Moves c db π s s' := by
  unfold Limit.rewind at h
  split at h <;> obtain ⟨hchild, rfl⟩ := Prod.mk.inj h
  · exact ⟨.refl, rfl, fun _ => rfl⟩
  · exact ⟨.rewind (Prod.ext hchild rfl) hr, rfl, fun _ => rfl⟩

theorem setMark_moves {marks : Bool} {r : Except QueryError Unit} (hπ : π.mark = true)
    (h : Limit.setMark marks c.mark s = (r, s')) (hr : π.Tolerates r) : Moves c db π s s' := by
  unfold Limit.setMark at h
  split at h
  · split at h
    · next hm =>
      obtain ⟨rfl, rfl⟩ := Prod.mk.inj h
      exact ⟨.mark hm hπ hr, rfl, fun h => by simp [h] at hπ⟩
    · next hm =>
      obtain ⟨-, rfl⟩ := Prod.mk.inj h
      exact ⟨.mark hm hπ (.inr rfl), rfl, fun h => by simp [h] at hπ⟩
  · obtain ⟨-, rfl⟩ := Prod.mk.inj h
    exact ⟨.refl, rfl, fun _ => rfl⟩

theorem reset_moves {marks : Bool} {r : Except QueryError Unit} (hπ : π.reset = true)
    (h : Limit.reset marks c.reset s = (r, s')) (hr : π.Tolerates r) : Moves c db π s s' := by
  unfold Limit.reset at h
  split at h
  · split at h
    · obtain ⟨-, rfl⟩ := Prod.mk.inj h
      exact ⟨.refl, rfl, fun _ => rfl⟩
    · split at h
      · next hm =>
        obtain ⟨rfl, rfl⟩ := Prod.mk.inj h
        exact ⟨.reset hm hπ hr, rfl, fun _ => rfl⟩
      · next hm =>
        obtain ⟨-, rfl⟩ := Prod.mk.inj h
        exact ⟨.reset hm hπ (.inr rfl), rfl, fun _ => rfl⟩
  · obtain ⟨-, rfl⟩ := Prod.mk.inj h
    exact ⟨.refl, rfl, fun _ => rfl⟩

theorem moves (h : (Operator.limit limit offset c).Step db π s s') : Moves c db π s s' := by
  refine h.rec_calls ?rewind ?next ?mark ?reset ?cleanUp
  case rewind => exact fun r h hr => rewind_moves h hr
  case next => exact fun r h hr => next_moves h hr
  case mark => exact fun r hm h hr => setMark_moves hm h hr
  case reset => exact fun r hm h hr => reset_moves hm h hr
  case cleanUp =>
    rintro hm rfl
    exact ⟨.cleanUp hm, rfl, fun _ => rfl⟩

theorem skip_cases (db : Storage) (n : Nat) (k : Counters) (a : c.State) :
    (∃ b, skip (c.next db) n k a = (.ok true, { k with skipped := k.skipped + n }, b) ∧
      c.trace db b = (c.trace db a).drop n) ∨
    (∃ k' b, skip (c.next db) n k a = (.ok false, k', b) ∧ k'.done = true ∧
      (c.trace db a).drop n = .nil) ∨
    ∃ e k' b, skip (c.next db) n k a = (.error e, k', b) ∧ (c.trace db a).drop n = .failed e := by
  induction n generalizing k a with
  | zero => exact .inl ⟨a, rfl, rfl⟩
  | succ n ih =>
    rw [skip]
    rcases ha : c.next db a with ⟨e | _ | t, a'⟩
    · exact .inr (.inr ⟨e, k, a', rfl, by rw [Operator.trace_of_error ha, Trace.drop_failed]⟩)
    · exact .inr (.inl ⟨_, a', rfl, rfl, by rw [Operator.trace_of_none ha, Trace.drop_nil]⟩)
    · have hskipped : k.skipped + 1 + n = k.skipped + (n + 1) := by omega
      rw [Operator.trace_of_some ha, Trace.drop_succ_cons, ← hskipped]
      exact ih { k with skipped := k.skipped + 1 } a'

section TakeUpTo

variable {k : Counters} {t : Tuple} {tr : Trace} {e : QueryError}

theorem takeUpTo_reached (h : reached limit k = true) :
    tr.takeUpTo (limit.map (· - k.returned)) = .nil := by
  cases limit with
  | none => simp [reached] at h
  | some l =>
    have hle : l ≤ k.returned := by simpa [reached] using h
    simp [Trace.takeUpTo, Nat.sub_eq_zero_of_le hle]

theorem takeUpTo_nil : Trace.nil.takeUpTo (limit.map (· - k.returned)) = .nil := by
  cases limit <;> simp [Trace.takeUpTo]

theorem takeUpTo_failed (h : ¬reached limit k = true) :
    (Trace.failed e).takeUpTo (limit.map (· - k.returned)) = .failed e := by
  cases limit with
  | none => rfl
  | some l =>
    obtain ⟨n, hn⟩ : ∃ n, l - k.returned = n + 1 := ⟨l - k.returned - 1, by
      simp only [reached, Option.any_some, decide_eq_true_eq] at h
      omega⟩
    simp [Trace.takeUpTo, hn]

theorem takeUpTo_cons (h : ¬reached limit k = true) :
    (tr.cons t).takeUpTo (limit.map (· - k.returned)) =
      (tr.takeUpTo (limit.map (· - (k.returned + 1)))).cons t := by
  cases limit with
  | none => rfl
  | some l =>
    have hn : l - k.returned = l - (k.returned + 1) + 1 := by
      simp only [reached, Option.any_some, decide_eq_true_eq] at h
      omega
    simp [Trace.takeUpTo, hn]

end TakeUpTo

theorem trace_eq (limit : Option Nat) (offset : Nat) (s : State c.State) :
    (Operator.limit limit offset c).trace db s =
      window limit offset s.counters (c.trace db s.child) := by
  refine Operator.next_induction (o := .limit limit offset c) db
    (motive := fun s : State c.State => (Operator.limit limit offset c).trace db s =
      window limit offset s.counters (c.trace db s.child)) (fun (s : State c.State) ih => ?_) s
  have hnext : (Operator.limit limit offset c).next db s =
    Limit.next limit offset (c.next db) s := rfl
  by_cases hdone : s.counters.done = true ∨ reached limit s.counters = true
  · rw [Limit.next, if_pos (by simpa using hdone)] at hnext
    refine (Operator.trace_of_none hnext).trans ?_
    unfold window
    split
    · rfl
    · next hopen => exact (takeUpTo_reached (hdone.resolve_left hopen)).symm
  · obtain ⟨hopen, hreached⟩ := not_or.1 hdone
    -- The skipped tuples are the first ones of the child: they are read before the one to give.
    rw [Limit.next, if_neg (by simpa using hdone)] at hnext
    rw [window, if_neg hopen]
    obtain ⟨a, hskip, ha⟩ | ⟨k, a, hskip, -, ha⟩ | ⟨e, k, a, hskip, ha⟩ :=
      skip_cases db (offset - s.counters.skipped) s.counters s.child <;>
      rw [hskip] at hnext
    · rw [← ha]
      rcases hc : c.next db a with ⟨e | _ | t, b⟩ <;> simp only [hc] at hnext
      · rw [Operator.trace_of_error hc, takeUpTo_failed hreached]
        exact Operator.trace_of_error hnext
      · rw [Operator.trace_of_none hc, takeUpTo_nil]
        exact Operator.trace_of_none hnext
      · rw [Operator.trace_of_some hc, takeUpTo_cons hreached]
        refine (Operator.trace_of_some hnext).trans (congrArg (Trace.cons t) ?_)
        refine (ih t _ hnext).trans ?_
        -- Nothing is left to skip in the state behind the call.
        have hzero : offset - (s.counters.skipped + (offset - s.counters.skipped)) = 0 := by omega
        simp only [window, if_neg hopen, hzero, Trace.drop_zero]
    · rw [ha, takeUpTo_nil]
      exact Operator.trace_of_none hnext
    · rw [ha, takeUpTo_failed hreached]
      exact Operator.trace_of_error hnext

theorem next_none (h : Limit.next limit offset (c.next db) s = (.ok none, s')) :
    s'.counters.done = true := by
  unfold Limit.next at h
  split at h
  · obtain ⟨-, rfl⟩ := Prod.mk.inj h
    rfl
  · obtain ⟨a, hskip, -⟩ | ⟨k, a, hskip, hdone, -⟩ | ⟨e, k, a, hskip, -⟩ :=
      skip_cases db (offset - s.counters.skipped) s.counters s.child <;>
      simp only [hskip] at h
    · split at h
      · simp at h
      · obtain ⟨-, rfl⟩ := Prod.mk.inj h
        rfl
      · simp at h
    · obtain ⟨-, rfl⟩ := Prod.mk.inj h
      exact hdone
    · simp at h

theorem ends : (Operator.limit limit offset c).Ends db := fun _ s' h =>
  (trace_eq limit offset s').trans (if_pos (next_none h))

theorem rewind_of_prepared (h : s.status.check .limit = .ok ()) : Limit.rewind c.rewind s =
    ((c.rewind s.child).1, { s with
      status := s.status.restart, counters := .zero, child := (c.rewind s.child).2 }) := by
  rw [Limit.rewind, h]

theorem rewind_of_unprepared {e : QueryError} (h : s.status.check .limit = .error e) :
    Limit.rewind c.rewind s = (.error e, s) := by
  rw [Limit.rewind, h]

theorem setMark_ok {marks : Bool} (h : Limit.setMark marks c.mark s = (.ok (), s')) :
    marks = true ∧ c.mark s.child = (.ok (), s'.child) ∧ s'.counters = s.counters ∧
      s'.mark = some s.counters := by
  unfold Limit.setMark at h
  split at h
  · next hmarks =>
    split at h
    · simp at h
    · next hm =>
      obtain ⟨-, rfl⟩ := Prod.mk.inj h
      exact ⟨hmarks, hm, rfl, rfl⟩
  · simp at h

theorem reset_of_ok {marks : Bool} {k : Counters} {d : c.State} (hmarks : marks = true)
    (hmark : s.mark = some k) (h : c.reset s.child = (.ok (), d)) :
    Limit.reset marks c.reset s = (.ok (), { s with counters := k, child := d }) := by
  rw [Limit.reset, if_pos hmarks, hmark]
  simp only [h]

/-- A limit keeps in step with its child; its place is where its counters stand. -/
def passes (limit : Option Nat) (offset : Nat) (c : Operator) (db : Storage) :
    Passes (.limit limit offset c) c db where
  Fixed := Option Profile
  Place := Counters
  child := State.child
  fixed s := s.status.profile
  place := State.counters
  marked s := if c.marks then s.mark else none
  origin := .zero
  profile p := p
  check p := Status.check ⟨p, 0⟩ .limit
  gives _ _ k tr := window limit offset k tr
  status_profile _ := rfl
  step h := by
    obtain ⟨hreach, hprofile, hmark⟩ := moves h
    exact ⟨hreach, hprofile, fun hπ => by rw [hmark hπ]⟩
  trace_eq := trace_eq limit offset
  rewind_refused h := congrArg Prod.fst (rewind_of_unprepared h)
  rewind_passed h := by
    have heq := rewind_of_prepared h
    exact ⟨congrArg Prod.fst heq, congrArg (fun x => x.2.child) heq,
      congrArg (fun x => x.2.counters) heq⟩
  mark_ok h := by
    obtain ⟨hmarks, hchild, hcounters, hmark⟩ := setMark_ok h
    exact ⟨hchild, hcounters, (if_pos hmarks).trans hmark⟩
  reset_ok {s k d} hk h := by
    by_cases hmarks : c.marks = true
    · exact ⟨_, reset_of_ok hmarks ((if_pos hmarks).symm.trans hk) h, rfl, rfl⟩
    · exact absurd ((if_neg hmarks).symm.trans hk) (by simp)

end Limit

end RelQuery
