import RelQuery.Proofs.Exhaustion

namespace RelQuery

/-- What a call of `next` answers. -/
abbrev Answer := Except QueryError (Option Tuple)

namespace Answer

def tuple? : Answer → Option Tuple
  | .ok t => t
  | .error _ => none

def error? : Answer → Option QueryError
  | .error e => some e
  | .ok _ => none

def tuples (rs : List Answer) : List Tuple := rs.filterMap tuple?

def errors (rs : List Answer) : List QueryError := rs.filterMap error?

/-- The answers without the first so many tuples; errors stay where they are. -/
def skip : Nat → List Answer → List Answer
  | 0, rs => rs
  | _ + 1, [] => []
  | n + 1, .ok (some _) :: rs => skip n rs
  | n + 1, r :: rs => r :: skip (n + 1) rs

def ofTuples (ts : List Tuple) : List Answer := ts.map fun t => .ok (some t)

variable {n : Nat} {e : QueryError} {t : Tuple} {rs qs : List Answer} {ts : List Tuple}

@[simp]
theorem tuples_nil : tuples [] = [] := rfl

@[simp]
theorem tuples_error : tuples (.error e :: rs) = tuples rs := rfl

@[simp]
theorem tuples_none : tuples (.ok none :: rs) = tuples rs := rfl

@[simp]
theorem tuples_some : tuples (.ok (some t) :: rs) = t :: tuples rs := rfl

theorem tuples_append : tuples (qs ++ rs) = tuples qs ++ tuples rs := List.filterMap_append

@[simp]
theorem errors_nil : errors [] = [] := rfl

@[simp]
theorem errors_error : errors (.error e :: rs) = e :: errors rs := rfl

@[simp]
theorem errors_none : errors (.ok none :: rs) = errors rs := rfl

@[simp]
theorem errors_some : errors (.ok (some t) :: rs) = errors rs := rfl

theorem errors_append : errors (qs ++ rs) = errors qs ++ errors rs := List.filterMap_append

@[simp]
theorem skip_nil : skip n [] = [] := by cases n <;> rfl

@[simp]
theorem skip_zero : skip 0 rs = rs := by cases rs <;> rfl

@[simp]
theorem skip_error : skip n (.error e :: rs) = .error e :: skip n rs := by cases n <;> simp [skip]

@[simp]
theorem skip_none : skip n (.ok none :: rs) = .ok none :: skip n rs := by cases n <;> simp [skip]

@[simp]
theorem skip_some : skip (n + 1) (.ok (some t) :: rs) = skip n rs := rfl

theorem tuples_ofTuples (ts : List Tuple) : tuples (ofTuples ts) = ts := by
  induction ts with
  | nil => rfl
  | cons t ts ih => exact congrArg (t :: ·) ih

theorem errors_ofTuples (ts : List Tuple) : errors (ofTuples ts) = [] := by
  induction ts with
  | nil => rfl
  | cons t ts ih => exact ih

theorem tuples_replicate (n : Nat) : tuples (.replicate n (.ok none)) = [] := by
  induction n with
  | zero => rfl
  | succ n ih => exact ih

theorem errors_replicate (n : Nat) : errors (.replicate n (.ok none)) = [] := by
  induction n with
  | zero => rfl
  | succ n ih => exact ih

theorem length_ofTuples (ts : List Tuple) : (ofTuples ts).length = ts.length := List.length_map _

theorem length_eq (h : .ok none ∉ rs) : rs.length = (tuples rs).length + (errors rs).length := by
  induction rs with
  | nil => rfl
  | cons r rs ih =>
    have hrest := ih fun hmem => h (.tail r hmem)
    rcases r with e | _ | t
    · simp [hrest, Nat.add_assoc]
    · exact absurd (.head rs) h
    · simp [hrest, Nat.add_right_comm]

/-- Answers are skipped one by one: errors and ends stay, tuples go as long as there are some to
skip. -/
@[elab_as_elim]
theorem skip_induction {motive : Nat → List Answer → Prop} (n : Nat) (rs : List Answer)
    (nil : ∀ n, motive n []) (error : ∀ n e rs, motive n rs → motive n (.error e :: rs))
    (last : ∀ n rs, motive n rs → motive n (.ok none :: rs))
    (kept : ∀ t rs, motive 0 rs → motive 0 (.ok (some t) :: rs))
    (skipped : ∀ n t rs, motive n rs → motive (n + 1) (.ok (some t) :: rs)) : motive n rs := by
  induction rs generalizing n with
  | nil => exact nil n
  | cons r rs ih =>
    rcases r with e | _ | t
    · exact error n e rs (ih n)
    · exact last n rs (ih n)
    · cases n with
      | zero => exact kept t rs (ih 0)
      | succ n => exact skipped n t rs (ih n)

theorem skip_append (n : Nat) (qs rs : List Answer) :
    skip n (qs ++ rs) = skip n qs ++ skip (n - (tuples qs).length) rs := by
  induction n, qs using skip_induction with
  | nil n | kept t qs => simp
  | error n e qs ih | last n qs ih | skipped n t qs ih => simp [ih]

theorem skip_ofTuples (h : ts.length ≤ n) : skip n (ofTuples ts) = [] := by
  induction ts generalizing n with
  | nil => exact skip_nil
  | cons t ts ih =>
    obtain ⟨n, rfl⟩ := Nat.exists_eq_add_of_le' (Nat.lt_of_lt_of_le (Nat.succ_pos _) h)
    exact ih (Nat.le_of_succ_le_succ h)

theorem tuples_skip (n : Nat) (rs : List Answer) : tuples (skip n rs) = (tuples rs).drop n := by
  induction n, rs using skip_induction with
  | nil n | kept t rs => simp
  | error n e rs ih | last n rs ih | skipped n t rs ih => simp [ih]

theorem errors_skip (n : Nat) (rs : List Answer) : errors (skip n rs) = errors rs := by
  induction n, rs using skip_induction with
  | nil n | kept t rs => simp
  | error n e rs ih | last n rs ih | skipped n t rs ih => simp [ih]

theorem none_mem_skip (n : Nat) (rs : List Answer) : .ok none ∈ skip n rs ↔ .ok none ∈ rs := by
  induction n, rs using skip_induction with
  | nil n | kept t rs | last n rs => simp
  | error n e rs ih | skipped n t rs ih => simp [ih]

end Answer

/-- A state beside the answers given since the run was started. -/
structure Logged (σ : Type) where
  state : σ
  log : List Answer

namespace Logged

variable {σ α : Type} {f : σ → Outcome (Option Tuple) σ} {s s' : Logged σ} {r : Answer}

def lift (f : σ → Outcome α σ) (s : Logged σ) : Outcome α (Logged σ) :=
  ((f s.state).1, { s with state := (f s.state).2 })

def next (f : σ → Outcome (Option Tuple) σ) (s : Logged σ) : Outcome (Option Tuple) (Logged σ) :=
  ((f s.state).1, ⟨(f s.state).2, s.log ++ [(f s.state).1]⟩)

def rewind (f : σ → Outcome Unit σ) (s : Logged σ) : Outcome Unit (Logged σ) :=
  ((f s.state).1, ⟨(f s.state).2, []⟩)

theorem next_ok (h : next f s = (r, s')) :
    f s.state = (r, s'.state) ∧ s'.log = s.log ++ [r] := by
  obtain ⟨rfl, rfl⟩ := Prod.mk.inj h
  exact ⟨rfl, rfl⟩

theorem rewind_ok {f : σ → Outcome Unit σ} {r : Except QueryError Unit}
    (h : rewind f s = (r, s')) : f s.state = (r, s'.state) ∧ s'.log = [] := by
  obtain ⟨rfl, rfl⟩ := Prod.mk.inj h
  exact ⟨rfl, rfl⟩

end Logged

namespace Operator

/-- The operator with a log of its answers. -/
def logged (c : Operator) : Operator where
  State := Logged c.State
  start := ⟨c.start, []⟩
  marks := c.marks
  orderedBy := c.orderedBy
  status s := c.status s.state
  prepare config := Logged.lift (c.prepare config)
  rewind := Logged.rewind c.rewind
  next db := Logged.next (c.next db)
  mark := Logged.lift c.mark
  reset := Logged.lift c.reset
  cleanUp s := { s with state := c.cleanUp s.state }
  supply := c.supply
  remaining db s := c.remaining db s.state
  kept s := c.kept s.state
  report s := c.report s.state
  next_lt h := c.next_lt (Logged.next_ok h).1
  rewind_le h := c.rewind_le (Logged.rewind_ok h).1

/-- The answers to calls of `next`, each over its own storage, and the state that they leave. -/
def answers (o : Operator) : List Storage → o.State → List Answer × o.State
  | [], s => ([], s)
  | db :: dbs, s => ((o.next db s).1 :: (o.answers dbs (o.next db s).2).1,
      (o.answers dbs (o.next db s).2).2)

variable {o : Operator} {db : Storage}

/-- An operator that stays at the end answers with the tuples of its trace, and then with none. -/
theorem answers_of_trace (hends : o.Ends db) {s : o.State} {ts : List Tuple}
    (h : o.trace db s = ⟨ts, .ok ()⟩) (n : Nat) :
    (o.answers (.replicate n db) s).1 = (List.range n).map fun i => .ok ts[i]? := by
  induction n generalizing s ts with
  | zero => rfl
  | succ n ih =>
    rw [List.range_succ_eq_map, List.map_cons, List.map_map]
    cases ts with
    | nil =>
      obtain ⟨s', hs'⟩ := next_of_trace_nil h
      simp only [List.replicate_succ, answers, hs', ih (hends hs')]
      rfl
    | cons t ts =>
      have hcons : o.trace db s = Trace.cons t ⟨ts, .ok ()⟩ := h
      obtain ⟨s', hs', htrace⟩ := next_of_trace_cons hcons
      simp only [List.replicate_succ, answers, hs', ih htrace]
      rfl

end Operator

namespace Limit

open Answer

section Calls

variable {σ : Type} {pull : σ → Outcome (Option Tuple) σ} {limit : Option Nat} {offset : Nat}

/-- What skipping calls: for tuples that it drops, and for the answer that breaks it off. -/
theorem skip_logged {n : Nat} {k k' : Counters} {a b : Logged σ} {r : Except QueryError Bool}
    (h : skip (Logged.next pull) n k a = (r, k', b)) :
    ∃ ts : List Tuple, ts.length ≤ n ∧ k'.skipped = k.skipped + ts.length ∧
      k'.returned = k.returned ∧
      match r with
      | .ok true => ts.length = n ∧ k'.done = k.done ∧ b.log = a.log ++ ofTuples ts
      | .ok false => k'.done = true ∧ b.log = a.log ++ ofTuples ts ++ [.ok none]
      | .error e => k'.done = k.done ∧ b.log = a.log ++ ofTuples ts ++ [.error e] := by
  induction n generalizing k a with
  | zero =>
    obtain ⟨rfl, rfl, rfl⟩ : .ok true = r ∧ k = k' ∧ a = b := by simpa [skip] using h
    exact ⟨[], le_rfl, rfl, rfl, rfl, rfl, by simp [ofTuples]⟩
  | succ n ih =>
    rw [skip] at h
    rcases ha : Logged.next pull a with ⟨e | _ | t, a'⟩ <;> rw [ha] at h <;>
      have hlog := (Logged.next_ok ha).2
    · obtain ⟨rfl, rfl, rfl⟩ : .error e = r ∧ k = k' ∧ a' = b := by simpa using h
      exact ⟨[], Nat.zero_le _, rfl, rfl, rfl, by simpa [ofTuples] using hlog⟩
    · obtain ⟨rfl, rfl, rfl⟩ : .ok false = r ∧ { k with done := true } = k' ∧ a' = b := by
        simpa using h
      exact ⟨[], Nat.zero_le _, rfl, rfl, rfl, by simpa [ofTuples] using hlog⟩
    · obtain ⟨ts, hlen, hskipped, hreturned, hr⟩ := ih h
      have hcons : a.log ++ ofTuples (t :: ts) = a'.log ++ ofTuples ts := by simp [hlog, ofTuples]
      have hcount : k.skipped + 1 + ts.length = k.skipped + (t :: ts).length := by
        rw [List.length_cons]
        omega
      refine ⟨t :: ts, Nat.succ_le_succ hlen, hskipped.trans hcount, hreturned, ?_⟩
      · rw [hcons]
        rcases r with e | _ | _
        · exact hr
        · exact hr
        · exact ⟨congrArg Nat.succ hr.1, hr.2⟩

/-- What one call of a limit does: nothing behind the end of the window, and else it calls its child
for the tuples that it still has to skip, up to the answer that it passes on. -/
theorem next_logged {s s' : State (Logged σ)} {r : Answer}
    (h : Limit.next limit offset (Logged.next pull) s = (r, s')) :
    ((s.counters.done || reached limit s.counters) = true ∧ r = .ok none ∧
      s' = { s with counters := { s.counters with done := true } }) ∨
    (s.counters.done || reached limit s.counters) = false ∧ ∃ ts : List Tuple,
      ts.length ≤ offset - s.counters.skipped ∧
      (∀ t, r = .ok (some t) → ts.length = offset - s.counters.skipped) ∧
      s'.child.log = s.child.log ++ ofTuples ts ++ [r] ∧
      s'.counters.skipped = s.counters.skipped + ts.length ∧
      s'.counters.returned = s.counters.returned + (tuples [r]).length ∧
      (s'.counters.done = true ↔ r = .ok none) := by
  unfold Limit.next at h
  split at h
  · next hclosed =>
    obtain ⟨rfl, rfl⟩ := Prod.mk.inj h
    exact .inl ⟨hclosed, rfl, rfl⟩
  next hopen =>
  have hfresh : s.counters.done = false := by simp_all
  refine .inr ⟨by simpa using hopen, ?_⟩
  rcases hskip : skip (Logged.next pull) (offset - s.counters.skipped) s.counters s.child with
    ⟨e | _ | _, k, a⟩ <;> simp only [hskip] at h <;>
    obtain ⟨ts, hlen, hskipped, hreturned, hr⟩ := skip_logged hskip
  · obtain ⟨rfl, rfl⟩ := Prod.mk.inj h
    exact ⟨ts, hlen, by simp, hr.2, hskipped, by simpa using hreturned, by simp [hr.1, hfresh]⟩
  · obtain ⟨rfl, rfl⟩ := Prod.mk.inj h
    exact ⟨ts, hlen, by simp, hr.2, hskipped, by simpa using hreturned, by simp [hr.1]⟩
  · obtain ⟨hall, hdone, hlog⟩ := hr
    rcases ha : Logged.next pull a with ⟨e | _ | t, b⟩ <;> simp only [ha] at h <;>
      obtain ⟨rfl, rfl⟩ := Prod.mk.inj h <;> have hb := (Logged.next_ok ha).2
    · exact ⟨ts, hlen, by simp, by rw [hb, hlog], hskipped, by simpa using hreturned,
        by simp [hdone, hfresh]⟩
    · exact ⟨ts, hlen, by simp, by rw [hb, hlog], hskipped, by simpa using hreturned, by simp⟩
    · exact ⟨ts, hlen, fun _ _ => hall, by rw [hb, hlog], hskipped, by simp [hreturned],
        by simp [hdone, hfresh]⟩

/-- What a limit has answered in a run, and where its counters stand, by the answers of its
child. -/
structure Windows (limit : Option Nat) (offset : Nat) (pulled answered : List Answer)
    (k : Counters) : Prop where
  /-- The child's answers are passed on, but for the tuples of the offset, and behind the window
  there are no tuples. -/
  passed : ∃ m, answered = Answer.skip offset pulled ++ .replicate m (.ok none)
  skipped : k.skipped = min offset (tuples pulled).length
  returned : k.returned = (tuples answered).length
  /-- The window ends with the child's tuples or at the limit. -/
  ended : .ok none ∈ answered → .ok none ∈ pulled ∨ ∃ l, limit = some l ∧ l ≤ k.returned
  calls : ∀ l, limit = some l → pulled.length ≤ offset + l + (errors pulled).length
  idle : limit = some 0 → pulled = []

variable {pulled answered : List Answer} {k : Counters} {s s' : State (Logged σ)} {r : Answer}

theorem Windows.tuples_eq (h : Windows limit offset pulled answered k) :
    tuples answered = (tuples pulled).drop offset := by
  obtain ⟨m, rfl⟩ := h.passed
  rw [tuples_append, tuples_skip, tuples_replicate, List.append_nil]

theorem Windows.errors_eq (h : Windows limit offset pulled answered k) :
    errors answered = errors pulled := by
  obtain ⟨m, rfl⟩ := h.passed
  rw [errors_append, errors_skip, errors_replicate, List.append_nil]

theorem Windows.passed_of_open (h : Windows limit offset pulled answered k)
    (hopen : .ok none ∉ answered) :
    answered = Answer.skip offset pulled ∧ .ok none ∉ pulled := by
  obtain ⟨m, rfl⟩ := h.passed
  cases m with
  | zero =>
    rw [List.replicate_zero, List.append_nil] at hopen ⊢
    exact ⟨rfl, mt (none_mem_skip offset pulled).2 hopen⟩
  | succ m => exact absurd (List.mem_append_right _ (.head _)) hopen

theorem windows_start : Windows limit offset [] [] .zero where
  passed := ⟨0, by simp⟩
  skipped := by simp [Counters.zero]
  returned := rfl
  ended h := absurd h (List.not_mem_nil)
  calls _ _ := Nat.zero_le _
  idle _ := rfl

theorem Windows.closed (h : Windows limit offset pulled answered k)
    (hend : .ok none ∈ answered ∨ reached limit k = true) :
    Windows limit offset pulled (answered ++ [.ok none]) { k with done := true } where
  passed := by
    obtain ⟨m, rfl⟩ := h.passed
    exact ⟨m + 1, by rw [List.append_assoc, ← List.replicate_succ']⟩
  skipped := h.skipped
  returned := by simpa [tuples_append] using h.returned
  ended _ := by
    rcases hend with hend | hreached
    · exact h.ended hend
    · obtain ⟨l, hl, hle⟩ := (Option.any_eq_true _ _).1 hreached
      exact .inr ⟨l, hl, of_decide_eq_true hle⟩
  calls := h.calls
  idle := h.idle

theorem Windows.opened (h : Windows limit offset pulled answered k) (hopen : .ok none ∉ answered)
    (hreached : reached limit k = false) {k' : Counters} {ts : List Tuple}
    (hlen : ts.length ≤ offset - k.skipped)
    (htuple : ∀ t, r = .ok (some t) → ts.length = offset - k.skipped)
    (hskipped : k'.skipped = k.skipped + ts.length)
    (hreturned : k'.returned = k.returned + (tuples [r]).length) :
    Windows limit offset (pulled ++ ofTuples ts ++ [r]) (answered ++ [r]) k' := by
  obtain ⟨hpassed, hnone⟩ := h.passed_of_open hopen
  have hpulled := length_eq hnone
  have hk := h.skipped
  have hr := h.returned
  rw [h.tuples_eq, List.length_drop] at hr
  have hlimit : ∀ l, limit = some l → k.returned < l := by
    rintro l rfl
    simpa [reached] using hreached
  have hcount : (tuples (pulled ++ ofTuples ts ++ [r])).length =
      (tuples pulled).length + ts.length + (tuples [r]).length := by
    simp only [tuples_append, tuples_ofTuples, List.length_append]
  have hlast : Answer.skip (offset - (tuples (pulled ++ ofTuples ts)).length) [r] = [r] := by
    rw [tuples_append, tuples_ofTuples, List.length_append]
    rcases r with e | _ | t
    · simp
    · simp
    · have hall := htuple t rfl
      rw [show offset - ((tuples pulled).length + ts.length) = 0 by omega, skip_zero]
  exact {
    passed := by
      refine ⟨0, ?_⟩
      rw [List.replicate_zero, List.append_nil, skip_append, hlast, skip_append, ← hpassed,
        skip_ofTuples (by omega), List.append_nil]
    skipped := by
      rw [hskipped, hcount]
      rcases r with e | _ | t
      · simp
        omega
      · simp
        omega
      · have hall := htuple t rfl
        omega
    returned := by rw [hreturned, h.returned, tuples_append, List.length_append]
    ended := fun hmem => by
      have hr : .ok none = r := by simpa [hopen] using hmem
      exact .inl (by simp [hr])
    calls := fun l hl => by
      have hlt := hlimit l hl
      simp only [errors_append, errors_ofTuples, List.length_append, length_ofTuples, hpulled,
        List.length_nil, List.length_singleton]
      omega
    idle := fun hzero => absurd (hlimit 0 hzero) (Nat.not_lt_zero _) }

theorem Windows.next {f : σ → Outcome (Option Tuple) σ}
    (h : Windows limit offset s.child.log answered s.counters)
    (hdone : s.counters.done = true ↔ .ok none ∈ answered)
    (hnext : Limit.next limit offset (Logged.next f) s = (r, s')) :
    Windows limit offset s'.child.log (answered ++ [r]) s'.counters ∧
      (s'.counters.done = true ↔ .ok none ∈ answered ++ [r]) := by
  obtain ⟨hclosed, rfl, rfl⟩ | ⟨hopen, ts, hlen, htuple, hlog, hskipped, hreturned, hend⟩ :=
    next_logged hnext
  · refine ⟨h.closed ?_, by simp⟩
    rw [← hdone]
    simpa using hclosed
  · obtain ⟨hfresh, hreached⟩ := Bool.or_eq_false_iff.1 hopen
    have hnone : .ok none ∉ answered := by
      rw [← hdone, hfresh]
      exact Bool.false_ne_true
    rw [hlog]
    refine ⟨h.opened hnone hreached hlen htuple hskipped hreturned, ?_⟩
    rw [hend]
    simp [hnone, eq_comm]

def State.watched (s : State σ) : State (Logged σ) := ⟨s.status, s.counters, s.mark, s.child, []⟩

def State.forget (s : State (Logged σ)) : State σ := ⟨s.status, s.counters, s.mark, s.child.state⟩

theorem skip_forget (pull : σ → Outcome (Option Tuple) σ) (n : Nat) (k : Counters) (a : Logged σ) :
    skip pull n k a.state = ((skip (Logged.next pull) n k a).1,
      (skip (Logged.next pull) n k a).2.1, (skip (Logged.next pull) n k a).2.2.state) := by
  induction n generalizing k a with
  | zero => rfl
  | succ n ih =>
    rw [skip, skip]
    rcases ha : Logged.next pull a with ⟨e | _ | t, a'⟩ <;> rw [(Logged.next_ok ha).1]
    exact ih _ a'

theorem next_forget (pull : σ → Outcome (Option Tuple) σ) (s : State (Logged σ)) :
    Limit.next limit offset pull s.forget =
    ((Limit.next limit offset (Logged.next pull) s).1,
      (Limit.next limit offset (Logged.next pull) s).2.forget) := by
  obtain ⟨status, k, mark, a⟩ := s
  have hskip := skip_forget pull (offset - k.skipped) k a
  by_cases hclosed : (k.done || reached limit k) = true
  · simp [Limit.next, State.forget, hclosed]
  simp only [Limit.next, State.forget, if_neg hclosed, hskip]
  rcases skip (Logged.next pull) (offset - k.skipped) k a with ⟨e | _ | _, k, a⟩
  · rfl
  · rfl
  · dsimp only
    rcases ha : Logged.next pull a with ⟨e | _ | t, b⟩ <;> rw [(Logged.next_ok ha).1]

end Calls

variable {c : Operator} {db : Storage} {limit : Option Nat} {offset : Nat}

/-- The tuples of a window. -/
def windowTuples : Option Nat → Nat → List Tuple → List Tuple
  | some n, offset, ts => (ts.drop offset).take n
  | none, offset, ts => ts.drop offset

theorem answers_forget (dbs : List Storage) (s : State (Logged c.State)) :
    (Operator.limit limit offset c).answers dbs s.forget =
      (((Operator.limit limit offset c.logged).answers dbs s).1,
        State.forget ((Operator.limit limit offset c.logged).answers dbs s).2) := by
  induction dbs generalizing s with
  | nil => rfl
  | cons db dbs ih =>
    have hnext : (Operator.limit limit offset c).next db s.forget = _ :=
      next_forget (c.next db) s
    simp only [Operator.answers, hnext]
    rw [ih]
    rfl

theorem windows_answers (dbs : List Storage) {s : State (Logged c.State)} {answered : List Answer}
    (h : Windows limit offset s.child.log answered s.counters)
    (hdone : s.counters.done = true ↔ .ok none ∈ answered) {s' : State (Logged c.State)}
    {more : List Answer}
    (hmore : (Operator.limit limit offset c.logged).answers dbs s = (more, s')) :
    Windows limit offset s'.child.log (answered ++ more) s'.counters ∧
      (s'.counters.done = true ↔ .ok none ∈ answered ++ more) := by
  induction dbs generalizing s answered more with
  | nil =>
    obtain ⟨rfl, rfl⟩ := Prod.mk.inj hmore
    rw [List.append_nil]
    exact ⟨h, hdone⟩
  | cons db dbs ih =>
    obtain ⟨rfl, rfl⟩ := Prod.mk.inj hmore
    obtain ⟨hnext, hnextDone⟩ := h.next (f := c.next db) hdone rfl
    have hrest := ih hnext hnextDone rfl
    rw [List.append_assoc] at hrest
    exact hrest

theorem next_of_done {σ : Type} {pull : σ → Outcome (Option Tuple) σ} {s : State σ}
    (h : s.counters.done = true) : Limit.next limit offset pull s = (.ok none, s) := by
  obtain ⟨status, k, mark, child⟩ := s
  obtain ⟨skipped, returned, done⟩ := k
  obtain rfl : done = true := h
  rw [Limit.next, if_pos (by simp)]

theorem setMark_keeps (marks : Bool) (s : State (Logged c.State)) :
    (Limit.setMark marks (Logged.lift c.mark) s).2.counters = s.counters ∧
      (Limit.setMark marks (Logged.lift c.mark) s).2.child.log = s.child.log := by
  unfold Limit.setMark
  split
  · split <;> rename_i h <;> obtain ⟨-, rfl⟩ := Prod.mk.inj h <;> exact ⟨rfl, rfl⟩
  · exact ⟨rfl, rfl⟩

theorem log_of_continues {s s' : State (Logged c.State)}
    (h : (Operator.limit limit offset c.logged).Continues s s') (hdone : s.counters.done = true) :
    s'.counters.done = true ∧ s'.child.log = s.child.log := by
  induction h with
  | refl => exact ⟨hdone, rfl⟩
  | @tail a b _ hstep ih =>
    obtain ⟨db, call, hcall, rfl⟩ := hstep
    cases call with
    | next =>
      have hnext : (Operator.limit limit offset c.logged).next db a = (.ok none, a) :=
        next_of_done ih.1
      rw [show ((Operator.limit limit offset c.logged).call db .next a).2 = a from
        congrArg Prod.snd hnext]
      exact ih
    | mark =>
      obtain ⟨hcounters, hlog⟩ := setMark_keeps c.marks a
      exact ⟨(congrArg Counters.done hcounters).trans ih.1, hlog.trans ih.2⟩
    | cleanUp => exact ih
    | rewind | reset => exact absurd hcall (by decide)

/-- What calls of `next` lead to, with the log of the child's answers. -/
def watch (limit : Option Nat) (offset : Nat) (c : Operator) (dbs : List Storage)
    (s : State c.State) : State (Logged c.State) :=
  ((Operator.limit limit offset c.logged).answers dbs s.watched).2

theorem answers_watched (dbs : List Storage) (s : State c.State) :
    (Operator.limit limit offset c).answers dbs s =
      (((Operator.limit limit offset c.logged).answers dbs s.watched).1,
        (watch limit offset c dbs s).forget) :=
  answers_forget dbs s.watched

theorem windows_watch (limit : Option Nat) (offset : Nat) {s : State c.State}
    (hzero : s.counters = .zero) (dbs : List Storage) :
    Windows limit offset (watch limit offset c dbs s).child.log
        ((Operator.limit limit offset c).answers dbs s).1 (watch limit offset c dbs s).counters ∧
      ((watch limit offset c dbs s).counters.done = true ↔
        .ok none ∈ ((Operator.limit limit offset c).answers dbs s).1) := by
  have hcounters : s.watched.counters = .zero := hzero
  have hstart : Windows limit offset s.watched.child.log [] s.watched.counters := by
    rw [hcounters]
    exact windows_start
  have hfresh : s.watched.counters.done = true ↔ (.ok none : Answer) ∈ [] := by
    rw [hcounters]
    simp [Counters.zero]
  rw [answers_watched]
  exact windows_answers dbs hstart hfresh rfl

theorem window_zero (limit : Option Nat) (offset : Nat) (ts : List Tuple) :
    window limit offset .zero ⟨ts, .ok ()⟩ = ⟨windowTuples limit offset ts, .ok ()⟩ := by
  cases limit with
  | none => rfl
  | some l =>
    by_cases hle : l ≤ (ts.drop offset).length
    · exact if_pos hle
    · have hall : (ts.drop offset).take l = ts.drop offset :=
        List.take_of_length_le (Nat.le_of_not_le hle)
      rw [windowTuples, hall]
      exact if_neg hle

/-- A run of a limit, call by call. It answers what its child does, without the tuples of the
offset; with a limit it calls the child at most so often as offset and limit allow, and once more
for each failure; its counters tell what was skipped and what was returned; once it has told the
end, it does not call its child. Over a child that does not fail it answers with the tuples of the
window. -/
theorem run_windows (limit : Option Nat) (offset : Nat) (c : Operator) {s₀ s : State c.State}
    (hstart : (Operator.limit limit offset c).rewind s₀ = (.ok (), s)) :
    (∀ dbs,
      (Operator.limit limit offset c).answers dbs s =
          (((Operator.limit limit offset c.logged).answers dbs s.watched).1,
            (watch limit offset c dbs s).forget) ∧
        Windows limit offset (watch limit offset c dbs s).child.log
          ((Operator.limit limit offset c).answers dbs s).1 (watch limit offset c dbs s).counters ∧
        (.ok none ∈ ((Operator.limit limit offset c).answers dbs s).1 →
          ∀ s' : State (Logged c.State),
            (Operator.limit limit offset c.logged).Continues (watch limit offset c dbs s) s' →
              s'.child.log = (watch limit offset c dbs s).child.log ∧
                ∀ db, (Operator.limit limit offset c.logged).next db s' = (.ok none, s'))) ∧
    ∀ db ts, c.trace db s.child = ⟨ts, .ok ()⟩ → ∀ n,
      ((Operator.limit limit offset c).answers (.replicate n db) s).1 =
          (List.range n).map (fun i => .ok (windowTuples limit offset ts)[i]?) ∧
        ∀ l, limit = some l →
          (watch limit offset c (.replicate n db) s).child.log.length ≤ offset + l := by
  obtain ⟨-, -, hzero⟩ := rewind_ok hstart
  constructor
  · intro dbs
    obtain ⟨hwindows, hdone⟩ := windows_watch limit offset hzero dbs
    refine ⟨answers_watched dbs s, hwindows, fun hnone s' hs' => ?_⟩
    obtain ⟨hdone', hlog⟩ := log_of_continues hs' (hdone.2 hnone)
    exact ⟨hlog, fun db => next_of_done hdone'⟩
  · intro db ts hts n
    have htrace : (Operator.limit limit offset c).trace db s =
        ⟨windowTuples limit offset ts, .ok ()⟩ := by
      rw [trace_eq, hzero, hts, window_zero]
    have hanswers := Operator.answers_of_trace ends htrace n
    refine ⟨hanswers, fun l hl => ?_⟩
    obtain ⟨hwindows, -⟩ := windows_watch limit offset hzero (.replicate n db)
    -- Without errors among the answers there are none in the log.
    have herrors : errors (watch limit offset c (.replicate n db) s).child.log = [] := by
      rw [← hwindows.errors_eq, hanswers]
      simp [errors, error?, Function.comp_def]
    simpa [herrors] using hwindows.calls l hl

/-- Rows 2 and 3 of four, and then nothing. -/
theorem run_windows_constants :
    let rows : List Row := [[.int 1], [.int 2], [.int 3], [.int 4]]
    let child := Operator.values ⟨[⟨"a", none, .bigInt⟩]⟩ rows
    let limit := Operator.limit (some 2) 1 child
    ∃ s₀ s : State (Leaf Nat), limit.prepare .default limit.start = (.ok (), s₀) ∧
      limit.rewind s₀ = (.ok (), s) ∧ ∀ db, (limit.answers (.replicate 4 db) s).1 =
        [.ok (some (.computed [.int 2])), .ok (some (.computed [.int 3])), .ok none, .ok none] := by
  intro rows child limit
  obtain ⟨s₀, hs₀⟩ : ∃ s₀, limit.prepare .default limit.start = (.ok (), s₀) := ⟨_, rfl⟩
  obtain ⟨s, hs⟩ : ∃ s, limit.rewind s₀ = (.ok (), s) := by
    obtain ⟨-, rfl⟩ := Prod.mk.inj hs₀
    exact ⟨_, rfl⟩
  refine ⟨s₀, s, hs₀, hs, fun db => ?_⟩
  have htrace : child.trace db (State.child s) = ⟨rows.map .computed, .ok ()⟩ := by
    obtain ⟨-, rfl⟩ := Prod.mk.inj hs₀
    obtain ⟨-, rfl⟩ := Prod.mk.inj hs
    exact Values.trace_eq _ rows _
  exact ((run_windows (some 2) 1 child hs).2 db _ htrace 4).1

end Limit

end RelQuery
