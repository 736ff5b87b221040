import RelQuery.Proofs.JoinMachine

namespace RelQuery

namespace Join

/-- Two calls have the same result, and lead to related states where they succeed. -/
inductive Agree {γ α : Type} (R : α → α → Prop) : Outcome γ α → Outcome γ α → Prop
  | error (e a b) : Agree R (.error e, a) (.error e, b)
  | ok (x) {a b} : R a b → Agree R (.ok x, a) (.ok x, b)

theorem Agree.of_error {γ α : Type} {R : α → α → Prop} {e : QueryError} {a : α} {x : Outcome γ α}
    (h : Agree R (.error e, a) x) : ∃ b, x = (.error e, b) := by
  cases h
  exact ⟨_, rfl⟩

theorem Agree.of_ok {γ α : Type} {R : α → α → Prop} {y : γ} {a : α} {x : Outcome γ α}
    (h : Agree R (.ok y, a) x) : ∃ b, x = (.ok y, b) ∧ R a b := by
  cases h with
  | ok _ h => exact ⟨_, rfl, h⟩

/-- Two machines are at the same place; their left rows may differ in their pages. -/
inductive Progress.Alike (p : Progress) : Progress → Prop
  | intro (t : Option Tuple) : t.map Tuple.values = p.left.map Tuple.values →
      Alike p { p with left := t }

theorem Progress.Alike.left {p p' : Progress} (h : p.Alike p') :
    p'.left.map Tuple.values = p.left.map Tuple.values := by
  obtain ⟨t, ht⟩ := h
  exact ht

theorem Progress.Alike.settle {p p' : Progress} (h : p.Alike p') :
    (Join.settle p).Alike (Join.settle p') := by
  obtain ⟨t, ht⟩ := h
  exact .intro t ht

theorem Progress.alike_refl (p : Progress) : p.Alike p := .intro p.left rfl

theorem Progress.alike_remembered (p : Progress) : p.Alike p.remembered := by
  refine .intro (p.left.map Tuple.detach) ?_
  cases p.left <;> rfl

section Machines

variable {σ τ : Type} {R : σ → σ → Prop} {S : τ → τ → Prop} {inputs : Inputs σ τ}
  {kind : JoinKind} {test : Tuple → Tuple → Except QueryError Bool} {p p' : Progress} {l l' : σ}
  {r r' : τ}

/-- Two places of a machine with related inputs. -/
structure Related (R : σ → σ → Prop) (S : τ → τ → Prop) (a b : Progress × σ × τ) : Prop where
  progress : a.1.Alike b.1
  left : R a.2.1 b.2.1
  right : S a.2.2 b.2.2

/-- Inputs keep relations, and give the same in related states. -/
structure Inputs.Keeps (inputs : Inputs σ τ) (R : σ → σ → Prop) (S : τ → τ → Prop) : Prop where
  left : ∀ {l l'}, R l l' → Agree R (inputs.nextLeft l) (inputs.nextLeft l')
  right : ∀ {r r'}, S r r' → Agree S (inputs.nextRight r) (inputs.nextRight r')
  rewind : ∀ {r r'}, S r r' → Agree S (inputs.rewindRight r) (inputs.rewindRight r')

variable (hI : inputs.Keeps R S) (hl : R l l') (hr : S r r')

include hI hl hr

theorem rewindFor_agree (phase : Phase) (hp : p.Alike p') :
    Agree (Related R S) (rewindFor inputs phase p l r) (rewindFor inputs phase p' l' r') := by
  unfold rewindFor
  have h := hI.rewind hr
  generalize inputs.rewindRight r = x at h ⊢
  generalize inputs.rewindRight r' = x' at h ⊢
  obtain ⟨t, ht⟩ := hp
  cases h with
  | error e a b => exact .error ..
  | ok _ h => exact .ok _ ⟨.intro t ht, hl, h⟩

theorem advance_agree (hp : p.Alike p') :
    Agree (Related R S) (advance kind inputs p l r) (advance kind inputs p' l' r') := by
  obtain ⟨t, -⟩ := hp
  unfold advance
  have h := hI.left hl
  generalize inputs.nextLeft l = x at h ⊢
  generalize inputs.nextLeft l' = x' at h ⊢
  cases h with
  | error e a b => exact .error ..
  | ok u h =>
    cases u with
    | some u => exact rewindFor_agree hI h hr _ (Progress.alike_refl _)
    | none =>
      dsimp only
      split
      · exact rewindFor_agree hI h hr _ (Progress.alike_refl _)
      · exact .ok _ ⟨Progress.alike_refl _, h, hr⟩

theorem endOfRight_agree (matched : Bool) (hp : p.Alike p') :
    Agree (Related R S) (endOfRight kind inputs matched p l r)
      (endOfRight kind inputs matched p' l' r') := by
  unfold endOfRight
  have hempty : p'.rightEmpty = p.rightEmpty := by obtain ⟨t, -⟩ := hp; rfl
  rw [hempty]
  split
  · obtain ⟨t, -⟩ := hp
    exact .ok _ ⟨Progress.alike_refl _, hl, hr⟩
  · split
    · obtain ⟨t, ht⟩ := hp
      exact .ok _ ⟨.intro t ht, hl, hr⟩
    · split
      · obtain ⟨t, ht⟩ := hp
        exact .ok _ ⟨.intro t ht, hl, hr⟩
      · exact advance_agree hI hl hr hp

omit hI hl hr in
theorem found_agree (ordinal : Nat) {t t' : Tuple} (u : Tuple) (ht : t'.values = t.values)
    (hp : p.Alike p') : (found kind p ordinal t u).1 = (found kind p' ordinal t' u).1 ∧
      (found kind p ordinal t u).2.Alike (found kind p' ordinal t' u).2 := by
  obtain ⟨x, hx⟩ := hp
  -- In every kind both machines keep all but the left row, and settle it or not alike.
  cases kind <;> simp only [found, ht, true_and] <;> exact .intro x hx

omit hI hl hr in
theorem meet_agree (htest : ∀ {t t' : Tuple} (u), t'.values = t.values → test t' u = test t u)
    (u : Tuple) (hp : p.Alike p') : (meet kind test p u).1 = (meet kind test p' u).1 ∧
      (meet kind test p u).2.Alike (meet kind test p' u).2 := by
  obtain ⟨x, hx⟩ := hp
  unfold meet
  dsimp only
  rcases hleft : p.left with _ | t <;> rcases x with _ | t' <;> simp [hleft] at hx ⊢
  · exact .intro _ rfl
  · rw [htest u hx]
    split
    · exact ⟨rfl, .intro _ (by simp [hx])⟩
    · exact ⟨rfl, .intro _ (by simp [hx])⟩
    · exact found_agree _ u hx (.intro _ (by simp [hx]))

theorem step_agree (htest : ∀ {t t' : Tuple} (u), t'.values = t.values → test t' u = test t u)
    (leftWidth rightWidth : Nat) (hp : p.Alike p') :
    Agree (Related R S) (step kind inputs test leftWidth rightWidth p l r)
      (step kind inputs test leftWidth rightWidth p' l' r') := by
  have hphase : p'.phase = p.phase ∧ p'.leftDone = p.leftDone := by
    obtain ⟨t, -⟩ := hp
    exact ⟨rfl, rfl⟩
  have hright := hI.right hr
  unfold step
  rw [hphase.1, hphase.2]
  split
  case h_1 => exact .ok _ ⟨hp, hl, hr⟩
  case h_2 => exact advance_agree hI hl hr hp
  case h_3 matched _ =>
    split
    · exact advance_agree hI hl hr hp
    · generalize inputs.nextRight r = x at hright ⊢
      generalize inputs.nextRight r' = x' at hright ⊢
      cases hright with
      | error e a b => exact .error ..
      | ok u h =>
        cases u with
        | none => exact endOfRight_agree hI hl h matched hp
        | some u =>
          obtain ⟨hm, hq⟩ : (meet kind test p u).1 = (meet kind test p' u).1 ∧
              (meet kind test p u).2.Alike (meet kind test p' u).2 := meet_agree htest u hp
          dsimp only
          rw [← hm]
          cases (meet kind test p u).1 with
          | error e => exact .error ..
          | ok m => exact .ok _ ⟨hq, hl, h⟩
  case h_4 | h_5 =>
    have hleft := hp.left
    -- Either both machines have a left row or none has, and the rows have the same values.
    rcases h : p.left with _ | t <;> rcases h' : p'.left with _ | t' <;> simp [h, h'] at hleft
    · exact .ok _ ⟨hp.settle, hl, hr⟩
    · dsimp only
      rw [hleft]
      exact .ok _ ⟨hp.settle, hl, hr⟩
  case h_6 =>
    obtain ⟨t, ht⟩ := hp
    generalize inputs.nextRight r = x at hright ⊢
    generalize inputs.nextRight r' = x' at hright ⊢
    cases hright with
    | error e a b => exact .error ..
    | ok u h => cases u <;> exact .ok _ ⟨.intro t ht, hl, h⟩

omit hI hl hr in
theorem Emits.congr {move : Progress → σ → τ → Step σ τ} {rows : List Row}
    {e : Except QueryError Unit}
    (hmove : ∀ p l r p' l' r', Related R S (p, l, r) (p', l', r') →
      Agree (Related R S) (move p l r) (move p' l' r'))
    (h : Emits move p l r rows e) (hrel : Related R S (p, l, r) (p', l', r')) :
    Emits move p' l' r' rows e := by
  induction h generalizing p' l' r' with
  | error h =>
    obtain ⟨_, hx⟩ := (h ▸ hmove _ _ _ _ _ _ hrel).of_error
    exact .error hx
  | finished h =>
    obtain ⟨_, hx, -⟩ := (h ▸ hmove _ _ _ _ _ _ hrel).of_ok
    exact .finished hx
  | again h _ ih =>
    obtain ⟨_, hx, hrel⟩ := (h ▸ hmove _ _ _ _ _ _ hrel).of_ok
    exact .again hx (ih hrel)
  | row h _ ih =>
    obtain ⟨_, hx, hrel⟩ := (h ▸ hmove _ _ _ _ _ _ hrel).of_ok
    exact .row hx (ih hrel)

end Machines

section Operators

variable {kind : JoinKind} {predicate : Option Expr} {swapped : Bool} {left right : Operator}
  {db : Storage} {s s' s₀ : State left.State right.State}

theorem next_agree {o : Operator} (ho : o.Ends db) {a b : o.State}
    (h : o.trace db a = o.trace db b) :
    Agree (fun a b => o.trace db a = o.trace db b) (o.next db a) (o.next db b) := by
  rcases ha : o.next db a with ⟨e | _ | t, a'⟩
  · rw [Operator.trace_of_error ha] at h
    obtain ⟨b', hb⟩ := Operator.next_of_trace_failed h.symm
    rw [hb]
    exact .error ..
  · rw [Operator.trace_of_none ha] at h
    obtain ⟨b', hb⟩ := Operator.next_of_trace_nil h.symm
    rw [hb]
    exact .ok _ ((ho ha).trans (ho hb).symm)
  · rw [Operator.trace_of_some ha] at h
    obtain ⟨b', hb, htrace⟩ := Operator.next_of_trace_cons h.symm
    rw [hb]
    exact .ok _ htrace.symm

/-- States of the right input that give the same now and whenever they are started again. -/
structure SameRuns (right : Operator) (db : Storage) (r₀ r₀' r r' : right.State) : Prop where
  trace : right.trace db r = right.trace db r'
  reaches : right.Reaches db .any r₀ r
  reaches' : right.Reaches db .any r₀' r'

theorem inputs_keeps (hl : left.Ends db) (hr : right.Ends db) {r₀ r₀' : right.State}
    (halike : ∀ {r r'}, right.Reaches db .any r₀ r → right.Reaches db .any r₀' r' →
      right.Alike db r r') :
    (inputs left right db).Keeps (fun l l' => left.trace db l = left.trace db l')
      (SameRuns right db r₀ r₀') where
  left h := next_agree hl h
  right {r r'} h := by
    have hagree := next_agree hr h.trace
    change Agree _ (right.next db r) (right.next db r')
    rcases hx : right.next db r with ⟨x, r₁⟩
    rcases hx' : right.next db r' with ⟨x', r₁'⟩
    rw [hx, hx'] at hagree
    cases hagree with
    | error => exact .error ..
    | ok _ htrace =>
      exact .ok _ ⟨htrace, h.reaches.trans (.next hx (.inl rfl)),
        h.reaches'.trans (.next hx' (.inl rfl))⟩
  rewind {r r'} h := by
    change Agree _ (right.rewind r) (right.rewind r')
    have hruns := halike h.reaches h.reaches'
    rcases hx : right.rewind r with ⟨e | _, r₁⟩
    · have hx' : (right.rewind r').1 = .error e := hruns.rewind.symm.trans (by rw [hx])
      rw [show right.rewind r' = (.error e, (right.rewind r').2) from Prod.ext hx' rfl]
      exact .error ..
    · obtain ⟨r₁', hx', htrace⟩ := hruns.of_ok hx
      rw [hx']
      exact .ok _ ⟨htrace, h.reaches.trans (.rewind hx (.inl rfl)),
        h.reaches'.trans (.rewind hx' (.inl rfl))⟩

theorem matches_congr (predicate : Option Expr) (ls rs : Schema) {t t' : Tuple} (u : Tuple)
    (h : t'.values = t.values) :
    matches? predicate ls rs t' u = matches? predicate ls rs t u := by
  simp only [matches?, h]

/-- A join gives the same from the same place, when its inputs give the same. -/
theorem trace_congr (hl : left.Ends db) (hr : right.Ends db) {r₀ r₀' : right.State}
    (halike : ∀ {r r'}, right.Reaches db .any r₀ r → right.Reaches db .any r₀' r' →
      right.Alike db r r')
    (hsettled : s'.settled = s.settled) (hprogress : s.progress.Alike s'.progress)
    (hleft : left.trace db s.left = left.trace db s'.left)
    (hright : SameRuns right db r₀ r₀' s.right s'.right) :
    (Operator.join kind predicate swapped left right).trace db s =
      (Operator.join kind predicate swapped left right).trace db s' := by
  obtain ⟨hls, hrs⟩ : s'.leftSchema = s.leftSchema ∧ s'.rightSchema = s.rightSchema :=
    Prod.mk.inj (congrArg Prod.snd hsettled)
  obtain ⟨rows, e, hemits⟩ := exists_emits kind predicate left right db s.leftSchema s.rightSchema
    s.progress s.left s.right
  have hemits' : Emits (move kind predicate left right db s'.leftSchema s'.rightSchema) s'.progress
      s'.left s'.right rows e := by
    rw [hls, hrs]
    refine hemits.congr (R := fun l l' => left.trace db l = left.trace db l')
      (S := SameRuns right db r₀ r₀') (fun p l r p' l' r' h => ?_) ⟨hprogress, hleft, hright⟩
    exact step_agree (inputs_keeps hl hr halike) h.left h.right (matches_congr predicate _ _) _ _
      h.progress
  refine (trace_of_emits hemits s.status s.mark).trans ?_
  rw [← hls]
  exact (trace_of_emits hemits' s'.status s'.mark).symm

theorem both_ok {f : left.State → Outcome Unit left.State}
    {g : right.State → Outcome Unit right.State} (h : both f g s = (.ok (), s')) :
    f s.left = (.ok (), s'.left) ∧ g s.right = (.ok (), s'.right) ∧
      s' = { s with left := s'.left, right := s'.right } := by
  unfold both at h
  split at h
  · simp at h
  · next hleft =>
    obtain ⟨hright, rfl⟩ := Prod.mk.inj h
    exact ⟨hleft, Prod.ext hright rfl, rfl⟩

theorem both_of_ok {f : left.State → Outcome Unit left.State}
    {g : right.State → Outcome Unit right.State} {l : left.State} {r : right.State}
    (hf : f s.left = (.ok (), l)) (hg : g s.right = (.ok (), r)) :
    both f g s = (.ok (), { s with left := l, right := r }) := by
  rw [both, hf, hg]

theorem rewind_of_unprepared (f : left.State → Outcome Unit left.State)
    (g : right.State → Outcome Unit right.State) {e : QueryError}
    (h : s.status.check .join = .error e) : rewind f g s = (.error e, s) := by
  rw [rewind, h]

theorem rewind_of_prepared (f : left.State → Outcome Unit left.State)
    (g : right.State → Outcome Unit right.State) (h : s.status.check .join = .ok ()) :
    (rewind f g s).1 =
      match (f s.left).1 with
      | .error e => .error e
      | .ok _ => (g s.right).1 := by
  rw [rewind, h]
  dsimp only [both]
  rcases f s.left with ⟨_ | _, l⟩
  · rfl
  · rcases g s.right with ⟨_ | _, r⟩ <;> rfl

/-- Runs from two states are alike when the runs of the inputs are, also those of the right input
that are started later. -/
theorem alike (hle : left.Ends db) (hre : right.Ends db) (hsettled : s'.settled = s.settled)
    (hl : left.Alike db s.left s'.left)
    (hr : ∀ {r r'}, right.Reaches db .any s.right r → right.Reaches db .any s'.right r' →
      right.Alike db r r') :
    (Operator.join kind predicate swapped left right).Alike db s s' := by
  have hcheck : s'.status.check .join = s.status.check .join :=
    Status.check_congr (congrArg Prod.fst hsettled)
  have hrewind : (rewind left.rewind right.rewind s).1 =
      (rewind left.rewind right.rewind s').1 := by
    cases hs : s.status.check .join with
    | error e => rw [rewind_of_unprepared _ _ hs, rewind_of_unprepared _ _ (hcheck.trans hs)]
    | ok _ =>
      rw [rewind_of_prepared _ _ hs, rewind_of_prepared _ _ (hcheck.trans hs), hl.rewind,
        (hr .refl .refl).rewind]
  refine ⟨hrewind, fun hok => ?_⟩
  obtain ⟨s₁, hs₁⟩ : ∃ s₁, rewind left.rewind right.rewind s = (.ok (), s₁) :=
    ⟨_, Prod.ext hok rfl⟩
  obtain ⟨s₂, hs₂⟩ : ∃ s₂, rewind left.rewind right.rewind s' = (.ok (), s₂) :=
    ⟨_, Prod.ext (hrewind.symm.trans hok) rfl⟩
  have hreach₁ : (Operator.join kind predicate swapped left right).Reaches db .any s s₁ :=
    .rewind hs₁ (.inl rfl)
  have hreach₂ : (Operator.join kind predicate swapped left right).Reaches db .any s' s₂ :=
    .rewind hs₂ (.inl rfl)
  obtain ⟨hleft₁, hright₁, hfresh₁⟩ := rewind_ok hs₁
  obtain ⟨hleft₂, hright₂, hfresh₂⟩ := rewind_ok hs₂
  have hleft := hl.trace (by rw [hleft₁])
  have hright := (hr .refl .refl).trace (by rw [hright₁])
  rw [hleft₁, hleft₂] at hleft
  rw [hright₁, hright₂] at hright
  change (Operator.join kind predicate swapped left right).trace db
    (rewind left.rewind right.rewind s).2 =
      (Operator.join kind predicate swapped left right).trace db
        (rewind left.rewind right.rewind s').2
  rw [hs₁, hs₂]
  refine trace_congr hle hre hr ?_ ?_ hleft
    ⟨hright, reaches_right hreach₁, reaches_right hreach₂⟩
  · rw [settled_eq hreach₁, settled_eq hreach₂, hsettled]
  · rw [hfresh₁, hfresh₂]
    exact Progress.alike_refl _

theorem replays (hle : left.Ends db) (hre : right.Ends db) (hl : left.Replays db s₀.left)
    (hr : right.Replays db s₀.right) :
    (Operator.join kind predicate swapped left right).Replays db s₀ :=
  .of_alike fun h => alike hle hre (settled_eq h).symm (hl.alike (reaches_left h))
    fun hx hx' => (hr.alike ((reaches_right h).trans hx)).trans (hr.alike hx').symm

section Ends

variable {p p' : Progress} {l l' : left.State} {r r' : right.State} {ls rs : Schema}

theorem advance_not_finished {q : Progress × left.State × right.State} :
    advance kind (inputs left right db) p l r ≠ (.ok .finished, q) := by
  intro h
  unfold advance at h
  split at h
  · simp at h
  · exact absurd (rewindFor_ok h).2.1 (by simp)
  · split at h
    · exact absurd (rewindFor_ok h).2.1 (by simp)
    · simp at h

theorem endOfRight_not_finished {matched : Bool} {q : Progress × left.State × right.State} :
    endOfRight kind (inputs left right db) matched p l r ≠ (.ok .finished, q) := by
  intro h
  unfold endOfRight at h
  split at h
  · simp at h
  · split at h
    · simp at h
    · split at h
      · simp at h
      · exact advance_not_finished h

theorem meet_not_finished {test : Tuple → Tuple → Except QueryError Bool} {u : Tuple} :
    (meet kind test p u).1 ≠ .ok .finished := by
  unfold meet
  dsimp only
  split
  · simp
  · split
    · simp
    · simp
    · cases kind <;> simp [found]

theorem phase_of_finished {q : Progress × left.State × right.State}
    (h : move kind predicate left right db ls rs p l r = (.ok .finished, q)) :
    q.1.phase = .exhausted := by
  unfold move step at h
  split at h
  case h_1 hphase =>
    obtain ⟨-, rfl⟩ := Prod.mk.inj h
    exact hphase
  case h_2 => exact absurd h advance_not_finished
  case h_3 =>
    split at h
    · exact absurd h advance_not_finished
    · split at h
      · simp at h
      · exact absurd h endOfRight_not_finished
      · exact absurd (Prod.mk.inj h).1 meet_not_finished
  case h_4 | h_5 => split at h <;> simp at h
  case h_6 =>
    split at h
    · simp at h
    · simp at h
    · dsimp only at h
      split at h <;> simp at h

theorem run_none {n : Nat} (hn : movesLeft left right db p l r < n)
    {q : Progress × left.State × right.State}
    (h : run (move kind predicate left right db ls rs) n p l r = (.ok none, q)) :
    q.1.phase = .exhausted := by
  induction n generalizing p l r with
  | zero => omega
  | succ n ih =>
    rw [run] at h
    rcases hs : move kind predicate left right db ls rs p l r with ⟨e | _ | x | _, p', l', r'⟩ <;>
      simp only [hs] at h
    · simp at h
    · have hlt := move_lt hs (by simp)
      exact ih (by omega) h
    · simp at h
    · obtain ⟨-, rfl⟩ := Prod.mk.inj h
      exact phase_of_finished hs

theorem trace_of_exhausted (h : s.progress.phase = .exhausted) :
    (Operator.join kind predicate swapped left right).trace db s = .nil := by
  have hmove : move kind predicate left right db s.leftSchema s.rightSchema s.progress s.left
      s.right = (.ok .finished, s.progress, s.left, s.right) := by
    simp only [move, step, h]
  exact trace_of_emits (.finished hmove) s.status s.mark

theorem phase_of_next_none (h : Join.next kind predicate swapped left right db s = (.ok none, s')) :
    s'.progress.phase = .exhausted := by
  unfold Join.next at h
  rcases hrun : run (move kind predicate left right db s.leftSchema s.rightSchema)
    (movesLeft left right db s.progress s.left s.right + 1) s.progress s.left s.right with
    ⟨e | _ | row, p, l, r⟩ <;> simp only [hrun] at h
  · exact absurd (Prod.mk.inj h).1 (by simp)
  · obtain ⟨-, rfl⟩ := Prod.mk.inj h
    exact run_none (Nat.lt_succ_self _) hrun
  · exact absurd (Prod.mk.inj h).1 (by simp)

theorem ends : (Operator.join kind predicate swapped left right).Ends db := fun _ _ h =>
  trace_of_exhausted (phase_of_next_none h)

end Ends

theorem running (h : (Operator.join kind predicate swapped left right).Running db s₀ s) :
    left.Running db s₀.left s.left ∧ right.Running db s₀.right s.right := by
  obtain ⟨s₁, s₂, h₁, h₂, h₃⟩ := h
  obtain ⟨hleft, hright, -⟩ := rewind_ok h₂
  exact ⟨⟨_, _, reaches_left h₁, hleft, reaches_left h₃⟩,
    ⟨_, _, reaches_right h₁, hright, reaches_right h₃⟩⟩

theorem setMark_ok {marks : Bool} (h : setMark marks left.mark right.mark s = (.ok (), s')) :
    marks = true ∧ left.mark s.left = (.ok (), s'.left) ∧ right.mark s.right = (.ok (), s'.right) ∧
      s'.progress = s.progress ∧ s'.mark = some s.progress.remembered := by
  unfold setMark at h
  split at h
  · next hmarks =>
    split at h
    · simp at h
    · next hboth =>
      obtain ⟨-, rfl⟩ := Prod.mk.inj h
      obtain ⟨hleft, hright, heq⟩ := both_ok hboth
      have hprogress := congrArg State.progress heq
      exact ⟨hmarks, hleft, hright, hprogress, congrArg (some ·.remembered) hprogress⟩
  · simp at h

theorem reset_of_ok {m : Progress} {l : left.State} {r : right.State} (hm : s.mark = some m)
    (hl : left.reset s.left = (.ok (), l)) (hr : right.reset s.right = (.ok (), r)) :
    reset true left.reset right.reset s =
      (.ok (), { s with progress := m, left := l, right := r }) := by
  simp only [reset, if_true, hm, both_of_ok hl hr]

theorem remembers (hle : left.Ends db) (hre : right.Ends db) (hr : right.Replays db s₀.right)
    (hlm : left.Remembers db s₀.left) (hrm : right.Remembers db s₀.right) :
    (Operator.join kind predicate swapped left right).Remembers db s₀ := by
  intro s s₁ s₂ hrun hs₁ hs₂
  obtain ⟨hleftrun, hrightrun⟩ := running hrun
  obtain ⟨hmarks, hleft, hright, hprogress, hmark⟩ := setMark_ok hs₁
  obtain ⟨l, hl, hltrace⟩ := hlm hleftrun hleft (reaches_left hs₂)
  obtain ⟨r, hrr, hrtrace⟩ := hrm hrightrun hright (reaches_right hs₂)
  have hkept : s₂.mark = s₁.mark :=
    hs₂.keeps (o := .join kind predicate swapped left right) State.mark
      fun h => (step_moves h).2.2 rfl
  have hreset := reset_of_ok (hkept.trans hmark) hl hrr
  rw [← hmarks] at hreset
  have hreach₁ : (Operator.join kind predicate swapped left right).Reaches db .any s₀ s₁ :=
    hrun.reaches.trans (.mark hs₁ rfl (.inl rfl))
  have hreach₃ : (Operator.join kind predicate swapped left right).Reaches db .any s₀ _ :=
    hreach₁.trans (hs₂.any.trans (.reset hreset rfl (.inl rfl)))
  have halike : ∀ {r r'}, right.Reaches db .any s₀.right r → right.Reaches db .any s₀.right r' →
      right.Alike db r r' := fun h h' => (hr.alike h).trans (hr.alike h').symm
  -- The mark keeps the left row without its pages, and so the places are alike, not the same.
  refine ⟨_, hreset, (trace_congr hle hre halike ?_ ?_ hltrace.symm
    ⟨hrtrace.symm, reaches_right hreach₁, reaches_right hreach₃⟩).symm⟩
  · exact (settled_eq hreach₃).trans (settled_eq hreach₁).symm
  · rw [hprogress]
    exact Progress.alike_remembered _

theorem regular (hl : left.Regular db) (hr : right.Regular db) :
    (Operator.join kind predicate swapped left right).Regular db where
  settled := settled
  ends := ends
  replays s₀ := replays hl.ends hr.ends (hl.replays (State.left s₀)) (hr.replays (State.right s₀))
  remembers s₀ := remembers hl.ends hr.ends (hr.replays (State.right s₀))
    (hl.remembers (State.left s₀)) (hr.remembers (State.right s₀))

end Operators

end Join

end RelQuery
