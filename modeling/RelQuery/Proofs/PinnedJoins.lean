import RelQuery.Proofs.PinnedOperators

namespace RelQuery

namespace Join

open Operator.Pins

variable {left right : Operator} {L : left.Pins} {R : right.Pins} {pages : PageId → Prop}
  {p p' : Progress} {l l' : left.State} {r r' : right.State} {es fs : List PinEvent}
  {ts : List Tuple} {x y z : Progress × left.State × right.State}

/-- The pins in hand of a join and the operators below it. -/
def pinsInHand (L : left.Pins) (R : right.Pins) (x : Progress × left.State × right.State) :
    Multiset PageId :=
  pinsOf x.1.kept + pinsOf (L.inHand x.2.1) + pinsOf (R.inHand x.2.2)

/-- Events of a part of the machine, whose result rows are computed. -/
structure PinMoves (L : left.Pins) (R : right.Pins) (pages : PageId → Prop)
    (x : Progress × left.State × right.State) (es : List PinEvent)
    (y : Progress × left.State × right.State) : Prop where
  left : L.Clean y.2.1
  right : R.Clean y.2.2
  run : PinRun pages (pinsInHand L R x) es (pinsInHand L R y)

namespace PinMoves

theorem refl (hl : L.Clean l) (hr : R.Clean r) : PinMoves L R pages (p, l, r) [] (p, l, r) :=
  ⟨hl, hr, .nil _⟩

theorem trans (h : PinMoves L R pages x es y) (h' : PinMoves L R pages y fs z) :
    PinMoves L R pages x (es ++ fs) z :=
  ⟨h'.left, h'.right, h.run.trans h'.run⟩

theorem regard (h : PinMoves L R pages x es (p, l, r)) (hp : p'.left = p.left) :
    PinMoves L R pages x es (p', l, r) := by
  have hsame : pinsInHand L R (p', l, r) = pinsInHand L R (p, l, r) := by
    rw [pinsInHand, Progress.kept, hp]
    rfl
  exact ⟨h.left, h.right, hsame ▸ h.run⟩

theorem drop (h : PinMoves L R pages x es (p, l, r)) (hp : pinsOf p'.kept = 0) :
    PinMoves L R pages x (es ++ Tuple.releaseAll p.kept) (p', l, r) := by
  refine ⟨h.left, h.right, h.run.trans ?_⟩
  have hrelease : PinRun pages _ (Tuple.releaseAll p.kept) _ :=
    (PinRun.release_all p.kept).frame (pinsOf (L.inHand l) + pinsOf (R.inHand r))
  rwa [← add_assoc, ← hp, ← add_assoc] at hrelease

/-- An operation on the left child; what it gives goes into the progress. -/
theorem of_left (h : L.Settles pages l es ts l') (hr : R.Clean r)
    (hp : pinsOf p'.kept = pinsOf ts + pinsOf p.kept) :
    PinMoves L R pages (p, l, r) es (p', l', r) := by
  refine ⟨h.clean, hr, ?_⟩
  have hrun := h.run.frame (pinsOf p.kept + pinsOf (R.inHand r))
  have hbefore : pinsInHand L R (p, l, r) =
      pinsOf (L.inHand l) + (pinsOf p.kept + pinsOf (R.inHand r)) := by
    simp only [pinsInHand]
    abel
  have hafter : pinsInHand L R (p', l', r) =
      pinsOf ts + pinsOf (L.inHand l') + (pinsOf p.kept + pinsOf (R.inHand r)) := by
    simp only [pinsInHand, hp]
    abel
  rwa [← hbefore, ← hafter] at hrun

theorem of_right (h : R.Settles pages r es [] r') (hl : L.Clean l) :
    PinMoves L R pages (p, l, r) es (p, l, r') := by
  refine ⟨hl, h.clean, ?_⟩
  have hrun := h.run.frame (pinsOf p.kept + pinsOf (L.inHand l))
  rwa [pinsOf_nil, zero_add, add_comm, add_comm (pinsOf (R.inHand r'))] at hrun

end PinMoves

section Machine

variable (hL : L.Balanced) (hR : R.Balanced) (kind : JoinKind) (db : Storage)

include hR in
theorem pinMoves_rewindFor (phase : Phase) (hl : L.Clean l) (hr : R.Clean r) :
    PinMoves L R (· ∈ db.pageIds) (p, l, r) (R.rewind r)
      (rewindFor (inputs left right db) phase p l r).2 := by
  have hright : PinMoves L R (· ∈ db.pageIds) (p, l, r) (R.rewind r) (p, l, (right.rewind r).2) :=
    .of_right ((hR.rewind hr).mono fun _ h => h.elim) hl
  simp only [rewindFor, inputs]
  generalize right.rewind r = x at hright ⊢
  rcases x with ⟨e | _, r₁⟩
  · exact hright
  · exact hright.regard rfl

include hL hR in
theorem pinMoves_advance (hl : L.Clean l) (hr : R.Clean r) :
    PinMoves L R (· ∈ db.pageIds) (p, l, r)
      (advancePins kind (inputs left right db) (inputPins L R db) p l r)
      (advance kind (inputs left right db) p l r).2 := by
  let p₁ : Progress := { p with left := none, leftDone := false }
  have hdrop : PinMoves L R (· ∈ db.pageIds) (p, l, r) (Tuple.releaseAll p.kept) (p₁, l, r) :=
    (PinMoves.refl hl hr).drop rfl
  have hnext := hL.next db hl
  simp only [advancePins, advance, inputs, inputPins]
  generalize left.next db l = x at hnext ⊢
  rcases x with ⟨e | _ | t, l₁⟩
  · rw [List.append_nil]
    exact hdrop.trans (.of_left hnext hr rfl)
  · have hleft : PinMoves L R (· ∈ db.pageIds) (p₁, l, r) (L.next db l) (p₁, l₁, r) :=
      .of_left hnext hr rfl
    dsimp only
    split
    · exact hdrop.trans (hleft.trans (pinMoves_rewindFor hR db .rightUnmatched hleft.left hr))
    · rw [List.append_nil]
      exact hdrop.trans (hleft.regard rfl)
  · have hleft : PinMoves L R (· ∈ db.pageIds) (p₁, l, r) (L.next db l)
        ({ p₁ with left := some t }, l₁, r) := .of_left hnext hr (add_zero _).symm
    exact hdrop.trans (hleft.trans (pinMoves_rewindFor hR db (.scanning false) hleft.left hr))

include hL hR in
theorem pinMoves_endOfRight (matched : Bool) (hl : L.Clean l) (hr : R.Clean r) :
    PinMoves L R (· ∈ db.pageIds) (p, l, r)
      (endOfRightPins kind (inputs left right db) (inputPins L R db) matched p l r)
      (endOfRight kind (inputs left right db) matched p l r).2 := by
  unfold endOfRightPins endOfRight
  split
  · exact (PinMoves.refl hl hr).drop rfl
  · split
    · exact (PinMoves.refl hl hr).regard rfl
    · split
      · exact (PinMoves.refl hl hr).regard rfl
      · exact pinMoves_advance hL hR kind db hl hr

theorem left_meet (test : Tuple → Tuple → Except QueryError Bool) (p : Progress) (u : Tuple) :
    (meet kind test p u).2.left = p.left := by
  cases hleft : p.left with
  | none => simp [meet, hleft]
  | some t =>
    simp only [meet, hleft]
    split
    · rfl
    · rfl
    · cases kind <;> rfl

include hL hR in
theorem pinMoves_step (test : Tuple → Tuple → Except QueryError Bool) (leftWidth rightWidth : Nat)
    (hl : L.Clean l) (hr : R.Clean r) :
    PinMoves L R (· ∈ db.pageIds) (p, l, r)
      (stepPins kind (inputs left right db) (inputPins L R db) p l r)
      (step kind (inputs left right db) test leftWidth rightWidth p l r).2 := by
  have hnext := hR.next db hr
  unfold stepPins step
  cases hphase : p.phase with
  | exhausted => exact .refl hl hr
  | start => exact pinMoves_advance hL hR kind db hl hr
  | padding | unmatched =>
    dsimp only
    cases p.left with
    | none => exact (PinMoves.refl hl hr).regard rfl
    | some t => exact (PinMoves.refl hl hr).regard rfl
  | scanning matched =>
    dsimp only
    split
    · exact pinMoves_advance hL hR kind db hl hr
    · simp only [inputs, inputPins]
      generalize right.next db r = x at hnext ⊢
      rcases x with ⟨e | _ | u, r₁⟩
      · rw [List.append_nil]
        exact .of_right hnext hl
      · have hright : PinMoves L R (· ∈ db.pageIds) (p, l, r) (R.next db r) (p, l, r₁) :=
          .of_right hnext hl
        exact hright.trans (pinMoves_endOfRight hL hR kind db matched hl hnext.clean)
      · have hright : PinMoves L R (· ∈ db.pageIds) (p, l, r) (R.next db r ++ u.released)
            (p, l, r₁) :=
          .of_right hnext.drop hl
        exact hright.regard (left_meet kind test p u)
  | rightUnmatched =>
    have hright : PinMoves L R (· ∈ db.pageIds) (p, l, r) _ (p, l, (right.next db r).2) :=
      .of_right hnext.drop_all hl
    simp only [inputs, inputPins]
    generalize right.next db r = x at hright ⊢
    rcases x with ⟨e | _ | u, r₁⟩
    · exact hright
    · exact hright.regard rfl
    · exact hright.regard rfl

include hL hR in
theorem pinMoves_run (test : Tuple → Tuple → Except QueryError Bool)
    (leftWidth rightWidth fuel : Nat)
    (hl : L.Clean l) (hr : R.Clean r) :
    PinMoves L R (· ∈ db.pageIds) (p, l, r)
      (runPins (step kind (inputs left right db) test leftWidth rightWidth)
        (stepPins kind (inputs left right db) (inputPins L R db)) fuel p l r)
      (run (step kind (inputs left right db) test leftWidth rightWidth) fuel p l r).2 := by
  induction fuel generalizing p l r with
  | zero => exact .refl hl hr
  | succ fuel ih =>
    have hstep := pinMoves_step hL hR kind db (p := p) test leftWidth rightWidth hl hr
    rw [runPins, run]
    generalize step kind (inputs left right db) test leftWidth rightWidth p l r = x at hstep ⊢
    rcases x with ⟨e | _ | _ | _, p₁, l₁, r₁⟩
    · rw [List.append_nil]
      exact hstep
    · exact hstep.trans (ih hstep.left hstep.right)
    · rw [List.append_nil]
      exact hstep
    · rw [List.append_nil]
      exact hstep

include hL hR in
theorem pinMoves_next (predicate : Option Expr) (swapped : Bool)
    {s : State left.State right.State} (hl : L.Clean s.left) (hr : R.Clean s.right) :
    let s' := (next kind predicate swapped left right db s).2
    PinMoves L R (· ∈ db.pageIds) (s.progress, s.left, s.right)
        (nextPins kind predicate L R db s) (s'.progress, s'.left, s'.right) ∧
      s'.mark = s.mark ∧ pinsOf (given (next kind predicate swapped left right db s).1) = 0 := by
  have hrun : PinMoves L R (· ∈ db.pageIds) (s.progress, s.left, s.right)
      (nextPins kind predicate L R db s)
      (run (move kind predicate left right db s.leftSchema s.rightSchema)
        (movesLeft left right db s.progress s.left s.right + 1) s.progress s.left s.right).2 :=
    pinMoves_run hL hR kind db _ _ _ _ hl hr
  simp only [next]
  generalize run (move kind predicate left right db s.leftSchema s.rightSchema)
    (movesLeft left right db s.progress s.left s.right + 1) s.progress s.left s.right = x at hrun ⊢
  rcases x with ⟨e | _ | row, p₁, l₁, r₁⟩ <;> exact ⟨hrun, rfl, rfl⟩

end Machine

section Both

variable {f : left.State → Outcome Unit left.State} {g : right.State → Outcome Unit right.State}
  {pins : left.State → List PinEvent} {pins' : right.State → List PinEvent}
  {s : State left.State right.State}

theorem both_eq (f : left.State → Outcome Unit left.State)
    (g : right.State → Outcome Unit right.State) (s : State left.State right.State) :
    (both f g s).2.progress = s.progress ∧ (both f g s).2.mark = s.mark := by
  unfold both
  rcases f s.left with ⟨e | _, l⟩ <;> exact ⟨rfl, rfl⟩

theorem both_restart (f : left.State → Outcome Unit left.State)
    (g : right.State → Outcome Unit right.State) (s : State left.State right.State) :
    both f g { s with status := s.status.restart } =
      ((both f g s).1, { (both f g s).2 with status := s.status.restart }) := by
  unfold both
  rcases f s.left with ⟨e | _, l⟩ <;> rfl

theorem pinMoves_both (hf : L.Settles noPage s.left (pins s.left) [] (f s.left).2)
    (hg : R.Settles noPage s.right (pins' s.right) [] (g s.right).2) (hr : R.Clean s.right) :
    PinMoves L R noPage (s.progress, s.left, s.right) (bothPins f pins pins' s)
      (s.progress, (both f g s).2.left, (both f g s).2.right) := by
  have hleft : PinMoves L R noPage (s.progress, s.left, s.right) (pins s.left)
      (s.progress, (f s.left).2, s.right) := .of_left hf hr (by simp)
  unfold bothPins both
  generalize f s.left = x at hleft ⊢
  rcases x with ⟨e | _, l⟩
  · rw [List.append_nil]
    exact hleft
  · exact hleft.trans (.of_right hg hleft.left)

end Both

theorem clean_iff {s : State left.State right.State} :
    pinsOf (s.remembered ++ L.setAside s.left ++ R.setAside s.right) = 0 ↔
      pinsOf s.remembered = 0 ∧ L.Clean s.left ∧ R.Clean s.right := by
  simp only [Clean, pinsOf_eq_zero, List.mem_append, or_imp, forall_and, and_assoc]

theorem remembered_congr {s s' : State left.State right.State} (h : s'.mark = s.mark) :
    s'.remembered = s.remembered := by
  rw [State.remembered, h]
  rfl

theorem remembered_unpinned {s s' : State left.State right.State} (h : s'.mark = s.mark)
    (hs : pinsOf s.remembered = 0) : pinsOf s'.remembered = 0 :=
  (congrArg pinsOf (remembered_congr h)).trans hs

theorem pinsOf_remembered (p : Progress) : pinsOf p.remembered.kept = 0 := by
  rw [pinsOf_eq_zero, Progress.kept, Progress.remembered]
  intro t ht
  obtain ⟨u, -, rfl⟩ := Option.map_eq_some_iff.1 (Option.mem_toList.1 ht)
  rfl

section Calls

variable {f : left.State → Outcome Unit left.State} {g : right.State → Outcome Unit right.State}
  {pins : left.State → List PinEvent} {pins' : right.State → List PinEvent}
  {s : State left.State right.State} (marks : Bool)
  (hf : L.Settles noPage s.left (pins s.left) [] (f s.left).2)
  (hg : R.Settles noPage s.right (pins' s.right) [] (g s.right).2)
  (hmark : pinsOf s.remembered = 0) (hl : L.Clean s.left) (hr : R.Clean s.right)

/-- A call of a join that gives no tuple: its events, and that no mark has a pin after it. -/
def Calls (L : left.Pins) (R : right.Pins) (s : State left.State right.State) (es : List PinEvent)
    (s' : State left.State right.State) : Prop :=
  PinMoves L R noPage (s.progress, s.left, s.right) es (s'.progress, s'.left, s'.right) ∧
    pinsOf s'.remembered = 0

include hmark hl hr in
theorem calls_nothing : Calls L R s [] s := ⟨.refl hl hr, hmark⟩

include hmark in
/-- Both children were called, and what the join itself remembers stays. -/
theorem calls_children {s₁ : State left.State right.State}
    (h : PinMoves L R noPage (s.progress, s.left, s.right) es (s.progress, s₁.left, s₁.right))
    (hprogress : s₁.progress = s.progress) (hkept : s₁.mark = s.mark) : Calls L R s es s₁ :=
  ⟨h.regard (congrArg Progress.left hprogress), remembered_unpinned hkept hmark⟩

include hf hg hmark hl hr in
theorem calls_rewind : Calls L R s (rewindPins f g pins pins' s) (rewind f g s).2 := by
  unfold rewindPins rewind
  rcases s.status.check_eq .join with ⟨hcheck, hprepared⟩ | ⟨hcheck, hprepared⟩
  · rw [hcheck, hprepared, if_pos rfl, both_restart]
    have hboth := pinMoves_both hf hg hr
    obtain ⟨hprogress, hkept⟩ := both_eq f g s
    generalize both f g s = x at hboth hprogress hkept ⊢
    rcases x with ⟨e | _, s₁⟩
    · rw [List.append_nil]
      exact calls_children hmark hboth hprogress hkept
    · exact ⟨hboth.drop rfl, remembered_unpinned hkept hmark⟩
  · rw [hcheck, hprepared]
    exact calls_nothing hmark hl hr

include hf hg hmark hl hr in
theorem calls_setMark :
    Calls L R s (markPins f g pins pins' marks s) (setMark marks f g s).2 := by
  unfold markPins setMark
  split
  · have hboth := pinMoves_both hf hg hr
    obtain ⟨hprogress, hkept⟩ := both_eq f g s
    rw [Tuple.takeAll_eq_nil (pinsOf_remembered s.progress), Tuple.releaseAll_eq_nil hmark]
    generalize both f g s = x at hboth hprogress hkept ⊢
    rcases x with ⟨e | _, s₁⟩
    · rw [List.append_nil]
      exact calls_children hmark hboth hprogress hkept
    · rw [List.append_nil, List.append_nil]
      exact ⟨hboth.regard (congrArg Progress.left hprogress), pinsOf_remembered s₁.progress⟩
  · exact calls_nothing hmark hl hr

include hf hg hmark hl hr in
theorem calls_reset :
    Calls L R s (resetPins f g pins pins' marks s) (reset marks f g s).2 := by
  have hnothing := calls_nothing hmark hl hr
  cases marks with
  | false => exact hnothing
  | true =>
    cases hm : s.mark with
    | none =>
      simpa only [resetPins, reset, hm, if_true, Bool.true_and, Option.isSome_none,
        Bool.false_eq_true, if_false] using hnothing
    | some m =>
      have hpin : pinsOf m.kept = 0 := by
        rw [State.remembered, hm] at hmark
        exact hmark
      have hboth := pinMoves_both hf hg hr
      obtain ⟨hprogress, hkept⟩ := both_eq f g s
      simp only [resetPins, reset, hm, if_true, Bool.true_and, Option.isSome_some,
        Tuple.takeAll_eq_nil hmark, Tuple.releaseAll_eq_nil hmark, List.nil_append]
      generalize both f g s = x at hboth hprogress hkept ⊢
      rcases x with ⟨e | _, s₁⟩
      · rw [List.append_nil]
        exact calls_children hmark hboth hprogress hkept
      · exact ⟨hboth.drop hpin, remembered_unpinned hkept hmark⟩

end Calls

end Join

namespace Operator.Pins

open Join

theorem Balanced.join {left right : Operator} {L : left.Pins} {R : right.Pins} (hL : L.Balanced)
    (hR : R.Balanced) (kind : JoinKind) (predicate : Option Expr) (swapped : Bool) :
    (L.join kind predicate swapped R).Balanced := by
  have hhand : ∀ s : Join.State left.State right.State,
      pinsOf (s.progress.kept ++ L.inHand s.left ++ R.inHand s.right) =
        pinsInHand L R (s.progress, s.left, s.right) := by
    intro s
    rw [pinsOf_append, pinsOf_append]
    rfl
  -- a call of the machine is a call of the operator
  have hcall : ∀ {s s' : Join.State left.State right.State} {es}, Calls L R s es s' →
      (L.join kind predicate swapped R).Settles noPage s es [] s' := by
    intro s s' es h
    refine ⟨clean_iff.2 ⟨h.2, h.1.left, h.1.right⟩, ?_⟩
    have hrun := h.1.run
    rw [← hhand s, ← hhand s', ← zero_add (pinsOf (s'.progress.kept ++ _ ++ _))] at hrun
    exact hrun
  constructor
  case kept =>
    intro s
    change pinsOf (s.progress.kept ++ s.remembered ++ left.kept s.left ++ right.kept s.right) =
      pinsOf (s.progress.kept ++ L.inHand s.left ++ R.inHand s.right) +
        pinsOf (s.remembered ++ L.setAside s.left ++ R.setAside s.right)
    simp only [pinsOf_append, hL.kept, hR.kept]
    abel
  case start =>
    exact ⟨congrArg₂ (· ++ ·) hL.start.1 hR.start.1, congrArg₂ (· ++ ·) hL.start.2 hR.start.2⟩
  case prepare =>
    intro c s
    obtain ⟨hprogress, hmark, hleft, hright⟩ := Join.prepare_eq kind predicate swapped c s
    obtain ⟨hinHand, hsetAside⟩ := hL.prepare c s.left
    obtain ⟨hinHand', hsetAside'⟩ := hR.prepare c s.right
    rw [← hleft] at hinHand hsetAside
    have hinHandR : R.inHand (Join.prepare kind predicate swapped left right c s).2.right =
        R.inHand s.right := by
      rcases hright with hright | hright
      · rw [hright]
      · rw [hright, hinHand']
    have hsetAsideR : R.setAside (Join.prepare kind predicate swapped left right c s).2.right =
        R.setAside s.right := by
      rcases hright with hright | hright
      · rw [hright]
      · rw [hright, hsetAside']
    refine ⟨congrArg₂ (· ++ ·) (congrArg₂ (· ++ ·) ?_ hinHand) hinHandR,
      congrArg₂ (· ++ ·) (congrArg₂ (· ++ ·) (remembered_congr hmark) hsetAside) hsetAsideR⟩
    exact congrArg Progress.kept hprogress
  case next =>
    intro db s hs
    obtain ⟨hmark, hl, hr⟩ := clean_iff.1 hs
    obtain ⟨hmoves, hkept, hgiven⟩ := pinMoves_next hL hR kind db predicate swapped hl hr
    refine ⟨clean_iff.2 ⟨remembered_unpinned hkept hmark, hmoves.left, hmoves.right⟩, ?_⟩
    have hrun := hmoves.run
    rw [← hhand s, ← hhand, ← zero_add (pinsOf
      ((Join.next kind predicate swapped left right db s).2.progress.kept ++ _ ++ _)),
      ← hgiven] at hrun
    exact hrun
  case rewind =>
    intro s hs
    obtain ⟨hmark, hl, hr⟩ := clean_iff.1 hs
    exact hcall (calls_rewind (hL.rewind hl) (hR.rewind hr) hmark hl hr)
  case mark =>
    intro s hs
    obtain ⟨hmark, hl, hr⟩ := clean_iff.1 hs
    exact hcall (calls_setMark _ (hL.mark hl) (hR.mark hr) hmark hl hr)
  case reset =>
    intro s hs
    obtain ⟨hmark, hl, hr⟩ := clean_iff.1 hs
    exact hcall (calls_reset _ (hL.reset hl) (hR.reset hr) hmark hl hr)
  case cleanUp =>
    intro s hs
    obtain ⟨hmark, hl, hr⟩ := clean_iff.1 hs
    let p₁ : Progress := { s.progress with left := none, matchedRight := [] }
    have hdrop : PinMoves L R noPage (s.progress, s.left, s.right)
      (Tuple.releaseAll s.progress.kept)
        (p₁, s.left, s.right) := (PinMoves.refl hl hr).drop rfl
    have hleft : PinMoves L R noPage (p₁, s.left, s.right) (L.cleanUp s.left)
        (p₁, left.cleanUp s.left, s.right) := .of_left (hL.cleanUp hl) hr (by simp)
    have hright : PinMoves L R noPage (p₁, left.cleanUp s.left, s.right) (R.cleanUp s.right)
        (p₁, left.cleanUp s.left, right.cleanUp s.right) := .of_right (hR.cleanUp hr) hleft.left
    exact hcall ⟨hdrop.trans (hleft.trans hright), hmark⟩
  case inHand_cleanUp =>
    intro s
    exact congrArg₂ (· ++ ·) (hL.inHand_cleanUp s.left) (hR.inHand_cleanUp s.right)

end Operator.Pins

theorem Plan.pins_balanced (p : Plan) : p.pins.Balanced := by
  induction p with
  | scan table predicate => exact .scan table predicate
  | values schema rows => exact .values schema rows
  | filter predicate child ih => exact ih.filter predicate
  | project items child ih => exact ih.project items
  | rename table child ih => exact ih.rename table
  | sort keys child ih => exact ih.sort keys
  | limit limit offset child ih => exact ih.limit limit offset
  | group groupBy aggregates child ih => exact ih.group groupBy aggregates
  | join kind predicate swapped left right ihl ihr => exact ihl.join ihr kind predicate swapped
  | barrier child ih => exact ih.barrier

end RelQuery
