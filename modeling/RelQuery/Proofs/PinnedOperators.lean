import Mathlib.Tactic.Abel
import RelQuery.Pins.Operators
import RelQuery.Proofs.PinRuns
import RelQuery.Proofs.Preparing
import RelQuery.Proofs.StoragePages

namespace RelQuery

def noPage : PageId → Prop := fun _ => False

namespace Operator.Pins

variable {o : Operator} {P : o.Pins} {pages : PageId → Prop} {s s₁ s₂ : o.State}
  {es fs : List PinEvent} {ts us : List Tuple} {t : Tuple}

def Clean (P : o.Pins) (s : o.State) : Prop := pinsOf (P.setAside s) = 0

/-- Events of an operation that gives out some tuples: they take the pins in hand to those of these
tuples and those then in hand. -/
structure Settles (P : o.Pins) (pages : PageId → Prop) (s : o.State) (es : List PinEvent)
    (ts : List Tuple) (s' : o.State) : Prop where
  clean : P.Clean s'
  run : PinRun pages (pinsOf (P.inHand s)) es (pinsOf ts + pinsOf (P.inHand s'))

/-- The pins of an operator are accounted for. -/
structure Balanced (P : o.Pins) : Prop where
  kept : ∀ s, pinsOf (o.kept s) = pinsOf (P.inHand s) + pinsOf (P.setAside s)
  start : P.inHand o.start = [] ∧ P.setAside o.start = []
  prepare : ∀ c s, P.inHand (o.prepare c s).2 = P.inHand s ∧
    P.setAside (o.prepare c s).2 = P.setAside s
  next : ∀ db {s}, P.Clean s →
    P.Settles (· ∈ db.pageIds) s (P.next db s) (given (o.next db s).1) (o.next db s).2
  rewind : ∀ {s}, P.Clean s → P.Settles noPage s (P.rewind s) [] (o.rewind s).2
  mark : ∀ {s}, P.Clean s → P.Settles noPage s (P.mark s) [] (o.mark s).2
  reset : ∀ {s}, P.Clean s → P.Settles noPage s (P.reset s) [] (o.reset s).2
  cleanUp : ∀ {s}, P.Clean s → P.Settles noPage s (P.cleanUp s) [] (o.cleanUp s)
  inHand_cleanUp : ∀ s, P.inHand (o.cleanUp s) = []

namespace Settles

theorem refl (h : P.Clean s) : P.Settles pages s [] [] s :=
  ⟨h, by simpa using PinRun.nil (pinsOf (P.inHand s))⟩

theorem trans (h : P.Settles pages s es [] s₁) (h' : P.Settles pages s₁ fs ts s₂) :
    P.Settles pages s (es ++ fs) ts s₂ := by
  have hrun := h.run
  rw [pinsOf_nil, zero_add] at hrun
  exact ⟨h'.clean, hrun.trans h'.run⟩

theorem mono {pages' : PageId → Prop} (h : P.Settles pages s es ts s₁)
    (hpages : ∀ p, pages p → pages' p) : P.Settles pages' s es ts s₁ :=
  ⟨h.clean, h.run.mono hpages⟩

theorem drop (h : P.Settles pages s es (t :: ts) s₁) :
    P.Settles pages s (es ++ t.released) ts s₁ := by
  have hrelease : PinRun pages _ t.released _ :=
    (PinRun.released_tuple t).frame (pinsOf ts + pinsOf (P.inHand s₁))
  have hrun := h.run
  rw [pinsOf_cons, add_assoc] at hrun
  rw [zero_add] at hrelease
  exact ⟨h.clean, hrun.trans hrelease⟩

theorem drop_all (h : P.Settles pages s es ts s₁) :
    P.Settles pages s (es ++ Tuple.releaseAll ts) [] s₁ := by
  have hrelease : PinRun pages _ (Tuple.releaseAll ts) _ :=
    (PinRun.release_all ts).frame (pinsOf (P.inHand s₁))
  exact ⟨h.clean, h.run.trans hrelease⟩

theorem out_congr (h : P.Settles pages s es ts s₁) (hpins : pinsOf us = pinsOf ts) :
    P.Settles pages s es us s₁ := ⟨h.clean, by rw [hpins]; exact h.run⟩

end Settles

theorem Balanced.leaf {κ : Type} {kind : OperatorKind} {label : String}
    {profile : Config → Except QueryError Profile} {source : Leaf.Source κ}
    {pull : Storage → Schema → κ → List PinEvent}
    (hpull : ∀ db schema p,
      PinRun (· ∈ db.pageIds) 0 (pull db schema p) (pinsOf (given (source.pull db schema p).1))) :
    (Pins.leaf pull : (Operator.leaf kind label profile source).Pins).Balanced where
  kept _ := rfl
  start := ⟨rfl, rfl⟩
  prepare _ _ := ⟨rfl, rfl⟩
  next db {s} _ := by
    refine ⟨rfl, ?_⟩
    have hrun := hpull db s.status.schema s.position
    rwa [← add_zero (pinsOf _)] at hrun
  rewind _ := ⟨rfl, .nil 0⟩
  mark _ := ⟨rfl, .nil 0⟩
  reset _ := ⟨rfl, .nil 0⟩
  cleanUp _ := ⟨rfl, .nil 0⟩
  inHand_cleanUp _ := rfl

end Operator.Pins

theorem Scan.run_pullPins (test : Tuple → Except QueryError Bool) (db : Storage) (table : String)
    (fuel : Nat) (p : Scan.Position) :
    PinRun (· ∈ db.pageIds) 0 (Scan.pullPins test db table fuel p)
      (pinsOf (given (Scan.pull test db table fuel p).1)) := by
  fun_induction Scan.pull test db table fuel p with
  | case1 p => exact .nil 0
  | case2 fuel p hdone =>
    rw [Scan.pullPins, if_pos hdone]
    exact .nil 0
  | case3 fuel p hdone hread =>
    rw [Scan.pullPins, if_neg hdone, hread]
    exact .nil 0
  | case4 fuel p hdone t hread p' e htest =>
    rw [Scan.pullPins, if_neg hdone, hread]
    simp only [htest]
    have htaken := PinRun.taken_tuple fun q hq => Storage.mem_pageIds_of_readFrom hread hq
    exact htaken.trans (.released_tuple t)
  | case5 fuel p hdone t hread p' htest =>
    rw [Scan.pullPins, if_neg hdone, hread]
    simp only [htest, List.append_nil]
    exact PinRun.taken_tuple fun q hq => Storage.mem_pageIds_of_readFrom hread hq
  | case6 fuel p hdone t hread p' htest ih =>
    rw [Scan.pullPins, if_neg hdone, hread]
    simp only [htest]
    have htaken := PinRun.taken_tuple fun q hq => Storage.mem_pageIds_of_readFrom hread hq
    exact htaken.trans ((PinRun.released_tuple t).trans ih)

namespace Operator.Pins

theorem Balanced.scan (table : TableInfo) (predicate : Option Expr) :
    (Pins.scan table predicate).Balanced :=
  Balanced.leaf fun _ _ _ => Scan.run_pullPins ..

theorem Balanced.values (schema : Schema) (rows : List Row) :
    (Pins.values schema rows).Balanced := by
  apply Balanced.leaf
  intro db _ p
  simp only [Values.source, Values.pull]
  split
  · exact .nil 0
  · exact .nil 0

end Operator.Pins

section Child

variable {child : Operator} {C : child.Pins} {pages : PageId → Prop}

theorem Status.check_eq (s : Status) (kind : OperatorKind) :
    s.check kind = .ok () ∧ s.prepared = true ∨
      s.check kind = .error (.invalidState (.unprepared kind)) ∧ s.prepared = false := by
  unfold Status.check
  cases s.prepared
  · exact .inr ⟨rfl, rfl⟩
  · exact .inl ⟨rfl, rfl⟩

theorem Operator.Pins.Settles.guarded {s s' : child.State} {es : List PinEvent} {b : Bool}
    (h : C.Settles pages s es [] s') (hclean : C.Clean s) :
    C.Settles pages s (if b then es else []) [] (if b then s' else s) := by
  cases b
  · exact .refl hclean
  · exact h

theorem Wrapped.child_rewind {κ : Type} (kind : OperatorKind) (s : Wrapped κ child.State) :
    (Wrapped.rewind kind child.rewind s).2.child =
      if s.status.prepared then (child.rewind s.child).2 else s.child := by
  unfold Wrapped.rewind
  rcases s.status.check_eq kind with ⟨hcheck, hprepared⟩ | ⟨hcheck, hprepared⟩ <;>
    rw [hcheck, hprepared] <;> rfl

theorem Wrapped.child_marking {κ : Type} (refusal : StateError) (marks : Bool)
    (f : child.State → Outcome Unit child.State) (s : Wrapped κ child.State) :
    (Wrapped.marking refusal marks f s).2.child = if marks then (f s.child).2 else s.child := by
  cases marks <;> rfl

namespace Operator.Pins

/-- What is left to show of an operator without a state of its own is what its `next` does. -/
theorem Balanced.wrapped {κ : Type} {kind : OperatorKind} {label : String} {marks : Bool}
    {refusal : StateError} {orderedBy : List OrderKey} {body : Wrapped.Body κ child}
    {next : Storage → Wrapped κ child.State → List PinEvent} (hC : C.Balanced)
    (hnext : ∀ db {s : Wrapped κ child.State}, C.Clean s.child →
      C.Settles (· ∈ db.pageIds) s.child (next db s) (given (body.next db s).1)
        (body.next db s).2.child) :
    (C.wrapped next :
      (Operator.wrapped kind label marks refusal orderedBy child body).Pins).Balanced where
  kept s := hC.kept s.child
  start := hC.start
  prepare c s := by
    have hchild := Wrapped.child_prepare (child.prepare c)
      (fun s => body.settle c (child.status s)) s
    have h := hC.prepare c s.child
    rw [← hchild] at h
    exact h
  next db {s} hs := by
    have h := hnext db (s := s) hs
    exact ⟨h.clean, h.run⟩
  rewind {s} hs := by
    have h := (hC.rewind hs).guarded (b := s.status.prepared) hs
    rw [← Wrapped.child_rewind kind s] at h
    exact ⟨h.clean, h.run⟩
  mark {s} hs := by
    have h := (hC.mark hs).guarded (b := marks) hs
    rw [← Wrapped.child_marking refusal marks child.mark s] at h
    exact ⟨h.clean, h.run⟩
  reset {s} hs := by
    have h := (hC.reset hs).guarded (b := marks) hs
    rw [← Wrapped.child_marking refusal marks child.reset s] at h
    exact ⟨h.clean, h.run⟩
  cleanUp {s} hs := ⟨(hC.cleanUp hs).clean, (hC.cleanUp hs).run⟩
  inHand_cleanUp s := hC.inHand_cleanUp s.child

end Operator.Pins

open Operator.Pins

theorem Filter.settles_pullPins (hC : C.Balanced) (test : Tuple → Except QueryError Bool)
    (db : Storage) (fuel : Nat) (s : child.State) (hs : C.Clean s) :
    C.Settles (· ∈ db.pageIds) s (Filter.pullPins test (child.next db) (C.next db) fuel s)
      (given (Filter.pull test (child.next db) fuel s).1)
      (Filter.pull test (child.next db) fuel s).2 := by
  induction fuel generalizing s with
  | zero => exact .refl hs
  | succ fuel ih =>
    have hnext := hC.next db hs
    rw [Filter.pullPins, Filter.pull]
    generalize child.next db s = x at hnext ⊢
    rcases x with ⟨e | _ | t, s₁⟩
    · simpa [given] using hnext
    · simpa [given] using hnext
    · simp only [given] at hnext ⊢
      have hdrop := hnext.drop
      cases htest : test t with
      | error e => exact hdrop
      | ok accepted =>
        cases accepted with
        | true => simpa using hnext
        | false =>
          have hrest := hdrop.trans (ih s₁ hdrop.clean)
          rwa [List.append_assoc] at hrest

namespace Operator.Pins

theorem Balanced.filter (hC : C.Balanced) (predicate : Expr) : (C.filter predicate).Balanced :=
  Balanced.wrapped hC fun db s hs => Filter.settles_pullPins hC _ db _ s.child hs

theorem Balanced.project (hC : C.Balanced) (items : List SelectItem) :
    (C.project items).Balanced := by
  apply Balanced.wrapped hC
  intro db s hs
  have hnext := hC.next db hs
  simp only [Project.next]
  generalize child.next db s.child = x at hnext ⊢
  rcases x with ⟨e | _ | t, s₁⟩
  · exact hnext.drop_all
  · exact hnext.drop_all
  · -- the row that comes is computed, and has no page
    have hdrop := hnext.drop_all
    dsimp only
    split
    · exact hdrop
    · exact hdrop.out_congr rfl

theorem Balanced.rename (hC : C.Balanced) (table : String) : (C.rename table).Balanced := by
  apply Balanced.wrapped hC
  intro db s hs
  have hnext := hC.next db hs
  simp only [Rename.next]
  generalize child.next db s.child = x at hnext ⊢
  rcases x with ⟨e | _ | t, s₁⟩ <;> exact hnext

theorem Balanced.barrier (hC : C.Balanced) : C.barrier.Balanced :=
  Balanced.wrapped hC fun db _ hs => hC.next db hs

end Operator.Pins

theorem Limit.settles_skipPins (hC : C.Balanced) (db : Storage) (n : Nat) (c : Limit.Counters)
    (s : child.State) (hs : C.Clean s) :
    C.Settles (· ∈ db.pageIds) s (Limit.skipPins (child.next db) (C.next db) n s) []
      (Limit.skip (child.next db) n c s).2.2 := by
  induction n generalizing c s with
  | zero => exact .refl hs
  | succ n ih =>
    have hnext := hC.next db hs
    rw [Limit.skipPins, Limit.skip]
    generalize child.next db s = x at hnext ⊢
    rcases x with ⟨e | _ | t, s₁⟩
    · simpa [given] using hnext
    · simpa [given] using hnext
    · simp only [given] at hnext ⊢
      have hdrop := hnext.drop
      have hrest := hdrop.trans (ih { c with skipped := c.skipped + 1 } s₁ hdrop.clean)
      rwa [List.append_assoc] at hrest

theorem Limit.settles_nextPins (hC : C.Balanced) (limit : Option Nat) (offset : Nat) (db : Storage)
    {s : Limit.State child.State} (hs : C.Clean s.child) :
    C.Settles (· ∈ db.pageIds) s.child
      (Limit.nextPins limit offset (child.next db) (C.next db) s)
      (given (Limit.next limit offset (child.next db) s).1)
      (Limit.next limit offset (child.next db) s).2.child := by
  unfold Limit.nextPins Limit.next
  split
  · exact .refl hs
  · have hskip := Limit.settles_skipPins hC db (offset - s.counters.skipped) s.counters s.child hs
    generalize Limit.skip (child.next db) (offset - s.counters.skipped) s.counters s.child = x
      at hskip ⊢
    rcases x with ⟨e | _ | _, c, s₁⟩
    · simpa [given] using hskip
    · simpa [given] using hskip
    · have hnext := hskip.trans (hC.next db hskip.clean)
      dsimp only at hnext ⊢
      generalize child.next db s₁ = y at hnext ⊢
      rcases y with ⟨e | _ | t, s₂⟩ <;> exact hnext

theorem Limit.child_rewind (s : Limit.State child.State) :
    (Limit.rewind child.rewind s).2.child =
      if s.status.prepared then (child.rewind s.child).2 else s.child := by
  unfold Limit.rewind
  rcases s.status.check_eq .limit with ⟨hcheck, hprepared⟩ | ⟨hcheck, hprepared⟩ <;>
    rw [hcheck, hprepared] <;> rfl

theorem Limit.child_setMark (marks : Bool) (f : child.State → Outcome Unit child.State)
    (s : Limit.State child.State) :
    (Limit.setMark marks f s).2.child = if marks then (f s.child).2 else s.child := by
  cases marks with
  | false => rfl
  | true =>
    rw [Limit.setMark, if_pos rfl, if_pos rfl]
    rcases f s.child with ⟨e | _, c⟩ <;> rfl

theorem Limit.child_reset (marks : Bool) (f : child.State → Outcome Unit child.State)
    (s : Limit.State child.State) :
    (Limit.reset marks f s).2.child =
      if marks && s.mark.isSome then (f s.child).2 else s.child := by
  cases marks with
  | false => rfl
  | true =>
    rw [Limit.reset, if_pos rfl]
    cases s.mark with
    | none => rfl
    | some m =>
      dsimp only
      rcases f s.child with ⟨e | _, c⟩ <;> rfl

theorem Operator.Pins.Balanced.limit (hC : C.Balanced) (limit : Option Nat) (offset : Nat) :
    (C.limit limit offset).Balanced where
  kept s := hC.kept s.child
  start := hC.start
  prepare c s := by
    have h := hC.prepare c s.child
    rw [← (Limit.prepare_eq limit offset child c s).1] at h
    exact h
  next db {s} hs := by
    have h := Limit.settles_nextPins hC limit offset db (s := s) hs
    exact ⟨h.clean, h.run⟩
  rewind {s} hs := by
    have h := (hC.rewind hs).guarded (b := s.status.prepared) hs
    rw [← Limit.child_rewind s] at h
    exact ⟨h.clean, h.run⟩
  mark {s} hs := by
    have h := (hC.mark hs).guarded (b := child.marks) hs
    rw [← Limit.child_setMark child.marks child.mark s] at h
    exact ⟨h.clean, h.run⟩
  reset {s} hs := by
    have h := (hC.reset hs).guarded (b := child.marks && s.mark.isSome) hs
    rw [← Limit.child_reset child.marks child.reset s] at h
    exact ⟨h.clean, h.run⟩
  cleanUp {s} hs := ⟨(hC.cleanUp hs).clean, (hC.cleanUp hs).run⟩
  inHand_cleanUp s := hC.inHand_cleanUp s.child

theorem Tuple.releaseAll_eq_nil {ts : List Tuple} (h : pinsOf ts = 0) :
    Tuple.releaseAll ts = [] := by
  rw [Tuple.releaseAll, List.flatMap_eq_nil_iff]
  intro t ht
  rw [Tuple.released, pinsOf_eq_zero.1 h t ht]
  rfl

theorem Tuple.takeAll_eq_nil {ts : List Tuple} (h : pinsOf ts = 0) : Tuple.takeAll ts = [] := by
  rw [Tuple.takeAll, List.flatMap_eq_nil_iff]
  intro t ht
  rw [Tuple.taken, pinsOf_eq_zero.1 h t ht]
  rfl

theorem Tuple.pin?_unpin (t : Tuple) : t.unpin.pin? = none := by
  rcases t with ⟨values, _ | ⟨location, pinned⟩⟩ <;> rfl

/-- The rows that are loaded pin no page, and loading leaves nothing else behind. -/
structure Buffered.Loader.Balanced (loader : Buffered.Loader child) (C : child.Pins)
    (load : Storage → child.State → List PinEvent) : Prop where
  settles : ∀ db {s}, C.Clean s →
    C.Settles (· ∈ db.pageIds) s (load db s) [] (loader.load db s).2
  unpinned : ∀ {db s rows}, (loader.load db s).1 = .ok rows → pinsOf rows = 0

namespace Buffered

variable {β : Type} {step : β → Tuple → Except QueryError β}

theorem settles_foldPins (hC : C.Balanced) (db : Storage) (fuel : Nat) (b : β) (s : child.State)
    (hs : C.Clean s) :
    C.Settles (· ∈ db.pageIds) s (foldPins step (child.next db) (C.next db) fuel b s) []
      (fold step (child.next db) fuel b s).2 := by
  induction fuel generalizing b s with
  | zero => exact .refl hs
  | succ fuel ih =>
    have hnext := hC.next db hs
    rw [foldPins, fold]
    generalize child.next db s = x at hnext ⊢
    rcases x with ⟨e | _ | t, s₁⟩
    · simpa [given] using hnext
    · simpa [given] using hnext
    · simp only [given] at hnext ⊢
      have hdrop := hnext.drop
      cases hstep : step b t with
      | error e => simpa using hdrop
      | ok b₁ =>
        have hrest := hdrop.trans (ih b₁ s₁ hdrop.clean)
        rwa [List.append_assoc] at hrest

/-- What holds at the start of a fold and is kept by its steps holds at its end. -/
theorem of_fold {σ : Type} {next : σ → Outcome (Option Tuple) σ} (I : β → Prop)
    (hstep : ∀ {b b' t}, I b → step b t = .ok b' → I b') {fuel : Nat} {b b' : β} {s : σ} (hb : I b)
    (h : (fold step next fuel b s).1 = .ok b') : I b' := by
  induction fuel generalizing b s with
  | zero => exact Except.ok.inj h ▸ hb
  | succ fuel ih =>
    rw [fold] at h
    split at h
    · simp at h
    · exact Except.ok.inj h ▸ hb
    · split at h
      · simp at h
      · next b₁ hb₁ => exact ih (hstep hb hb₁) h

theorem settles_hand {s : Buffered child.State} (hrows : pinsOf s.rows = 0)
    (hs : C.Clean s.child) (pages : PageId → Prop) :
    C.Settles pages s.child s.handPins (given s.hand.1) s.hand.2.child ∧
      s.hand.2.rows = s.rows := by
  have hrow : pinsOf (s.rows[s.position]?).toList = 0 := by
    rw [pinsOf_eq_zero] at hrows ⊢
    intro t ht
    exact hrows t (List.mem_of_getElem? (Option.mem_toList.1 ht))
  rw [handPins, Tuple.takeAll_eq_nil hrow, hand]
  cases hget : s.rows[s.position]? with
  | none => exact ⟨.refl hs, rfl⟩
  | some t =>
    rw [hget] at hrow
    exact ⟨(Settles.refl hs).out_congr hrow, rfl⟩

theorem settles_nextPins {loader : Loader child} {load : Storage → child.State → List PinEvent}
    (hload : loader.Balanced C load) (db : Storage) {s : Buffered child.State}
    (hrows : pinsOf s.rows = 0) (hs : C.Clean s.child) :
    C.Settles (· ∈ db.pageIds) s.child (nextPins (loader.load db) (load db) s)
        (given (Buffered.next (loader.load db) s).1) (Buffered.next (loader.load db) s).2.child ∧
      pinsOf (Buffered.next (loader.load db) s).2.rows = 0 := by
  unfold nextPins Buffered.next
  split
  · obtain ⟨hsettles, hkept⟩ := settles_hand hrows hs (· ∈ db.pageIds)
    exact ⟨hsettles, by rw [hkept, hrows]⟩
  · have hchild := hload.settles db hs
    have hunpinned : ∀ rows, (loader.load db s.child).1 = .ok rows → pinsOf rows = 0 :=
      fun rows h => hload.unpinned h
    generalize loader.load db s.child = x at hchild hunpinned ⊢
    rcases x with ⟨e | rows, c⟩
    · exact ⟨by simpa [given] using hchild, hrows⟩
    · dsimp only at hchild ⊢
      have hloaded : pinsOf rows = 0 := hunpinned rows rfl
      let s₁ : Buffered child.State := { s with rows := rows, loaded := true, child := c }
      obtain ⟨hsettles, hkept⟩ := settles_hand (s := s₁) hloaded hchild.clean (· ∈ db.pageIds)
      rw [Tuple.releaseAll_eq_nil hrows, List.nil_append]
      exact ⟨hchild.trans hsettles, (congrArg pinsOf hkept).trans hloaded⟩

theorem rewind_eq (kind : OperatorKind) (s : Buffered child.State) :
    (Buffered.rewind kind child.rewind s).2.child =
        (if s.status.prepared then (child.rewind s.child).2 else s.child) ∧
      (Buffered.rewind kind child.rewind s).2.rows = if s.status.prepared then [] else s.rows := by
  unfold Buffered.rewind
  rcases s.status.check_eq kind with ⟨hcheck, hprepared⟩ | ⟨hcheck, hprepared⟩ <;>
    rw [hcheck, hprepared] <;> exact ⟨rfl, rfl⟩

theorem reset_eq (kind : OperatorKind) (s : Buffered child.State) :
    (Buffered.reset kind s).2.child = s.child ∧ (Buffered.reset kind s).2.rows = s.rows := by
  unfold Buffered.reset
  split <;> exact ⟨rfl, rfl⟩

end Buffered

namespace Operator.Pins

/-- What is left to show of an operator with a buffer is what its loading does. -/
theorem Balanced.buffered {kind : OperatorKind} {orderedBy : List OrderKey} {label : String}
    {profile : Config → Status → Except QueryError Profile} {loader : Buffered.Loader child}
    {load : Storage → child.State → List PinEvent} (hC : C.Balanced)
    (hload : loader.Balanced C load) :
    (C.buffered load :
      (Operator.buffered kind orderedBy label child profile loader).Pins).Balanced := by
  -- the buffer and the child are clean if and only if the whole is
  have hclean : ∀ {s : Buffered child.State}, pinsOf (s.rows ++ C.setAside s.child) = 0 ↔
      pinsOf s.rows = 0 ∧ C.Clean s.child := by
    intro s
    simp only [Clean, pinsOf_eq_zero, List.mem_append, or_imp, forall_and]
  constructor
  case kept =>
    intro s
    change pinsOf (s.rows ++ child.kept s.child) =
      pinsOf (C.inHand s.child) + pinsOf (s.rows ++ C.setAside s.child)
    rw [pinsOf_append, pinsOf_append, hC.kept]
    abel
  case start =>
    exact ⟨hC.start.1, hC.start.2⟩
  case prepare =>
    intro c s
    obtain ⟨hchild, hrows, -⟩ := Buffered.prepare_eq (child.prepare c)
      (fun s => profile c (child.status s)) s
    obtain ⟨hinHand, hsetAside⟩ := hC.prepare c s.child
    rw [← hchild] at hinHand hsetAside
    exact ⟨hinHand, congrArg₂ (· ++ ·) hrows hsetAside⟩
  case next =>
    intro db s hs
    obtain ⟨hrows, hchild⟩ := hclean.1 hs
    obtain ⟨hsettles, hrows'⟩ := Buffered.settles_nextPins hload db hrows hchild
    exact ⟨hclean.2 ⟨hrows', hsettles.clean⟩, hsettles.run⟩
  case rewind =>
    intro s hs
    obtain ⟨hrows, hchild⟩ := hclean.1 hs
    obtain ⟨heq, hempty⟩ := Buffered.rewind_eq kind s
    have hsettles := (hC.rewind hchild).guarded (b := s.status.prepared) hchild
    rw [← heq] at hsettles
    refine ⟨hclean.2 ⟨?_, hsettles.clean⟩, ?_⟩
    · refine (congrArg pinsOf hempty).trans ?_
      split
      · rfl
      · exact hrows
    · change PinRun _ _ (if s.status.prepared then Tuple.releaseAll s.rows ++ _ else []) _
      rw [Tuple.releaseAll_eq_nil hrows]
      exact hsettles.run
  case mark =>
    intro s hs
    exact ⟨hs, (Settles.refl (hclean.1 hs).2).run⟩
  case reset =>
    intro s hs
    obtain ⟨hchild, hrows⟩ := Buffered.reset_eq kind s
    have hsettles : C.Settles noPage s.child [] [] s.child := .refl (hclean.1 hs).2
    refine ⟨?_, ?_⟩
    · exact (congrArg pinsOf (congrArg₂ (· ++ ·) hrows (congrArg C.setAside hchild))).trans hs
    · have hrun := hsettles.run
      nth_rewrite 2 [← hchild] at hrun
      exact hrun
  case cleanUp =>
    intro s hs
    obtain ⟨hrows, hchild⟩ := hclean.1 hs
    have hsettles := hC.cleanUp hchild
    refine ⟨hclean.2 ⟨rfl, hsettles.clean⟩, ?_⟩
    change PinRun _ _ (Tuple.releaseAll s.rows ++ _) _
    rw [Tuple.releaseAll_eq_nil hrows]
    exact hsettles.run
  case inHand_cleanUp =>
    exact fun s => hC.inHand_cleanUp s.child

end Operator.Pins

theorem Sorting.unpinned_collect {schema : Schema} {keys : List OrderKey}
    {rows rows' : List (Row × Tuple)} {t : Tuple} (hrows : ∀ x ∈ rows, x.2.pin? = none)
    (h : Sorting.collect schema keys rows t = .ok rows') : ∀ x ∈ rows', x.2.pin? = none := by
  simp only [Sorting.collect, bind, Except.bind] at h
  split at h
  · simp at h
  · obtain rfl := Except.ok.inj h
    intro x hx
    rcases List.mem_append.1 hx with hx | hx
    · exact hrows x hx
    · rw [List.mem_singleton.1 hx]
      exact t.pin?_unpin

theorem Sorting.balanced_load (hC : C.Balanced) (keys : List OrderKey) :
    Buffered.Loader.Balanced ⟨Sorting.load keys child, 0, Sorting.length_load⟩ C fun db s =>
      Buffered.foldPins (Sorting.collect (child.status s).schema keys) (child.next db) (C.next db)
        (child.remaining db s + 1) [] s where
  settles db {s} hs := Buffered.settles_foldPins hC db _ [] s hs
  unpinned {db s rows} h := by
    simp only [Sorting.load] at h
    obtain ⟨xs, hxs, rfl⟩ := Except.map_eq_ok.1 h
    have hunpinned : ∀ x ∈ xs, x.2.pin? = none :=
      Buffered.of_fold (fun xs => ∀ x ∈ xs, x.2.pin? = none) Sorting.unpinned_collect (by simp) hxs
    rw [pinsOf_eq_zero, Sorting.arrange]
    intro t ht
    obtain ⟨x, hx, rfl⟩ := List.mem_map.1 ht
    exact hunpinned x (List.mem_mergeSort.1 hx)

theorem Group.balanced_load (hC : C.Balanced) (groupBy calls : List Expr) :
    Buffered.Loader.Balanced ⟨Group.load groupBy calls child, 1, Group.length_load⟩ C fun db s =>
      Buffered.foldPins (Group.step (child.status s).schema groupBy calls) (child.next db)
        (C.next db) (child.remaining db s + 1) [] s where
  settles db {s} hs := Buffered.settles_foldPins hC db _ [] s hs
  unpinned {db s rows} h := by
    simp only [Group.load] at h
    obtain ⟨classes, -, hfinish⟩ := Except.bind_eq_ok.1 h
    rw [pinsOf_eq_zero]
    intro t ht
    -- whatever the classes are, the rows made of them are computed
    simp only [Group.finish, bind, Except.bind] at hfinish
    split at hfinish
    · split at hfinish
      · simp at hfinish
      · obtain rfl := Except.ok.inj hfinish
        rw [List.mem_singleton.1 ht]
        rfl
    · obtain rfl := Except.ok.inj hfinish
      obtain ⟨c, -, rfl⟩ := List.mem_map.1 ht
      rfl

theorem Operator.Pins.Balanced.sort (hC : C.Balanced) (keys : List OrderKey) :
    (C.sort keys).Balanced :=
  Balanced.buffered hC (Sorting.balanced_load hC keys)

theorem Operator.Pins.Balanced.group (hC : C.Balanced) (groupBy : List Expr)
    (aggregates : AggregateMap) : (C.group groupBy aggregates).Balanced :=
  Balanced.buffered hC (Group.balanced_load hC groupBy aggregates.calls)

end Child

end RelQuery
