import RelQuery.Proofs.Buffering
import RelQuery.Proofs.JoinReplay
import RelQuery.Proofs.Leaves
import RelQuery.Proofs.Passing
import RelQuery.Proofs.Preparing
import RelQuery.Proofs.Window

namespace RelQuery

section Readiness

/-- A prepared operator can start a run, and can be marked where it says so. -/
structure Operator.Ready (o : Operator) : Prop where
  starts : ∀ {c s s'}, o.prepare c s = (.ok (), s') → (o.rewind s').1 = .ok ()
  marks : o.marks = true → ∀ s, (o.mark s).1 = .ok ()

variable {c left right : Operator}

theorem Status.check_settle (s : Status) (p : Profile) (kind : OperatorKind) :
    (s.settle p).check kind = .ok () := rfl

theorem Leaf.ready {κ : Type} {kind : OperatorKind} {label : String}
    {profile : Config → Except QueryError Profile} {source : Leaf.Source κ} :
    (Operator.leaf kind label profile source).Ready where
  starts h := by
    obtain ⟨p, -, rfl⟩ := Leaf.prepare_eq_ok.1 h
    rfl
  marks _ _ := rfl

theorem Wrapped.ready {κ : Type} {kind : OperatorKind} {label : String} {marks : Bool}
    {refusal : StateError} {orderedBy : List OrderKey} {body : Wrapped.Body κ c}
    (hmarks : marks = true → c.marks = true) (hc : c.Ready) :
    (Operator.wrapped kind label marks refusal orderedBy c body).Ready where
  starts h := by
    obtain ⟨d, p, k, hd, -, rfl⟩ := Wrapped.prepare_eq_ok.1 h
    exact (congrArg Prod.fst (rewind_of_prepared (Status.check_settle ..))).trans (hc.starts hd)
  marks h s := by
    have hm : marks = true := h
    exact (congrArg Prod.fst (if_pos hm)).trans (hc.marks (hmarks hm) _)

theorem Buffered.ready {kind : OperatorKind} {orderedBy : List OrderKey} {label : String}
    {profile : Config → Status → Except QueryError Profile} {loader : Loader c} (hc : c.Ready) :
    (Operator.buffered kind orderedBy label c profile loader).Ready where
  starts h := by
    obtain ⟨d, p, hd, -, rfl⟩ := Buffered.prepare_eq_ok.1 h
    exact (congrArg Prod.fst (rewind_of_prepared c.rewind (Status.check_settle ..))).trans
      (hc.starts hd)
  marks _ _ := rfl

theorem Limit.ready {limit : Option Nat} {offset : Nat} (hc : c.Ready) :
    (Operator.limit limit offset c).Ready where
  starts h := by
    obtain ⟨d, hd, rfl⟩ := Limit.prepare_eq_ok.1 h
    exact (congrArg Prod.fst (rewind_of_prepared (Status.check_settle ..))).trans (hc.starts hd)
  marks h s := by
    change (Limit.setMark c.marks c.mark s).1 = _
    rcases hs : c.mark (Limit.State.child s) with ⟨x, d⟩
    obtain rfl : x = .ok () := (congrArg Prod.fst hs).symm.trans (hc.marks h _)
    simp only [Limit.setMark, if_pos (show c.marks = true from h), hs]

theorem Join.ready {kind : JoinKind} {predicate : Option Expr} {swapped : Bool} (hl : left.Ready)
    (hr : right.Ready) : (Operator.join kind predicate swapped left right).Ready where
  starts h := by
    obtain ⟨l, r, p, hleft, hright, -, -, rfl⟩ := Join.prepare_eq_ok.1 h
    refine (rewind_of_prepared left.rewind right.rewind (Status.check_settle ..)).trans ?_
    dsimp only
    rw [hl.starts hleft, hr.starts hright]
  marks h s := by
    obtain ⟨hlm, hrm⟩ : left.marks = true ∧ right.marks = true := Bool.and_eq_true_iff.1 h
    change (setMark (left.marks && right.marks) left.mark right.mark s).1 = _
    have hboth := both_of_ok (s := s) (f := left.mark) (g := right.mark)
      (Prod.ext (hl.marks hlm _) rfl) (Prod.ext (hr.marks hrm _) rfl)
    simp only [setMark, hlm, hrm, Bool.and_self, if_true, hboth]

end Readiness

namespace Plan

theorem ready (p : Plan) : p.operator.Ready := by
  induction p with
  | scan | values => exact Leaf.ready
  | filter _ _ ih | project _ _ ih | rename _ _ ih => exact Wrapped.ready id ih
  | barrier _ ih => exact Wrapped.ready (fun h => nomatch h) ih
  | sort _ _ ih | group _ _ _ ih => exact Buffered.ready ih
  | limit _ _ _ ih => exact Limit.ready ih
  | join _ _ _ _ _ ihl ihr => exact Join.ready ihl ihr

theorem regular (p : Plan) (db : Storage) : p.operator.Regular db := by
  induction p with
  | scan t p => exact Scan.regular t p db
  | values schema rows => exact Values.regular schema rows db
  | filter p c ih => exact (Filter.passes p c.operator db).regular (Filter.ends ih.ends) ih
  | project items c ih =>
    exact (Project.passes ih.settled items).regular (Project.ends ih.settled ih.ends) ih
  | rename t c ih => exact (Rename.passes t c.operator db).regular (Rename.ends ih.ends) ih
  | barrier c ih => exact (Barrier.passes c.operator db).regular (Barrier.ends ih.ends) ih
  | sort keys c ih => exact Buffered.regular (Sorting.loads keys c.operator db) ih
  | group keys calls c ih => exact Buffered.regular (Group.loads keys calls.calls c.operator db) ih
  | limit l o c ih => exact (Limit.passes l o c.operator db).regular Limit.ends ih
  | join k p swapped l r ihl ihr => exact Join.regular ihl ihr

def barrierFree : Plan → Bool
  | scan .. | values .. => true
  | filter _ c | project _ c | rename _ c | sort _ c | limit _ _ c | group _ _ c => c.barrierFree
  | join _ _ _ l r => l.barrierFree && r.barrierFree
  | barrier _ => false

theorem marks_of_barrierFree (p : Plan) (h : p.barrierFree = true) : p.operator.marks = true := by
  induction p with
  | scan | values | sort | group => rfl
  | filter _ _ ih | project _ _ ih | rename _ _ ih | limit _ _ _ ih => exact ih h
  | join _ _ _ _ _ ihl ihr =>
    obtain ⟨hl, hr⟩ := Bool.and_eq_true_iff.1 h
    exact Bool.and_eq_true_iff.2 ⟨ihl hl, ihr hr⟩
  | barrier => simp [barrierFree] at h

/-- A join that starts a limited input again for each of its left rows, and fails for the last of
them. -/
def pairs : Plan :=
  join .fullOuter
    (some (.compare .eq (.arith .div (.literal (.int 6)) (.column (.unqualified "a")))
      (.column (.unqualified "b"))))
    false (values ⟨[⟨"a", none, .bigInt⟩]⟩ [[.int 2], [.int 1], [.int 0]])
    (limit (some 2) 0 (values ⟨[⟨"b", none, .bigInt⟩]⟩ [[.int 3], [.int 6], [.int 9]]))

end Plan

/-- What is collected of a run. -/
def Trace.collected (tr : Trace) : Except QueryError (List Tuple) :=
  tr.ending.map fun _ => tr.tuples.map Tuple.unpin

namespace Cursor

variable {db : Storage} {π : Policy} {c c' : Cursor}

/-- Calls that a policy allows lead from a cursor to another. -/
def Reaches (db : Storage) (π : Policy) (c c' : Cursor) : Prop :=
  ∃ s, c.plan.operator.Reaches db π c.state s ∧ c' = c.setState s

/-- Calls, one after the other, whatever comes of them. -/
def after (db : Storage) (calls : List Call) (c : Cursor) : Cursor :=
  c.setState (c.plan.operator.after db calls c.state)

theorem reaches_after (calls : List Call) (c : Cursor) : c.Reaches db .any (c.after db calls) :=
  ⟨_, c.plan.operator.reaches_after db calls c.state, rfl⟩

/-- A run was started since the given cursor, and all calls since then went well. -/
def Running (db : Storage) (c c' : Cursor) : Prop :=
  ∃ s, c.plan.operator.Running db c.state s ∧ c' = c.setState s

/-- What the cursor has still to give. -/
def trace (c : Cursor) (db : Storage) : Trace := c.plan.operator.trace db c.state

theorem drainFor_eq {fuel : Nat} (h : c.remaining db < fuel) :
    (drainFor db fuel c).1 = (c.trace db).tuples ∧
      (drainFor db fuel c).2.1 = (c.trace db).ending := by
  induction fuel generalizing c with
  | zero => omega
  | succ fuel ih =>
    rw [drainFor, trace]
    rcases hs : c.plan.operator.next db c.state with ⟨e | _ | t, s⟩ <;>
      simp only [Cursor.next, run, hs]
    · rw [Operator.trace_of_error hs]
      exact ⟨rfl, rfl⟩
    · rw [Operator.trace_of_none hs]
      exact ⟨rfl, rfl⟩
    · have hlt := c.plan.operator.next_lt hs
      have hfuel : c.plan.operator.remaining db s < fuel := by
        change c.plan.operator.remaining db c.state < fuel + 1 at h
        omega
      have hrest := ih (c := c.setState s) hfuel
      rw [Operator.trace_of_some hs]
      exact ⟨congrArg (t :: ·) hrest.1, hrest.2⟩

theorem drain_eq (c : Cursor) (db : Storage) :
    (c.drain db).1 = (c.trace db).tuples ∧ (c.drain db).2.1 = (c.trace db).ending :=
  drainFor_eq (Nat.lt_succ_self _)

theorem same_drain {c d : Cursor} (h : c.trace db = d.trace db) :
    (c.drain db).1 = (d.drain db).1 ∧ (c.drain db).2.1 = (d.drain db).2.1 := by
  rw [(drain_eq c db).1, (drain_eq c db).2, (drain_eq d db).1, (drain_eq d db).2, h]
  exact ⟨rfl, rfl⟩

theorem collect_eq (h : c.rewind = (.ok (), c')) : (c.collect db).1 = (c'.trace db).collected := by
  obtain ⟨hdrain, hend⟩ := drain_eq c' db
  rcases hd : c'.drain db with ⟨ts, e, c''⟩
  rw [hd] at hdrain hend
  rw [Trace.collected, ← hend, ← hdrain]
  cases e with
  | error e => simp only [collect, h, hd, Except.map]
  | ok _ => simp only [collect, h, hd, Except.map]

theorem collect_congr {p : Plan} {config config' : Config} {a b : p.operator.State}
    (h : p.operator.Alike db a b) :
    ((⟨p, config, a⟩ : Cursor).collect db).1 = ((⟨p, config', b⟩ : Cursor).collect db).1 := by
  rcases ha : p.operator.rewind a with ⟨e | _, a'⟩
  · have hb : (p.operator.rewind b).1 = .error e := h.rewind.symm.trans (by rw [ha])
    simp only [collect, rewind, run, setState, ha, hb]
  · obtain ⟨b', hb, htrace⟩ := h.of_ok ha
    have hca : (⟨p, config, a⟩ : Cursor).rewind = (.ok (), ⟨p, config, a'⟩) := by
      simp only [rewind, run, setState, ha]
    have hcb : (⟨p, config', b⟩ : Cursor).rewind = (.ok (), ⟨p, config', b'⟩) := by
      simp only [rewind, run, setState, hb]
    rw [collect_eq hca, collect_eq hcb]
    exact congrArg Trace.collected htrace

theorem prepared_ok {p : Plan} {config : Config} {c₀ : Cursor}
    (h : Cursor.prepared p config = .ok c₀) :
    ∃ s, p.operator.prepare config p.operator.start = (.ok (), s) ∧ c₀ = ⟨p, config, s⟩ := by
  unfold Cursor.prepared at h
  split at h
  · simp at h
  · next hprepare =>
    obtain ⟨hok, hc⟩ := Prod.mk.inj hprepare
    exact ⟨_, Prod.ext hok rfl, (Except.ok.inj h).symm.trans hc.symm⟩

/-- Whatever was called since a plan was prepared, a new run gives the same tuples and ends in the
same way as the first run of a fresh duplicate. -/
theorem rerun_eq_fresh {p : Plan} {config : Config} {c₀ c : Cursor}
    (hprepared : Cursor.prepared p config = .ok c₀) (h : c₀.Reaches db .any c) :
    ∃ d c' d', c.duplicate.prepare = (.ok (), d) ∧ c.rewind = (.ok (), c') ∧
      d.rewind = (.ok (), d') ∧ (c'.drain db).1 = (d'.drain db).1 ∧
      (c'.drain db).2.1 = (d'.drain db).2.1 := by
  obtain ⟨s₀, hs₀, rfl⟩ := prepared_ok hprepared
  obtain ⟨s, hs, rfl⟩ := h
  -- Preparation from the start is the same every time, so the duplicate is in the state `s₀`.
  have hstart : (p.operator.rewind s₀).1 = .ok () := p.ready.starts hs₀
  have hreplays := (p.regular db).replays s₀
  have hok : (p.operator.rewind s).1 = .ok () := (hreplays.rewind hs).trans hstart
  refine ⟨⟨p, config, s₀⟩, ⟨p, config, (p.operator.rewind s).2⟩,
    ⟨p, config, (p.operator.rewind s₀).2⟩, ?_, ?_, ?_, same_drain (hreplays.trace hs hok)⟩
  · simp only [duplicate, ofPlan, prepare, run, setState, hs₀]
  · simp only [rewind, run, setState, hok]
  · simp only [rewind, run, setState, hstart]

def pairs : Cursor := (ofPlan .pairs .default).prepare.2

/-- The first run is marked, reset and driven on until it fails. -/
def pairsFailed : Cursor := pairs.after ⟨1, []⟩ [.rewind, .next, .mark, .next, .reset, .next, .next]

theorem rerun_eq_fresh_pairs : ∃ d c' d' : Cursor, Cursor.prepared .pairs .default = .ok pairs ∧
    pairs.Reaches ⟨1, []⟩ .any pairsFailed ∧ pairsFailed.duplicate.prepare = (.ok (), d) ∧
      pairsFailed.rewind = (.ok (), c') ∧ d.rewind = (.ok (), d') ∧
      (c'.drain ⟨1, []⟩).1 = (d'.drain ⟨1, []⟩).1 ∧
      (c'.drain ⟨1, []⟩).2.1 = (d'.drain ⟨1, []⟩).2.1 ∧
      (c'.drain ⟨1, []⟩).1 = [.computed [.int 2, .int 3], .computed [.int 1, .int 6]] ∧
      (c'.drain ⟨1, []⟩).2.1 = .error (.evaluation .divisionByZero) := by
  have hprepared : Cursor.prepared .pairs .default = .ok pairs := rfl
  have hreach : pairs.Reaches ⟨1, []⟩ .any pairsFailed := reaches_after _ _
  obtain ⟨d, c', d', hd, hc', hd', hrows, hend⟩ :=
    rerun_eq_fresh hprepared hreach
  obtain rfl : pairsFailed.rewind.2 = c' := congrArg Prod.snd hc'
  exact ⟨d, _, d', hprepared, hreach, hd, hc', hd', hrows, hend, rfl, rfl⟩

/-- A mark in a run can be returned to any number of times; what is to come is what was to come at
the mark. -/
theorem reset_eq_marked {c₀ c : Cursor} (hrun : c₀.Running db c) (hmarks : c.marks = true) :
    ∃ c₁, c.mark = (.ok (), c₁) ∧ ∀ c₂, c₁.Reaches db .unmarking c₂ →
      ∃ c₃, c₂.reset = (.ok (), c₃) ∧ (c₃.drain db).1 = (c₁.drain db).1 ∧
        (c₃.drain db).2.1 = (c₁.drain db).2.1 := by
  obtain ⟨s, hs, rfl⟩ := hrun
  obtain ⟨s₁, hs₁⟩ : ∃ s₁, c₀.plan.operator.mark s = (.ok (), s₁) :=
    ⟨_, Prod.ext (c₀.plan.ready.marks hmarks s) rfl⟩
  refine ⟨c₀.setState s₁, ?_, ?_⟩
  · simp only [mark, run, setState, hs₁]
  · rintro _ ⟨s₂, hs₂, rfl⟩
    obtain ⟨s₃, hs₃, htrace⟩ := (c₀.plan.regular db).remembers c₀.state hs hs₁ hs₂
    refine ⟨c₀.setState s₃, ?_, same_drain htrace⟩
    simp only [reset, run, setState, hs₃]

/-- The position after the first pair. -/
def pairsBegun : Cursor := pairs.after ⟨1, []⟩ [.rewind, .next]

/-- The run goes on to the second pair, back to the mark and forth again. -/
theorem reset_eq_marked_pairs : ∃ c₁ c₂ c₃ : Cursor, pairs.Running ⟨1, []⟩ pairsBegun ∧
    pairsBegun.marks = true ∧ pairsBegun.mark = (.ok (), c₁) ∧ c₁.Reaches ⟨1, []⟩ .unmarking c₂ ∧
      c₂.reset = (.ok (), c₃) ∧ (c₃.drain ⟨1, []⟩).1 = (c₁.drain ⟨1, []⟩).1 ∧
      (c₃.drain ⟨1, []⟩).2.1 = (c₁.drain ⟨1, []⟩).2.1 ∧ (c₂.drain ⟨1, []⟩).1 = [] ∧
      (c₃.drain ⟨1, []⟩).1 = [.computed [.int 1, .int 6]] ∧
      (c₃.drain ⟨1, []⟩).2.1 = .error (.evaluation .divisionByZero) := by
  have hrun : pairs.Running ⟨1, []⟩ pairsBegun :=
    ⟨_, ⟨pairs.state, _, .refl, rfl, .next rfl (.inr rfl)⟩, rfl⟩
  obtain ⟨c₁, hmark, hreset⟩ := reset_eq_marked hrun rfl
  obtain rfl : pairsBegun.mark.2 = c₁ := congrArg Prod.snd hmark
  have hreach : pairsBegun.mark.2.Reaches ⟨1, []⟩ .unmarking
      (pairsBegun.mark.2.after ⟨1, []⟩ [.next, .reset, .next]) :=
    ⟨_, .trans (.next rfl (.inr rfl))
      (.trans (.reset rfl rfl (.inr rfl)) (.next rfl (.inr rfl))), rfl⟩
  obtain ⟨c₃, hc₃, hrows, hend⟩ := hreset _ hreach
  obtain rfl := congrArg Prod.snd hc₃
  exact ⟨_, _, _, hrun, rfl, hmark, hreach, hc₃, hrows, hend, rfl, rfl, rfl⟩

end Cursor

end RelQuery
