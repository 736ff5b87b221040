import RelQuery.Proofs.Complaints
import RelQuery.Proofs.PredicatePlacement
import RelQuery.Tree

namespace RelQuery

namespace Plan

theorem status_start (p : Plan) : p.operator.status p.operator.start = .fresh := by
  cases p <;> rfl

/-- A plan that is not prepared cannot be started, whatever its inputs are. -/
theorem rewind_unprepared (p : Plan) {s : p.operator.State}
    (h : (p.operator.status s).profile = none) :
    p.operator.rewind s = (.error (.invalidState (.unprepared p.kind)), s) := by
  have hcheck : ∀ {st : Status} (kind : OperatorKind), st.profile = none →
      st.check kind = .error (.invalidState (.unprepared kind)) := fun kind hst => by
    rw [Status.check, Status.prepared, hst, Option.isSome_none, if_neg Bool.false_ne_true]
  cases p with
  | scan | values => exact Leaf.rewind_of_unprepared (hcheck _ h)
  | filter | project | rename | barrier => exact Wrapped.rewind_of_unprepared (hcheck _ h)
  | sort _ c | group _ _ c => exact Buffered.rewind_of_unprepared c.operator.rewind (hcheck _ h)
  | limit => exact Limit.rewind_of_unprepared (hcheck _ h)
  | join _ _ _ l r =>
    exact Join.rewind_of_unprepared l.operator.rewind r.operator.rewind (hcheck _ h)

/-- What a plan gives that was neither prepared nor started: its expressions see no columns, its
projections have none, and its joins fail at their right inputs. -/
def blind (db : Storage) : Plan → Trace
  | scan t none => (Operator.scan t none).trace db (Operator.scan t none).start
  | scan t (some q) =>
    ((Operator.scan t none).trace db (Operator.scan t none).start).choose (Filter.keep .empty q)
  | values _ rows => ⟨rows.map .computed, .ok ()⟩
  | filter q c => (c.blind db).choose (Filter.keep .empty q)
  | project _ c => (c.blind db).choose fun _ => .ok (some (.computed []))
  | rename _ c | barrier c => c.blind db
  | sort keys c =>
    Buffered.handed (((c.blind db).fold (Sorting.collect .empty keys) []).map
      (Sorting.arrange keys)) 0
  | limit n m c => Limit.window n m .zero (c.blind db)
  | group keys calls c =>
    Buffered.handed (((c.blind db).fold (Group.step .empty keys calls.calls) []).bind
      (Group.finish keys calls.calls)) 0
  | join kind _ _ l r =>
    match l.blind db with
    | ⟨[], .error e⟩ => .failed e
    | ⟨[], .ok _⟩ =>
      if kind = .fullOuter then .failed (.invalidState (.unprepared r.kind)) else .nil
    | ⟨_ :: _, _⟩ => .failed (.invalidState (.unprepared r.kind))

end Plan

namespace Join

variable {left right : Operator} {db : Storage} {kind : JoinKind} {predicate : Option Expr}
  {swapped : Bool} {e : QueryError}

/-- A join whose right input cannot be started comes no further than the first left row. -/
theorem trace_of_stuck (hright : right.rewind right.start = (.error e, right.start)) :
    (Operator.join kind predicate swapped left right).trace db
        (Operator.join kind predicate swapped left right).start =
      match left.trace db left.start with
      | ⟨[], .error e⟩ => .failed e
      | ⟨[], .ok _⟩ => if kind = .fullOuter then .failed e else .nil
      | ⟨_ :: _, _⟩ => .failed e := by
  have hmove : move kind predicate left right db .empty .empty .fresh left.start right.start =
    advance kind (inputs left right db) .fresh left.start right.start := rfl
  have hstuck : ∀ (phase : Phase) (p : Progress) (l : left.State),
      rewindFor (inputs left right db) phase p l right.start = (.error e, p, l, right.start) := by
    intro phase p l
    rw [rewindFor, show (inputs left right db).rewindRight right.start = _ from hright]
  unfold advance at hmove
  rcases hl : left.next db left.start with ⟨d | _ | t, l⟩ <;>
    simp only [show (inputs left right db).nextLeft left.start = _ from hl, hstuck] at hmove
  · rw [Operator.trace_of_error hl]
    exact trace_of_emits (.error hmove) .fresh none
  · rw [Operator.trace_of_none hl]
    by_cases hkind : kind = .fullOuter
    · rw [if_pos hkind] at hmove
      exact (trace_of_emits (.error hmove) .fresh none).trans (if_pos hkind).symm
    · rw [if_neg hkind] at hmove
      exact (trace_of_emits (.again hmove (.finished rfl)) .fresh none).trans (if_neg hkind).symm
  · rw [Operator.trace_of_some hl]
    exact trace_of_emits (.error hmove) .fresh none

end Join

namespace Plan

theorem trace_start (p : Plan) (db : Storage) :
    p.operator.trace db p.operator.start = p.blind db := by
  have hschema : ∀ c : Plan, (c.operator.status c.operator.start).schema = .empty := fun c => by
    rw [c.status_start]
    rfl
  induction p with
  | scan t q =>
    cases q with
    | none => rfl
    | some q => exact Scan.trace_some q _ _ rfl
  | values s rows => exact Values.trace_eq s rows _
  | filter q c ih => exact (Filter.trace_eq q _).trans (congrArg (Trace.choose _) ih)
  | project items c ih =>
    -- No outputs are settled yet, so that a row of the input makes one without columns.
    refine (Project.trace_eq (c.regular db).settled items _).trans (congrArg₂ Trace.choose ?_ ih)
    rfl
  | rename t c ih => exact (Rename.trace_eq t _).trans ih
  | barrier c ih => exact (Barrier.trace_eq _).trans ih
  | limit n m c ih => exact (Limit.trace_eq n m _).trans (congrArg (Limit.window n m .zero) ih)
  | sort keys c ih =>
    have hrows := congrArg₂ (Sorting.loads keys c.operator db).rows (hschema c) ih
    exact (Buffered.trace_of_unloaded (Sorting.loads keys c.operator db) rfl).trans
      (congrArg (Buffered.handed · 0) hrows)
  | group keys calls c ih =>
    have hrows := congrArg₂ (Group.loads keys calls.calls c.operator db).rows (hschema c) ih
    exact (Buffered.trace_of_unloaded (Group.loads keys calls.calls c.operator db) rfl).trans
      (congrArg (Buffered.handed · 0) hrows)
  | join kind q swapped l r ihl ihr =>
    refine (Join.trace_of_stuck (r.rewind_unprepared ?_)).trans ?_
    · rw [r.status_start]
      rfl
    · rw [ihl]
      rfl

example : pairs.blind ⟨1, []⟩ = .failed (.invalidState (.unprepared .limit)) := rfl

end Plan

section Reset

variable {κ σ τ : Type} {kind : OperatorKind}

theorem Leaf.reset_of_unmarked {s : Leaf κ} (h : s.mark = none) :
    Leaf.reset kind s = (.error (.invalidState (.noMark kind)), s) := by
  rw [Leaf.reset, h]

theorem Buffered.reset_of_unmarked {s : Buffered σ} (h : s.mark = none) :
    Buffered.reset kind s = (.error (.invalidState (.noMark kind)), s) := by
  rw [Buffered.reset, h]

theorem Wrapped.marking_of_error {refusal e : StateError} {marks : Bool} {f : σ → Outcome Unit σ}
    {s : Wrapped κ σ} (h : f s.child = (.error (.invalidState e), s.child)) :
    Wrapped.marking refusal marks f s =
      (.error (.invalidState (if marks then e else refusal)), s) := by
  unfold Wrapped.marking Wrapped.lift
  rw [h]
  split <;> rfl

theorem Limit.reset_of_unmarked {marks : Bool} {f : σ → Outcome Unit σ} {s : State σ}
    (h : s.mark = none) : Limit.reset marks f s =
      (.error (.invalidState (if marks then .noMark .limit else .unmarkable .limit)), s) := by
  unfold Limit.reset
  rw [h]
  split <;> rfl

theorem Join.reset_of_unmarked {marks : Bool} {f : σ → Outcome Unit σ} {g : τ → Outcome Unit τ}
    {s : State σ τ} (h : s.mark = none) : Join.reset marks f g s =
      (.error (.invalidState (if marks then .noMark .join else .unmarkable .join)), s) := by
  unfold Join.reset
  rw [h]
  split <;> rfl

end Reset

namespace Plan

/-- No position is marked that a reset of the plan would go back to. -/
def Unmarked : (p : Plan) → p.operator.State → Prop
  | scan .., s => Leaf.mark s = none
  | values .., s => Leaf.mark s = none
  | filter _ c, s | project _ c, s | rename _ c, s => c.Unmarked (Wrapped.child s)
  | sort .., s | group .., s => Buffered.mark s = none
  | limit .., s => Limit.State.mark s = none
  | join .., s => Join.State.mark s = none
  | barrier _, _ => True

theorem unmarked_start (p : Plan) : p.Unmarked p.operator.start := by
  induction p with
  | scan | values | sort | group | limit | join => rfl
  | filter _ _ ih | project _ _ ih | rename _ _ ih => exact ih
  | barrier => trivial

/-- How a plan refuses to go back to a position: for want of a mark, or of an input that takes
marks. -/
def refusal : Plan → StateError
  | scan .. => .noMark .scan
  | values .. => .noMark .values
  | filter _ c => if c.operator.marks then c.refusal else .unmarkable .filter
  | project _ c => if c.operator.marks then c.refusal else .unmarkable .project
  | rename _ c => if c.operator.marks then c.refusal else .unmarkable .rename
  | sort .. => .noMark .sort
  | limit _ _ c => if c.operator.marks then .noMark .limit else .unmarkable .limit
  | group .. => .noMark .group
  | join _ _ _ l r =>
    if l.operator.marks && r.operator.marks then .noMark .join else .unmarkable .join
  | barrier _ => .barrier

theorem reset_unmarked (p : Plan) {s : p.operator.State} (h : p.Unmarked s) :
    p.operator.reset s = (.error (.invalidState p.refusal), s) := by
  induction p with
  | scan | values => exact Leaf.reset_of_unmarked h
  | sort | group => exact Buffered.reset_of_unmarked h
  | filter _ c ih | project _ c ih | rename _ c ih => exact Wrapped.marking_of_error (ih h)
  | limit => exact Limit.reset_of_unmarked h
  | join => exact Join.reset_of_unmarked h
  | barrier => rfl

theorem unmarked_of_step (p : Plan) {db : Storage} {π : Policy} (hπ : π.mark = false)
    {s s' : p.operator.State} (h : p.operator.Step db π s s') : p.Unmarked s' = p.Unmarked s := by
  induction p with
  | scan | values => exact congrArg (· = none) ((Leaf.step_keeps h).2 hπ)
  | filter q c ih => exact ((Filter.passes q c.operator db).step h).1.keeps c.Unmarked ih
  | project items c ih =>
    exact ((Project.passes (c.regular db).settled items).step h).1.keeps c.Unmarked ih
  | rename t c ih => exact ((Rename.passes t c.operator db).step h).1.keeps c.Unmarked ih
  | sort keys c =>
    exact congrArg (· = none) ((Buffered.step_keeps (Sorting.loads keys c.operator db) h).2.2 hπ)
  | group keys calls c =>
    exact congrArg (· = none)
      ((Buffered.step_keeps (Group.loads keys calls.calls c.operator db) h).2.2 hπ)
  | limit => exact congrArg (· = none) ((Limit.moves h).2.2 hπ)
  | join => exact congrArg (· = none) ((Join.step_moves h).2.2 hπ)
  | barrier => rfl

theorem unmarked_prepareWith (p : Plan) (k : p.Settings) (s : p.operator.State) :
    p.Unmarked (p.prepareWith k s).2 = p.Unmarked s := by
  induction p with
  | scan | values => exact congrArg (· = none) (Leaf.mark_prepare _ _)
  | filter _ c ih | project _ c ih | rename _ c ih =>
    exact (congrArg c.Unmarked (Wrapped.child_prepare _ _ _)).trans (ih k.2 _)
  | sort | group => exact congrArg (· = none) (Buffered.prepare_eq _ _ _).2.2
  | limit => exact congrArg (· = none) (Limit.prepare_eq _ _ _ _ _).2
  | join => exact congrArg (· = none) (Join.prepare_eq _ _ _ _ _).2.1
  | barrier => rfl

end Plan

namespace Tree

/-- What can be done at the root of a tree, short of marking a position. -/
inductive Use
  | prepare
  | call (db : Storage) (call : Call) (h : call ≠ .mark)

def use (t : Tree) : Use → Tree
  | .prepare => t.prepare.2
  | .call db call _ => { t with state := (t.plan.operator.call db call t.state).2 }

def after (t : Tree) (us : List Use) : Tree := us.foldl use t

def reset (t : Tree) : Except QueryError Unit × Tree :=
  let (r, s) := t.plan.operator.reset t.state
  (r, { t with state := s })

def Unmarked (t : Tree) : Prop := t.plan.Unmarked t.state

variable {t : Tree}

theorem plan_after (t : Tree) (us : List Use) : (t.after us).plan = t.plan := by
  induction us generalizing t with
  | nil => rfl
  | cons u us ih => exact (ih (t.use u)).trans (by cases u <;> rfl)

theorem Unmarked.use (h : t.Unmarked) (u : Use) : (t.use u).Unmarked := by
  cases u with
  | prepare => exact (t.plan.unmarked_prepareWith t.settings t.state).mpr h
  | call db call hcall =>
    let π : Policy := ⟨false, true, true, true⟩
    have hadmits : π.admits call = true := by
      cases call with
      | mark => exact absurd rfl hcall
      | rewind | next | reset | cleanUp => rfl
    have hstep : t.plan.operator.Step db π t.state (t.use (.call db call hcall)).state :=
      ⟨call, _, hadmits, rfl, .inl rfl⟩
    exact (t.plan.unmarked_of_step rfl hstep).mpr h

theorem Unmarked.after (h : t.Unmarked) (us : List Use) : (t.after us).Unmarked := by
  induction us generalizing t with
  | nil => exact h
  | cons u us ih => exact ih (h.use u)

theorem reset_of_unmarked (h : t.Unmarked) :
    t.reset = (.error (.invalidState t.plan.refusal), t) :=
  congrArg (fun x => (x.1, { t with state := x.2 })) (t.plan.reset_unmarked h)

/-- A tree that is not prepared refuses to start, and is left as it was. Asked for a tuple, a tree
complains, prepared or not, only where a join cannot start its right input or a grouping holds a
call of no aggregate function; one that was neither prepared nor started gives what it can make of
rows without columns. A tree that was never marked refuses every reset, whatever else was done
before, and stays as it is. -/
theorem out_of_turn (t : Tree) :
    (t.cursor.status.profile = none →
      t.rewind = (.error (.invalidState (.unprepared t.plan.kind)), t)) ∧
    (∀ db e, (t.next db).1 = .error (.invalidState e) → t.plan.Hindrance e) ∧
    (∀ db, t.duplicate.cursor.trace db = t.plan.blind db) ∧
    t.duplicate.Unmarked ∧
    (t.Unmarked → ∀ us, (t.after us).reset =
      (.error (.invalidState t.plan.refusal), t.after us)) := by
  refine ⟨fun h => ?rewind, fun db e h => ?next, fun db => ?blind, ?unmarked, fun h us => ?reset⟩
  case rewind =>
    exact congrArg (fun x => (x.1, { t with state := x.2 })) (t.plan.rewind_unprepared h)
  case next =>
    have hnext := t.plan.next_complains db t.state
    rw [show (t.plan.operator.next db t.state).1 = _ from h] at hnext
    exact hnext
  case blind =>
    rw [duplicate_eq]
    exact t.plan.trace_start db
  case unmarked =>
    rw [duplicate_eq]
    exact t.plan.unmarked_start
  case reset =>
    rw [← t.plan_after us]
    exact reset_of_unmarked (h.after us)

def oneRow : Tree := values ⟨[⟨"n", none, .bigInt⟩]⟩ [[.int 1]]

def oneRowRun : List Use :=
  [.prepare, .call ⟨1, []⟩ .rewind (by decide), .call ⟨1, []⟩ .next (by decide)]

theorem out_of_turn_oneRow :
    oneRow.rewind = (.error (.invalidState (.unprepared .values)), oneRow) ∧
      (oneRow.next ⟨1, []⟩).1 = .ok (some (.computed [.int 1])) ∧
        (oneRow.after oneRowRun).reset =
          (.error (.invalidState (.noMark .values)), oneRow.after oneRowRun) := by
  obtain ⟨hrewind, -, -, -, hreset⟩ := out_of_turn oneRow
  exact ⟨hrewind rfl, rfl, hreset rfl oneRowRun⟩

end Tree

end RelQuery
