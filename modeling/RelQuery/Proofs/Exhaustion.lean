import RelQuery.Proofs.Driving
import RelQuery.Storage.Ledger

namespace RelQuery

variable {c o left right : Operator} {D : Storage → Prop} {db : Storage}

/-- Calls that neither start a run nor go back to a mark. -/
def Call.continues : Call → Bool
  | .next | .mark | .cleanUp => true
  | .rewind | .reset => false

namespace Operator

/-- Calls that go on with a run lead from a state to another, over any storages. -/
def Continues (o : Operator) : o.State → o.State → Prop :=
  Relation.ReflTransGen fun s s' =>
    ∃ db call, Call.continues call = true ∧ (o.call db call s).2 = s'

/-- There are no tuples left, whatever calls go on with the run. -/
def Spent (o : Operator) (s : o.State) : Prop :=
  ∀ ⦃s'⦄, o.Continues s s' → ∀ db, (o.next db s').1 = .ok none

/-- In all runs since a state was reached, over storages of a kind, there are no tuples left once
there was none. -/
def Exhausts (o : Operator) (D : Storage → Prop) (s₀ : o.State) : Prop :=
  ∀ ⦃s⦄, o.ReachesOver D s₀ s → ∀ ⦃db s'⦄, D db → o.next db s = (.ok none, s') → o.Spent s'

variable {s s' : o.State}

theorem Exhausts.reaches (h : o.Exhausts D s) (hs : o.ReachesOver D s s') : o.Exhausts D s' :=
  fun _ hs' => h (hs.trans hs')

theorem Spent.of_invariant (I : o.State → Prop)
    (next : ∀ {s} db, I s → (o.next db s).1 = .ok none ∧ I (o.next db s).2)
    (mark : ∀ {s}, I s → I (o.mark s).2) (cleanUp : ∀ {s}, I s → I (o.cleanUp s)) (h : I s) :
    o.Spent s := by
  intro s' hs'
  suffices hI : I s' from fun db => (next db hI).1
  induction hs' with
  | refl => exact h
  | tail _ hstep ih =>
    obtain ⟨db, call, hcall, rfl⟩ := hstep
    cases call with
    | next => exact (next db ih).2
    | mark => exact mark ih
    | cleanUp => exact cleanUp ih
    | rewind | reset => exact absurd hcall (by decide)

theorem Spent.continues (h : o.Spent s) (hs : o.Continues s s') : o.Spent s' :=
  fun _ hs' => h (hs.trans hs')

theorem Spent.next (h : o.Spent s) (db : Storage) :
    ∃ s', o.next db s = (.ok none, s') ∧ o.Spent s' :=
  ⟨_, Prod.ext (h .refl db) rfl, h.continues (.single ⟨db, .next, rfl, rfl⟩)⟩

theorem Spent.mark (h : o.Spent s) : o.Spent (o.mark s).2 :=
  h.continues (.single ⟨.create 1, .mark, rfl, rfl⟩)

theorem Spent.cleanUp (h : o.Spent s) : o.Spent (o.cleanUp s) :=
  h.continues (.single ⟨.create 1, .cleanUp, rfl, rfl⟩)

end Operator

section Leaf

variable {κ : Type} {kind : OperatorKind} {label : String}
  {profile : Config → Except QueryError Profile} {source : Leaf.Source κ}

/-- An operator without children is spent at a position from which nothing comes, over any
storage. -/
theorem Leaf.exhausts (hend : ∀ {db schema p p'}, source.pull db schema p = (.ok none, p') →
      ∀ db schema, source.pull db schema p' = (.ok none, p')) (s₀ : Leaf κ) :
    (Operator.leaf kind label profile source).Exhausts D s₀ := by
  intro s _ db s' _ h
  obtain ⟨hpull, -, -⟩ := Leaf.next_eq (show Leaf.next (source.pull db) s = _ from h)
  refine .of_invariant (o := .leaf kind label profile source)
    (fun a : Leaf κ => ∀ db schema, source.pull db schema a.position = (.ok none, a.position))
    (fun {a} db ha => ?_) (fun {a} ha => ha) (fun {a} ha => ha) (hend hpull)
  have hnext : Leaf.next (source.pull db) a = (.ok none, a) := by
    unfold Leaf.next
    rw [ha]
    rfl
  rw [show (Operator.leaf kind label profile source).next db a = _ from hnext]
  exact ⟨rfl, ha⟩

theorem Scan.exhausts {table : TableInfo} {predicate : Option Expr} (s₀ : Leaf Position) :
    (Operator.scan table predicate).Exhausts D s₀ := by
  refine Leaf.exhausts (fun {db _ p p'} h db' _ => ?_) s₀
  have hdone := done_of_pull_none (Nat.lt_succ_self _) h
  change pull _ _ _ _ _ = _
  rw [pull, if_pos hdone]

theorem Values.exhausts {schema : Schema} {rows : List Row} (s₀ : Leaf Nat) :
    (Operator.values schema rows).Exhausts D s₀ := by
  refine Leaf.exhausts (fun {db _ p p'} h db' _ => ?_) s₀
  change pull rows p = _ at h
  change pull rows p' = _
  unfold pull at h
  split at h
  · next hrow =>
    obtain ⟨-, rfl⟩ := Prod.mk.inj h
    rw [pull, hrow]
  · simp at h

end Leaf

section Wrapped

/-- An operator that gives no tuple when its input gives none is spent with its input. -/
theorem Wrapped.exhausts {κ : Type} {kind : OperatorKind} {label : String} {marks : Bool}
    {refusal : StateError} {orderedBy : List OrderKey} {body : Wrapped.Body κ c}
    {s₀ : Wrapped κ c.State}
    (hmoves : ∀ {db s r s'}, body.next db s = (r, s') → Wrapped.Moves c db .any s s')
    (hnone : ∀ {db s s'}, body.next db s = (.ok none, s') →
      ∃ d, c.Reaches db .any s.child d ∧ c.next db d = (.ok none, s'.child))
    (hidle : ∀ {db s d}, c.next db s.child = (.ok none, d) →
      body.next db s = (.ok none, { s with child := d }))
    (hc : c.Exhausts D s₀.child) :
    (Operator.wrapped kind label marks refusal orderedBy c body).Exhausts D s₀ := by
  intro s hs db s' hdb h
  have hchild : c.ReachesOver D s₀.child (Wrapped.child s) :=
    hs.lift (Wrapped.child : Wrapped κ c.State → c.State) fun hstep =>
      (wrapped_moves (fun h _ => hmoves h) hstep).1
  obtain ⟨d, hreach, hd⟩ := hnone h
  refine .of_invariant (o := .wrapped kind label marks refusal orderedBy c body)
    (fun a : Wrapped κ c.State => c.Spent a.child) (fun {a} db ha => ?_) (fun {a} ha => ?_)
    (fun {a} ha => ha.cleanUp) (hc (hchild.trans (.of_reaches hdb hreach)) hdb hd)
  · obtain ⟨d, hd, hspent⟩ := ha.next db
    rw [show (Operator.wrapped kind label marks refusal orderedBy c body).next db a = _ from
      hidle hd]
    exact ⟨rfl, hspent⟩
  · change c.Spent (Wrapped.marking refusal marks c.mark a).2.child
    unfold Wrapped.marking
    split
    · exact ha.mark
    · exact ha

theorem Filter.exhausts {predicate : Expr} {s₀ : Wrapped Unit c.State}
    (hc : c.Exhausts D s₀.child) : (Operator.filter predicate c).Exhausts D s₀ :=
  Wrapped.exhausts (fun h => moves h (.inl rfl)) child_none
    (fun {db s d} hd => by
      change Filter.next predicate c db s = _
      rw [next_eq, hd]
      rfl) hc

theorem Project.exhausts {items : List SelectItem} {s₀ : Wrapped (List Output) c.State}
    (hc : c.Exhausts D s₀.child) : (Operator.project items c).Exhausts D s₀ :=
  Wrapped.exhausts (fun h => moves h (.inl rfl)) (fun h => ⟨_, .refl, child_none h⟩)
    (fun {db s d} hd => by
      change Project.next c db s = _
      unfold Project.next
      rw [hd]) hc

theorem Rename.exhausts {table : String} {s₀ : Wrapped Unit c.State}
    (hc : c.Exhausts D s₀.child) : (Operator.rename table c).Exhausts D s₀ :=
  Wrapped.exhausts (fun h => ⟨.next (next_eq h).1 (.inl rfl), (next_eq h).2⟩)
    (fun h => ⟨_, .refl, (next_eq h).1⟩)
    (fun {db s d} hd => by
      change Rename.next c db s = _
      unfold Rename.next
      rw [hd]) hc

theorem Barrier.exhausts {s₀ : Wrapped Unit c.State}
    (hc : c.Exhausts D s₀.child) : (Operator.barrier c).Exhausts D s₀ :=
  Wrapped.exhausts (fun h => by
      obtain ⟨hnext, rfl⟩ := Prod.mk.inj h
      exact ⟨.next (Prod.ext hnext rfl) (.inl rfl), rfl⟩)
    (fun h => ⟨_, .refl, Wrapped.lift_ok h⟩)
    (fun {db s d} hd => by
      change Wrapped.lift (c.next db) s = _
      rw [Wrapped.lift, hd]) hc

end Wrapped

theorem Limit.exhausts {limit : Option Nat} {offset : Nat} (s₀ : State c.State) :
    (Operator.limit limit offset c).Exhausts D s₀ := by
  intro s _ db s' _ h
  refine .of_invariant (o := .limit limit offset c)
    (fun a : State c.State => a.counters.done = true) (fun {a} db ha => ?_) (fun {a} ha => ?_)
    (fun {a} ha => ha) (next_none h)
  · have hnext : Limit.next limit offset (c.next db) a =
        (.ok none, { a with counters := { a.counters with done := true } }) := by
      unfold Limit.next
      exact if_pos (by rw [ha, Bool.true_or])
    rw [show (Operator.limit limit offset c).next db a = _ from hnext]
    exact ⟨rfl, rfl⟩
  · change (Limit.setMark c.marks c.mark a).2.counters.done = true
    unfold Limit.setMark
    split
    · split <;> exact ha
    · exact ha

/-- A join is spent once its machine has come to the end, whatever its inputs have left. -/
theorem Join.exhausts {kind : JoinKind} {predicate : Option Expr} {swapped : Bool}
    (s₀ : State left.State right.State) :
    (Operator.join kind predicate swapped left right).Exhausts D s₀ := by
  intro s _ db s' _ h
  refine .of_invariant (o := .join kind predicate swapped left right)
    (fun a : State left.State right.State => a.progress.phase = .exhausted)
    (fun {a} db ha => ?_) (fun {a} ha => ?_) (fun {a} ha => ha) ?_
  · have hmove : ∀ ls rs, move kind predicate left right db ls rs a.progress a.left a.right =
        (.ok .finished, a.progress, a.left, a.right) := fun ls rs => by
      simp only [move, step, ha]
    have hnext : Join.next kind predicate swapped left right db a = (.ok none, a) := by
      unfold Join.next
      simp only [run, hmove]
      rfl
    rw [show (Operator.join kind predicate swapped left right).next db a = _ from hnext]
    exact ⟨rfl, ha⟩
  · change (Join.setMark (left.marks && right.marks) left.mark right.mark a).2.progress.phase = _
    have hboth : (both left.mark right.mark a).2.progress = a.progress := by
      unfold both
      split <;> rfl
    unfold Join.setMark
    split
    · split <;> next h =>
        rw [h] at hboth
        exact hboth ▸ ha
    · exact ha
  · exact phase_of_next_none h

namespace Buffered

section Fold

variable {β : Type} {step : β → Tuple → Except QueryError β}

theorem fold_none {n : Nat} {b b' : β} {s s' : c.State} (hn : c.remaining db s < n)
    (h : fold step (c.next db) n b s = (.ok b', s')) :
    ∃ d, c.Reaches db .any s d ∧ c.next db d = (.ok none, s') := by
  induction n generalizing b s with
  | zero => omega
  | succ n ih =>
    rw [fold] at h
    rcases hs : c.next db s with ⟨e | _ | t, s₁⟩ <;> simp only [hs] at h
    · simp at h
    · obtain ⟨-, rfl⟩ := Prod.mk.inj h
      exact ⟨s, .refl, hs⟩
    · have hlt := c.next_lt hs
      split at h
      · simp at h
      · obtain ⟨d, hreach, hd⟩ := ih (by omega) h
        exact ⟨d, .trans (.next hs (.inl rfl)) hreach, hd⟩

end Fold

/-- From an input without tuples a buffer loads a number of rows, and it never loads fewer. -/
structure Idle (load : Storage → c.State → Outcome (List Tuple) c.State) (idle : Nat) : Prop where
  spent : ∀ db {d}, c.Spent d →
    ∃ rows d', load db d = (.ok rows, d') ∧ rows.length = idle ∧ c.Spent d'
  loaded : ∀ {db d rows d'}, load db d = (.ok rows, d') → idle ≤ rows.length ∧
    ∃ a, c.Reaches db .any d a ∧ c.next db a = (.ok none, d')

theorem Idle.ofFold {β : Type} {load : Storage → c.State → Outcome (List Tuple) c.State}
    {idle : Nat} (step : Schema → β → Tuple → Except QueryError β) (b : β)
    (finish : β → Except QueryError (List Tuple))
    (hload : ∀ db s, load db s =
      ((fold (step (c.status s).schema) (c.next db) (c.remaining db s + 1) b s).1.bind finish,
        (fold (step (c.status s).schema) (c.next db) (c.remaining db s + 1) b s).2))
    (hempty : ∃ rows, finish b = .ok rows ∧ rows.length = idle)
    (hfinish : ∀ {b' rows}, finish b' = .ok rows → idle ≤ rows.length) : Idle load idle where
  spent db d hd := by
    obtain ⟨rows, hrows, hlength⟩ := hempty
    obtain ⟨d', hnext, hspent⟩ := hd.next db
    refine ⟨rows, d', ?_, hlength, hspent⟩
    rw [hload, fold, hnext]
    exact Prod.ext hrows rfl
  loaded {db d rows d'} h := by
    rw [hload] at h
    rcases hfold : fold (step (c.status d).schema) (c.next db) (c.remaining db d + 1) b d with
      ⟨e | b', a⟩ <;> simp only [hfold, Except.bind] at h
    · simp at h
    · obtain ⟨hrows, rfl⟩ := Prod.mk.inj h
      exact ⟨hfinish hrows, fold_none (Nat.lt_succ_self _) hfold⟩

variable {kind : OperatorKind} {orderedBy : List OrderKey} {label : String}
  {profile : Config → Status → Except QueryError Profile} {loader : Loader c} {idle : Nat}
  {s₀ s s' : Buffered c.State}

/-- What is loaded has been made of all that the input had. -/
def Full (idle : Nat) (s : Buffered c.State) : Prop :=
  s.loaded = true → c.Spent s.child ∧ idle ≤ s.rows.length

/-- A buffer that gives no tuple is past all rows that it could load again. -/
structure Past (idle : Nat) (s : Buffered c.State) : Prop where
  spent : c.Spent s.child
  idle : idle ≤ s.position
  rows : s.loaded = true → s.rows.length ≤ s.position

theorem hand_of_past (h : s.rows.length ≤ s.position) : s.hand = (.ok none, s) := by
  unfold hand
  rw [List.getElem?_eq_none h]

theorem Past.next (L : Idle loader.load idle) (h : Past idle s) (db : Storage) :
    ∃ s', Buffered.next (loader.load db) s = (.ok none, s') ∧ Past idle s' := by
  cases hloaded : s.loaded with
  | true =>
    have hrows := h.rows hloaded
    exact ⟨s, (next_of_loaded _ hloaded).trans (hand_of_past hrows), h⟩
  | false =>
    obtain ⟨rows, d, hload, hlength, hspent⟩ := L.spent db h.spent
    have hrows : rows.length ≤ s.position := hlength ▸ h.idle
    refine ⟨{ s with rows := rows, loaded := true, child := d }, ?_, hspent, h.idle, fun _ => hrows⟩
    rw [Buffered.next, hloaded, if_neg (by simp), hload]
    exact hand_of_past (s := { s with rows := rows, loaded := true, child := d }) hrows

theorem hand_full (h : Full idle s) (hloaded : s.loaded = true)
    {r : Except QueryError (Option Tuple)} (hhand : s.hand = (r, s')) :
    Full idle s' ∧ (r = .ok none → Past idle s') := by
  obtain ⟨-, -, hchild, -, hrows⟩ := hand_keeps hhand
  obtain ⟨hspent, hidle⟩ := h hloaded
  refine ⟨fun _ => ⟨hchild ▸ hspent, hrows ▸ hidle⟩, ?_⟩
  rintro rfl
  obtain ⟨rfl, hrow⟩ := hand_none hhand
  have hle := List.getElem?_eq_none_iff.1 hrow
  exact ⟨hspent, hidle.trans hle, fun _ => hle⟩

theorem next_full (L : Idle loader.load idle) {D : Storage → Prop} {db : Storage} (hdb : D db)
    (hc : c.Exhausts D s.child) (h : Full idle s) {r : Except QueryError (Option Tuple)}
    (hnext : Buffered.next (loader.load db) s = (r, s')) :
    Full idle s' ∧ (r = .ok none → Past idle s') := by
  unfold Buffered.next at hnext
  split at hnext
  · next hloaded => exact hand_full h hloaded hnext
  · next hloaded =>
    split at hnext
    · obtain ⟨rfl, rfl⟩ := Prod.mk.inj hnext
      exact ⟨fun h => absurd h hloaded, fun h => by simp at h⟩
    · next rows d hload =>
      obtain ⟨hidle, a, hreach, ha⟩ := L.loaded hload
      exact hand_full (fun _ => ⟨hc (.of_reaches hdb hreach) hdb ha, hidle⟩) rfl hnext

theorem Full.step (hfull : Full idle s) (L : Idle loader.load idle) {D : Storage → Prop}
    {db : Storage} (hdb : D db) (hc : c.Exhausts D s.child)
    (h : (Operator.buffered kind orderedBy label c profile loader).Step db .any s s') :
    Full idle s' := by
  refine h.rec_calls ?rewind ?next ?mark ?reset ?cleanUp
  case rewind =>
    intro r h _
    cases hcheck : s.status.check kind with
    | error e =>
      obtain ⟨-, rfl⟩ := Prod.mk.inj ((rewind_of_unprepared c.rewind hcheck).symm.trans h)
      exact hfull
    | ok _ =>
      obtain ⟨-, rfl⟩ := Prod.mk.inj ((rewind_of_prepared c.rewind hcheck).symm.trans h)
      exact fun h => by simp at h
  case next => exact fun r h _ => (next_full L hdb hc hfull h).1
  case mark =>
    intro r _ h _
    obtain ⟨-, rfl⟩ := Prod.mk.inj h
    exact hfull
  case reset =>
    intro r _ h _
    obtain ⟨p, rfl⟩ := reset_keeps h
    exact hfull
  case cleanUp =>
    rintro - rfl
    exact fun h => by simp [cleanUp, Operator.buffered] at h

/-- A buffer that was started is spent when it gives no tuple: what it could load again is nothing
but what it is past already. -/
theorem exhausts (loads : ∀ db, Loads c db (loader.load db)) (L : Idle loader.load idle)
    (hc : c.Exhausts D s₀.child) (h₀ : s₀.loaded = false) :
    (Operator.buffered kind orderedBy label c profile loader).Exhausts D s₀ := by
  intro s hs db s' hdb h
  have hrun : c.ReachesOver D s₀.child (Buffered.child s) ∧ Full idle s := by
    refine hs.keeps (I := fun a : Buffered c.State =>
      c.ReachesOver D s₀.child a.child ∧ Full idle a) (fun hdb ha hstep => ?_)
      ⟨.refl, fun h => by simp [h₀] at h⟩
    have hreach := (step_keeps (loads _) hstep).1
    exact ⟨ha.1.trans (.of_reaches hdb hreach), ha.2.step L hdb (hc.reaches ha.1) hstep⟩
  have hpast : Past idle s' := (next_full L hdb (hc.reaches hrun.1) hrun.2 h).2 rfl
  refine .of_invariant (o := .buffered kind orderedBy label c profile loader)
    (Past idle) (fun {a} db ha => ?_) (fun {a} ha => ⟨ha.spent, ha.idle, ha.rows⟩)
    (fun {a} ha => ⟨ha.spent.cleanUp, ha.idle, fun h => ?_⟩) hpast
  · obtain ⟨a', hnext, ha'⟩ := ha.next L db
    rw [show (Operator.buffered kind orderedBy label c profile loader).next db a = _ from hnext]
    exact ⟨rfl, ha'⟩
  · simp [cleanUp, Operator.buffered] at h

end Buffered

theorem Sorting.idle (keys : List OrderKey) (c : Operator) :
    Buffered.Idle (Sorting.load keys c) 0 :=
  .ofFold (collect · keys) [] (fun rows => .ok (arrange keys rows))
    (fun db s => by
      rw [load]
      rcases Buffered.fold (collect (c.status s).schema keys) (c.next db) 
        (c.remaining db s + 1) [] s
        with ⟨_ | _, _⟩ <;> rfl)
    ⟨_, rfl, by simp [arrange]⟩ fun _ => Nat.zero_le _

namespace Group

variable {groupBy calls : List Expr}

theorem startAll_ok (h : ∀ e ∈ calls, e.isAggregate = true) : ∃ as, startAll calls = .ok as := by
  induction calls with
  | nil => exact ⟨[], rfl⟩
  | cons e es ih =>
    obtain ⟨he, hes⟩ := List.forall_mem_cons.1 h
    obtain ⟨as, has⟩ := ih hes
    cases e with
    | aggregate f d e => exact ⟨_, by rw [startAll, Expr.aggregateCall?, has]; rfl⟩
    | aggregateAll f d => exact ⟨_, by rw [startAll, Expr.aggregateCall?, has]; rfl⟩
    | _ => exact absurd he (by simp [Expr.isAggregate])

/-- A grouping of no rows has no rows, but for the one row of a grouping without keys. -/
theorem idle (h : ∀ e ∈ calls, e.isAggregate = true) (c : Operator) :
    Buffered.Idle (Group.load groupBy calls c) (if groupBy.isEmpty then 1 else 0) := by
  refine .ofFold (step · groupBy calls) [] (finish groupBy calls) (fun _ _ => rfl) ?_
    fun {b rows} hb => ?_
  · obtain ⟨as, has⟩ := startAll_ok h
    unfold finish
    split
    · next hempty =>
      rw [has]
      exact ⟨_, rfl, by simp_all⟩
    · next hempty => exact ⟨_, rfl, by simp_all⟩
  · unfold finish at hb
    split at hb
    · obtain ⟨as, -, hb⟩ := Except.bind_eq_ok.1 hb
      obtain rfl := Except.ok.inj hb
      split <;> simp
    · next hsome =>
      obtain rfl := Except.ok.inj hb
      split
      · next hkeys =>
        rw [List.length_map, Nat.one_le_iff_ne_zero, Ne, List.length_eq_zero_iff]
        simpa [hkeys] using hsome
      · exact Nat.zero_le _

end Group

theorem Plan.exhausts (p : Plan) (hcalls : ∀ e ∈ p.entries, e.isAggregate = true)
    {s s' : p.operator.State} (h : p.operator.rewind s = (.ok (), s')) :
    p.operator.Exhausts D s' := by
  induction p with
  | scan => exact Scan.exhausts s'
  | values => exact Values.exhausts s'
  | filter _ _ ih => exact Filter.exhausts (ih hcalls (Wrapped.rewind_ok h))
  | project _ _ ih => exact Project.exhausts (ih hcalls (Wrapped.rewind_ok h))
  | rename _ _ ih => exact Rename.exhausts (ih hcalls (Wrapped.rewind_ok h))
  | barrier _ ih => exact Barrier.exhausts (ih hcalls (Wrapped.rewind_ok h))
  | limit => exact Limit.exhausts s'
  | join => exact Join.exhausts s'
  | sort keys c ih =>
    obtain ⟨hchild, hloaded, -⟩ := Buffered.rewind_ok h
    exact Buffered.exhausts (fun db => Sorting.loads keys c.operator db)
      (Sorting.idle keys c.operator) (ih hcalls hchild) hloaded
  | group keys calls c ih =>
    obtain ⟨hchild, hloaded, -⟩ := Buffered.rewind_ok h
    obtain ⟨hown, hrest⟩ := List.forall_mem_append.1 hcalls
    exact Buffered.exhausts (fun db => Group.loads keys calls.calls c.operator db)
      (Group.idle hown c.operator) (ih hrest hchild) hloaded

namespace Tree

/-- Calls that go on with a run lead from a tree to another, over any storages. -/
def Continues (t t' : Tree) : Prop :=
  ∃ s, t.plan.operator.Continues t.state s ∧ t' = { t with state := s }

/-- Once a prepared tree, in some run, has no tuples left, it has none until it is started again or
goes back to a mark: not after a clean-up or a new mark, and whatever becomes of the storage. -/
theorem spent_of_next_none {t t₀ t₁ t₂ t₃ t₄ t₅ : Tree} (hprep : t.prepare = (.ok (), t₀))
    (hbefore : t₀.Runs (fun _ => True) t₁) (hstart : t₁.rewind = (.ok (), t₂))
    (hrun : t₂.Runs (fun _ => True) t₃) {db : Storage} (hnone : t₃.next db = (.ok none, t₄))
    (hlater : t₄.Continues t₅) : ∀ db, (t₅.next db).1 = .ok none := by
  obtain ⟨s₀, hs₀, rfl⟩ := prepare_eq hprep
  obtain ⟨s₁, -, rfl⟩ := hbefore
  obtain ⟨s₂, hs₂, rfl⟩ := rewind_eq hstart
  obtain ⟨s₃, hs₃, rfl⟩ := hrun
  obtain ⟨s₄, hs₄, rfl⟩ := next_eq hnone
  obtain ⟨s₅, hs₅, rfl⟩ := hlater
  have hexhausts : t.plan.operator.Exhausts (fun _ => True) s₂ :=
    t.plan.exhausts (t.plan.isAggregate_of_prepare hs₀) hs₂
  exact fun db => hexhausts hs₃ trivial hs₄ hs₅ db

/-- The number of rows of the table `t`, one row even when the table has none. -/
def counted : Tree :=
  group [] [("n", .aggregateAll .count false)]
    (scan ⟨"t", ⟨[⟨"a", some "t", .integer⟩]⟩, .unknown 1⟩ none)

/-- What was counted is given up, and there is another row to count. -/
theorem spent_of_next_none_counted : ∃ t₀ t₁ t₂ t₃ t₄ : Tree, ∃ db : Storage,
    counted.prepare = (.ok (), t₀) ∧ t₀.rewind = (.ok (), t₁) ∧ t₁.Runs (fun _ => True) t₂ ∧
      t₂.next db = (.ok none, t₃) ∧ t₃.Continues t₄ ∧
        (t₄.next (db.changes [.insert "t" [.int 2]]).2).1 = .ok none := by
  let db := ((Storage.create 2).changes
    [.createTable "t" [("a", .integer)], .insert "t" [.int 1]]).2
  let t₀ := counted.prepare.2
  let t₁ := t₀.rewind.2
  let t₂ := (t₁.next db).2
  let t₃ := (t₂.next db).2
  have hprep : counted.prepare = (.ok (), t₀) := Prod.ext rfl rfl
  have hstart : t₀.rewind = (.ok (), t₁) := Prod.ext rfl rfl
  have hrun : t₁.Runs (fun _ => True) t₂ := ⟨_, .of_reaches trivial
    (.next rfl (.inl rfl) : t₁.plan.operator.Reaches db .any _ _), rfl⟩
  have hnone : t₂.next db = (.ok none, t₃) := Prod.ext rfl rfl
  have hlater : t₃.Continues { t₃ with state := t₃.plan.operator.cleanUp t₃.state } :=
    ⟨_, .single ⟨db, .cleanUp, rfl, rfl⟩, rfl⟩
  exact ⟨t₀, t₁, t₂, t₃, _, db, hprep, hstart, hrun, hnone, hlater,
    spent_of_next_none hprep ⟨_, .refl, rfl⟩ hstart hrun hnone hlater _⟩

end Tree

end RelQuery
