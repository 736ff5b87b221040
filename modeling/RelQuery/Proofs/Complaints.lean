import RelQuery.Plan
import RelQuery.Proofs.Computations

namespace RelQuery

variable {α β σ τ : Type} {S S' : StateError → Prop}

/-- An error is not about the state of an operator, or is one of these. -/
def QueryError.Among (S : StateError → Prop) : QueryError → Prop
  | invalidState e => S e
  | _ => True

/-- What fails for the state of an operator, fails with one of these errors. -/
abbrev Complains (S : StateError → Prop) (x : Except QueryError α) : Prop :=
  Except.Meets (fun _ => True) (QueryError.Among S) x

theorem Complains.mono {x : Except QueryError α} (h : Complains S x) (hS : ∀ e, S e → S' e) :
    Complains S' x :=
  Except.Meets.imp h (fun _ h => h) fun e he => by
    cases e with
    | invalidState e => exact hS e he
    | _ => trivial

theorem complains_evaluation (x : Except EvalError α) : Complains S (x.mapError .evaluation) := by
  cases x <;> trivial

theorem complains_mapM {f : α → Except QueryError β} {as : List α}
    (h : ∀ a ∈ as, Complains S (f a)) : Complains S (as.mapM f) :=
  (Except.meets_mapM h).imp (fun _ _ => trivial) fun _ h => h

theorem Scan.pull_complains {test : Tuple → Except QueryError Bool} {db : Storage} {table : String}
    (htest : ∀ t, Complains S (test t)) (fuel : Nat) (p : Position) :
    Complains S (pull test db table fuel p).1 := by
  induction fuel generalizing p with
  | zero => trivial
  | succ fuel ih =>
    rw [pull]
    split
    · trivial
    · split
      · trivial
      · next t _ =>
        have ht := htest t
        split
        · next h => rwa [h] at ht
        · trivial
        · exact ih _

section Inputs

variable {next : σ → Outcome (Option Tuple) σ}

theorem Filter.pull_complains {test : Tuple → Except QueryError Bool}
    (hnext : ∀ s, Complains S (next s).1) (htest : ∀ t, Complains S (test t)) (fuel : Nat) (s : σ) :
    Complains S (pull test next fuel s).1 := by
  induction fuel generalizing s with
  | zero => trivial
  | succ fuel ih =>
    have hs := hnext s
    rw [pull]
    split
    · next h => rwa [h] at hs
    · trivial
    · next t s' _ =>
      have ht := htest t
      split
      · next h => rwa [h] at ht
      · trivial
      · exact ih s'

theorem Limit.skip_complains (hnext : ∀ s, Complains S (next s).1) (n : Nat) (k : Counters)
    (s : σ) :
    Complains S (skip next n k s).1 := by
  induction n generalizing k s with
  | zero => trivial
  | succ n ih =>
    have hs := hnext s
    rw [skip]
    split
    · next h => rwa [h] at hs
    · trivial
    · exact ih _ _

theorem Limit.next_complains {limit : Option Nat} {offset : Nat}
    (hnext : ∀ s, Complains S (next s).1) (s : State σ) :
    Complains S (Limit.next limit offset next s).1 := by
  have hskip := skip_complains hnext (offset - s.counters.skipped) s.counters s.child
  unfold Limit.next
  split
  · trivial
  · split
    · next h => rwa [h] at hskip
    · trivial
    · next d _ =>
      have hd := hnext d
      split
      · next h => rwa [h] at hd
      · trivial
      · trivial

namespace Buffered

theorem fold_complains {step : β → Tuple → Except QueryError β}
    (hnext : ∀ s, Complains S (next s).1) (hstep : ∀ b t, Complains S (step b t)) (fuel : Nat)
    (b : β)
    (s : σ) : Complains S (fold step next fuel b s).1 := by
  induction fuel generalizing b s with
  | zero => trivial
  | succ fuel ih =>
    have hs := hnext s
    rw [fold]
    split
    · next h => rwa [h] at hs
    · trivial
    · next t s' _ =>
      have ht := hstep b t
      split
      · next h => rwa [h] at ht
      · exact ih _ s'

theorem next_complains {load : σ → Outcome (List Tuple) σ} (hload : ∀ s, Complains S (load s).1)
    (s : Buffered σ) : Complains S (Buffered.next load s).1 := by
  have hhand : ∀ s : Buffered σ, Complains S s.hand.1 := fun s => by
    unfold hand
    split <;> trivial
  have hs := hload s.child
  unfold Buffered.next
  split
  · exact hhand s
  · split
    · next h => rwa [h] at hs
    · exact hhand _

end Buffered

end Inputs

theorem Filter.next_complains {q : Expr} {c : Operator} {db : Storage}
    (hnext : ∀ s, Complains S (c.next db s).1) (s : Wrapped Unit c.State) :
    Complains S (Filter.next q c db s).1 := by
  have htest : ∀ t, Complains S (Operator.accepts s.status.schema q t) := fun _ =>
    complains_evaluation _
  exact pull_complains hnext htest (c.remaining db s.child + 1) s.child

theorem Project.next_complains {c : Operator} {db : Storage}
    (hnext : ∀ s, Complains S (c.next db s).1) (s : Wrapped (List Output) c.State) :
    Complains S (Project.next c db s).1 := by
  have hs := hnext s.child
  have hrow : ∀ (t : Tuple) (schema : Schema) (outputs : List Output),
      Complains S (outputRow schema outputs t.values) := fun t schema outputs =>
    complains_mapM fun o _ => by
      cases o with
      | column i => trivial
      | computed e => exact complains_evaluation _
  unfold Project.next
  split
  · next h => rwa [h] at hs
  · trivial
  · next t d _ =>
    have ht := hrow t (c.status d).schema s.settled
    split
    · next h => rwa [h] at ht
    · trivial

theorem Rename.next_complains {c : Operator} {db : Storage}
    (hnext : ∀ s, Complains S (c.next db s).1) (s : Wrapped Unit c.State) :
    Complains S (Rename.next c db s).1 := by
  have hs := hnext s.child
  unfold Rename.next
  split
  · trivial
  · next h => rwa [h] at hs

namespace Group

variable {calls : List Expr} (hcalls : ∀ e ∈ calls, e.aggregateCall? = none → S (.notAnAggregate e))

include hcalls

theorem startAll_complains : Complains S (startAll calls) := by
  induction calls with
  | nil => trivial
  | cons e es ih =>
    obtain ⟨he, hes⟩ := List.forall_mem_cons.1 hcalls
    rw [startAll]
    split
    · next h => exact he h
    · exact (ih hes).bind fun _ _ => trivial

theorem absorb_complains (env : Environment) (keys : Row) (classes : List Class) :
    Complains S (absorb calls env keys classes) := by
  have hupdate : ∀ as, Complains S (updateAll env as) := fun as =>
    complains_mapM fun _ _ => complains_evaluation _
  induction classes with
  | nil =>
    exact (startAll_complains hcalls).bind fun as _ => (hupdate as).bind fun _ _ => trivial
  | cons c cs ih =>
    rw [absorb]
    split
    · exact (hupdate _).bind fun _ _ => trivial
    · exact ih.bind fun _ _ => trivial

theorem load_complains {groupBy : List Expr} {c : Operator} {db : Storage}
    (hnext : ∀ s, Complains S (c.next db s).1) (s : c.State) :
    Complains S (load groupBy calls c db s).1 := by
  have hstep : ∀ classes t, Complains S (step (c.status s).schema groupBy calls classes t) :=
    fun classes t => (complains_mapM fun _ _ => complains_evaluation _).bind fun keys _ =>
      absorb_complains hcalls _ keys classes
  have hfold := Buffered.fold_complains hnext hstep (c.remaining db s + 1) [] s
  refine hfold.bind fun classes _ => ?_
  unfold finish
  split
  · exact (startAll_complains hcalls).bind fun _ _ => trivial
  · trivial

end Group

theorem Sorting.load_complains {keys : List OrderKey} {c : Operator} {db : Storage}
    (hnext : ∀ s, Complains S (c.next db s).1) (s : c.State) :
    Complains S (load keys c db s).1 := by
  have hstep : ∀ rows t, Complains S (collect (c.status s).schema keys rows t) := fun _ _ =>
    (complains_mapM fun _ _ => complains_evaluation _).bind fun _ _ => trivial
  have hfold := Buffered.fold_complains hnext hstep (c.remaining db s + 1) [] s
  exact hfold.map fun _ _ => trivial

namespace Join

variable {kind : JoinKind} {inputs : Inputs σ τ} {test : Tuple → Tuple → Except QueryError Bool}
  {p : Progress}
  (hleft : ∀ l, Complains S (inputs.nextLeft l).1)
  (hright : ∀ r, Complains S (inputs.nextRight r).1)
  (hstart : ∀ r, Complains S (inputs.rewindRight r).1)

include hstart in
theorem rewindFor_complains (phase : Phase) (p : Progress) (l : σ) (r : τ) :
    Complains S (rewindFor inputs phase p l r).1 := by
  have hr := hstart r
  unfold rewindFor
  split
  · next h => rwa [h] at hr
  · trivial

include hleft hstart in
theorem advance_complains (p : Progress) (l : σ) (r : τ) :
    Complains S (advance kind inputs p l r).1 := by
  have hl := hleft l
  unfold advance
  split
  · next h => rwa [h] at hl
  · exact rewindFor_complains hstart _ _ _ _
  · split
    · exact rewindFor_complains hstart _ _ _ _
    · trivial

include hleft hstart in
theorem endOfRight_complains (matched : Bool) (p : Progress) (l : σ) (r : τ) :
    Complains S (endOfRight kind inputs matched p l r).1 := by
  unfold endOfRight
  split_ifs
  · trivial
  · trivial
  · trivial
  · exact advance_complains hleft hstart p l r

theorem meet_complains (htest : ∀ t u, Complains S (test t u)) (p : Progress) (u : Tuple) :
    Complains S (meet kind test p u).1 := by
  unfold meet
  dsimp only
  split
  · trivial
  · next t _ =>
    have ht := htest t u
    split
    · next h => rwa [h] at ht
    · trivial
    · cases kind <;> trivial

include hleft hright hstart in
theorem step_complains (htest : ∀ t u, Complains S (test t u)) (m n : Nat) (p : Progress) (l : σ)
    (r : τ) : Complains S (step kind inputs test m n p l r).1 := by
  have hr := hright r
  unfold step
  split
  · trivial
  · exact advance_complains hleft hstart p l r
  · split
    · exact advance_complains hleft hstart p l r
    · split
      · next h => rwa [h] at hr
      · exact endOfRight_complains hleft hstart _ _ _ _
      · exact meet_complains htest _ _
  · split <;> trivial
  · split <;> trivial
  · split
    · next h => rwa [h] at hr
    · trivial
    · trivial

theorem run_complains {move : Progress → σ → τ → Step σ τ}
    (hmove : ∀ p l r, Complains S (move p l r).1) (fuel : Nat) (p : Progress) (l : σ) (r : τ) :
    Complains S (run move fuel p l r).1 := by
  induction fuel generalizing p l r with
  | zero => trivial
  | succ fuel ih =>
    have h := hmove p l r
    rw [run]
    split
    · next heq => rwa [heq] at h
    · trivial
    · trivial
    · exact ih _ _ _

theorem matches_complains (predicate : Option Expr) (ls rs : Schema) (t u : Tuple) :
    Complains S (matches? predicate ls rs t u) := by
  cases predicate with
  | none => trivial
  | some p => exact complains_evaluation _

theorem next_complains {predicate : Option Expr} {swapped : Bool} {left right : Operator}
    {db : Storage}
    (hleft : ∀ l, Complains S (left.next db l).1) (hright : ∀ r, Complains S (right.next db r).1)
    (hstart : ∀ r, Complains S (right.rewind r).1) (s : State left.State right.State) :
    Complains S (next kind predicate swapped left right db s).1 := by
  have hmove : ∀ p l r, Complains S
      (move kind predicate left right db s.leftSchema s.rightSchema p l r).1 :=
    step_complains hleft hright hstart (matches_complains predicate _ _) _ _
  have hrun := run_complains hmove (movesLeft left right db s.progress s.left s.right + 1)
    s.progress
    s.left s.right
  unfold next
  dsimp only
  split
  · next h => rwa [h] at hrun
  · trivial
  · trivial

end Join

theorem Status.check_complains (s : Status) {kind : OperatorKind} (h : S (.unprepared kind)) :
    Complains S (s.check kind) := by
  unfold Status.check
  split
  · trivial
  · exact h

section Rewind

variable {kind : OperatorKind} (hkind : S (.unprepared kind)) {f : σ → Outcome Unit σ}
  (hf : ∀ s, Complains S (f s).1)

include hkind

theorem Leaf.rewind_complains (first : α) (s : Leaf α) :
    Complains S (Leaf.rewind kind first s).1 := by
  have hcheck := s.status.check_complains hkind
  unfold Leaf.rewind
  split
  · next h => rwa [h] at hcheck
  · trivial

include hf

theorem Wrapped.rewind_complains (s : Wrapped α σ) : Complains S (Wrapped.rewind kind f s).1 := by
  have hcheck := s.status.check_complains hkind
  unfold Wrapped.rewind
  split
  · next h => rwa [h] at hcheck
  · exact hf _

theorem Buffered.rewind_complains (s : Buffered σ) : Complains S (Buffered.rewind kind f s).1 := by
  have hcheck := s.status.check_complains hkind
  unfold Buffered.rewind
  split
  · next h => rwa [h] at hcheck
  · exact hf _

omit hkind in
theorem Limit.rewind_complains (hkind : S (.unprepared .limit)) (s : State σ) :
    Complains S (Limit.rewind f s).1 := by
  have hcheck := s.status.check_complains hkind
  unfold Limit.rewind
  split
  · next h => rwa [h] at hcheck
  · exact hf _

omit hkind in
theorem Join.rewind_complains (hkind : S (.unprepared .join)) {g : τ → Outcome Unit τ}
    (hg : ∀ r, Complains S (g r).1) (s : State σ τ) : Complains S (Join.rewind f g s).1 := by
  have hcheck := s.status.check_complains hkind
  have hboth : Complains S (both f g { s with status := s.status.restart }).1 := by
    have hleft := hf s.left
    unfold both
    split
    · next h => rwa [h] at hleft
    · exact hg _
  unfold Join.rewind
  split
  · next h => rwa [h] at hcheck
  · split
    · next h => rwa [h] at hboth
    · trivial

end Rewind

namespace Plan

def kind : Plan → OperatorKind
  | scan .. => .scan
  | values .. => .values
  | filter .. => .filter
  | project .. => .project
  | rename .. | barrier _ => .rename
  | sort .. => .sort
  | limit .. => .limit
  | group .. => .group
  | join .. => .join

/-- An operator that is not prepared keeps a plan from being started. -/
inductive Unready : Plan → StateError → Prop
  | root (p : Plan) : Unready p (.unprepared p.kind)
  | child {p c : Plan} {e : StateError} : c ∈ p.children → Unready c e → Unready p e

/-- What can be in the way of the next tuple: the right input of a join that cannot be started, and
a grouping over a call that is no aggregate call. -/
inductive Hindrance : Plan → StateError → Prop
  | right {kind : JoinKind} {predicate : Option Expr} {swapped : Bool} {l r : Plan}
      {e : StateError} :
    r.Unready e → Hindrance (join kind predicate swapped l r) e
  | call {groupBy : List Expr} {calls : AggregateMap} {c : Plan} {e : Expr} :
    e ∈ calls.calls → e.aggregateCall? = none →
      Hindrance (group groupBy calls c) (.notAnAggregate e)
  | child {p c : Plan} {e : StateError} : c ∈ p.children → Hindrance c e → Hindrance p e

/-- A plan that cannot be started complains of an operator in it that is not prepared. -/
theorem rewind_complains (p : Plan) (s : p.operator.State) :
    Complains p.Unready (p.operator.rewind s).1 := by
  have below : ∀ {p c : Plan}, c ∈ p.children →
      (∀ d, Complains c.Unready (c.operator.rewind d).1) →
      ∀ d, Complains p.Unready (c.operator.rewind d).1 :=
    fun hc h d => (h d).mono fun _ => .child hc
  induction p with
  | scan | values => exact Leaf.rewind_complains (.root _) _ s
  | filter _ c ih | project _ c ih | rename _ c ih | barrier c ih =>
    exact Wrapped.rewind_complains (.root _) (below List.mem_cons_self ih) s
  | sort _ c ih | group _ _ c ih =>
    exact Buffered.rewind_complains (.root _) (below List.mem_cons_self ih) s
  | limit _ _ c ih => exact Limit.rewind_complains (below List.mem_cons_self ih) (.root _) s
  | join _ _ _ l r ihl ihr =>
    exact Join.rewind_complains (below List.mem_cons_self ihl) (.root _)
      (below (List.mem_cons_of_mem _ List.mem_cons_self) ihr) s

/-- A plan that is asked for a tuple, prepared or not, complains of such a hindrance or not at
all. -/
theorem next_complains (p : Plan) (db : Storage) (s : p.operator.State) :
    Complains p.Hindrance (p.operator.next db s).1 := by
  have below : ∀ {p c : Plan}, c ∈ p.children →
      (∀ d, Complains c.Hindrance (c.operator.next db d).1) →
      ∀ d, Complains p.Hindrance (c.operator.next db d).1 :=
    fun hc h d => (h d).mono fun _ => .child hc
  induction p with
  | scan table q =>
    have htest : ∀ (schema : Schema) (t : Tuple),
        Complains (scan table q).Hindrance (Scan.accepts schema q t) := fun _ _ => by
      cases q with
      | none => trivial
      | some q => exact complains_evaluation _
    change Complains _ (Scan.next table q db (Status.schema (Leaf.status s)) (Leaf.position s)).1
    exact Scan.pull_complains (htest _) _ _
  | values _ rows =>
    change Complains _ (Values.pull rows (Leaf.position s)).1
    unfold Values.pull
    split <;> trivial
  | filter _ c ih => exact Filter.next_complains (below List.mem_cons_self ih) s
  | project _ c ih => exact Project.next_complains (below List.mem_cons_self ih) s
  | rename _ c ih => exact Rename.next_complains (below List.mem_cons_self ih) s
  | barrier c ih => exact below List.mem_cons_self ih (Wrapped.child s)
  | sort _ c ih =>
    exact Buffered.next_complains (Sorting.load_complains (below List.mem_cons_self ih)) s
  | limit _ _ c ih => exact Limit.next_complains (below List.mem_cons_self ih) s
  | group _ calls c ih =>
    exact Buffered.next_complains (Group.load_complains (fun _ => .call)
      (below List.mem_cons_self ih)) s
  | join _ _ _ l r ihl ihr =>
    exact Join.next_complains (below List.mem_cons_self ihl)
      (below (List.mem_cons_of_mem _ List.mem_cons_self) ihr)
      (fun d => (r.rewind_complains d).mono fun _ => .right) s

end Plan

end RelQuery
