import RelQuery.Proofs.Rerun
import RelQuery.Tree

namespace RelQuery

open Join (Agree)

/-- What looks at the profile of a status alone is the same for equal profiles. -/
theorem Status.congr_profile {α : Type} (f : Status → α) (hf : ∀ p m n, f ⟨p, m⟩ = f ⟨p, n⟩)
    {a b : Status} (h : a.profile = b.profile) : f a = f b := by
  obtain ⟨p, m⟩ := a
  obtain ⟨q, n⟩ := b
  obtain rfl : p = q := h
  exact hf p m n

section Preparation

variable {c left right : Operator} {k : Config} {R : c.State → c.State → Prop}

def Wrapped.Same {κ σ : Type} (R : σ → σ → Prop) (s s' : Wrapped κ σ) : Prop :=
  (s.status.profile, s.settled) = (s'.status.profile, s'.settled) ∧ R s.child s'.child

def Buffered.Same {σ : Type} (R : σ → σ → Prop) (s s' : Buffered σ) : Prop :=
  s.status.profile = s'.status.profile ∧ R s.child s'.child

def Limit.Same {σ : Type} (R : σ → σ → Prop) (s s' : Limit.State σ) : Prop :=
  s.status.profile = s'.status.profile ∧ R s.child s'.child

def Join.Same (R : left.State → left.State → Prop) (S : right.State → right.State → Prop)
    (s s' : Join.State left.State right.State) : Prop :=
  s'.settled = s.settled ∧ R s.left s'.left ∧ S s.right s'.right

variable (hR : ∀ {d d'}, R d d' → (c.status d).profile = (c.status d').profile)

include hR

theorem Wrapped.prepare_same {κ : Type} {kind : OperatorKind} {label : String} {marks : Bool}
    {refusal : StateError} {orderedBy : List OrderKey} {body : Wrapped.Body κ c}
    (hbody : ∀ p m n, body.settle k ⟨p, m⟩ = body.settle k ⟨p, n⟩) {s s' : Wrapped κ c.State}
    (hc : Agree R (c.prepare k s.child) (c.prepare k s'.child)) :
    Agree (Wrapped.Same R)
      ((Operator.wrapped kind label marks refusal orderedBy c body).prepare k s)
      ((Operator.wrapped kind label marks refusal orderedBy c body).prepare k s') := by
  change Agree _ (Wrapped.prepare (c.prepare k) (fun s => body.settle k (c.status s)) s)
    (Wrapped.prepare (c.prepare k) (fun s => body.settle k (c.status s)) s')
  unfold Wrapped.prepare
  generalize c.prepare k s.child = x at hc ⊢
  generalize c.prepare k s'.child = x' at hc ⊢
  cases hc with
  | error e a b => exact .error ..
  | @ok _ d d' h =>
    dsimp only
    rw [Status.congr_profile (body.settle k) hbody (hR h)]
    cases body.settle k (c.status d') with
    | error e => exact .error ..
    | ok p => exact .ok _ ⟨rfl, h⟩

theorem Buffered.prepare_same {kind : OperatorKind} {orderedBy : List OrderKey} {label : String}
    {profile : Config → Status → Except QueryError Profile} {loader : Loader c}
    (hprofile : ∀ p m n, profile k ⟨p, m⟩ = profile k ⟨p, n⟩) {s s' : Buffered c.State}
    (hc : Agree R (c.prepare k s.child) (c.prepare k s'.child)) :
    Agree (Buffered.Same R)
      ((Operator.buffered kind orderedBy label c profile loader).prepare k s)
      ((Operator.buffered kind orderedBy label c profile loader).prepare k s') := by
  change Agree _ (Buffered.prepare (c.prepare k) (fun s => profile k (c.status s)) s)
    (Buffered.prepare (c.prepare k) (fun s => profile k (c.status s)) s')
  unfold Buffered.prepare
  generalize c.prepare k s.child = x at hc ⊢
  generalize c.prepare k s'.child = x' at hc ⊢
  cases hc with
  | error e a b => exact .error ..
  | @ok _ d d' h =>
    dsimp only
    rw [Status.congr_profile (profile k) hprofile (hR h)]
    cases profile k (c.status d') with
    | error e => exact .error ..
    | ok p => exact .ok _ ⟨rfl, h⟩

theorem Limit.prepare_same {limit : Option Nat} {offset : Nat} {s s' : State c.State}
    (hc : Agree R (c.prepare k s.child) (c.prepare k s'.child)) :
    Agree (Limit.Same R) (Limit.prepare limit offset c k s)
      (Limit.prepare limit offset c k s') := by
  unfold Limit.prepare
  generalize c.prepare k s.child = x at hc ⊢
  generalize c.prepare k s'.child = x' at hc ⊢
  cases hc with
  | error e a b => exact .error ..
  | ok _ h =>
    have hprofile := Status.congr_profile (profile limit offset) (fun _ _ _ => rfl) (hR h)
    exact .ok _ ⟨congrArg some hprofile, h⟩

omit hR in
variable (left right) in
theorem Join.prepare_same {kind : JoinKind} {predicate : Option Expr} {swapped : Bool}
    {R : left.State → left.State → Prop} {S : right.State → right.State → Prop}
    (hR : ∀ {d d'}, R d d' → (left.status d).profile = (left.status d').profile)
    (hS : ∀ {d d'}, S d d' → (right.status d).profile = (right.status d').profile)
    {s s' : State left.State right.State}
    (hl : Agree R (left.prepare k s.left) (left.prepare k s'.left))
    (hr : Agree S (right.prepare k s.right) (right.prepare k s'.right)) :
    Agree (Join.Same R S) (Join.prepare kind predicate swapped left right k s)
      (Join.prepare kind predicate swapped left right k s') := by
  unfold Join.prepare
  generalize left.prepare k s.left = x at hl ⊢
  generalize left.prepare k s'.left = x' at hl ⊢
  cases hl with
  | error e a b => exact .error ..
  | @ok _ l l' hleft =>
    generalize right.prepare k s.right = y at hr ⊢
    generalize right.prepare k s'.right = y' at hr ⊢
    cases hr with
    | error e a b => exact .error ..
    | @ok _ r r' hright =>
      have hls : (left.status l).schema = (left.status l').schema :=
        Status.congr_profile Status.schema (fun _ _ _ => rfl) (hR hleft)
      have hrs : (right.status r).schema = (right.status r').schema :=
        Status.congr_profile Status.schema (fun _ _ _ => rfl) (hS hright)
      have hprofile : profile k kind predicate swapped (left.status l) (right.status r) =
          profile k kind predicate swapped (left.status l') (right.status r') :=
        (Status.congr_profile (profile k kind predicate swapped · _) (fun _ _ _ => rfl)
          (hR hleft)).trans
          (Status.congr_profile (profile k kind predicate swapped _ ·) (fun _ _ _ => rfl)
            (hS hright))
      dsimp only
      rw [hprofile, hls, hrs]
      cases checkKind kind swapped with
      | error e => exact .error ..
      | ok _ =>
        cases profile k kind predicate swapped (left.status l') (right.status r') with
        | error e => exact .error ..
        | ok p => exact .ok _ ⟨rfl, hleft, hright⟩

end Preparation

namespace Plan

/-- Two states of a plan in which the same is settled for every operator. -/
def Same : (p : Plan) → p.operator.State → p.operator.State → Prop
  | scan .., s, s' => (Leaf.status s).profile = (Leaf.status s').profile
  | values .., s, s' => (Leaf.status s).profile = (Leaf.status s').profile
  | filter _ c, s, s' | project _ c, s, s' | rename _ c, s, s' | barrier c, s, s' =>
    Wrapped.Same c.Same s s'
  | sort _ c, s, s' | group _ _ c, s, s' => Buffered.Same c.Same s s'
  | limit _ _ c, s, s' => Limit.Same c.Same s s'
  | join _ _ _ l r, s, s' => Join.Same l.Same r.Same s s'

variable {p : Plan} {k : p.Settings} {s s' : p.operator.State}

theorem Same.profile (h : p.Same s s') :
    (p.operator.status s).profile = (p.operator.status s').profile := by
  cases p with
  | scan | values => exact h
  | filter | project | rename | barrier => exact congrArg Prod.fst h.1
  | sort | group | limit => exact h.1
  | join => exact (congrArg Prod.fst h.1).symm

/-- Preparation has the same result in all states of a plan, and settles the same. -/
theorem prepareWith_same (p : Plan) (k : p.Settings) (s s' : p.operator.State) :
    Agree p.Same (p.prepareWith k s) (p.prepareWith k s') := by
  induction p with
  | scan t q => exact .ok () rfl
  | values schema rows =>
    change Agree _ (Leaf.prepare (Values.profile k schema rows) s)
      (Leaf.prepare (Values.profile k schema rows) s')
    unfold Leaf.prepare
    cases Values.profile k schema rows with
    | error e => exact .error ..
    | ok q => exact .ok () rfl
  | filter _ c ih | project _ c ih | rename _ c ih | barrier c ih =>
    exact Wrapped.prepare_same (c := c.operator.preparedBy (c.prepareWith k.2)) Same.profile
      (fun _ _ _ => rfl) (ih _ _ _)
  | sort _ c ih | group _ _ c ih =>
    exact Buffered.prepare_same (c := c.operator.preparedBy (c.prepareWith k.2)) Same.profile
      (fun _ _ _ => rfl) (ih _ _ _)
  | limit n m c ih =>
    exact Limit.prepare_same (c := c.operator.preparedBy (c.prepareWith k.2)) Same.profile
      (ih _ _ _)
  | join kind q swapped l r ihl ihr =>
    exact Join.prepare_same (l.operator.preparedBy (l.prepareWith k.2.1))
      (r.operator.preparedBy (r.prepareWith k.2.2)) Same.profile Same.profile (ihl _ _ _)
        (ihr _ _ _)

theorem Same.alike (h : p.Same s s') (db : Storage) : p.operator.Alike db s s' := by
  have schema : ∀ {q : Plan} {a b : q.operator.State}, q.Same a b →
      (q.operator.status a).schema = (q.operator.status b).schema := fun h =>
    Status.congr_profile Status.schema (fun _ _ _ => rfl) h.profile
  induction p with
  | scan | values => exact Leaf.alike h
  | filter q c ih =>
    exact (Filter.passes q c.operator db).alike (c.regular db).settled h.1 (schema h.2) (ih h.2)
  | project items c ih =>
    exact (Project.passes (c.regular db).settled items).alike (c.regular db).settled h.1
      (schema h.2) (ih h.2)
  | rename t c ih =>
    exact (Rename.passes t c.operator db).alike (c.regular db).settled h.1 (schema h.2) (ih h.2)
  | barrier c ih =>
    exact (Barrier.passes c.operator db).alike (c.regular db).settled h.1 (schema h.2) (ih h.2)
  | limit n m c ih =>
    exact (Limit.passes n m c.operator db).alike (c.regular db).settled h.1 (schema h.2) (ih h.2)
  | sort keys c ih =>
    exact Buffered.alike (Sorting.loads keys c.operator db) (c.regular db).settled h.1
      (schema h.2) (ih h.2)
  | group keys calls c ih =>
    exact Buffered.alike (Group.loads keys calls.calls c.operator db) (c.regular db).settled h.1
      (schema h.2) (ih h.2)
  | join kind q swapped l r ihl ihr =>
    -- The right input is started again in the course of a run, from states that differ.
    refine Join.alike (l.regular db).ends (r.regular db).ends h.1 (ihl h.2.1) fun hx hx' => ?_
    have hleft := ((r.regular db).replays _).alike hx
    have hright := ((r.regular db).replays _).alike hx'
    exact hleft.trans ((ihr h.2.2).trans hright.symm)

end Plan

namespace Report

theorem explainAt_congr {kind : OperatorKind} {label : String} {marks : Bool}
    {orderedBy : List OrderKey} {a b : Status} {xs ys : List Report} (h : a.profile = b.profile)
    (hxs : ∀ d, explainAll d xs = explainAll d ys) (d : Nat) :
    explainAt d (.node kind label a marks orderedBy xs) =
      explainAt d (.node kind label b marks orderedBy ys) := by
  simp only [explainAt, h, hxs]

theorem explainAll_congr {x y : Report} (h : ∀ d, explainAt d x = explainAt d y) (d : Nat) :
    explainAll d [x] = explainAll d [y] := by
  simp only [explainAll, h]

end Report

namespace Plan

variable {p : Plan} {s s' : p.operator.State}

theorem Same.explainAt (h : p.Same s s') (d : Nat) :
    (p.operator.report s).explainAt d = (p.operator.report s').explainAt d := by
  induction p generalizing d with
  | scan | values => exact Report.explainAt_congr h (fun _ => rfl) d
  | filter _ c ih | project _ c ih | rename _ c ih | barrier c ih =>
    exact Report.explainAt_congr (congrArg Prod.fst h.1) (Report.explainAll_congr (ih h.2)) d
  | sort _ c ih | group _ _ c ih | limit _ _ c ih =>
    exact Report.explainAt_congr h.1 (Report.explainAll_congr (ih h.2)) d
  | join _ _ _ l r ihl ihr =>
    refine Report.explainAt_congr (congrArg Prod.fst h.1).symm (fun d => ?_) d
    simp only [Report.explainAll, ihl h.2.1 d, ihr h.2.2 d]

theorem Same.facts_nodes (h : p.Same s s') (k : p.Settings) :
    (Tree.nodesOf p k s).map Tree.facts = (Tree.nodesOf p k s').map Tree.facts := by
  have root : ∀ {q : Plan} {a b : q.operator.State} (k : q.Settings), q.Same a b →
      Tree.facts ⟨q, k, a⟩ = Tree.facts ⟨q, k, b⟩ := fun k h => by
    simp only [Tree.facts, Tree.cursor, Cursor.status, Cursor.explain, Cursor.report,
      Report.explain, h.profile, h.explainAt]
  induction p with
  | scan | values => exact congrArg (· :: []) (root k h)
  | filter _ c ih | project _ c ih | rename _ c ih | barrier c ih | sort _ c ih | group _ _ c ih
  | limit _ _ c ih =>
    exact congrArg₂ List.cons (root k h) (ih h.2 k.2)
  | join _ _ _ l r ihl ihr =>
    simp only [Tree.nodesOf, List.map_cons, List.map_append]
    exact congrArg₂ List.cons (root k h) (congrArg₂ List.append (ihl h.2.1 k.2.1) (ihr h.2.2 k.2.2))

end Plan

namespace Tree

/-- A copy is prepared with the same result as the plan itself, in whatever state that is. Where
they are prepared, all their operators show the same, and they give the same tuples or the same
error. -/
theorem duplicate_prepare (t : Tree) :
    t.duplicate.prepare.1 = t.prepare.1 ∧
      (t.prepare.1 = .ok () →
        t.duplicate.prepare.2.nodes.map facts = t.prepare.2.nodes.map facts ∧
          ∀ db, t.duplicate.prepare.2.collect db = t.prepare.2.collect db) := by
  rw [duplicate_eq]
  obtain ⟨p, k, s⟩ := t
  simp only [prepare, nodes, collect, cursor]
  have hagree := p.prepareWith_same k p.operator.start s
  generalize p.prepareWith k p.operator.start = x at hagree ⊢
  generalize p.prepareWith k s = y at hagree ⊢
  cases hagree with
  | error e a b => exact ⟨rfl, fun h => by simp at h⟩
  | ok _ h =>
    exact ⟨rfl, fun _ => ⟨h.facts_nodes k, fun db => Cursor.collect_congr (h.alike db)⟩⟩

/-- A join with exchanged columns and settings of its own, over a limited input with others, in the
middle of its first run. -/
def halfRun : Tree :=
  let rows := values ⟨[⟨"a", none, .bigInt⟩]⟩ [[.int 1], [.int 2]]
  let limited := (limit (some 1) 0 rows).configure { Config.default with defaultSelectivity := 0.5 }
  let t := ((join .leftOuter none rows limited).setSwapped true).prepare.2
  { t with state := (t.plan.operator.next ⟨1, []⟩ (t.plan.operator.rewind t.state).2).2 }

theorem duplicate_prepare_halfRun :
    halfRun.duplicate.prepare.1 = halfRun.prepare.1 ∧ halfRun.prepare.1 = .ok () ∧
      halfRun.duplicate.prepare.2.nodes.map facts = halfRun.prepare.2.nodes.map facts ∧
        ∀ db, halfRun.duplicate.prepare.2.collect db = halfRun.prepare.2.collect db := by
  have hok : halfRun.prepare.1 = .ok () := rfl
  obtain ⟨hsame, hall⟩ := duplicate_prepare halfRun
  exact ⟨hsame, hok, hall hok⟩

end Tree

end RelQuery
