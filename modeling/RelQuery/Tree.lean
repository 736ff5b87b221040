import RelQuery.Plan

namespace RelQuery

def Operator.preparedBy (o : Operator) (f : o.State → Outcome Unit o.State) : Operator :=
  { o with prepare := fun _ => f }

namespace Operator

theorem limit_preparedBy (n : Option Nat) (m : Nat) (c : Operator) (k : Config) :
    (limit n m (c.preparedBy (c.prepare k))).prepare k = (limit n m c).prepare k := by
  funext s
  change Limit.prepare n m (c.preparedBy (c.prepare k)) k s = Limit.prepare n m c k s
  unfold Limit.prepare
  rcases h : c.prepare k s.child with ⟨_ | _, d⟩ <;>
  · rw [show (c.preparedBy (c.prepare k)).prepare k s.child = _ from h]
    rfl

theorem join_preparedBy (kind : JoinKind) (q : Option Expr) (swapped : Bool) (l r : Operator)
    (k : Config) :
    (join kind q swapped (l.preparedBy (l.prepare k)) (r.preparedBy (r.prepare k))).prepare k =
      (join kind q swapped l r).prepare k := by
  funext s
  change Join.prepare kind q swapped (l.preparedBy (l.prepare k)) (r.preparedBy (r.prepare k)) k s =
    Join.prepare kind q swapped l r k s
  unfold Join.prepare
  rcases h : l.prepare k s.left with ⟨_ | _, a⟩
  · rw [show (l.preparedBy (l.prepare k)).prepare k s.left = _ from h]
    rfl
  · rw [show (l.preparedBy (l.prepare k)).prepare k s.left = _ from h]
    rcases h' : r.prepare k s.right with ⟨_ | _, b⟩ <;>
    · rw [show (r.preparedBy (r.prepare k)).prepare k s.right = _ from h']
      rfl

end Operator

namespace Plan

def Settings : Plan → Type
  | scan .. | values .. => Config
  | filter _ c | project _ c | rename _ c | sort _ c | limit _ _ c | group _ _ c | barrier c =>
    Config × c.Settings
  | join _ _ _ l r => Config × l.Settings × r.Settings

def uniform (k : Config) : (p : Plan) → p.Settings
  | scan .. | values .. => k
  | filter _ c | project _ c | rename _ c | sort _ c | limit _ _ c | group _ _ c | barrier c =>
    (k, c.uniform k)
  | join _ _ _ l r => (k, l.uniform k, r.uniform k)

def rootConfig : (p : Plan) → p.Settings → Config
  | scan .., k | values .., k => k
  | filter .., k | project .., k | rename .., k | sort .., k | limit .., k | group .., k
  | barrier _, k => k.1
  | join .., k => k.1

/-- Other settings for the operator at the root alone. -/
def setRoot (k : Config) : (p : Plan) → p.Settings → p.Settings
  | scan .., _ | values .., _ => k
  | filter .., ks | project .., ks | rename .., ks | sort .., ks | limit .., ks | group .., ks
  | barrier _, ks => (k, ks.2)
  | join .., ks => (k, ks.2)

def prepareWith : (p : Plan) → p.Settings → p.operator.State → Outcome Unit p.operator.State
  | scan t q, k => (Operator.scan t q).prepare k
  | values s rows, k => (Operator.values s rows).prepare k
  | filter q c, k => (Operator.filter q (c.operator.preparedBy (c.prepareWith k.2))).prepare k.1
  | project items c, k =>
    (Operator.project items (c.operator.preparedBy (c.prepareWith k.2))).prepare k.1
  | rename t c, k => (Operator.rename t (c.operator.preparedBy (c.prepareWith k.2))).prepare k.1
  | sort keys c, k => (Operator.sort keys (c.operator.preparedBy (c.prepareWith k.2))).prepare k.1
  | limit n m c, k => (Operator.limit n m (c.operator.preparedBy (c.prepareWith k.2))).prepare k.1
  | group keys calls c, k =>
    (Operator.group keys calls (c.operator.preparedBy (c.prepareWith k.2))).prepare k.1
  | join kind q swapped l r, k =>
    (Operator.join kind q swapped (l.operator.preparedBy (l.prepareWith k.2.1))
      (r.operator.preparedBy (r.prepareWith k.2.2))).prepare k.1
  | barrier c, k => (Operator.barrier (c.operator.preparedBy (c.prepareWith k.2))).prepare k.1

/-- With the same settings for all operators, the plan is prepared as a whole. -/
theorem prepareWith_uniform (p : Plan) (k : Config) :
    p.prepareWith (p.uniform k) = p.operator.prepare k := by
  induction p with
  | scan | values => rfl
  | filter _ _ ih | project _ _ ih | rename _ _ ih | sort _ _ ih | group _ _ _ ih | barrier _ ih =>
    rw [prepareWith, uniform, ih]
    rfl
  | limit n m c ih =>
    rw [prepareWith, uniform, ih]
    exact Operator.limit_preparedBy n m c.operator k
  | join kind q swapped l r ihl ihr =>
    rw [prepareWith, uniform, ihl, ihr]
    exact Operator.join_preparedBy kind q swapped l.operator r.operator k

theorem rootConfig_uniform (p : Plan) (k : Config) : p.rootConfig (p.uniform k) = k := by
  cases p <;> rfl

end Plan

/-- A plan with the settings and the states of its operators. -/
structure Tree where
  plan : Plan
  settings : plan.Settings
  state : plan.operator.State

namespace Tree

def prepare (t : Tree) : Except QueryError Unit × Tree :=
  let (r, s) := t.plan.prepareWith t.settings t.state
  (r, { t with state := s })

def rewind (t : Tree) : Except QueryError Unit × Tree :=
  let (r, s) := t.plan.operator.rewind t.state
  (r, { t with state := s })

def next (t : Tree) (db : Storage) : Except QueryError (Option Tuple) × Tree :=
  let (r, s) := t.plan.operator.next db t.state
  (r, { t with state := s })

theorem prepare_eq {t t' : Tree} {r : Except QueryError Unit} (h : t.prepare = (r, t')) :
    ∃ s, t.plan.prepareWith t.settings t.state = (r, s) ∧ t' = { t with state := s } := by
  obtain ⟨hr, rfl⟩ := Prod.mk.inj h
  exact ⟨_, Prod.ext hr rfl, rfl⟩

theorem rewind_eq {t t' : Tree} {r : Except QueryError Unit} (h : t.rewind = (r, t')) :
    ∃ s, t.plan.operator.rewind t.state = (r, s) ∧ t' = { t with state := s } := by
  obtain ⟨hr, rfl⟩ := Prod.mk.inj h
  exact ⟨_, Prod.ext hr rfl, rfl⟩

theorem next_eq {t t' : Tree} {db : Storage} {r : Except QueryError (Option Tuple)}
    (h : t.next db = (r, t')) :
    ∃ s, t.plan.operator.next db t.state = (r, s) ∧ t' = { t with state := s } := by
  obtain ⟨hr, rfl⟩ := Prod.mk.inj h
  exact ⟨_, Prod.ext hr rfl, rfl⟩

def cursor (t : Tree) : Cursor := ⟨t.plan, t.plan.rootConfig t.settings, t.state⟩

def collect (t : Tree) (db : Storage) : Except QueryError (List Tuple) := (t.cursor.collect db).1

/-- The settings of the operator at the root are replaced. -/
def setConfig (t : Tree) (k : Config) : Tree := { t with settings := t.plan.setRoot k t.settings }

/-- The settings of all operators are replaced. -/
def configure (t : Tree) (k : Config) : Tree := { t with settings := t.plan.uniform k }

section Construction

def scan (table : TableInfo) (predicate : Option Expr) : Tree :=
  ⟨.scan table predicate, .default, (Operator.scan table predicate).start⟩

def values (schema : Schema) (rows : List Row) : Tree :=
  ⟨.values schema rows, .default, (Operator.values schema rows).start⟩

def filter (predicate : Expr) (c : Tree) : Tree :=
  ⟨.filter predicate c.plan, (.default, c.settings), (⟨.fresh, (), c.state⟩ : Wrapped Unit _)⟩

def project (items : List SelectItem) (c : Tree) : Tree :=
  ⟨.project items c.plan, (.default, c.settings),
    (⟨.fresh, [], c.state⟩ : Wrapped (List Project.Output) _)⟩

def rename (table : String) (c : Tree) : Tree :=
  ⟨.rename table c.plan, (.default, c.settings), (⟨.fresh, (), c.state⟩ : Wrapped Unit _)⟩

def sort (keys : List OrderKey) (c : Tree) : Tree :=
  ⟨.sort keys c.plan, (.default, c.settings), Buffered.fresh c.state⟩

def limit (limit : Option Nat) (offset : Nat) (c : Tree) : Tree :=
  ⟨.limit limit offset c.plan, (.default, c.settings),
    (⟨.fresh, .zero, none, c.state⟩ : Limit.State _)⟩

def group (groupBy : List Expr) (aggregates : AggregateMap) (c : Tree) : Tree :=
  ⟨.group groupBy aggregates c.plan, (.default, c.settings), Buffered.fresh c.state⟩

def join (kind : JoinKind) (predicate : Option Expr) (l r : Tree) : Tree :=
  ⟨.join kind predicate false l.plan r.plan, (.default, l.settings, r.settings),
    (⟨.fresh, .empty, .empty, .fresh, none, l.state, r.state⟩ : Join.State _ _)⟩

def barrier (c : Tree) : Tree :=
  ⟨.barrier c.plan, (.default, c.settings), (⟨.fresh, (), c.state⟩ : Wrapped Unit _)⟩

/-- Whether a join gives the columns of its right input first. -/
def setSwapped (swapped : Bool) : Tree → Tree
  | ⟨.join kind predicate _ l r, k, s⟩ => ⟨.join kind predicate swapped l r, k, s⟩
  | t => t

end Construction

/-- Builds a plan again, each operator from what it was made of and with its settings. -/
def rebuild : (p : Plan) → p.Settings → Tree
  | .scan t q, k => (scan t q).setConfig k
  | .values s rows, k => (values s rows).setConfig k
  | .filter q c, k => (filter q (rebuild c k.2)).setConfig k.1
  | .project items c, k => (project items (rebuild c k.2)).setConfig k.1
  | .rename t c, k => (rename t (rebuild c k.2)).setConfig k.1
  | .sort keys c, k => (sort keys (rebuild c k.2)).setConfig k.1
  | .limit n m c, k => (limit n m (rebuild c k.2)).setConfig k.1
  | .group keys calls c, k => (group keys calls (rebuild c k.2)).setConfig k.1
  | .join kind q swapped l r, k =>
    ((join kind q (rebuild l k.2.1) (rebuild r k.2.2)).setSwapped swapped).setConfig k.1
  | .barrier c, k => (barrier (rebuild c k.2)).setConfig k.1

def duplicate (t : Tree) : Tree := rebuild t.plan t.settings

/-- The operators of a plan, each with those below it, from the root on. -/
def nodesOf : (p : Plan) → p.Settings → p.operator.State → List Tree
  | .scan t q, k, s => [⟨.scan t q, k, s⟩]
  | .values schema rows, k, s => [⟨.values schema rows, k, s⟩]
  | .filter q c, k, s => ⟨.filter q c, k, s⟩ :: nodesOf c k.2 (Wrapped.child s)
  | .project items c, k, s => ⟨.project items c, k, s⟩ :: nodesOf c k.2 (Wrapped.child s)
  | .rename t c, k, s => ⟨.rename t c, k, s⟩ :: nodesOf c k.2 (Wrapped.child s)
  | .sort keys c, k, s => ⟨.sort keys c, k, s⟩ :: nodesOf c k.2 (Buffered.child s)
  | .limit n m c, k, s => ⟨.limit n m c, k, s⟩ :: nodesOf c k.2 (Limit.State.child s)
  | .group keys calls c, k, s => ⟨.group keys calls c, k, s⟩ :: nodesOf c k.2 (Buffered.child s)
  | .join kind q swapped l r, k, s =>
    ⟨.join kind q swapped l r, k, s⟩ ::
      (nodesOf l k.2.1 (Join.State.left s) ++ nodesOf r k.2.2 (Join.State.right s))
  | .barrier c, k, s => ⟨.barrier c, k, s⟩ :: nodesOf c k.2 (Wrapped.child s)

def nodes (t : Tree) : List Tree := nodesOf t.plan t.settings t.state

/-- What an operator shows of its preparation. -/
structure Facts where
  /-- The schema, the cost and the statistics of the columns. -/
  profile : Option Profile
  config : Config
  explain : String

def facts (t : Tree) : Facts :=
  ⟨t.cursor.status.profile, t.plan.rootConfig t.settings, t.cursor.explain⟩

/-- A copy is the same plan with the same settings, in the state in which plans are built. -/
theorem rebuild_eq (p : Plan) (k : p.Settings) : rebuild p k = ⟨p, k, p.operator.start⟩ := by
  induction p with
  | scan | values => rfl
  | filter _ _ ih | project _ _ ih | rename _ _ ih | sort _ _ ih | limit _ _ _ ih | group _ _ _ ih
  | barrier _ ih =>
    rw [rebuild, ih]
    rfl
  | join _ _ _ _ _ ihl ihr =>
    rw [rebuild, ihl, ihr]
    rfl

theorem duplicate_eq (t : Tree) : t.duplicate = ⟨t.plan, t.settings, t.plan.operator.start⟩ :=
  rebuild_eq t.plan t.settings

end Tree

namespace Cursor

/-- The settings of a cursor are those of all its operators. -/
def tree (c : Cursor) : Tree := ⟨c.plan, c.plan.uniform c.config, c.state⟩

theorem cursor_tree (c : Cursor) : c.tree.cursor = c := by
  simp only [Tree.cursor, tree, Plan.rootConfig_uniform]

theorem prepare_tree (c : Cursor) : c.tree.prepare = (c.prepare.1, c.prepare.2.tree) := by
  simp only [Tree.prepare, tree, Plan.prepareWith_uniform]
  rfl

theorem duplicate_tree (c : Cursor) : c.tree.duplicate = c.duplicate.tree :=
  Tree.duplicate_eq c.tree

end Cursor

end RelQuery
