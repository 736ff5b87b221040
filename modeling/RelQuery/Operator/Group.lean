import RelQuery.Expr.Typing
import RelQuery.Grouping.Accumulator
import RelQuery.Grouping.Collector
import RelQuery.Operator.Buffer

namespace RelQuery

namespace Group

/-- The rows of one class, taken in so far. -/
structure Class where
  bytes : List UInt8
  keys : Row
  accumulators : List Accumulator

def startAll : List Expr → Except QueryError (List Accumulator)
  | [] => .ok []
  | e :: es =>
    match e.aggregateCall? with
    | none => .error (.invalidState (.notAnAggregate e))
    | some c => do
      let as ← startAll es
      .ok (.start c :: as)

def updateAll (env : Environment) (as : List Accumulator) : Except QueryError (List Accumulator) :=
  as.mapM fun a => (a.update env).mapError .evaluation

/-- Takes a row with the given keys into its class, or into a new one behind the others. -/
def absorb (calls : List Expr) (env : Environment) (keys : Row) :
    List Class → Except QueryError (List Class)
  | [] => do
    let as ← updateAll env (← startAll calls)
    .ok [⟨keys.keyBytes, keys, as⟩]
  | c :: cs =>
    if c.bytes = keys.keyBytes then do
      let as ← updateAll env c.accumulators
      .ok ({ c with accumulators := as } :: cs)
    else do
      let cs ← absorb calls env keys cs
      .ok (c :: cs)

def step (s : Schema) (groupBy calls : List Expr) (classes : List Class) (t : Tuple) :
    Except QueryError (List Class) := do
  let keys ← groupBy.mapM fun e => Operator.evalRow s e t.values
  absorb calls (.single s t.values) keys classes

def Class.row (c : Class) : Row := c.keys ++ c.accumulators.map Accumulator.finish

def finish (groupBy calls : List Expr) (classes : List Class) : Except QueryError (List Tuple) := do
  if classes.isEmpty && groupBy.isEmpty then
    let as ← startAll calls
    .ok [.computed (as.map Accumulator.finish)]
  else
    .ok (classes.map fun c => .computed c.row)

def load (groupBy : List Expr) (calls : List Expr) (child : Operator) (db : Storage)
    (s : child.State) : Outcome (List Tuple) child.State :=
  let (r, s') :=
    Buffered.fold (step (child.status s).schema groupBy calls) (child.next db)
      (child.remaining db s + 1) [] s
  (r.bind (finish groupBy calls), s')

theorem length_absorb {calls : List Expr} {env : Environment} {keys : Row} {cs cs' : List Class}
    (h : absorb calls env keys cs = .ok cs') : cs'.length ≤ cs.length + 1 := by
  induction cs generalizing cs' with
  | nil =>
    simp only [absorb, bind, Except.bind] at h
    split at h
    · simp at h
    · split at h
      · simp at h
      · obtain rfl := Except.ok.inj h
        simp
  | cons c cs ih =>
    simp only [absorb, bind, Except.bind] at h
    split at h <;> split at h
    · simp at h
    · obtain rfl := Except.ok.inj h
      simp
    · simp at h
    · next ds hds =>
      obtain rfl := Except.ok.inj h
      simpa using ih hds

theorem length_step {s : Schema} {groupBy calls : List Expr} {cs cs' : List Class} {t : Tuple}
    (h : step s groupBy calls cs t = .ok cs') : cs'.length ≤ cs.length + 1 := by
  simp only [step, bind, Except.bind] at h
  split at h
  · simp at h
  · exact length_absorb h

theorem length_finish {groupBy calls : List Expr} {cs : List Class} {rows : List Tuple}
    (h : finish groupBy calls cs = .ok rows) : rows.length ≤ cs.length + 1 := by
  simp only [finish, bind, Except.bind] at h
  split at h
  · split at h
    · simp at h
    · obtain rfl := Except.ok.inj h
      simp
  · obtain rfl := Except.ok.inj h
    simp

theorem length_load {groupBy calls : List Expr} {child : Operator} {db : Storage}
    {s s' : child.State} {rows : List Tuple}
    (h : load groupBy calls child db s = (.ok rows, s')) :
    rows.length ≤ child.remaining db s + 1 := by
  simp only [load, Prod.mk.injEq] at h
  obtain ⟨h, -⟩ := h
  cases hf : (Buffered.fold (step (child.status s).schema groupBy calls) (child.next db)
      (child.remaining db s + 1) [] s).1 with
  | error e => simp [hf, Except.bind] at h
  | ok cs =>
    have hle := Buffered.fold_le List.length child.next_lt length_step (Prod.ext hf rfl)
    simp only [hf, Except.bind] at h
    have hrows := length_finish h
    simp only [List.length_nil] at hle
    omega

/-- The number of distinct values of a key, where it is a column with known statistics. -/
def distinct? (child : Status) (e : Expr) : Option Nat := do
  let name ← e.column?
  match child.schema.resolve name with
  | .ok (_, i) => (← child.columns[i]?).distinct
  | .error _ => none

/-- The product of the distinct values of the keys, but no more groups than rows. -/
def estimateGroups (groupBy : List Expr) (child : Status) : Float32 :=
  if groupBy.isEmpty then 1.0
  else
    match groupBy.mapM (distinct? child) with
    | some ns => Single.min (Single.product (ns.map Single.ofNat)) child.cost.tuples
    | none => child.cost.tuples

/-- The column of a key: the child's own, or a computed one. -/
def keyColumn (child : Status) (e : Expr) : Except QueryError (Column × ColumnStats) :=
  match e.column? with
  | some name =>
    match child.schema.resolve name with
    | .error err => .error (.ofResolve err)
    | .ok (info, i) => .ok (info, (child.columns[i]?).getD .unknown)
  | none => do
    Operator.resolveAll child.schema e.columns
    .ok (⟨e.display, none, e.sqlType child.schema⟩, .unknown)

def callColumn (child : Status) (entry : String × Expr) :
    Except QueryError (Column × ColumnStats) := do
  Operator.resolveAll child.schema entry.2.columns
  .ok (⟨entry.1, none, entry.2.sqlType child.schema⟩, .unknown)

def profile (c : Config) (groupBy : List Expr) (aggregates : AggregateMap) (child : Status) :
    Except QueryError Profile := do
  match aggregates.calls.find? fun e => !e.isAggregate with
  | some e => .error (.invalidState (.notAnAggregate e))
  | none =>
    let keys ← groupBy.mapM (keyColumn child)
    let calls ← aggregates.mapM (callColumn child)
    let columns := keys ++ calls
    let schema : Schema := ⟨columns.map (·.1)⟩
    .ok
      { schema := schema
        cost := c.costModel.group child.cost (estimateGroups groupBy child) schema.rowSize
        columns := columns.map (·.2) }

def label (groupBy : List Expr) (aggregates : AggregateMap) : String :=
  "HashedGroupAggregate[groupBy=[" ++ ", ".intercalate (groupBy.map Expr.display) ++
    "], aggregates=[" ++ ", ".intercalate aggregates.keys ++ "]]"

end Group

def Operator.group (groupBy : List Expr) (aggregates : AggregateMap) (child : Operator) :
    Operator :=
  .buffered .group [] (Group.label groupBy aggregates) child (Group.profile · groupBy aggregates ·)
    ⟨Group.load groupBy aggregates.calls child, 1, Group.length_load⟩

end RelQuery
