import RelQuery.Tree
import RelQuery.Proofs.Layers
import RelQuery.Proofs.Evaluation

namespace RelQuery

variable {config : Config} {child : Status} {q : Profile}

theorem Values.profile_ok {schema : Schema} {rows : List Row}
    (h : Values.profile config schema rows = .ok q) :
    q.schema = schema ∧ ∀ r ∈ rows, r.length = schema.width := by
  unfold profile at h
  split at h
  · simp at h
  · next hwide =>
    obtain rfl := Except.ok.inj h
    exact ⟨rfl, fun r hr => by simpa using List.find?_eq_none.1 hwide r hr⟩

theorem Sorting.schema_profile {keys : List OrderKey}
    (h : Sorting.profile config keys child = .ok q) : q.schema = child.schema := by
  obtain ⟨_, -, h⟩ := Except.bind_eq_ok.1 h
  obtain rfl := Except.ok.inj h
  rfl

namespace Project

/-- The columns of a projection over a schema in which its items resolve. -/
def resultSchema (items : List SelectItem) (s : Schema) : Schema :=
  ⟨((resolveItems s items).toOption.getD []).map Prod.snd⟩

theorem resultSchema_eq {s : Schema} {items : List SelectItem} {os : List (Output × Column)}
    (h : resolveItems s items = .ok os) : resultSchema items s = ⟨os.map Prod.snd⟩ := by
  rw [resultSchema, h]
  rfl

end Project

namespace Group

variable {groupBy : List Expr} {aggregates : AggregateMap}

/-- A key that is a column reference keeps its column, where it resolves. -/
def keyOf (s : Schema) (e : Expr) : Column :=
  match e.column?.map s.resolve with
  | some (.ok (c, _)) => c
  | _ => ⟨e.display, none, e.sqlType s⟩

def callOf (s : Schema) (entry : String × Expr) : Column :=
  ⟨entry.1, none, entry.2.sqlType s⟩

def resultSchema (groupBy : List Expr) (aggregates : AggregateMap) (s : Schema) : Schema :=
  ⟨groupBy.map (keyOf s) ++ aggregates.map (callOf s)⟩

theorem type_keyOf (s : Schema) (e : Expr) : (keyOf s e).type = e.sqlType s := by
  unfold keyOf
  split
  · next c i h =>
    obtain ⟨n, hn, hresolve⟩ := Option.map_eq_some_iff.1 h
    rw [Expr.column?_eq_some.1 hn, Expr.sqlType, hresolve]
  · rfl

theorem types_resultSchema (groupBy : List Expr) (aggregates : AggregateMap) (s : Schema) :
    (resultSchema groupBy aggregates s).columns.map Column.type =
      (groupBy ++ aggregates.calls).map (·.sqlType s) := by
  simp only [resultSchema, List.map_append, List.map_map, AggregateMap.calls]
  exact congrArg₂ (· ++ ·) (List.map_congr_left fun e _ => type_keyOf s e) rfl

theorem keyColumn_fst {e : Expr} {x : Column × ColumnStats} (h : keyColumn child e = .ok x) :
    x.1 = keyOf child.schema e := by
  unfold keyColumn at h
  unfold keyOf
  cases hname : e.column? with
  | some name =>
    simp only [hname] at h
    split at h
    · simp at h
    · next info i hresolve =>
      obtain rfl := Except.ok.inj h
      simp only [Option.map_some, hresolve]
  | none =>
    simp only [hname] at h
    obtain ⟨_, -, h⟩ := Except.bind_eq_ok.1 h
    obtain rfl := Except.ok.inj h
    rfl

theorem callColumn_fst {entry : String × Expr} {x : Column × ColumnStats}
    (h : callColumn child entry = .ok x) : x.1 = callOf child.schema entry := by
  obtain ⟨_, -, h⟩ := Except.bind_eq_ok.1 h
  obtain rfl := Except.ok.inj h
  rfl

theorem columns_of_mapM {α : Type} {f : α → Except QueryError (Column × ColumnStats)}
    {g : α → Column} (hf : ∀ {a x}, f a = .ok x → x.1 = g a) {as : List α}
    {xs : List (Column × ColumnStats)} (h : as.mapM f = .ok xs) : xs.map Prod.fst = as.map g := by
  rw [← List.forall₂_eq_eq_eq, List.forall₂_map_left_iff, List.forall₂_map_right_iff]
  exact (Except.forall₂_of_mapM h).flip.imp fun _ _ => hf

theorem schema_of_profile (h : profile config groupBy aggregates child = .ok q) :
    q.schema = resultSchema groupBy aggregates child.schema := by
  unfold profile at h
  split at h
  · simp at h
  obtain ⟨keys, hkeys, h⟩ := Except.bind_eq_ok.1 h
  obtain ⟨calls, hcalls, h⟩ := Except.bind_eq_ok.1 h
  obtain rfl := Except.ok.inj h
  have hcolumns := congrArg₂ (· ++ ·) (columns_of_mapM keyColumn_fst hkeys)
    (columns_of_mapM callColumn_fst hcalls)
  exact congrArg Schema.mk (List.map_append.trans hcolumns)

theorem types_of_profile (h : profile config groupBy aggregates child = .ok q) :
    q.schema.columns.map Column.type =
      (groupBy ++ aggregates.calls).map (·.sqlType child.schema) := by
  rw [schema_of_profile h, types_resultSchema]

theorem width_profile (h : profile config groupBy aggregates child = .ok q) :
    q.schema.width = groupBy.length + aggregates.calls.length := by
  simpa [Schema.width] using congrArg List.length (types_of_profile h)

theorem isAggregate_of_profile (h : profile config groupBy aggregates child = .ok q) :
    ∀ e ∈ aggregates.calls, e.isAggregate = true := by
  unfold profile at h
  split at h
  · simp at h
  · next hnone => exact fun e he => by simpa using List.find?_eq_none.1 hnone e he

end Group

namespace Plan

/-- The columns that preparation settles, in whatever state and with whatever settings it
succeeds. -/
def schema : Plan → Schema
  | scan t _ => t.schema
  | values s _ => s
  | filter _ c | sort _ c | limit _ _ c | barrier c => c.schema
  | project items c => Project.resultSchema items c.schema
  | rename t c => c.schema.rename t
  | group keys calls c => Group.resultSchema keys calls c.schema
  | join kind _ swapped l r => Join.resultSchema kind swapped l.schema r.schema

theorem schema_of_prepare (p : Plan) {k : p.Settings} {s s' : p.operator.State}
    (h : p.prepareWith k s = (.ok (), s')) : (p.operator.status s').schema = p.schema := by
  induction p with
  | scan t q =>
    obtain ⟨r, hr, rfl⟩ := Leaf.prepare_eq_ok.1 h
    obtain rfl := Except.ok.inj hr
    rfl
  | values schema rows =>
    obtain ⟨r, hr, rfl⟩ := Leaf.prepare_eq_ok.1 h
    exact (Values.profile_ok hr).1
  | filter q c ih =>
    obtain ⟨d, r, u, hd, hr, rfl⟩ := Wrapped.prepare_eq_ok.1 h
    obtain ⟨rfl, rfl⟩ := Prod.mk.inj (Except.ok.inj hr)
    exact ih hd
  | project items c ih =>
    obtain ⟨d, r, u, hd, hr, rfl⟩ := Wrapped.prepare_eq_ok.1 h
    obtain ⟨os, hos, rfl, rfl⟩ := Project.settle_ok hr
    exact (Project.resultSchema_eq hos).symm.trans (congrArg _ (ih hd))
  | rename t c ih =>
    obtain ⟨d, r, u, hd, hr, rfl⟩ := Wrapped.prepare_eq_ok.1 h
    obtain ⟨rfl, rfl⟩ := Prod.mk.inj (Except.ok.inj hr)
    exact congrArg (Schema.rename · t) (ih hd)
  | barrier c ih =>
    obtain ⟨d, r, u, hd, hr, rfl⟩ := Wrapped.prepare_eq_ok.1 h
    obtain ⟨rfl, rfl⟩ := Prod.mk.inj (Except.ok.inj hr)
    exact ih hd
  | sort keys c ih =>
    obtain ⟨d, r, hd, hr, rfl⟩ := Buffered.prepare_eq_ok.1 h
    exact (Sorting.schema_profile hr).trans (ih hd)
  | group keys calls c ih =>
    obtain ⟨d, r, hd, hr, rfl⟩ := Buffered.prepare_eq_ok.1 h
    exact (Group.schema_of_profile hr).trans (congrArg _ (ih hd))
  | limit n m c ih =>
    obtain ⟨d, hd, rfl⟩ := Limit.prepare_eq_ok.1 h
    exact ih hd
  | join kind q swapped l r ihl ihr =>
    obtain ⟨a, b, x, ha, hb, -, hx, rfl⟩ := Join.prepare_eq_ok.1 h
    exact (Join.schema_of_profile hx).trans (congrArg₂ _ (ihl ha) (ihr hb))

end Plan

end RelQuery
