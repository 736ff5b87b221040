import RelQuery.Proofs.Driving

namespace RelQuery

variable {D : Storage → Prop}

/-- There are statistics for each column. -/
def Status.Aligned (s : Status) : Prop := s.columns.length = s.schema.width

section Profiles

variable {config : Config} {s : Status} {q : Profile}

theorem Values.aligned {schema : Schema} {rows : List Row}
    (h : Values.profile config schema rows = .ok q) : (s.settle q).Aligned := by
  unfold Values.profile at h
  split at h
  · simp at h
  · obtain rfl := Except.ok.inj h
    simp [Status.Aligned, Status.columns, Status.schema, Status.settle]

theorem Project.aligned (config : Config) (os : List (Output × Column)) (child : Status) :
    (s.settle (profile config os child)).Aligned := by
  simp [Status.Aligned, Status.columns, Status.schema, Status.settle, profile, Schema.width]

theorem Sorting.aligned {keys : List OrderKey} {child : Status} (hchild : child.Aligned)
    (h : Sorting.profile config keys child = .ok q) : (s.settle q).Aligned := by
  obtain ⟨_, -, h⟩ := Except.bind_eq_ok.1 h
  obtain rfl := Except.ok.inj h
  exact hchild

theorem Group.aligned {groupBy : List Expr} {aggregates : AggregateMap} {child : Status}
    (h : Group.profile config groupBy aggregates child = .ok q) : (s.settle q).Aligned := by
  unfold Group.profile at h
  split at h
  · simp at h
  obtain ⟨keys, -, h⟩ := Except.bind_eq_ok.1 h
  obtain ⟨calls, -, h⟩ := Except.bind_eq_ok.1 h
  obtain rfl := Except.ok.inj h
  simp [Status.Aligned, Status.columns, Status.schema, Status.settle, Schema.width]

/-- The statistics of a join are put together, cut off and exchanged as its columns are. -/
theorem Join.aligned {kind : JoinKind} {predicate : Option Expr} {swapped : Bool} {ls rs : Status}
    (hl : ls.Aligned) (hr : rs.Aligned)
    (h : Join.profile config kind predicate swapped ls rs = .ok q) : (s.settle q).Aligned := by
  have hshape : ∃ cost, q =
      (if kind.leftColumnsOnly then
        ⟨ls.schema, cost, (ls.columns ++ rs.columns).take ls.schema.width⟩
      else if swapped then
        ⟨rs.schema.concat ls.schema, cost, exchange ls.schema.width (ls.columns ++ rs.columns)⟩
      else ⟨ls.schema.concat rs.schema, cost, ls.columns ++ rs.columns⟩) := by
    unfold profile at h
    cases predicate with
    | none =>
      simp only [bind, Except.bind] at h
      exact ⟨_, by split_ifs at h ⊢ <;> exact (Except.ok.inj h).symm⟩
    | some p =>
      obtain ⟨-, -, h⟩ := Except.bind_eq_ok.1 h
      exact ⟨_, by split_ifs at h ⊢ <;> exact (Except.ok.inj h).symm⟩
  have hwidth : ∀ a b : Schema, (a.concat b).width = a.width + b.width := fun _ _ =>
    List.length_append
  have hboth : (ls.columns ++ rs.columns).length = ls.schema.width + rs.schema.width := by
    rw [List.length_append, hl, hr]
  obtain ⟨cost, hq⟩ := hshape
  change q.columns.length = q.schema.width
  rw [hq]
  split_ifs
  · rw [List.length_take, hboth]
    exact Nat.min_eq_left (Nat.le_add_right ..)
  · rw [hwidth, exchange, List.length_append, List.length_drop, List.length_take, hboth]
    omega
  · rw [hboth, hwidth]

end Profiles

namespace Plan

/-- A prepared plan has statistics for each of its columns, as far as the tables that it scans
have. -/
theorem aligned (p : Plan) (hscan : ∀ t ∈ p.scanned, t.stats.columns.length = t.schema.width)
    {k : p.Settings} {s s' : p.operator.State} (h : p.prepareWith k s = (.ok (), s')) :
    (p.operator.status s').Aligned := by
  induction p with
  | scan t q =>
    obtain ⟨r, hr, rfl⟩ := Leaf.prepare_eq_ok.1 h
    obtain rfl := Except.ok.inj hr
    exact hscan t List.mem_cons_self
  | values schema rows =>
    obtain ⟨r, hr, rfl⟩ := Leaf.prepare_eq_ok.1 h
    exact Values.aligned hr
  | filter q c ih =>
    obtain ⟨d, r, u, hd, hr, rfl⟩ := Wrapped.prepare_eq_ok.1 h
    obtain ⟨rfl, rfl⟩ := Prod.mk.inj (Except.ok.inj hr)
    exact ih hscan hd
  | project items c ih =>
    obtain ⟨d, r, u, hd, hr, rfl⟩ := Wrapped.prepare_eq_ok.1 h
    obtain ⟨os, -, rfl, rfl⟩ := Project.settle_ok hr
    exact Project.aligned ..
  | rename t c ih =>
    obtain ⟨d, r, u, hd, hr, rfl⟩ := Wrapped.prepare_eq_ok.1 h
    obtain ⟨rfl, rfl⟩ := Prod.mk.inj (Except.ok.inj hr)
    exact (ih hscan hd).trans (List.length_map _).symm
  | barrier c ih =>
    obtain ⟨d, r, u, hd, hr, rfl⟩ := Wrapped.prepare_eq_ok.1 h
    obtain ⟨rfl, rfl⟩ := Prod.mk.inj (Except.ok.inj hr)
    exact ih hscan hd
  | sort keys c ih =>
    obtain ⟨d, r, hd, hr, rfl⟩ := Buffered.prepare_eq_ok.1 h
    exact Sorting.aligned (ih hscan hd) hr
  | group keys calls c ih =>
    obtain ⟨d, r, hd, hr, rfl⟩ := Buffered.prepare_eq_ok.1 h
    exact Group.aligned hr
  | limit n k c ih =>
    obtain ⟨d, hd, rfl⟩ := Limit.prepare_eq_ok.1 h
    exact ih hscan hd
  | join kind q swapped l r ihl ihr =>
    obtain ⟨a, b, x, ha, hb, -, hx, rfl⟩ := Join.prepare_eq_ok.1 h
    obtain ⟨hl, hr⟩ := List.forall_mem_append.1 hscan
    exact Join.aligned (ihl hl ha) (ihr hr hb) hx

end Plan

namespace Tree

/-- A projection finds each column that it copies in all rows of its input. -/
def Copies (D : Storage → Prop) : Tree → Prop
  | ⟨.project _ c, _, s⟩ => ∀ {d}, c.operator.ReachesOver D (Wrapped.child s) d → ∀ {db}, D db →
      ∀ {u d'}, c.operator.next db d = (.ok (some u), d') →
        ∀ i, .column i ∈ Wrapped.settled s → ∃ v, u.values[i]? = some v
  | _ => True

/-- The rows of an operator agree with its columns, from a state on. -/
structure Aligned (D : Storage → Prop) (t : Tree) : Prop where
  /-- Each row has one value for each column. -/
  rows : ∀ {t'}, t.Runs D t' → ∀ {db}, D db → ∀ {u t''}, t'.next db = (.ok (some u), t'') →
    u.values.length = t.cursor.schema.width
  /-- No row is too short for a reference. -/
  calls : ∀ {t'}, t.Runs D t' → ∀ {db}, D db → ∀ (call : Call) (n : ColumnName),
    (t'.plan.operator.call db call t'.state).1 ≠ .error (.evaluation (.tupleTooShort n))
  copies : t.Copies D

namespace Running

variable {K C : Tree → Prop} {t : Tree}

/-- There are statistics for each column, whatever was done before the preparation. -/
theorem columns (h : t.Running D K C) {db : Storage} (hdb : D db) : t.cursor.status.Aligned := by
  obtain ⟨k, s, s₀, -, hprep, -, hreach⟩ := h.prepared
  have haligned := t.plan.aligned (fun info hinfo => (h.opened info hinfo hdb).length_stats) hprep
  rw [Status.Aligned, Status.columns, Status.schema] at haligned ⊢
  rwa [← Plan.profile_eq hreach] at haligned

theorem copies (h : t.Running D (Kept Schema.Spans) C) : t.Copies D := by
  obtain ⟨p, k, s⟩ := t
  cases p with
  | project items c =>
    have hchild := (h.of_mem_inputs Kept.inputs List.mem_cons_self).served_wide
    obtain ⟨j, s₁, s₀, -, hprep, -, hreach⟩ := h.prepared
    obtain ⟨d, q, outputs, hd, hq, rfl⟩ := Wrapped.prepare_eq_ok.1 hprep
    obtain ⟨os, hos, -, rfl⟩ := Project.settle_ok hq
    have hsettled : Wrapped.settled s = os.map Prod.fst :=
      hreach.keeps (I := fun a : Wrapped _ _ => a.settled = os.map Prod.fst)
        (fun {db _ _} _ ha hstep =>
          have hkept := ((Project.passes (c.regular db).settled items).step hstep).2.1
          (Prod.mk.inj hkept).2.trans ha) rfl
    have hschema := Plan.schema_eq (Plan.reaches_project hreach)
    intro a hrun db hdb u a' hnext i hi
    have hu : u.values.length = _ := (hchild.serves.reaches hrun).next_some hdb hnext
    have hlt : i < u.values.length := by
      rw [hu, hschema]
      exact Project.resolveItems_of hos (hsettled ▸ hi)
    exact ⟨_, List.getElem?_eq_getElem hlt⟩
  | _ => trivial

theorem aligned (h : t.Running D (Kept Schema.Spans) C) : t.Aligned D := by
  have hserves := h.served_wide.serves
  refine ⟨?rows, ?calls, h.copies⟩
  case rows =>
    rintro _ ⟨a, hrun, rfl⟩ db hdb u _ hnext
    have hgiven : (t.plan.operator.next db a).1 = .ok (some u) := congrArg Prod.fst hnext
    exact (hserves.reaches hrun).next_some hdb (Prod.ext hgiven rfl)
  case calls =>
    rintro _ ⟨a, hrun, rfl⟩ db hdb call n heq
    have hcall := (hserves.reaches hrun).call t.plan.calm hdb call
    rw [show (t.plan.operator.call db call a).1 = _ from heq] at hcall
    exact hcall n rfl

end Running

/-- Once a tree is prepared, for the first time or again, all its operators have as many statistics
as columns, whatever calls are made on it, over whatever becomes of a storage in which its tables
were opened. If `next` was never called on it without a preparation before, then each row has one
value for each column, no row is too short for a reference, and no copied column is missing. -/
theorem aligned_of_prepare {t t' t'' : Tree} (hopened : ∃ db, t.OpenedIn db)
    (hprep : t.prepare = (.ok (), t')) (hrun : t'.Runs t.OpenedIn t'') :
    ∀ n ∈ t''.nodes, n.cursor.status.columns.length = n.cursor.schema.width ∧
      ((∃ b, Driven b t) → n.Aligned t.OpenedIn) := by
  obtain ⟨db, hdb⟩ := hopened
  intro n hn
  refine ⟨(running_nodes hprep hrun n hn).columns hdb, ?_⟩
  rintro ⟨b, hdriven⟩
  exact (hdriven.running_nodes hprep hrun n hn).aligned

/-- A storage with a table of one row, and another row to come. -/
def beforeInsert : Storage :=
  ((Storage.create 2).changes [.createTable "t" [("a", .integer)], .insert "t" [.int 1]]).2

def opened : TableInfo := ⟨"t", ⟨[⟨"a", some "t", .integer⟩]⟩, .unknown 1⟩

theorem openedIn_beforeInsert {t : Tree} (h : t.plan.scanned = [opened]) (cs : List Change) :
    t.OpenedIn (beforeInsert.changes cs).2 := by
  intro info hinfo
  rw [h] at hinfo
  obtain rfl := List.mem_singleton.1 hinfo
  exact ⟨beforeInsert, cs, "t", (Storage.Built.create 2).changes _, rfl, rfl⟩

/-- A run starts, and a row is inserted into the table before the first tuple. -/
theorem runs_beforeInsert (hD : ∀ cs, D (beforeInsert.changes cs).2) (t : Tree) (v : Value) :
    t.Runs D (t.rewind.2.next (beforeInsert.changes [.insert "t" [v]]).2).2 := by
  have hrewind : t.plan.operator.Reaches (beforeInsert.changes []).2 .any t.state
      (t.plan.operator.rewind t.state).2 := .rewind rfl (.inl rfl)
  have hnext : t.plan.operator.Reaches (beforeInsert.changes [.insert "t" [v]]).2 .any
      (t.plan.operator.rewind t.state).2 (t.plan.operator.next _ _).2 := .next rfl (.inl rfl)
  exact ⟨_, .trans (.of_reaches (hD []) hrewind) (.of_reaches (hD _) hnext), rfl⟩

/-- The columns of the table, padded with a column that is never there. -/
def padded : Tree :=
  project [.wildcard none, .expr (.column (.unqualified "a")) (some "again")]
    (join .leftOuter none (scan opened none) (values ⟨[⟨"b", none, .bigInt⟩]⟩ []))

/-- The tree in the middle of its first run, with other settings to be prepared with next. -/
def paddedAgain : Tree :=
  (padded.prepare.2.rewind.2.next beforeInsert).2.configure
    { Config.default with defaultSelectivity := 0.5 }

/-- The tree is prepared again, and a row is inserted between two calls. -/
theorem aligned_of_prepare_padded : ∃ t' t'' : Tree, Driven true paddedAgain ∧
    paddedAgain.OpenedIn beforeInsert ∧ paddedAgain.prepare = (.ok (), t') ∧
      t'.Runs paddedAgain.OpenedIn t'' ∧ ∀ n ∈ t''.nodes,
        n.cursor.status.columns.length = n.cursor.schema.width ∧
          n.Aligned paddedAgain.OpenedIn := by
  have hdriven : Driven true paddedAgain :=
    .configure _ (.begun (openedIn_beforeInsert rfl []) rfl
      (driven_start padded.plan padded.settings))
  have hopened : paddedAgain.OpenedIn beforeInsert := openedIn_beforeInsert rfl []
  obtain ⟨t', hprep⟩ : ∃ t', paddedAgain.prepare = (.ok (), t') := ⟨_, rfl⟩
  have hrun := runs_beforeInsert (openedIn_beforeInsert (t := paddedAgain) rfl) t' (.int 2)
  exact ⟨t', _, hdriven, hopened, hprep, hrun, fun n hn =>
    (aligned_of_prepare ⟨_, hopened⟩ hprep hrun n hn).imp_right fun h => h ⟨_, hdriven⟩⟩

/-- A join of a projection with two rows, which is asked for a tuple before it is prepared: the left
row that it has then in hand has no columns. -/
def blindly (predicate : Option Expr) : Tree :=
  let left := values ⟨[⟨"a", none, .bigInt⟩]⟩ [[.int 1]]
  let right := values ⟨[⟨"b", none, .bigInt⟩]⟩ [[.int 1], [.int 2]]
  ((join .inner predicate (project [.wildcard none] left) right.prepare.2).next (.create 2)).2

/-- Its next row is too short for its columns. -/
example : (blindly none).prepare.1 = .ok () ∧ (blindly none).prepare.2.cursor.schema.width = 2 ∧
    ((blindly none).prepare.2.next (.create 2)).1 = .ok (some (.computed [.int 2])) :=
  ⟨rfl, rfl, rfl⟩

end Tree

end RelQuery
