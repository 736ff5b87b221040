import RelQuery.Proofs.Alignment

namespace RelQuery

/-- Errors of a column: there is none of the name, there are several, or a row is too short. -/
def EvalError.ofColumn : EvalError → Bool
  | unresolved _ | tupleTooShort _ => true
  | _ => false

theorem EvalError.ofColumn_of_ofValues {e : EvalError} (h : e.ofValues = true) :
    e.ofColumn = false := by
  cases e <;> simp_all [ofValues, ofColumn]

namespace Environment

variable {env : Environment} {s t : Schema} {r : ColumnName} {c : Column} {i : Nat} {v w : Row}

/-- The columns of the rows in scope, side by side. -/
def schema (env : Environment) : Schema := ⟨env.bindings.flatMap (·.1.columns)⟩

def row (env : Environment) : Row := env.bindings.flatMap (·.2)

theorem Full.length_row (h : env.Full) : env.row.length = env.schema.width := by
  rw [row, Schema.width, schema, List.length_flatMap, List.length_flatMap]
  exact congrArg List.sum (List.map_congr_left fun b hb => h b hb)

theorem found_eq (h : env.Full) (r : ColumnName) :
    env.found r = (single env.schema env.row).found r := by
  obtain ⟨bindings⟩ := env
  induction bindings with
  | nil => rfl
  | cons b bs ih =>
    obtain ⟨hb, hbs⟩ := List.forall_mem_cons.1 h
    have hrest : (⟨bs⟩ : Environment).found r = _ := ih hbs
    calc
      found ⟨b :: bs⟩ r = (b.1.positions r).map (b.2[·]?) ++ found ⟨bs⟩ r := List.flatMap_cons
      _ = (pair b.1 b.2 (schema ⟨bs⟩) (row ⟨bs⟩)).found r := by
        rw [hrest]
        simp only [found, pair, single, List.flatMap_cons, List.flatMap_nil, List.append_nil]
      _ = (single (schema ⟨b :: bs⟩) (row ⟨b :: bs⟩)).found r := found_pair _ _ r hb

theorem lookup_eq (h : env.Full) (r : ColumnName) :
    env.lookup r = (single env.schema env.row).lookup r := by
  rw [lookup, lookup, found_eq h]

/-- A reference that resolves has the value at its position, which the row has. -/
theorem lookup_of_resolve (h : s.resolve r = .ok (c, i)) (hv : v.length = s.width) :
    ∃ x, v[i]? = some x ∧ (single s v).lookup r = .ok x := by
  have hlt : i < v.length := by
    rw [hv]
    exact Schema.lt_of_mem_positions (Schema.positions_of_resolve h ▸ List.mem_singleton_self i)
  refine ⟨v[i], List.getElem?_eq_getElem hlt, ?_⟩
  rw [lookup_single h hv, List.getElem?_eq_getElem hlt, Option.getD_some]

/-- A reference that does not resolve fails with the error of its resolution. -/
theorem lookup_of_not_resolve {e : ResolveError} (h : s.resolve r = .error e)
    (hv : v.length = s.width) : (single s v).lookup r = .error (.unresolved e) := by
  have hfound : (single s v).found r = (s.candidates r).map fun x => v[x.2]? := by
    simp [found, single, Schema.positions]
  rw [lookup, hfound]
  unfold Schema.resolve at h
  split at h
  · simp at h
  · next hnone =>
    obtain rfl := Except.error.inj h
    rw [hnone]
    rfl
  · next hone hnone =>
    obtain rfl := Except.error.inj h
    rcases hcandidates : s.candidates r with _ | ⟨x, _ | ⟨y, rest⟩⟩
    · exact absurd hcandidates hnone
    · exact absurd hcandidates (hone x)
    · have hx : x.2 ∈ s.positions r :=
        List.mem_map_of_mem (hcandidates ▸ List.mem_cons_self)
      have hlt : x.2 < v.length := hv ▸ Schema.lt_of_mem_positions hx
      rw [List.map_cons, List.map_cons, List.getElem?_eq_getElem hlt]

end Environment

namespace Expr

variable {env : Environment} {e : Expr} {err : EvalError}

/-- An expression whose references resolve against the rows in scope does not fail for a column. -/
theorem ofColumn_eq_false_of_eval (hfull : env.Full)
    (hresolves : ∀ r ∈ e.columns, env.schema.resolves r = true) (h : e.eval env = .error err) :
    err.ofColumn = false := by
  have hmeets : Except.Meets (fun _ => True) (fun err => err.ofColumn = false) (e.eval env) := by
    refine e.eval_meets_of_columns (fun _ => EvalError.ofColumn_of_ofValues) (fun r hr => ?_)
      fun _ _ => rfl
    obtain ⟨c, i, hresolve⟩ := Schema.resolves_iff.1 (hresolves r hr)
    obtain ⟨x, -, hlookup⟩ := Environment.lookup_of_resolve hresolve hfull.length_row
    rw [Environment.lookup_eq hfull, hlookup]
    trivial
  rwa [h] at hmeets

end Expr

section Profiles

variable {config : Config} {child : Status} {q : Profile} {e : Expr} {r : ColumnName}

theorem Sorting.resolves_of_profile {keys : List OrderKey}
    (h : Sorting.profile config keys child = .ok q) (he : e ∈ keys.map OrderKey.expr)
    (hr : r ∈ e.columns) : child.schema.resolves r = true := by
  obtain ⟨_, hresolve, -⟩ := Except.bind_eq_ok.1 h
  obtain ⟨k, hk, rfl⟩ := List.mem_map.1 he
  exact Operator.resolveAll_eq_ok.1 hresolve r (List.mem_flatMap.2 ⟨k, hk, hr⟩)

namespace Group

theorem resolves_of_keyColumn {x : Column × ColumnStats} (h : keyColumn child e = .ok x)
    (hr : r ∈ e.columns) : child.schema.resolves r = true := by
  unfold keyColumn at h
  split at h
  · next name hname =>
    rw [Expr.column?_eq_some.1 hname] at hr
    obtain rfl := List.mem_singleton.1 hr
    split at h
    · simp at h
    · next info i hresolve => exact Schema.resolves_iff.2 ⟨info, i, hresolve⟩
  · obtain ⟨_, hresolve, -⟩ := Except.bind_eq_ok.1 h
    exact Operator.resolveAll_eq_ok.1 hresolve r hr

theorem resolves_of_callColumn {entry : String × Expr} {x : Column × ColumnStats}
    (h : callColumn child entry = .ok x) (hr : r ∈ entry.2.columns) :
    child.schema.resolves r = true := by
  obtain ⟨_, hresolve, -⟩ := Except.bind_eq_ok.1 h
  exact Operator.resolveAll_eq_ok.1 hresolve r hr

theorem columns_of_argument {a : Expr} (h : e.aggregateCall?.bind AggregateCall.arg = some a) :
    a.columns = e.columns := by
  cases e with
  | aggregate f d e =>
    obtain rfl := Option.some.inj h
    rfl
  | _ => simp [Expr.aggregateCall?] at h

theorem resolves_of_profile {groupBy : List Expr} {aggregates : AggregateMap}
    (h : profile config groupBy aggregates child = .ok q) (he : e ∈ groupBy ++ aggregates.arguments)
    (hr : r ∈ e.columns) : child.schema.resolves r = true := by
  unfold profile at h
  split at h
  · simp at h
  obtain ⟨keys, hkeys, h⟩ := Except.bind_eq_ok.1 h
  obtain ⟨calls, hcalls, -⟩ := Except.bind_eq_ok.1 h
  rcases List.mem_append.1 he with he | he
  · obtain ⟨x, hx⟩ := Except.exists_of_mem_mapM hkeys he
    exact resolves_of_keyColumn hx hr
  · obtain ⟨call, hcall, harg⟩ := List.mem_filterMap.1 he
    obtain ⟨entry, hentry, rfl⟩ := List.mem_map.1 hcall
    obtain ⟨x, hx⟩ := Except.exists_of_mem_mapM hcalls hentry
    exact resolves_of_callColumn hx (columns_of_argument harg ▸ hr)

end Group

end Profiles

namespace Plan

/-- The expressions of an operator whose references its preparation resolves: the keys of a sort,
the keys and the arguments of a grouping, and the predicate of a join. -/
def resolved : Plan → List Expr
  | sort keys _ => keys.map OrderKey.expr
  | group keys calls _ => keys ++ calls.arguments
  | join _ q _ _ _ => q.toList
  | _ => []

def ResolvesAll : Plan → Prop
  | sort .. | group .. | join .. => True
  | _ => False

end Plan

namespace Tree

variable {D : Storage → Prop} {t t' i : Tree}

/-- The rows in scope are one for each input, of its schema and with a value for each column. -/
def InScope (t : Tree) (env : Environment) : Prop :=
  List.Forall₂ (fun i b => b.1 = i.cursor.schema ∧ i.cursor.schema.Spans b.2) t.inputs env.bindings

/-- In some run, the evaluation of an expression fails. -/
def Raises (D : Storage → Prop) (t : Tree) (e : EvalError) : Prop :=
  ∃ t', t.Runs D t' ∧ ∃ db, D db ∧ ∃ t'', t'.next db = (.error (.evaluation e), t'')

/-- What an operator evaluates after it has resolved the references does not fail for a column, on
rows of its inputs. -/
def Resolved (t : Tree) : Prop :=
  ∀ e ∈ t.plan.resolved, ∀ env, t.InScope env → ∀ err, e.eval env = .error err →
    err.ofColumn = false

/-- The rows of the inputs are of their schemas, so that no evaluation of these expressions fails
for a column. -/
structure Safe (D : Storage → Prop) (t : Tree) : Prop where
  rows : ∀ i ∈ t.inputs, ∀ {i'}, i.Runs D i' → ∀ {db}, D db → ∀ {u i''},
    i'.next db = (.ok (some u), i'') → u.values.length = i.cursor.schema.width
  /-- Where all references are resolved, a call fails for a column only where an input does. -/
  calls : t.plan.ResolvesAll → ∀ {db}, D db → ∀ (call : Call) (e : EvalError),
    (t.plan.operator.call db call t.state).1 = .error (.evaluation e) → e.ofColumn = true →
      ∃ i ∈ t.inputs, i.Raises D e

def inputSchema (t : Tree) : Schema := ⟨t.inputs.flatMap (·.cursor.schema.columns)⟩

theorem InScope.schema {env : Environment} (h : t.InScope env) : env.schema = t.inputSchema := by
  have hcolumns : List.Forall₂ (· = ·) (t.inputs.flatMap (·.cursor.schema.columns))
      (env.bindings.flatMap (·.1.columns)) :=
    List.rel_flatMap h fun i b hb => List.forall₂_eq_eq_eq ▸ congrArg Schema.columns hb.1.symm
  exact congrArg Schema.mk (List.forall₂_eq_eq_eq ▸ hcolumns).symm

theorem InScope.full {env : Environment} (h : t.InScope env) : env.Full := by
  intro b hb
  obtain ⟨i, -, hschema, hwide⟩ := exists_of_forall₂ h b hb
  exact hwide.trans (congrArg Schema.width hschema.symm)

theorem inputSchema_of_runs (h : t.Runs D t') : t'.inputSchema = t.inputSchema := by
  have hcolumns : List.Forall₂ (· = ·) (t.inputs.flatMap (·.cursor.schema.columns))
      (t'.inputs.flatMap (·.cursor.schema.columns)) :=
    List.rel_flatMap (inputs_of_runs h) fun i i' hi =>
      List.forall₂_eq_eq_eq ▸ congrArg Schema.columns (schema_of_runs hi).symm
  exact congrArg Schema.mk (List.forall₂_eq_eq_eq ▸ hcolumns).symm

/-- Preparation resolves all references of its expressions against the columns of the inputs. -/
theorem resolves_of_prepare {p : Plan} {j k : p.Settings} {s s' : p.operator.State}
    (h : p.prepareWith k s = (.ok (), s')) {e : Expr} (he : e ∈ p.resolved) {r : ColumnName}
    (hr : r ∈ e.columns) : (inputSchema ⟨p, j, s'⟩).resolves r = true := by
  have hone : ∀ i : Tree, (⟨[i].flatMap (·.cursor.schema.columns)⟩ : Schema) = i.cursor.schema :=
    fun i => congrArg Schema.mk (List.append_nil _)
  cases p with
  | sort keys c =>
    obtain ⟨d, q, -, hq, rfl⟩ := Buffered.prepare_eq_ok.1 h
    exact (congrArg (Schema.resolves · r) (hone _)).trans (Sorting.resolves_of_profile hq he hr)
  | group keys calls c =>
    obtain ⟨d, q, -, hq, rfl⟩ := Buffered.prepare_eq_ok.1 h
    exact (congrArg (Schema.resolves · r) (hone _)).trans (Group.resolves_of_profile hq he hr)
  | join kind q swapped left right =>
    obtain ⟨a, b, x, -, -, -, hx, rfl⟩ := Join.prepare_eq_ok.1 h
    have htwo : (⟨(left.operator.status a).schema.columns ++
        ((right.operator.status b).schema.columns ++ [])⟩ : Schema) =
          (left.operator.status a).schema.concat (right.operator.status b).schema := by
      rw [List.append_nil]
      rfl
    exact (congrArg (Schema.resolves · r) htwo).trans
      (Join.resolves_of_profile hx e (Option.mem_toList.1 he) r hr)
  | _ => exact absurd he List.not_mem_nil

namespace Running

variable {K C : Tree → Prop}

theorem serves (h : t.Running D (Kept Schema.Spans) C) {G : EvalError → Prop}
    (hG : ∀ e, t.Raises D e → G e) :
    t.plan.operator.Serves D t.cursor.schema.Spans G t.state := by
  refine Operator.Serves.of_next (fun x => t.plan.operator.ReachesOver D t.state x)
    (fun hdb hx hstep => hx.trans (.single ⟨_, hdb, hstep⟩))
    (fun {db x r x'} hdb hx hnext => ?_) .refl
  rcases r with e | _ | u
  · cases e with
    | evaluation e =>
      have hraised : (t.plan.operator.next db x).1 = .error (.evaluation e) :=
        congrArg Prod.fst hnext
      exact hG e ⟨⟨t.plan, t.settings, x⟩, ⟨x, hx, rfl⟩, db, hdb, _, Prod.ext hraised rfl⟩
    | _ => trivial
  · exact fun _ hu => nomatch hu
  · intro u' hu
    obtain rfl := Option.some.inj hu
    exact (h.served_wide.serves.reaches hx).next_some hdb hnext

theorem resolved (h : t.Running D K C) : t.Resolved := by
  obtain ⟨p, j, a⟩ := t
  obtain ⟨k, s, s₀, -, hprep, -, hreach⟩ := h.prepared
  intro e he env henv err herr
  refine Expr.ofColumn_eq_false_of_eval henv.full (fun r hr => ?_) herr
  rw [henv.schema, inputSchema_of_runs (t := ⟨p, j, s₀⟩) ⟨a, hreach, rfl⟩]
  exact resolves_of_prepare hprep he hr

/-- On rows that may stand in scope, an evaluation fails with no error that needs a reason. -/
theorem eval_meets (h : t.Running D K C) {e : Expr} (he : e ∈ t.plan.resolved)
    {env : Environment} (henv : t.InScope env) {Q : EvalError → Prop} :
    Except.Meets (fun _ => True) (fun err => err.ofColumn = true → Q err) (e.eval env) := by
  cases herr : e.eval env with
  | ok v => trivial
  | error err => exact fun hcolumn => by simp [h.resolved e he env henv err herr] at hcolumn

theorem join {kind : JoinKind} {q : Option Expr} {swapped : Bool} {l r : Plan}
    {k : (Plan.join kind q swapped l r).Settings} {a : Join.State l.operator.State r.operator.State}
    (h : Running D (Kept Schema.Spans) C ⟨.join kind q swapped l r, k, a⟩) :
    a.leftSchema = (l.operator.status a.left).schema ∧
      a.rightSchema = (r.operator.status a.right).schema ∧
      a.Keeps kind (l.operator.status a.left).schema.Spans := by
  obtain ⟨j, s, s₀, -, hprep, -, hreach⟩ := h.prepared
  obtain ⟨hkeeps, -, -⟩ := h.served_wide.keeps .refl
  obtain ⟨l₀, r₀, x, hl, -, -, -, rfl⟩ := Join.prepare_eq_ok.1 hprep
  obtain ⟨hleft, hright⟩ := Plan.reaches_join hreach
  have hsettled : a.settled = _ := hreach.keeps (I := fun b : Join.State _ _ => b.settled = _)
    (fun _ hb hstep => (Join.step_moves hstep).2.1.trans hb) rfl
  obtain ⟨hls, hrs⟩ := Prod.mk.inj (congrArg Prod.snd hsettled)
  rw [Plan.schema_eq hleft, Plan.schema_eq hright]
  exact ⟨hls, hrs, (l.schema_of_prepare hl).symm ▸ hkeeps⟩

/-- An operator that resolves all references fails for a column only as one of its inputs does. -/
theorem serves_resolved (h : t.Running D (Kept Schema.Spans) C) (hall : t.plan.ResolvesAll) :
    t.plan.operator.Serves D (fun _ => True)
      (fun e => e.ofColumn = true → ∃ i ∈ t.inputs, i.Raises D e) t.state := by
  obtain ⟨p, k, a⟩ := t
  have hG : ∀ e : EvalError, e.ofValues = true →
      e.ofColumn = true → ∃ i ∈ inputs ⟨p, k, a⟩, i.Raises D e := fun e he hcolumn => by
    simp [EvalError.ofColumn_of_ofValues he] at hcolumn
  have hserves : ∀ i ∈ inputs ⟨p, k, a⟩, i.plan.operator.Serves D i.cursor.schema.Spans
      (fun e => e.ofColumn = true → ∃ i ∈ inputs ⟨p, k, a⟩, i.Raises D e) i.state := fun i hi =>
    (h.of_mem_inputs Kept.inputs hi).serves fun e he _ => ⟨i, hi, he⟩
  cases p with
  | sort keys c =>
    exact (Sorting.serves a (fun db => (c.regular db).settled) (hserves _ List.mem_cons_self)
      (fun x hx key hkey => h.eval_meets (List.mem_map_of_mem hkey) (.cons ⟨rfl, hx⟩ .nil))
      (fun _ _ => trivial) fun _ _ => trivial).1
  | group keys calls c =>
    exact (Group.serves hG a (fun db => (c.regular db).settled) (hserves _ List.mem_cons_self)
      (fun x hx e he => h.eval_meets he (.cons ⟨rfl, hx⟩ .nil))
      (fun _ _ => trivial) fun _ _ => trivial).1
  | join kind q swapped l r =>
    obtain ⟨hleft, hright, hkeeps⟩ := h.join
    refine (Join.serves a r.calm (Join.makes_any ..) (fun x y hx hy => ?_) (fun _ _ => trivial)
      ⟨hserves _ List.mem_cons_self, hserves _ (List.mem_cons_of_mem _ List.mem_cons_self),
        ⟨rfl, rfl⟩, hkeeps⟩).1
    cases q with
    | none => trivial
    | some q =>
      have hscope : InScope ⟨.join kind (some q) swapped l r, k, a⟩
          (.pair a.leftSchema x.values a.rightSchema y.values) :=
        .cons ⟨hleft, hx⟩ (.cons ⟨hright, hy⟩ .nil)
      exact (Expr.holds_meets hG (h.eval_meets (List.mem_singleton_self q) hscope)).mapError
        fun _ he => he
  | _ => exact hall.elim

theorem safe (h : t.Running D (Kept Schema.Spans) C) : t.Safe D where
  rows i hi {i'} hrun {db} hdb {u i''} hnext := by
    obtain ⟨a, hreach, rfl⟩ := hrun
    have hserves := (h.of_mem_inputs Kept.inputs hi).serves (G := fun _ => True) fun _ _ => trivial
    have hgiven : (i.plan.operator.next db a).1 = .ok (some u) := congrArg Prod.fst hnext
    exact (hserves.reaches hreach).next_some hdb (Prod.ext hgiven rfl)
  calls hall {db} hdb call e hcall hcolumn := by
    have hmeets := (h.serves_resolved hall).call t.plan.calm hdb call
    rw [hcall] at hmeets
    exact hmeets hcolumn

end Running

/-- A reference is looked up in two rows as the schema of both resolves it. So once a tree is
prepared, for the first time or again, what its operators evaluate after they have resolved the
references fails for no column on rows of their inputs, in all runs. If `next` was never called on
the tree without a preparation before, all rows are such, over whatever becomes of a storage in
which its tables were opened. -/
theorem safe_of_prepare {t t' t'' : Tree} (hprep : t.prepare = (.ok (), t'))
    (hrun : t'.Runs t.OpenedIn t'') :
    (∀ (s s' : Schema) (v w : Row) (r : ColumnName), v.length = s.width → w.length = s'.width →
      (∀ c i, (s.concat s').resolve r = .ok (c, i) →
        ∃ x, (v ++ w)[i]? = some x ∧ (Environment.pair s v s' w).lookup r = .ok x) ∧
      ∀ e, (s.concat s').resolve r = .error e →
        (Environment.pair s v s' w).lookup r = .error (.unresolved e)) ∧
    ∀ n ∈ t''.nodes, n.Resolved ∧ ((∃ b, Driven b t) → n.Safe t.OpenedIn) := by
  constructor
  · intro s s' v w r hv hw
    have hlength : (v ++ w).length = (s.concat s').width := by
      rw [List.length_append, hv, hw]
      exact List.length_append.symm
    rw [Environment.lookup_pair s' w r hv]
    exact ⟨fun c i h => Environment.lookup_of_resolve h hlength,
      fun e h => Environment.lookup_of_not_resolve h hlength⟩
  · intro n hn
    refine ⟨(running_nodes hprep hrun n hn).resolved, ?_⟩
    rintro ⟨b, hdriven⟩
    exact (hdriven.running_nodes hprep hrun n hn).safe

def equal : Expr := .compare .eq (.column (.unqualified "a")) (.column (.unqualified "b"))

/-- The rows of a table with those of a list that are equal to them, in order. -/
def paired : Tree :=
  sort [⟨.column (.unqualified "b"), true⟩]
    (join .inner (some equal) (scan opened none)
      (values ⟨[⟨"b", none, .integer⟩]⟩ [[.int 2], [.int 1]]))

/-- The tree in the middle of its first run, with a buffer of rows. -/
def pairedAgain : Tree := (paired.prepare.2.rewind.2.next beforeInsert).2

/-- The tree is prepared again, and a row is inserted between two calls; and a column of the second
of two rows is looked up. -/
theorem safe_of_prepare_paired : ∃ t' t'' : Tree,
    Driven true pairedAgain ∧ pairedAgain.prepare = (.ok (), t') ∧
      t'.Runs pairedAgain.OpenedIn t'' ∧
      (∃ x, ([.int 1] ++ [.int 2])[1]? = some x ∧
        (Environment.pair ⟨[⟨"a", some "t", .integer⟩]⟩ [.int 1] ⟨[⟨"b", none, .integer⟩]⟩
          [.int 2]).lookup (.unqualified "b") = .ok x) ∧
      ∀ n ∈ t''.nodes, n.Resolved ∧ n.Safe pairedAgain.OpenedIn := by
  have hopened : ∀ cs, pairedAgain.OpenedIn (beforeInsert.changes cs).2 := openedIn_beforeInsert rfl
  have hdriven : Driven true pairedAgain :=
    .begun (hopened []) rfl (driven_start paired.plan paired.settings)
  obtain ⟨t', hprep⟩ : ∃ t', pairedAgain.prepare = (.ok (), t') := ⟨_, rfl⟩
  have hrun := runs_beforeInsert hopened t' (.int 2)
  obtain ⟨hlookup, hsafe⟩ := safe_of_prepare hprep hrun
  exact ⟨t', _, hdriven, hprep, hrun,
    (hlookup _ _ [.int 1] [.int 2] (.unqualified "b") rfl rfl).1 ⟨"b", none, .integer⟩ 1 rfl,
    fun n hn => (hsafe n hn).imp_right fun h => h ⟨_, hdriven⟩⟩

/-- A left row that has no columns is too short for the predicate of a join. -/
example : (blindly (some equal)).prepare.1 = .ok () ∧
    ((blindly (some equal)).prepare.2.next (.create 2)).1 =
      .error (.evaluation (.tupleTooShort (.unqualified "a"))) :=
  ⟨rfl, rfl⟩

end Tree

end RelQuery
