import RelQuery.Proofs.Computations
import RelQuery.Proofs.JoinReference
import RelQuery.Proofs.Rerun
import RelQuery.Proofs.Resolution

namespace RelQuery

theorem Operator.resolveAll_eq_ok {s : Schema} {names : List ColumnName} :
    Operator.resolveAll s names = .ok () ↔ ∀ r ∈ names, s.resolves r = true := by
  rw [← Schema.check_eq_ok, resolveAll]
  cases s.check names <;> simp [Except.mapError]

namespace Project

variable {c : Operator} {db : Storage} {items : List SelectItem} {xs : List Row} {f : Row → Row}

theorem settle_ok {config : Config} {child : Status} {q : Profile} {outputs : List Output}
    (h : settle items config child = .ok (q, outputs)) :
    ∃ os, resolveItems child.schema items = .ok os ∧ profile config os child = q ∧
      os.map Prod.fst = outputs := by
  obtain ⟨os, hos, h⟩ := Except.bind_eq_ok.1 h
  obtain ⟨hq, houtputs⟩ := Prod.mk.inj (Except.ok.inj h)
  exact ⟨os, hos, hq, houtputs⟩

theorem choose_make {s : Schema} {outputs : List Output} (tr : Trace)
    (h : ∀ x ∈ tr.rows, outputRow s outputs x = .ok (f x)) :
    (tr.choose (make s outputs)).rows = tr.rows.map f ∧
      (tr.choose (make s outputs)).ending = tr.ending := by
  obtain ⟨ts, ending⟩ := tr
  induction ts with
  | nil => exact ⟨rfl, rfl⟩
  | cons t ts ih =>
    have hcons : (⟨t :: ts, ending⟩ : Trace) = Trace.cons t ⟨ts, ending⟩ := rfl
    obtain ⟨hrows, hending⟩ := ih fun x hx => h x (List.mem_cons_of_mem _ hx)
    have ht : outputRow s outputs t.values = .ok (f t.values) := h t.values List.mem_cons_self
    rw [hcons, Trace.choose_cons, make, ht]
    exact ⟨congrArg (f t.values :: ·) hrows, hending⟩

theorem gives {s₀ : Wrapped (List Output) c.State} (hset : c.Settled db)
    (hcheck : s₀.status.check .project = .ok ()) (hc : c.Gives db s₀.child xs)
    (hrow : ∀ x ∈ xs, outputRow (c.status s₀.child).schema s₀.settled x = .ok (f x)) :
    (Operator.project items c).Gives db s₀ (xs.map f) := by
  intro s hs
  have hreach : c.Reaches db .runs s₀.child (Wrapped.child s) :=
    (passes hset items).reaches_child hs
  obtain ⟨hprofile, hsettled⟩ : (Wrapped.status s).profile = s₀.status.profile ∧
      Wrapped.settled s = s₀.settled := Prod.mk.inj ((passes hset items).fixed_eq hs)
  obtain ⟨d, hd, hrows, hending⟩ := hc hreach
  have hrewind : Wrapped.rewind .project c.rewind s = _ :=
    Wrapped.rewind_of_prepared ((Status.check_congr hprofile).trans hcheck)
  rw [hd] at hrewind
  -- A projection resolves its outputs once, over the schema that its child had then.
  have hschema := hset.schema (hreach.any.trans (.rewind hd (.inr rfl)))
  have htrace : (Operator.project items c).trace db
      (⟨(Wrapped.status s).restart, Wrapped.settled s, d⟩ : Wrapped (List Output) c.State) = _ :=
    trace_eq hset items _
  rw [hschema, hsettled] at htrace
  have hchoose := choose_make (c.trace db d) (by rwa [hrows])
  refine ⟨_, hrewind, ?_, ?_⟩
  · rw [hsettled, htrace, hchoose.1, hrows]
  · rw [hsettled, htrace, hchoose.2, hending]

end Project

namespace Join

variable {kind : JoinKind} {predicate : Option Expr} {swapped : Bool} {left right : Operator}
  {config : Config} {s₀ s : State left.State right.State} {ls rs : Status} {q : Profile}

def resultSchema (kind : JoinKind) (swapped : Bool) (ls rs : Schema) : Schema :=
  if kind.leftColumnsOnly then ls else if swapped then rs.concat ls else ls.concat rs

/-- The predicate of a join resolves over both inputs. -/
def Resolves (predicate : Option Expr) (ls rs : Schema) : Prop :=
  ∀ p, predicate = some p → ∀ r ∈ p.columns, (ls.concat rs).resolves r = true

theorem profile_of_resolves (config : Config) (kind : JoinKind) (swapped : Bool)
    (h : Resolves predicate ls.schema rs.schema) :
    ∃ q, profile config kind predicate swapped ls rs = .ok q ∧
      q.schema = resultSchema kind swapped ls.schema rs.schema := by
  unfold profile resultSchema
  cases predicate with
  | none =>
    simp only [bind, Except.bind]
    split
    · exact ⟨_, rfl, rfl⟩
    · split <;> exact ⟨_, rfl, rfl⟩
  | some p =>
    simp only [Operator.resolveAll_eq_ok.2 (h p rfl), bind, Except.bind]
    split
    · exact ⟨_, rfl, rfl⟩
    · split <;> exact ⟨_, rfl, rfl⟩

theorem resolves_of_profile (h : profile config kind predicate swapped ls rs = .ok q) :
    Resolves predicate ls.schema rs.schema := by
  rintro p rfl
  refine Operator.resolveAll_eq_ok.1 ?_
  obtain ⟨_, hresolve, -⟩ := Except.bind_eq_ok.1 h
  exact hresolve

theorem schema_of_profile (h : profile config kind predicate swapped ls rs = .ok q) :
    q.schema = resultSchema kind swapped ls.schema rs.schema := by
  obtain ⟨q', hq', hschema⟩ := profile_of_resolves config kind swapped (resolves_of_profile h)
  obtain rfl : q = q' := Except.ok.inj (h.symm.trans hq')
  exact hschema

end Join

namespace Cursor

variable {db : Storage} {c cl cr : Cursor} {p pl pr : Plan} {config : Config} {kind : JoinKind}
  {predicate : Option Expr} {swapped : Bool} {items : List SelectItem} {xs L R : List Row}
  {f : Row → Row}

theorem prepared_of_ok {s : p.operator.State}
    (h : p.operator.prepare config p.operator.start = (.ok (), s)) :
    Cursor.prepared p config = .ok ⟨p, config, s⟩ := by
  simp only [Cursor.prepared, ofPlan, prepare, run, setState, h]

theorem prepared_plan (h : Cursor.prepared p config = .ok c) :
    Cursor.prepared c.plan config = .ok c := by
  obtain ⟨s, hs, rfl⟩ := prepared_ok h
  exact h

def rows (c : Cursor) (db : Storage) : Except QueryError (List Row) :=
  (c.collect db).1.map (List.map Tuple.values)

/-- Every run of the plan gives these rows. -/
def Gives (c : Cursor) (db : Storage) (xs : List Row) : Prop :=
  c.plan.operator.Gives db c.state xs

theorem rows_of_gives (h : c.Gives db xs) : c.rows db = .ok xs := by
  obtain ⟨s, hs, hrows, hending⟩ := h .refl
  obtain ⟨hdrain, hend⟩ := drain_eq (c.setState s) db
  have hrewind : c.rewind = (.ok (), c.setState s) := by simp only [rewind, run, setState, hs]
  rcases hd : (c.setState s).drain db with ⟨ts, e, c'⟩
  rw [hd] at hdrain hend
  obtain rfl : ts = _ := hdrain
  obtain rfl : e = .ok () := hend.trans hending
  simp only [rows, collect, hrewind, hd, Except.map, List.map_map]
  exact congrArg Except.ok hrows

theorem gives_of_rows (h : c.rows db = .ok xs) : c.Gives db xs := by
  rcases hs : c.plan.operator.rewind c.state with ⟨e | u, s⟩
  · simp [rows, collect, rewind, run, setState, hs, Except.map] at h
  have hrewind : c.rewind = (.ok (), c.setState s) := by simp only [rewind, run, setState, hs]
  obtain ⟨hdrain, hend⟩ := drain_eq (c.setState s) db
  rcases hd : (c.setState s).drain db with ⟨ts, e, c'⟩
  rw [hd] at hdrain hend
  cases e with
  | error e => simp [rows, collect, hrewind, hd, Except.map] at h
  | ok _ =>
    simp only [rows, collect, hrewind, hd, Except.map, List.map_map, Except.ok.injEq] at h
    refine ((c.plan.regular db).replays c.state).gives hs ⟨?_, hend.symm⟩
    rw [← h]
    exact congrArg (List.map Tuple.values) hdrain.symm

section Join

theorem join_parts {l : pl.operator.State} {r : pr.operator.State}
    (hl : pl.operator.prepare config pl.operator.start = (.ok (), l))
    (hr : pr.operator.prepare config pr.operator.start = (.ok (), r))
    (h : Cursor.prepared (.join kind predicate swapped pl pr) config = .ok c) :
    ∃ q, Join.profile config kind predicate swapped (pl.operator.status l) (pr.operator.status r) =
        .ok q ∧
      (Plan.join kind predicate swapped pl pr).operator.prepare config
        (Plan.join kind predicate swapped pl pr).operator.start = (.ok (), ⟨.settle .fresh q,
          (pl.operator.status l).schema, (pr.operator.status r).schema, .fresh, none, l, r⟩) ∧
      c = ⟨.join kind predicate swapped pl pr, config, ⟨.settle .fresh q,
        (pl.operator.status l).schema, (pr.operator.status r).schema, .fresh, none, l, r⟩⟩ := by
  obtain ⟨s, hs, rfl⟩ := prepared_ok h
  obtain ⟨l', r', q, hl', hr', -, hq, rfl⟩ := Join.prepare_eq_ok.1 hs
  obtain rfl : l = l' := (Prod.mk.inj (hl.symm.trans hl')).2
  obtain rfl : r = r' := (Prod.mk.inj (hr.symm.trans hr')).2
  exact ⟨q, hq, hs, rfl⟩

variable (hl : Cursor.prepared pl config = .ok cl) (hr : Cursor.prepared pr config = .ok cr)

include hl hr

/-- The preparation of a join of prepared plans succeeds when its predicate resolves. -/
theorem prepared_join (hkind : Join.checkKind kind swapped = .ok ())
    (h : Join.Resolves predicate cl.schema cr.schema) :
    ∃ c, Cursor.prepared (.join kind predicate swapped pl pr) config = .ok c := by
  obtain ⟨l, hpl, rfl⟩ := prepared_ok hl
  obtain ⟨r, hpr, rfl⟩ := prepared_ok hr
  obtain ⟨q, hq, -⟩ := Join.profile_of_resolves config kind swapped h
  exact ⟨_, prepared_of_ok (p := .join kind predicate swapped pl pr)
    (Join.prepare_eq_ok.2 ⟨l, r, q, hpl, hpr, hkind, hq, rfl⟩)⟩

theorem join_prepared (h : Cursor.prepared (.join kind predicate swapped pl pr) config = .ok c) :
    Join.Resolves predicate cl.schema cr.schema ∧
      c.schema = Join.resultSchema kind swapped cl.schema cr.schema := by
  obtain ⟨l, hpl, rfl⟩ := prepared_ok hl
  obtain ⟨r, hpr, rfl⟩ := prepared_ok hr
  obtain ⟨q, hq, -, rfl⟩ := join_parts hpl hpr h
  exact ⟨Join.resolves_of_profile hq, Join.schema_of_profile hq⟩

theorem gives_join (h : Cursor.prepared (.join kind predicate swapped pl pr) config = .ok c)
    (hL : cl.Gives db L) (hR : cr.Gives db R)
    (htotal : ∀ p, predicate = some p → ∀ l ∈ L, ∀ r ∈ R,
      ∃ b, p.holds (.pair cl.schema l cr.schema r) = .ok b)
    (hwidth : ∀ l ∈ L, l.length = cl.schema.width) :
    c.Gives db (kind.reference (Join.trueFor predicate cl.schema cr.schema) (Join.glueFor swapped)
      cl.schema.width cr.schema.width L R) := by
  obtain ⟨l, hpl, rfl⟩ := prepared_ok hl
  obtain ⟨r, hpr, rfl⟩ := prepared_ok hr
  obtain ⟨q, -, hs, rfl⟩ := join_parts hpl hpr h
  exact Join.gives_reference hs hL hR htotal fun _ => hwidth

end Join

section Project

variable (hc : Cursor.prepared p config = .ok cl)

include hc

/-- The preparation of a projection over a prepared plan succeeds when its items resolve. -/
theorem prepared_project {os : List (Project.Output × Column)}
    (h : Project.resolveItems cl.schema items = .ok os) :
    ∃ c, Cursor.prepared (.project items p) config = .ok c := by
  obtain ⟨d, hd, rfl⟩ := prepared_ok hc
  have hsettle : Project.settle items config (p.operator.status d) =
      .ok (Project.profile config os (p.operator.status d), os.map Prod.fst) := by
    have hschema : (p.operator.status d).schema = Cursor.schema ⟨p, config, d⟩ := rfl
    rw [Project.settle, hschema, h]
    rfl
  exact ⟨_, prepared_of_ok (p := .project items p)
    (Wrapped.prepare_eq_ok.2 ⟨d, _, _, hd, hsettle, rfl⟩)⟩

theorem project_prepared (h : Cursor.prepared (.project items p) config = .ok c) :
    ∃ os, Project.resolveItems cl.schema items = .ok os ∧ c.schema = ⟨os.map Prod.snd⟩ ∧
      ∀ {db xs f}, cl.Gives db xs →
        (∀ x ∈ xs, Project.outputRow cl.schema (os.map Prod.fst) x = .ok (f x)) →
          c.Gives db (xs.map f) := by
  obtain ⟨d, hd, rfl⟩ := prepared_ok hc
  obtain ⟨s, hs, rfl⟩ := prepared_ok h
  obtain ⟨d', q, k, hd', hsettle, rfl⟩ := Wrapped.prepare_eq_ok.1 hs
  obtain rfl : d = d' := (Prod.mk.inj (hd.symm.trans hd')).2
  obtain ⟨os, hos, rfl, rfl⟩ := Project.settle_ok hsettle
  exact ⟨os, hos, rfl, fun {db xs f} hgives hrow =>
    Project.gives (p.regular db).settled rfl hgives hrow⟩

end Project

end Cursor

end RelQuery
