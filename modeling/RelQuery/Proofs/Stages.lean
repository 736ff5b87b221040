import RelQuery.Proofs.Layers
import RelQuery.Query.Reference

namespace RelQuery

namespace Trace

variable {tr : Trace} {xs ys : List Row}

/-- The trace gives these rows, and ends well. -/
structure Completes (tr : Trace) (xs : List Row) : Prop where
  rows_eq : tr.rows = xs
  ending : tr.ending = .ok ()

theorem Completes.values_mem (h : tr.Completes xs) {t : Tuple} (ht : t ∈ tr.tuples) :
    t.values ∈ xs := by
  rw [← h.rows_eq]
  exact List.mem_map_of_mem ht

theorem Completes.choose {f : Tuple → Except QueryError (Option Tuple)} {g : Row → Option Row}
    (h : tr.Completes xs)
    (hf : ∀ t ∈ tr.tuples, (f t).map (Option.map Tuple.values) = .ok (g t.values)) :
    (tr.choose f).Completes (xs.filterMap g) := by
  obtain ⟨ts, ending⟩ := tr
  obtain ⟨rfl, hending⟩ := h
  induction ts with
  | nil => exact ⟨rfl, hending⟩
  | cons t ts ih =>
    have hcons : (⟨t :: ts, ending⟩ : Trace) = Trace.cons t ⟨ts, ending⟩ := rfl
    obtain ⟨hrows, hend⟩ := ih (fun u hu => hf u (List.mem_cons_of_mem t hu)) hending
    have ht := hf t List.mem_cons_self
    obtain ⟨u, hu, hvalues⟩ := Except.map_eq_ok.1 ht
    have hhead : (Trace.cons t ⟨ts, ending⟩).rows = t.values :: (⟨ts, ending⟩ : Trace).rows := rfl
    rw [hcons, Trace.choose_cons, hu, hhead, List.filterMap_cons, ← hvalues]
    cases u with
    | none => exact ⟨hrows, hend⟩
    | some u => exact ⟨congrArg (u.values :: ·) hrows, hend⟩

theorem Completes.fold_eq {β : Type} (h : tr.Completes xs)
    (step : β → Tuple → Except QueryError β) (b : β) :
    tr.fold step b = tr.tuples.foldlM step b := by
  rw [Trace.fold, h.ending]
  cases tr.tuples.foldlM step b <;> rfl

end Trace

section Runs

variable {o c : Operator} {db : Storage} {xs ys : List Row}

/-- A run that is started now gives these rows, and ends well. -/
def Operator.Runs (o : Operator) (db : Storage) (s : o.State) (xs : List Row) : Prop :=
  ∃ s', o.rewind s = (.ok (), s') ∧ (o.trace db s').Completes xs

/-- An operator that keeps in step with its child makes its rows of those of the child. -/
theorem Passes.runs (P : Passes o c db) (hset : c.Settled db) {s : o.State}
    (hcheck : P.check (P.fixed s) = .ok ()) (hc : c.Runs db (P.child s) xs)
    (hgives : ∀ tr : Trace, tr.Completes xs →
      (P.gives (P.fixed s) (c.status (P.child s)).schema P.origin tr).Completes ys) :
    o.Runs db s ys := by
  obtain ⟨d, hd, hxs⟩ := hc
  obtain ⟨hresult, hchild, hplace⟩ := P.rewind_passed hcheck
  rw [hd] at hresult hchild
  have hrewind : o.rewind s = (.ok (), (o.rewind s).2) := Prod.ext hresult rfl
  have hfixed : P.fixed (o.rewind s).2 = P.fixed s :=
    P.fixed_eq (.rewind (π := .any) hrewind (.inr rfl))
  have hschema : (c.status d).schema = (c.status (P.child s)).schema :=
    hset.schema (.rewind hd (.inr rfl))
  refine ⟨_, hrewind, ?_⟩
  rw [P.trace_eq, hfixed, hplace, hchild, hschema]
  exact hgives _ hxs

/-- A run that is started now fails before its first row. -/
def Operator.Fails (o : Operator) (db : Storage) (s : o.State) (e : QueryError) : Prop :=
  ∃ s', o.rewind s = (.ok (), s') ∧ o.trace db s' = .failed e

namespace Buffered

variable {kind : OperatorKind} {orderedBy : List OrderKey} {label : String}
  {profile : Config → Status → Except QueryError Profile} {loader : Loader c}
  (L : Loads c db (loader.load db)) (hset : c.Settled db) {s : Buffered c.State}
  (hcheck : s.status.check kind = .ok ()) (hc : c.Runs db s.child xs)

include hset hcheck hc

/-- A run of an operator that loads its rows gives what it makes of those of its child. -/
theorem exists_started : ∃ s' tr,
    (Operator.buffered kind orderedBy label c profile loader).rewind s = (.ok (), s') ∧
      tr.Completes xs ∧
      (Operator.buffered kind orderedBy label c profile loader).trace db s' =
        handed (L.rows (c.status s.child).schema tr) 0 := by
  obtain ⟨d, hd, hxs⟩ := hc
  have hschema : (c.status d).schema = (c.status s.child).schema :=
    hset.schema (.rewind hd (.inr rfl))
  have hrewind := rewind_of_prepared c.rewind hcheck
  rw [hd] at hrewind
  refine ⟨⟨s.status.restart, [], false, 0, s.mark, d⟩, _, hrewind, hxs, ?_⟩
  rw [trace_of_unloaded L rfl, hschema]

theorem runs (hrows : ∀ tr : Trace, tr.Completes xs →
      ∃ ts, L.rows (c.status s.child).schema tr = .ok ts ∧ ts.map Tuple.values = ys) :
    (Operator.buffered kind orderedBy label c profile loader).Runs db s ys := by
  obtain ⟨s', tr, hs', htr, htrace⟩ := exists_started L hset hcheck hc
  obtain ⟨ts, hts, hys⟩ := hrows tr htr
  rw [hts] at htrace
  exact ⟨s', hs', by rw [htrace]; exact ⟨hys, rfl⟩⟩

theorem fails {P : QueryError → Prop} (hrows : ∀ tr : Trace, tr.Completes xs →
      ∃ e, P e ∧ L.rows (c.status s.child).schema tr = .error e) :
    ∃ e, P e ∧ (Operator.buffered kind orderedBy label c profile loader).Fails db s e := by
  obtain ⟨s', tr, hs', htr, htrace⟩ := exists_started L hset hcheck hc
  obtain ⟨e, he, herror⟩ := hrows tr htr
  rw [herror] at htrace
  exact ⟨e, he, s', hs', htrace⟩

end Buffered

end Runs

theorem Values.runs {db : Storage} {schema : Schema} {rows : List Row} {s : Leaf Nat}
    (hcheck : s.status.check .values = .ok ()) : (Operator.values schema rows).Runs db s rows := by
  obtain ⟨s', hs', hrows⟩ := Values.gives hcheck .refl
  exact ⟨s', hs', hrows.rows_eq, hrows.ending⟩

namespace Filter

variable {c : Operator} {db : Storage} {xs : List Row} {p : Expr} {test : Row → Bool}

theorem runs (hset : c.Settled db) {s : Wrapped Unit c.State}
    (hcheck : s.status.check .filter = .ok ()) (hc : c.Runs db s.child xs)
    (htest : ∀ x ∈ xs, p.holds (.single s.status.schema x) = .ok (test x)) :
    (Operator.filter p c).Runs db s (xs.filter test) := by
  refine (passes p c db).runs hset hcheck hc fun tr htr => ?_
  rw [← List.filterMap_eq_filter]
  refine htr.choose fun t ht => ?_
  have hx := htest t.values (htr.values_mem ht)
  have haccepts : Operator.accepts s.status.schema p t = .ok (test t.values) := by
    rw [Operator.accepts, hx]
    rfl
  change (keep s.status.schema p t).map _ = _
  rw [keep, haccepts]
  cases hkept : test t.values <;> simp [Except.map, Option.guard, hkept]

end Filter

namespace Sorting

variable {c : Operator} {db : Storage} {xs : List Row} {keys : List OrderKey} {key : Row → Row}

/-- At or before, in the order that keys give to rows. -/
def rowAtMost (keys : List OrderKey) (key : Row → Row) (x y : Row) : Bool :=
  (Row.order (keys.map OrderKey.ascending) (key x) (key y)).isLE

theorem foldlM_collect {s : Schema} {ts : List Tuple} (rows : List (Row × Tuple))
    (h : ∀ t ∈ ts, keyRow s keys t.values = .ok (key t.values)) :
    ts.foldlM (collect s keys) rows = .ok (rows ++ ts.map fun t => (key t.values, t.unpin)) := by
  induction ts generalizing rows with
  | nil =>
    rw [List.map_nil, List.append_nil]
    rfl
  | cons t ts ih =>
    have hcollect : collect s keys rows t = .ok (rows ++ [(key t.values, t.unpin)]) := by
      rw [collect, h t List.mem_cons_self]
      rfl
    have hrest := ih (rows ++ [(key t.values, t.unpin)]) fun u hu => h u (List.mem_cons_of_mem t hu)
    rw [List.foldlM_cons, hcollect, List.map_cons]
    rw [List.append_assoc] at hrest
    exact hrest

theorem loads_rows {s : Schema} {tr : Trace} (htr : tr.Completes xs)
    (hts : ∀ t ∈ tr.tuples, keyRow s keys t.values = .ok (key t.values)) :
    ∃ ts, (loads keys c db).rows s tr = .ok ts ∧
      ts.map Tuple.values = xs.mergeSort (rowAtMost keys key) := by
  have hfold : tr.fold (collect s keys) [] =
      .ok (tr.tuples.map fun t => (key t.values, t.unpin)) := by
    rw [htr.fold_eq, foldlM_collect [] hts, List.nil_append]
  refine ⟨arrange keys (tr.tuples.map fun t => (key t.values, t.unpin)), ?_, ?_⟩
  · change (tr.fold (collect s keys) []).bind _ = _
    rw [hfold]
    rfl
  · have hmap : ((tr.tuples.map fun t => (key t.values, t.unpin)).mergeSort
        (atMost (keys.map OrderKey.ascending))).map (fun x => x.2.values) =
          xs.mergeSort (rowAtMost keys key) := by
      rw [List.map_mergeSort (s := rowAtMost keys key), List.map_map, ← htr.rows_eq]
      · rfl
      · intro x hx y hy
        obtain ⟨t, -, rfl⟩ := List.mem_map.1 hx
        obtain ⟨u, -, rfl⟩ := List.mem_map.1 hy
        rfl
    rw [arrange, List.map_map]
    exact hmap

/-- A sort gives the rows in the order of their keys; those with equal keys stay as they are. -/
theorem runs (hset : c.Settled db) {s : Buffered c.State} (hcheck : s.status.check .sort = .ok ())
    (hc : c.Runs db s.child xs)
    (hkey : ∀ x ∈ xs, keyRow (c.status s.child).schema keys x = .ok (key x)) :
    (Operator.sort keys c).Runs db s (xs.mergeSort (rowAtMost keys key)) :=
  Buffered.runs (loads keys c db) hset hcheck hc fun _ htr =>
    loads_rows htr fun t ht => hkey t.values (htr.values_mem ht)

end Sorting

namespace Limit

variable {c : Operator} {db : Storage} {xs : List Row}

theorem window_completes {tr : Trace} (h : tr.Completes xs) (limit : Option Nat) (offset : Nat) :
    (window limit offset .zero tr).Completes (windowRows limit offset xs) := by
  obtain ⟨rfl, hending⟩ := h
  have hwindow : window limit offset .zero tr = (tr.drop offset).takeUpTo limit := by
    cases limit <;> rfl
  rw [hwindow]
  cases limit with
  | none => exact ⟨List.map_drop, hending⟩
  | some n =>
    rw [Trace.takeUpTo, Trace.take]
    split
    · exact ⟨by simp [Trace.rows, windowRows, Trace.drop], rfl⟩
    · next hlt =>
      refine ⟨?_, hending⟩
      have hlength : (tr.rows.drop offset).length ≤ n := by
        have heq : (tr.rows.drop offset).length = (tr.drop offset).tuples.length := by
          simp [Trace.rows, Trace.drop]
        omega
      rw [windowRows, List.take_of_length_le hlength]
      exact List.map_drop

theorem runs (hset : c.Settled db) {limit : Option Nat} {offset : Nat} {s : State c.State}
    (hcheck : s.status.check .limit = .ok ()) (hc : c.Runs db s.child xs) :
    (Operator.limit limit offset c).Runs db s (windowRows limit offset xs) :=
  (passes limit offset c db).runs hset hcheck hc fun _ htr => window_completes htr limit offset

end Limit

namespace Cursor

variable {db : Storage} {c c' : Cursor} {config : Config} {xs : List Row}

theorem rows_eq_ok : c.rows db = .ok xs ↔ c.plan.operator.Runs db c.state xs := by
  constructor
  · intro h
    obtain ⟨s, hs, hrows, hending⟩ := gives_of_rows h .refl
    exact ⟨s, hs, hrows, hending⟩
  · rintro ⟨s, hs, hrows, hending⟩
    exact rows_of_gives (((c.plan.regular db).replays c.state).gives hs ⟨hrows, hending⟩)

variable {pl : Plan} (hc : Cursor.prepared pl config = .ok c)

include hc

theorem prepared_filter (p : Expr) : ∃ c', Cursor.prepared (.filter p pl) config = .ok c' := by
  obtain ⟨d, hd, rfl⟩ := prepared_ok hc
  exact ⟨_, prepared_of_ok (p := .filter p pl) (Wrapped.prepare_eq_ok.2 ⟨d, _, _, hd, rfl, rfl⟩)⟩

theorem prepared_limit (limit : Option Nat) (offset : Nat) :
    ∃ c', Cursor.prepared (.limit limit offset pl) config = .ok c' := by
  obtain ⟨d, hd, rfl⟩ := prepared_ok hc
  exact ⟨_, prepared_of_ok (p := .limit limit offset pl) (Limit.prepare_eq_ok.2 ⟨d, hd, rfl⟩)⟩

theorem filter_prepared {p : Expr} (h : Cursor.prepared (.filter p pl) config = .ok c') :
    c'.schema = c.schema ∧ ∀ {db xs} {test : Row → Bool}, c.rows db = .ok xs →
      (∀ x ∈ xs, p.holds (.single c.schema x) = .ok (test x)) →
        c'.rows db = .ok (xs.filter test) := by
  obtain ⟨d, hd, rfl⟩ := prepared_ok hc
  obtain ⟨s, hs, rfl⟩ := prepared_ok h
  obtain ⟨d', q, k, hd', hsettle, rfl⟩ := Wrapped.prepare_eq_ok.1 hs
  obtain rfl : d = d' := (Prod.mk.inj (hd.symm.trans hd')).2
  obtain ⟨rfl, rfl⟩ := Prod.mk.inj (Except.ok.inj hsettle)
  exact ⟨rfl, fun {db xs test} hrows htest => rows_eq_ok.2
    (Filter.runs (pl.regular db).settled rfl (rows_eq_ok.1 hrows) htest)⟩

theorem sort_prepared {keys : List OrderKey}
    (h : Cursor.prepared (.sort keys pl) config = .ok c') :
    c'.schema = c.schema ∧ (∀ n ∈ keys.flatMap (·.expr.columns), c.schema.resolves n = true) ∧
      ∀ {db xs} {key : Row → Row}, c.rows db = .ok xs →
        (∀ x ∈ xs, Sorting.keyRow c.schema keys x = .ok (key x)) →
          c'.rows db = .ok (xs.mergeSort (Sorting.rowAtMost keys key)) := by
  obtain ⟨d, hd, rfl⟩ := prepared_ok hc
  obtain ⟨s, hs, rfl⟩ := prepared_ok h
  obtain ⟨d', q, hd', hprofile, rfl⟩ := Buffered.prepare_eq_ok.1 hs
  obtain rfl : d = d' := (Prod.mk.inj (hd.symm.trans hd')).2
  obtain ⟨_, hresolve, hq⟩ := Except.bind_eq_ok.1 hprofile
  obtain rfl := Except.ok.inj hq
  exact ⟨rfl, Operator.resolveAll_eq_ok.1 hresolve, fun {db xs key} hrows hkey => rows_eq_ok.2
    (Sorting.runs (pl.regular db).settled rfl (rows_eq_ok.1 hrows) hkey)⟩

theorem limit_prepared {limit : Option Nat} {offset : Nat}
    (h : Cursor.prepared (.limit limit offset pl) config = .ok c') :
    c'.schema = c.schema ∧ ∀ {db xs}, c.rows db = .ok xs →
      c'.rows db = .ok (windowRows limit offset xs) := by
  obtain ⟨d, hd, rfl⟩ := prepared_ok hc
  obtain ⟨s, hs, rfl⟩ := prepared_ok h
  obtain ⟨d', hd', rfl⟩ := Limit.prepare_eq_ok.1 hs
  obtain rfl : d = d' := (Prod.mk.inj (hd.symm.trans hd')).2
  exact ⟨rfl, fun {db xs} hrows => rows_eq_ok.2
    (Limit.runs (pl.regular db).settled rfl (rows_eq_ok.1 hrows))⟩

end Cursor

end RelQuery
