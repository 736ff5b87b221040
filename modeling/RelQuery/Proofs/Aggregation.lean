import RelQuery.Proofs.Accumulating
import RelQuery.Proofs.Stages

namespace RelQuery

open Grouping

namespace Group

variable {key : Row → Row} {calls : List AggregateCall} {arg : Expr → Row → Value}
  {exprs : List Expr}
  {css : List (List Row)} {xs ys : List Row} {x : Row} {s : Schema} {α β : Type}

/-- A computation over some classes comes to a result, unless a sum over one of the classes
overflows; then it fails for this reason. -/
def ComesTo (calls : List AggregateCall) (arg : Expr → Row → Value) (css : List (List Row))
    (r : Except QueryError α) (a : α) : Prop :=
  (r = .ok a ∧ ∀ ys ∈ css, ∀ c ∈ calls, ¬c.Overflows arg ys) ∨
    ∃ ys ∈ css, ∃ c ∈ calls, c.Overflows arg ys ∧ r = .error (.evaluation (.sumOverflow c.fn))

theorem ComesTo.bind_ok {r : Except QueryError α} {a : α} (h : ComesTo calls arg css r a)
    (f : α → β) : ComesTo calls arg css (r >>= fun a => .ok (f a)) (f a) := by
  rcases h with ⟨rfl, hnone⟩ | ⟨ys, hys, c, hc, hover, rfl⟩
  · exact .inl ⟨rfl, hnone⟩
  · exact .inr ⟨ys, hys, c, hc, hover, rfl⟩

theorem ComesTo.of_subset {css' : List (List Row)} {r : Except QueryError α} {a : α}
    (h : ComesTo calls arg css r a) (hsub : css ⊆ css')
    (hnone : ∀ ys ∈ css', ys ∈ css ∨ ∀ c ∈ calls, ¬c.Overflows arg ys) :
    ComesTo calls arg css' r a := by
  rcases h with ⟨hr, hcss⟩ | ⟨ys, hys, hover⟩
  · exact .inl ⟨hr, fun ys hys => (hnone ys hys).elim (hcss ys) id⟩
  · exact .inr ⟨ys, hsub hys, hover⟩

def Class.ofRows (key : Row → Row) (calls : List AggregateCall) (arg : Expr → Row → Value)
    (ys : List Row) : Class :=
  ⟨(keysOf key ys).keyBytes, keysOf key ys, calls.map (·.after arg ys)⟩

theorem startAll_eq (h : ∀ e ∈ exprs, e.isAggregate = true) :
    startAll exprs = .ok ((exprs.filterMap Expr.aggregateCall?).map .start) := by
  induction exprs with
  | nil => rfl
  | cons e es ih =>
    obtain ⟨he, hes⟩ := List.forall_mem_cons.1 h
    cases e <;> first
      | exact absurd he Bool.false_ne_true
      | rw [startAll, Expr.aggregateCall?, ih hes]; rfl

theorem updateAll_after (hcalls : ∀ c ∈ calls, c.Computes s arg xs)
    (hrows : ∀ y ∈ ys ++ [x], y ∈ xs)
    (hbefore : ∀ c ∈ calls, ¬c.Overflows arg ys) :
    ComesTo calls arg [ys ++ [x]] (updateAll (.single s x) (calls.map (·.after arg ys)))
      (calls.map (·.after arg (ys ++ [x]))) := by
  induction calls with
  | nil => exact .inl ⟨rfl, fun _ _ _ hc => absurd hc List.not_mem_nil⟩
  | cons c cs ih =>
    obtain ⟨hc, hcs⟩ := List.forall_mem_cons.1 hcalls
    obtain ⟨hbefore, hbefores⟩ := List.forall_mem_cons.1 hbefore
    rw [List.map_cons, updateAll, List.mapM_cons]
    rcases AggregateCall.update_after hc hrows hbefore with ⟨hover, hupdate⟩ | ⟨hover, hupdate⟩
    · rcases ih hcs hbefores with ⟨hrest, hnone⟩ | ⟨zs, hzs, d, hd, hlater, hrest⟩ <;>
        rw [updateAll] at hrest <;> rw [hupdate, hrest]
      · exact .inl ⟨rfl, fun zs hzs => List.forall_mem_cons.2
          ⟨List.mem_singleton.1 hzs ▸ hover, hnone zs hzs⟩⟩
      · exact .inr ⟨zs, hzs, d, List.mem_cons_of_mem _ hd, hlater, rfl⟩
    · rw [hupdate]
      exact .inr ⟨_, List.mem_singleton_self _, c, List.mem_cons_self, hover, rfl⟩

theorem ofRows_concat (hys : ys ≠ []) (x : Row) : Class.ofRows key calls arg (ys ++ [x]) =
    { Class.ofRows key calls arg ys with
      accumulators := calls.map (·.after arg (ys ++ [x])) } := by
  obtain ⟨y, zs, rfl⟩ := List.exists_cons_of_ne_nil hys
  rfl

theorem absorb_ofRows (hsized : ∀ x ∈ xs, (key x).Sized)
    (hstart : startAll exprs = .ok (calls.map .start))
    (hcalls : ∀ c ∈ calls, c.Computes s arg xs) (hx : x ∈ xs)
    (hrows : ∀ ys ∈ css, ys ≠ [] ∧ ∀ y ∈ ys, y ∈ xs)
    (hbefore : ∀ ys ∈ css, ∀ c ∈ calls, ¬c.Overflows arg ys) :
    ComesTo calls arg (extend key x css)
      (absorb exprs (.single s x) (key x) (css.map (Class.ofRows key calls arg)))
      ((extend key x css).map (Class.ofRows key calls arg)) := by
  induction css with
  | nil =>
    have hmem : ∀ y ∈ [] ++ [x], y ∈ xs := List.forall_mem_singleton.2 hx
    have hupdate := updateAll_after hcalls hmem fun c _ => AggregateCall.not_overflows_nil
    simp only [AggregateCall.after_nil] at hupdate
    rw [List.map_nil, absorb, hstart]
    exact hupdate.bind_ok fun as => [(⟨(key x).keyBytes, key x, as⟩ : Class)]
  | cons ys css ih =>
    obtain ⟨⟨hne, hys⟩, hrest⟩ := List.forall_mem_cons.1 hrows
    obtain ⟨hover, hovers⟩ := List.forall_mem_cons.1 hbefore
    have hkeys : (keysOf key ys).Sized := sized_keysOf hne fun y hy => hsized y (hys y hy)
    have halike : (Class.ofRows key calls arg ys).bytes = (key x).keyBytes ↔
        (keysOf key ys).alike (key x) = true := Row.keyBytes_eq_iff hkeys (hsized x hx)
    rw [List.map_cons, absorb, extend]
    by_cases hclass : (keysOf key ys).alike (key x) = true
    · have hmem : ∀ y ∈ ys ++ [x], y ∈ xs :=
        List.forall_mem_append.2 ⟨hys, List.forall_mem_singleton.2 hx⟩
      rw [if_pos (halike.2 hclass), if_pos hclass, List.map_cons, ofRows_concat hne]
      refine ((updateAll_after hcalls hmem hover).bind_ok fun as =>
        { Class.ofRows key calls arg ys with accumulators := as } ::
          css.map (Class.ofRows key calls arg)).of_subset ?_ ?_
      · exact List.cons_subset_cons _ (List.nil_subset _)
      · exact List.forall_mem_cons.2 ⟨.inl List.mem_cons_self, fun zs hzs => .inr (hovers zs hzs)⟩
    · rw [if_neg fun h => hclass (halike.1 h), if_neg hclass, List.map_cons]
      refine ((ih hrest hovers).bind_ok (Class.ofRows key calls arg ys :: ·)).of_subset ?_ ?_
      · exact List.subset_cons_self _ _
      · exact List.forall_mem_cons.2 ⟨.inr hover, fun zs hzs => .inl hzs⟩

theorem foldlM_ofRows {groupBy : List Expr} (hstart : startAll exprs = .ok (calls.map .start))
    (hcalls : ∀ c ∈ calls, c.Computes s arg xs) {ts : List Tuple}
    (hkey : ∀ t ∈ ts, groupBy.mapM (fun e => Operator.evalRow s e t.values) = .ok (key t.values))
    (hsized : ∀ x ∈ xs, (key x).Sized) (before : List Row)
    (hmem : ∀ x ∈ before ++ ts.map Tuple.values, x ∈ xs)
    (hbefore : ∀ ys ∈ classes key before, ∀ c ∈ calls, ¬c.Overflows arg ys) :
    ComesTo calls arg (classes key (before ++ ts.map Tuple.values))
      (ts.foldlM (step s groupBy exprs) ((classes key before).map (Class.ofRows key calls arg)))
      ((classes key (before ++ ts.map Tuple.values)).map (Class.ofRows key calls arg)) := by
  induction ts generalizing before with
  | nil =>
    rw [List.map_nil, List.append_nil]
    exact .inl ⟨rfl, hbefore⟩
  | cons t ts ih =>
    have hclasses : ∀ ys ∈ classes key before, ys ≠ [] ∧ ∀ y ∈ ys, y ∈ xs := fun ys hys =>
      ⟨ne_nil_of_mem_classes hys, fun y hy => hmem y (List.mem_append_left _
        ((partitions_classes key before).perm.subset (List.mem_flatten.2 ⟨ys, hys, hy⟩)))⟩
    have hstep : step s groupBy exprs ((classes key before).map (Class.ofRows key calls arg)) t =
        absorb exprs (.single s t.values) (key t.values)
          ((classes key before).map (Class.ofRows key calls arg)) := by
      rw [step, hkey t List.mem_cons_self]
      rfl
    have habsorb := absorb_ofRows hsized hstart hcalls (hmem t.values (by simp)) hclasses hbefore
    have hassoc : before ++ (t :: ts).map Tuple.values =
        before ++ [t.values] ++ ts.map Tuple.values := by simp
    rw [← classes_concat] at habsorb
    rw [hassoc] at hmem ⊢
    rw [List.foldlM_cons, hstep]
    rcases habsorb with ⟨hok, hnone⟩ | ⟨ys, hys, c, hc, hover, herror⟩
    · rw [hok]
      exact ih (fun u hu => hkey u (List.mem_cons_of_mem t hu)) _ hmem hnone
    · -- The class in which the sum overflows may get more rows; the sum overflows there as well.
      obtain ⟨zs, hzs, hpre⟩ := exists_prefix_of_mem_classes hys (ts.map Tuple.values)
      rw [herror]
      exact .inr ⟨zs, hzs, c, hc, hover.of_prefix hpre, rfl⟩

theorem row_ofRows (h : ∀ c ∈ calls, ¬c.Overflows arg ys) :
    (Class.ofRows key calls arg ys).row = Grouping.row key calls arg ys := by
  have hresults : (calls.map (·.after arg ys)).map Accumulator.finish =
      calls.map fun c => c.result arg ys := by
    rw [List.map_map]
    exact List.map_congr_left fun c hc =>
      AggregateCall.finish_after (AggregateCall.holds_of_not_overflows (h c hc))
  rw [Class.row, Grouping.row, ← hresults]
  rfl

/-- The rows of the classes, also of the one class that there is without keys. -/
theorem finish_ofRows (groupBy : List Expr) (hstart : startAll exprs = .ok (calls.map .start))
    (hnone : ∀ ys ∈ classes key xs, ∀ c ∈ calls, ¬c.Overflows arg ys) :
    finish groupBy exprs ((classes key xs).map (Class.ofRows key calls arg)) =
      .ok (((classesBy key groupBy xs).map (Grouping.row key calls arg)).map .computed) := by
  rw [finish, List.isEmpty_map, isEmpty_classes, classesBy, Bool.and_comm]
  split
  · have hstarts : calls.map .start = (Class.ofRows key calls arg []).accumulators :=
      List.map_congr_left fun c _ => AggregateCall.after_nil.symm
    have hrow : (Class.ofRows key calls arg []).row = Grouping.row key calls arg [] :=
      row_ofRows fun c _ => AggregateCall.not_overflows_nil
    rw [hstart, hstarts]
    change Except.ok [Tuple.computed (Class.ofRows key calls arg []).row] = _
    rw [hrow]
    rfl
  · have hrows : (classes key xs).map
        ((fun c => Tuple.computed c.row) ∘ Class.ofRows key calls arg) =
        (classes key xs).map (Tuple.computed ∘ Grouping.row key calls arg) :=
      List.map_congr_left fun ys hys => congrArg Tuple.computed (row_ofRows (hnone ys hys))
    rw [List.map_map, List.map_map, hrows]

theorem loads_rows {c : Operator} {db : Storage} {groupBy : List Expr} {tr : Trace}
    (hstart : startAll exprs = .ok (calls.map .start)) (htr : tr.Completes xs)
    (hkey : ∀ x ∈ xs, groupBy.mapM (fun e => Operator.evalRow s e x) = .ok (key x))
    (hsized : ∀ x ∈ xs, (key x).Sized) (hcalls : ∀ c ∈ calls, c.Computes s arg xs) :
    ComesTo calls arg (classesBy key groupBy xs) ((loads groupBy exprs c db).rows s tr)
      (((classesBy key groupBy xs).map (Grouping.row key calls arg)).map .computed) := by
  have hvalues : [] ++ tr.tuples.map Tuple.values = xs := htr.rows_eq
  have hnil : classes key [] = [] := by rw [classes]
  have hfold := foldlM_ofRows hstart hcalls (fun t ht => hkey t.values (htr.values_mem ht)) hsized
    [] (fun x hx => hvalues ▸ hx) (by simp [hnil])
  rw [hvalues, hnil, List.map_nil, ← htr.fold_eq] at hfold
  rcases hfold with ⟨hok, hnone⟩ | ⟨ys, hys, a, ha, hover, herror⟩
  · refine .inl ⟨?_, ?_⟩
    · change (tr.fold (step s groupBy exprs) []).bind _ = _
      rw [hok]
      exact finish_ofRows groupBy hstart hnone
    · intro ys hys
      rcases mem_classesBy hys with hys | rfl
      · exact hnone ys hys
      · exact fun _ _ => AggregateCall.not_overflows_nil
  · refine .inr ⟨ys, classes_subset_classesBy key groupBy xs hys, a, ha, hover, ?_⟩
    change (tr.fold (step s groupBy exprs) []).bind _ = _
    rw [herror]
    rfl

theorem values_computed (rows : List Row) : (rows.map .computed).map Tuple.values = rows := by
  rw [List.map_map]
  exact List.map_id rows

theorem runs {c : Operator} {db : Storage} {groupBy : List Expr} (hset : c.Settled db)
    {s : Buffered c.State} (hcheck : s.status.check .group = .ok ()) (hc : c.Runs db s.child xs)
    (hgroup : groupBy ≠ [])
    (hkey : ∀ x ∈ xs, groupBy.mapM (fun e => Operator.evalRow (c.status s.child).schema e x) =
      .ok (key x)) (hsized : ∀ x ∈ xs, (key x).Sized) :
    (Operator.group groupBy [] c).Runs db s ((xs.map key).eraseDupsBy Row.alike) := by
  have hstart : startAll [] = .ok (([] : List AggregateCall).map .start) := rfl
  have hcalls : ∀ a ∈ ([] : List AggregateCall),
      a.Computes (c.status s.child).schema (fun _ _ => .null) xs :=
    fun a ha => absurd ha List.not_mem_nil
  have hclasses : classesBy key groupBy xs = classes key xs := by
    rw [classesBy, List.isEmpty_eq_false_iff.2 hgroup]
    rfl
  have hrow : Grouping.row key [] (fun _ _ => .null) = keysOf key :=
    funext fun ys => List.append_nil (keysOf key ys)
  refine Buffered.runs (loads groupBy [] c db) hset hcheck hc fun tr htr => ?_
  obtain ⟨hrows, -⟩ | ⟨ys, -, a, ha, -⟩ := loads_rows hstart htr hkey hsized hcalls
  · exact ⟨_, hrows, by rw [values_computed, hclasses, hrow, keysOf_classes]⟩
  · exact absurd ha List.not_mem_nil

end Group

/-- A grouping gives one row for each class of the rows of its child, in the order in which the
classes begin: the keys of the first row of the class, and the results over all its rows of the
calls, in the order of their map. It fails if and only if an integer sum over a class leaves the
values at some row. -/
theorem Group.gives_classes {c : Operator} {db : Storage} {groupBy : List Expr}
    {aggregates : AggregateMap} {key : Row → Row} {arg : Expr → Row → Value} {xs : List Row}
    {s : Buffered c.State} (hset : c.Settled db) (hcheck : s.status.check .group = .ok ())
    (hc : c.Runs db s.child xs)
    (hkey : ∀ x ∈ xs, groupBy.mapM (fun e => Operator.evalRow (c.status s.child).schema e x) =
      .ok (key x))
    (hsized : ∀ x ∈ xs, (key x).Sized) (haggregates : ∀ e ∈ aggregates.calls, e.isAggregate = true)
    (hcalls : ∀ a ∈ aggregates.calls.filterMap Expr.aggregateCall?,
      a.Computes (c.status s.child).schema arg xs) :
    let calls := aggregates.calls.filterMap Expr.aggregateCall?
    let classes := Grouping.classesBy key groupBy xs
    Grouping.Partitions key classes xs ∧
      ((∀ ys ∈ classes, ∀ a ∈ calls, ¬a.Overflows arg ys) →
        (Operator.group groupBy aggregates c).Runs db s
          (classes.map (Grouping.row key calls arg))) ∧
      ((∃ ys ∈ classes, ∃ a ∈ calls, a.Overflows arg ys) →
        ∃ ys ∈ classes, ∃ a ∈ calls, a.Overflows arg ys ∧
          (Operator.group groupBy aggregates c).Fails db s (.evaluation (.sumOverflow a.fn))) := by
  intro calls classes
  have hloads (tr : Trace) (htr : tr.Completes xs) : ComesTo calls arg classes
      ((loads groupBy aggregates.calls c db).rows (c.status s.child).schema tr)
      ((classes.map (Grouping.row key calls arg)).map .computed) :=
    loads_rows (startAll_eq haggregates) htr hkey hsized hcalls
  refine ⟨partitions_classesBy key groupBy xs, fun hnone => ?_, fun hover => ?_⟩
  · refine Buffered.runs (loads groupBy aggregates.calls c db) hset hcheck hc fun tr htr => ?_
    rcases hloads tr htr with ⟨hrows, -⟩ | ⟨ys, hys, a, ha, hover, -⟩
    · exact ⟨_, hrows, values_computed _⟩
    · exact absurd hover (hnone ys hys a ha)
  · let reason (e : QueryError) : Prop :=
      ∃ ys ∈ classes, ∃ a ∈ calls, a.Overflows arg ys ∧ e = .evaluation (.sumOverflow a.fn)
    have herrors (tr : Trace) (htr : tr.Completes xs) : ∃ e, reason e ∧
        (loads groupBy aggregates.calls c db).rows (c.status s.child).schema tr = .error e := by
      rcases hloads tr htr with ⟨-, hnone⟩ | ⟨ys, hys, a, ha, hover, herror⟩
      · obtain ⟨ys, hys, a, ha, hover⟩ := hover
        exact absurd hover (hnone ys hys a ha)
      · exact ⟨_, ⟨ys, hys, a, ha, hover, rfl⟩, herror⟩
    have hfails : ∃ e, reason e ∧ (Operator.group groupBy aggregates c).Fails db s e :=
      Buffered.fails (loads groupBy aggregates.calls c db) hset hcheck hc herrors
    obtain ⟨_, ⟨ys, hys, a, ha, hover, rfl⟩, hfails⟩ := hfails
    exact ⟨ys, hys, a, ha, hover, hfails⟩

namespace Group

/-- Doubles that are not numbers are told apart by their bits, and the zeros are not. -/
example : (classes id [[.float (.ofBits 0x7ff8000000000000)], [.float (.ofBits 0)],
    [.float (.ofBits 0xfff8000000000000)], [.float (.ofBits 0x8000000000000000)]]).map
      List.length = [1, 2, 1] := by
  decide +kernel

def pairColumns : Schema := ⟨[⟨"g", none, .bigInt⟩, ⟨"v", none, .bigInt⟩]⟩

def pairKey (x : Row) : Row := x.take 1

def pairValue (_ : Expr) (x : Row) : Value := (x[1]?).getD .null

def pairGroupBy : List Expr := [.column ⟨none, "g"⟩]

def pairCalls : AggregateMap :=
  [("#AVG(v)", .aggregate .avg false (.column ⟨none, "v"⟩)),
    ("#COUNT(*)", .aggregateAll .count false),
    ("#MIN(v)", .aggregate .min false (.column ⟨none, "v"⟩)),
    ("#SUM(DISTINCT v)", .aggregate .sum true (.column ⟨none, "v"⟩))]

def pairs : List Row :=
  [[.int 1, .int 10], [.int 2, .int 5], [.int 1, .null], [.int 1, .int 10], [.int 2, .int 7]]

/-- The numbers add up to `2 ^ 63`, but not where each of them counts once. -/
def largePairs : List Row :=
  [[.int 1, .int 4611686018427387904], [.int 1, .null], [.int 1, .int 4611686018427387904]]

def IsPair (x : Row) : Prop := ∃ g v, x = [g, v] ∧ (v = .null ∨ ∃ i, v = .int i)

theorem isPair_pairs : ∀ x ∈ pairs, IsPair x := by
  simp [pairs, IsPair]

theorem isPair_largePairs : ∀ x ∈ largePairs, IsPair x := by
  simp [largePairs, IsPair]

theorem mapM_pairGroupBy {x : Row} (h : IsPair x) :
    pairGroupBy.mapM (fun e => Operator.evalRow pairColumns e x) = .ok (pairKey x) := by
  obtain ⟨g, v, rfl, -⟩ := h
  rfl

theorem computes_pairs {a : AggregateCall} {rows : List Row}
    (ha : a ∈ pairCalls.calls.filterMap Expr.aggregateCall?) (hrows : ∀ x ∈ rows, IsPair x) :
    a.Computes pairColumns pairValue rows := by
  have harg : ∀ e, a.arg = some e → e = .column ⟨none, "v"⟩ := by
    simp only [pairCalls, AggregateMap.calls, List.map_cons, List.map_nil, List.filterMap_cons,
      List.filterMap_nil, Expr.aggregateCall?, List.mem_cons, List.not_mem_nil, or_false] at ha
    rintro e he
    rcases ha with rfl | rfl | rfl | rfl <;> simp_all
  constructor
  · intro e he x hx
    obtain ⟨g, v, rfl, -⟩ := hrows x hx
    rw [harg e he]
    rfl
  · intro _ e _ x hx
    obtain ⟨g, v, rfl, rfl | ⟨i, rfl⟩⟩ := hrows x hx
    · exact .inl rfl
    · exact .inr rfl
  · intro _ e _
    have hfloat : ∀ x, Value.float x ∉ {v | ∃ y ∈ rows, pairValue e y = v} := by
      rintro x ⟨y, hy, hval⟩
      obtain ⟨g, v, rfl, rfl | ⟨i, rfl⟩⟩ := hrows y hy <;> simp [pairValue] at hval
    exact Value.Orderly.transitiveOn ⟨fun hx => absurd hx (hfloat _),
      fun hn => absurd hn (hfloat _), fun hn => absurd hn (hfloat _)⟩
  · intro _ e _ x hx
    obtain ⟨g, v, rfl, rfl | ⟨i, rfl⟩⟩ := hrows x hx <;> exact trivial

theorem classes_pairs : classesBy pairKey pairGroupBy pairs =
    [[[.int 1, .int 10], [.int 1, .null], [.int 1, .int 10]],
      [[.int 2, .int 5], [.int 2, .int 7]]] := by
  rw [classesBy, if_neg (by decide), pairs, classes_cons]
  change _ :: classes pairKey [[.int 2, .int 5], [.int 2, .int 7]] = _
  rw [classes_cons]
  change _ :: _ :: classes pairKey [] = _
  rw [classes]
  rfl

theorem classes_largePairs : classesBy pairKey pairGroupBy largePairs = [largePairs] := by
  rw [classesBy, if_neg (by decide), largePairs, classes_cons]
  change _ :: classes pairKey [] = _
  rw [classes]
  rfl

/-- Two classes with their results, and a class over which the sum of the average overflows. -/
theorem gives_classes_pairs :
    (∃ s : Buffered (Leaf Nat),
      (Operator.group pairGroupBy pairCalls (.values pairColumns pairs)).Runs (.create 1) s
        [[.int 1, .float (Double.ofInt 20 / Double.ofInt 2), .int 3, .int 10, .int 10],
          [.int 2, .float (Double.ofInt 12 / Double.ofInt 2), .int 2, .int 5, .int 12]]) ∧
    ∃ s : Buffered (Leaf Nat),
      (Operator.group pairGroupBy pairCalls (.values pairColumns largePairs)).Fails (.create 1) s
        (.evaluation (.sumOverflow .avg)) := by
  let prepared (rows : List Row) : Buffered (Leaf Nat) :=
    ((Operator.group pairGroupBy pairCalls (.values pairColumns rows)).prepare .default
      (Buffered.fresh ⟨.fresh, 0, none⟩)).2
  have haggregates : ∀ e ∈ pairCalls.calls, e.isAggregate = true := by decide
  constructor
  · have hchild : (Operator.values pairColumns pairs).Runs (.create 1)
        (prepared pairs).child pairs := Values.runs rfl
    obtain ⟨-, hruns, -⟩ := gives_classes
      (Values.regular pairColumns pairs (.create 1)).settled rfl hchild
      (fun x hx => mapM_pairGroupBy (isPair_pairs x hx)) (by decide) haggregates
      (fun a ha => computes_pairs ha isPair_pairs)
    rw [classes_pairs] at hruns
    exact ⟨prepared pairs, hruns (by decide)⟩
  · have hchild : (Operator.values pairColumns largePairs).Runs (.create 1)
        (prepared largePairs).child largePairs := Values.runs rfl
    obtain ⟨-, -, hfails⟩ := gives_classes
      (Values.regular pairColumns largePairs (.create 1)).settled rfl hchild
      (fun x hx => mapM_pairGroupBy (isPair_largePairs x hx)) (by decide) haggregates
      (fun a ha => computes_pairs ha isPair_largePairs)
    rw [classes_largePairs] at hfails
    obtain ⟨ys, hys, a, ha, hover, hfails⟩ := hfails (by decide)
    obtain rfl := List.mem_singleton.1 hys
    have hfn : ∀ a ∈ pairCalls.calls.filterMap Expr.aggregateCall?,
        a.Overflows pairValue largePairs → a.fn = .avg := by decide
    rw [hfn a ha hover] at hfails
    exact ⟨prepared largePairs, hfails⟩

end Group

end RelQuery
