import RelQuery.Proofs.Alignment
import RelQuery.Proofs.RowOrder
import RelQuery.Proofs.Stages

namespace RelQuery

section MergeSort

variable {α : Type} {le : α → α → Bool} {xs : List α} {p : α → Bool}

theorem mergeSort_eq_attach (le : α → α → Bool) (xs : List α) :
    xs.mergeSort le = (xs.attach.mergeSort fun a b => le a.1 b.1).map Subtype.val := by
  rw [List.map_mergeSort (s := le) (fun _ _ _ _ => rfl), List.attach_map_subtype_val]

variable (htrans : ∀ a ∈ xs, ∀ b ∈ xs, ∀ c ∈ xs, le a b → le b c → le a c)
  (htotal : ∀ a b, le a b || le b a)

include htrans htotal

theorem pairwise_mergeSort_of_mem : (xs.mergeSort le).Pairwise fun a b => le a b := by
  rw [mergeSort_eq_attach, List.pairwise_map]
  have htransSub : ∀ a b c : {x // x ∈ xs}, le a.1 b.1 → le b.1 c.1 → le a.1 c.1 :=
    fun a b c => htrans a a.2 b b.2 c c.2
  exact List.pairwise_mergeSort htransSub (fun a b => htotal a.1 b.1) _

theorem filter_mergeSort_of_mem (hp : ∀ a ∈ xs, ∀ b ∈ xs, p a → p b → le a b) :
    (xs.mergeSort le).filter p = xs.filter p := by
  have hties : (xs.attach.filter fun a => p a.1).Pairwise fun a b => le a.1 b.1 :=
    List.pairwise_of_forall_mem_list fun a ha b hb =>
      hp a a.2 b b.2 (List.mem_filter.1 ha).2 (List.mem_filter.1 hb).2
  have htransSub : ∀ a b c : {x // x ∈ xs}, le a.1 b.1 → le b.1 c.1 → le a.1 c.1 :=
    fun a b c => htrans a a.2 b b.2 c c.2
  have hsub : (xs.attach.filter fun a => p a.1).Sublist
      (xs.attach.mergeSort fun a b => le a.1 b.1) :=
    List.sublist_mergeSort htransSub (fun a b => htotal a.1 b.1) hties List.filter_sublist
  have hmap : (xs.attach.filter fun a => p a.1).map Subtype.val = xs.filter p := by
    rw [← List.attach_map_subtype_val xs, List.filter_map, List.attach_map_subtype_val]
    rfl
  have hfilter : (xs.filter p).Sublist ((xs.mergeSort le).filter p) := by
    have hval := (hsub.map Subtype.val).filter p
    rw [← mergeSort_eq_attach, hmap] at hval
    simpa only [List.filter_filter, Bool.and_self] using hval
  have hlength : (xs.filter p).length = ((xs.mergeSort le).filter p).length :=
    ((List.mergeSort_perm xs le).filter p).length_eq.symm
  exact (hfilter.eq_of_length hlength).symm

end MergeSort

namespace Sorting

variable {c : Operator} {db : Storage} {schema : Schema} {keys : List OrderKey} {xs ys : List Row}

/-- The keys have values on all rows, and these come in order. -/
structure Ordered (schema : Schema) (keys : List OrderKey) (xs : List Row) : Prop where
  evaluated : ∀ x ∈ xs, ∃ k, keyRow schema keys x = .ok k
  pairwise : xs.Pairwise fun x y => ∀ k l, keyRow schema keys x = .ok k →
    keyRow schema keys y = .ok l → (Row.order (keys.map OrderKey.ascending) k l).isLE

/-- The values of each key on some rows are in a transitive order. -/
def ComparableOn (schema : Schema) (keys : List OrderKey) (xs : List Row) : Prop :=
  ∀ i : Nat, Value.TransitiveOn {v | ∃ x ∈ xs, ∃ k, keyRow schema keys x = .ok k ∧ k[i]? = some v}

/-- The keys of two rows are equal in their order. -/
def ties (schema : Schema) (keys : List OrderKey) (x y : Row) : Bool :=
  match keyRow schema keys x, keyRow schema keys y with
  | .ok k, .ok l => Row.order (keys.map OrderKey.ascending) k l == .eq
  | _, _ => false

theorem ComparableOn.comparable (h : ComparableOn schema keys xs) :
    Row.Comparable (keys.map OrderKey.ascending).length
      {k | ∃ x ∈ xs, keyRow schema keys x = .ok k} where
  length_eq := by
    rintro k ⟨x, -, hk⟩
    rw [List.length_map]
    exact Except.length_of_mapM hk
  transitiveOn i := by
    refine (h i).mono ?_
    rintro v ⟨k, ⟨x, hx, hk⟩, hv⟩
    exact ⟨x, hx, k, hk, hv⟩

theorem Ordered.sublist (h : Ordered schema keys ys) (hsub : xs.Sublist ys) :
    Ordered schema keys xs :=
  ⟨fun x hx => h.evaluated x (hsub.subset hx), h.pairwise.sublist hsub⟩

theorem ordered_nil (schema : Schema) (xs : List Row) : Ordered schema [] xs :=
  ⟨fun _ _ => ⟨[], rfl⟩, List.pairwise_of_forall fun _ _ _ _ _ _ => rfl⟩

/-- The key values of a row, where they are defined. -/
def keyOf (schema : Schema) (keys : List OrderKey) (x : Row) : Row :=
  (keyRow schema keys x).toOption.getD []

theorem keyRow_eq_keyOf {x : Row} (h : ∃ k, keyRow schema keys x = .ok k) :
    keyRow schema keys x = .ok (keyOf schema keys x) := by
  obtain ⟨k, hk⟩ := h
  rw [keyOf, hk]
  rfl

theorem rowAtMost_total (x y : Row) :
    rowAtMost keys (keyOf schema keys) x y || rowAtMost keys (keyOf schema keys) y x :=
  Row.order_total ..

section Arranged

variable (hkeys : ∀ x ∈ xs, ∃ k, keyRow schema keys x = .ok k)
  (hcomparable : ComparableOn schema keys xs)

include hkeys hcomparable

theorem rowAtMost_trans : ∀ x ∈ xs, ∀ y ∈ xs, ∀ z ∈ xs,
    rowAtMost keys (keyOf schema keys) x y → rowAtMost keys (keyOf schema keys) y z →
      rowAtMost keys (keyOf schema keys) x z := fun x hx y hy z hz =>
  Row.order_trans hcomparable.comparable ⟨x, hx, keyRow_eq_keyOf (hkeys x hx)⟩
    ⟨y, hy, keyRow_eq_keyOf (hkeys y hy)⟩ ⟨z, hz, keyRow_eq_keyOf (hkeys z hz)⟩

theorem ordered_mergeSort :
    Ordered schema keys (xs.mergeSort (rowAtMost keys (keyOf schema keys))) := by
  have hpairwise := pairwise_mergeSort_of_mem (rowAtMost_trans hkeys hcomparable)
    rowAtMost_total
  refine ⟨fun x hx => hkeys x (List.mem_mergeSort.1 hx),
    hpairwise.imp fun {x y} hxy k l hk hl => ?_⟩
  rw [rowAtMost, keyOf, keyOf, hk, hl] at hxy
  exact hxy

theorem filter_ties_mergeSort {z : Row} (hz : z ∈ xs) :
    (xs.mergeSort (rowAtMost keys (keyOf schema keys))).filter (ties schema keys z) =
      xs.filter (ties schema keys z) := by
  have htie : ∀ x ∈ xs, ties schema keys z x →
      Row.order (keys.map OrderKey.ascending) (keyOf schema keys z)
        (keyOf schema keys x) = .eq := by
    intro x hx h
    rw [ties, keyRow_eq_keyOf (hkeys z hz), keyRow_eq_keyOf (hkeys x hx)] at h
    exact eq_of_beq h
  refine filter_mergeSort_of_mem (rowAtMost_trans hkeys hcomparable) rowAtMost_total
    fun x hx y hy hzx hzy => ?_
  refine rowAtMost_trans hkeys hcomparable x hx z hz y hy ?_ ?_
  · rw [rowAtMost, Row.order_swap, htie x hx hzx]
    rfl
  · rw [rowAtMost, htie y hy hzy]
    rfl

end Arranged

/-- A sort gives the rows of its child in the order of its keys, and rows with equal keys in the
order in which they came. -/
theorem runs_sorted (hset : c.Settled db) {s : Buffered c.State}
    (hcheck : s.status.check .sort = .ok ()) (hc : c.Runs db s.child xs)
    (hkeys : ∀ x ∈ xs, ∃ k, keyRow (c.status s.child).schema keys x = .ok k)
    (hcomparable : ComparableOn (c.status s.child).schema keys xs) :
    ∃ ys, (Operator.sort keys c).Runs db s ys ∧ ys.Perm xs ∧
      Ordered (c.status s.child).schema keys ys ∧
      ∀ z ∈ xs, ys.filter (ties (c.status s.child).schema keys z) =
        xs.filter (ties (c.status s.child).schema keys z) :=
  ⟨_, runs hset hcheck hc fun x hx => keyRow_eq_keyOf (hkeys x hx), List.mergeSort_perm ..,
    ordered_mergeSort hkeys hcomparable, fun _ hz => filter_ties_mergeSort hkeys hcomparable hz⟩

theorem evaluated_of_collect {ts : List Tuple} {rows rows' : List (Row × Tuple)}
    (h : ts.foldlM (collect schema keys) rows = .ok rows') :
    ∀ t ∈ ts, ∃ k, keyRow schema keys t.values = .ok k := by
  induction ts generalizing rows with
  | nil => exact fun _ ht => absurd ht List.not_mem_nil
  | cons t ts ih =>
    rw [List.foldlM_cons] at h
    obtain ⟨next, hnext, hrest⟩ := Except.bind_eq_ok.1 h
    obtain ⟨k, hk, -⟩ := Except.bind_eq_ok.1 hnext
    exact List.forall_mem_cons.2 ⟨⟨k, hk⟩, ih hrest⟩

theorem ordered_loads {tr : Trace} {ts : List Tuple}
    (hcomparable : ComparableOn schema keys tr.rows)
    (h : (loads keys c db).rows schema tr = .ok ts) :
    Ordered schema keys (ts.map Tuple.values) := by
  obtain ⟨rows, hfold, -⟩ := Except.bind_eq_ok.1 h
  obtain ⟨rows', hcollect, hrest⟩ := Except.bind_eq_ok.1 hfold
  obtain ⟨⟨⟩, hending, -⟩ := Except.bind_eq_ok.1 hrest
  have hkeys := evaluated_of_collect hcollect
  obtain ⟨us, hus, hrows⟩ : ∃ us, (loads keys c db).rows schema tr = .ok us ∧
      us.map Tuple.values = tr.rows.mergeSort (rowAtMost keys (keyOf schema keys)) :=
    loads_rows ⟨rfl, hending⟩ fun t ht => keyRow_eq_keyOf (hkeys t ht)
  obtain rfl : us = ts := Except.ok.inj (hus.symm.trans h)
  rw [hrows]
  exact ordered_mergeSort (List.forall_mem_map.2 hkeys) hcomparable

end Sorting

namespace Plan

/-- A sort by some keys below filters and limits. -/
inductive SortedBy (keys : List OrderKey) : Plan → Prop
  | sort (c : Plan) : SortedBy keys (.sort keys c)
  | filter (q : Expr) {c : Plan} (h : SortedBy keys c) : SortedBy keys (.filter q c)
  | limit (n : Option Nat) (m : Nat) {c : Plan} (h : SortedBy keys c) : SortedBy keys (.limit n m c)

theorem sortedBy_of_orderedBy (p : Plan) (h : p.operator.orderedBy ≠ []) :
    p.SortedBy p.operator.orderedBy := by
  induction p with
  | sort keys c => exact .sort c
  | filter q c ih => exact .filter q (ih h)
  | limit n m c ih => exact .limit n m (ih h)
  | scan | values | project | rename | group | join | barrier => exact absurd rfl h

/-- In a run that has just started, the keys of the sort below filters and limits compare on the
rows of its input. -/
def KeysCompare (db : Storage) : (p : Plan) → p.operator.State → Prop
  | .filter _ c, s => c.KeysCompare db (Wrapped.child s)
  | .limit _ _ c, s => c.KeysCompare db (Limit.State.child s)
  | .sort keys c, s =>
    Sorting.ComparableOn (c.operator.status (Buffered.child s)).schema keys
      (c.operator.trace db (Buffered.child s)).rows
  | _, _ => True

end Plan

namespace Tree

variable {D : Storage → Prop}

/-- The operator at the root has the columns that preparation settles. -/
def Settled (t : Tree) : Prop := t.cursor.schema = t.plan.schema

theorem Settled.of_runs {t t' : Tree} (h : t.Settled) (hrun : t.Runs D t') : t'.Settled := by
  have hschema := schema_of_runs hrun
  obtain ⟨s, -, rfl⟩ := hrun
  exact hschema.trans h

theorem settled_of_prepare (p : Plan) {k : p.Settings} {s s' : p.operator.State}
    (hprep : p.prepareWith k s = (.ok (), s')) : ∀ n ∈ nodesOf p k s', n.Settled := by
  have root : ∀ {p : Plan} {k : p.Settings} {s s' : p.operator.State},
      p.prepareWith k s = (.ok (), s') → (⟨p, k, s'⟩ : Tree).Settled :=
    fun h => Plan.schema_of_prepare _ h
  induction p with
  | scan | values => exact List.forall_mem_singleton.2 (root hprep)
  | filter _ c ih | project _ c ih | rename _ c ih | barrier c ih =>
    obtain ⟨d, q, u, hd, -, rfl⟩ := Wrapped.prepare_eq_ok.1 hprep
    exact List.forall_mem_cons.2 ⟨root hprep, ih hd⟩
  | sort _ c ih | group _ _ c ih =>
    obtain ⟨d, q, hd, -, rfl⟩ := Buffered.prepare_eq_ok.1 hprep
    exact List.forall_mem_cons.2 ⟨root hprep, ih hd⟩
  | limit _ _ c ih =>
    obtain ⟨d, hd, rfl⟩ := Limit.prepare_eq_ok.1 hprep
    exact List.forall_mem_cons.2 ⟨root hprep, ih hd⟩
  | join _ _ _ l r ihl ihr =>
    obtain ⟨a, b, q, ha, hb, -, -, rfl⟩ := Join.prepare_eq_ok.1 hprep
    exact List.forall_mem_cons.2 ⟨root hprep, List.forall_mem_append.2 ⟨ihl ha, ihr hb⟩⟩

end Tree

theorem Filter.rows_sublist (s : Schema) (q : Expr) (tr : Trace) :
    (tr.choose (keep s q)).rows.Sublist tr.rows := by
  obtain ⟨ts, ending⟩ := tr
  induction ts with
  | nil => exact List.nil_sublist _
  | cons t ts ih =>
    have hcons : (⟨t :: ts, ending⟩ : Trace) = Trace.cons t ⟨ts, ending⟩ := rfl
    rw [hcons, Trace.choose_cons, keep]
    rcases Operator.accepts s q t with e | _ | _
    · exact List.nil_sublist _
    · exact ih.cons _
    · exact ih.cons_cons _

theorem Limit.rows_sublist (limit : Option Nat) (offset : Nat) (k : Counters) (tr : Trace) :
    (window limit offset k tr).rows.Sublist tr.rows := by
  have hdrop : (tr.drop (offset - k.skipped)).tuples.Sublist tr.tuples := List.drop_sublist ..
  unfold window
  split
  · exact List.nil_sublist _
  · cases limit with
    | none => exact hdrop.map _
    | some n =>
      rw [Option.map_some, Trace.takeUpTo, Trace.take]
      split
      · exact ((List.take_sublist ..).trans hdrop).map _
      · exact hdrop.map _

theorem Plan.ordered_trace (p : Plan) {k : p.Settings} {db : Storage} {s s' : p.operator.State}
    (hrewind : p.operator.rewind s = (.ok (), s'))
    (hnodes : ∀ n ∈ Tree.nodesOf p k s', n.Settled) (hcompare : p.KeysCompare db s') :
    Sorting.Ordered (p.operator.status s').schema p.operator.orderedBy
      (p.operator.trace db s').rows := by
  induction p with
  | filter q c ih =>
    obtain ⟨hroot, hrest⟩ := List.forall_mem_cons.1 hnodes
    have hchild := ih (Wrapped.rewind_ok hrewind) hrest hcompare
    have hschema : (Wrapped.status s').schema = (c.operator.status (Wrapped.child s')).schema :=
      hroot.trans (hrest _ (Tree.mem_nodes_self ⟨c, k.2, Wrapped.child s'⟩)).symm
    rw [show (operator (.filter q c)).trace db s' = _ from Filter.trace_eq q s']
    rw [← hschema] at hchild
    exact hchild.sublist (Filter.rows_sublist ..)
  | limit n m c ih =>
    obtain ⟨hroot, hrest⟩ := List.forall_mem_cons.1 hnodes
    have hchild := ih (Limit.rewind_ok hrewind).1 hrest hcompare
    have hschema : (Limit.State.status s').schema =
        (c.operator.status (Limit.State.child s')).schema :=
      hroot.trans (hrest _ (Tree.mem_nodes_self ⟨c, k.2, Limit.State.child s'⟩)).symm
    rw [show (operator (.limit n m c)).trace db s' = _ from Limit.trace_eq n m s']
    rw [← hschema] at hchild
    exact hchild.sublist (Limit.rows_sublist ..)
  | sort keys c =>
    obtain ⟨hroot, hrest⟩ := List.forall_mem_cons.1 hnodes
    have hschema : (Buffered.status s').schema = (c.operator.status (Buffered.child s')).schema :=
      hroot.trans (hrest _ (Tree.mem_nodes_self ⟨c, k.2, Buffered.child s'⟩)).symm
    obtain ⟨-, hloaded, hposition⟩ := Buffered.rewind_ok hrewind
    rw [show (operator (.sort keys c)).trace db s' = _ from
      Buffered.trace_of_unloaded (Sorting.loads keys c.operator db) hloaded, hposition]
    rw [show ((operator (.sort keys c)).status s').schema = _ from hschema]
    rcases hrows : (Sorting.loads keys c.operator db).rows
      (c.operator.status (Buffered.child s')).schema
      (c.operator.trace db (Buffered.child s')) with e | ts
    · exact ⟨fun _ hx => absurd hx List.not_mem_nil, .nil⟩
    · exact Sorting.ordered_loads hcompare hrows
  | scan | values | project | rename | group | join | barrier => exact Sorting.ordered_nil _ _

/-- A sort gives the rows of its input in the order of its keys, and those with equal keys in the
order in which they came. A prepared plan advertises an order only if it is such a sort below
filters and limits, and the rows of each of its runs come in the order that it advertises. -/
theorem Sorting.orders_rows :
    (∀ {c : Operator} {db : Storage} {keys : List OrderKey} {s : Buffered c.State} {xs : List Row},
      c.Settled db → s.status.check .sort = .ok () → c.Runs db s.child xs →
      (∀ x ∈ xs, ∃ k, keyRow (c.status s.child).schema keys x = .ok k) →
      ComparableOn (c.status s.child).schema keys xs →
      ∃ ys, (Operator.sort keys c).Runs db s ys ∧ ys.Perm xs ∧
        Ordered (c.status s.child).schema keys ys ∧
        ∀ z ∈ xs, ys.filter (ties (c.status s.child).schema keys z) =
          xs.filter (ties (c.status s.child).schema keys z)) ∧
    ∀ {t t₀ t₁ t₂ : Tree}, t.prepare = (.ok (), t₀) → t₀.Runs (fun _ => True) t₁ →
      t₁.rewind = (.ok (), t₂) → ∀ db, t₂.plan.KeysCompare db t₂.state →
      (t₂.cursor.orderedBy ≠ [] → t₂.plan.SortedBy t₂.cursor.orderedBy) ∧
        Ordered t₂.cursor.schema t₂.cursor.orderedBy (t₂.plan.operator.trace db t₂.state).rows := by
  refine ⟨fun hset hcheck hc hkeys hcomparable => runs_sorted hset hcheck hc hkeys hcomparable, ?_⟩
  intro t t₀ t₁ t₂ hprep hbefore hstart db hcompare
  have hnodes : ∀ n ∈ t₀.nodes, n.Settled := by
    obtain ⟨s₀, hs₀, rfl⟩ := Tree.prepare_eq hprep
    exact Tree.settled_of_prepare t.plan hs₀
  have hnodes₁ := Tree.nodes_of_runs Tree.Settled.of_runs hnodes hbefore
  obtain ⟨s₂, hs₂, rfl⟩ := Tree.rewind_eq hstart
  have hrun : t₁.Runs (fun _ => True) { t₁ with state := s₂ } :=
    have hreach : t₁.plan.operator.Reaches db .any t₁.state s₂ := .rewind hs₂ (.inr rfl)
    ⟨s₂, .of_reaches trivial hreach, rfl⟩
  have hnodes₂ := Tree.nodes_of_runs Tree.Settled.of_runs hnodes₁ hrun
  exact ⟨Plan.sortedBy_of_orderedBy t₁.plan,
    Plan.ordered_trace t₁.plan hs₂ hnodes₂ hcompare⟩

/-- Two of the rows tie, and one has no key. -/
def Sorting.someRows : List Row :=
  [[.int 1, .text "x"], [.null, .text "y"], [.int 2, .text "z"], [.int 1, .text "w"]]

def Sorting.someColumns : Schema := ⟨[⟨"a", none, .bigInt⟩, ⟨"b", none, .varChar 1⟩]⟩

def Sorting.descending : List OrderKey := [⟨.column ⟨none, "a"⟩, false⟩]

theorem Sorting.keyRow_someRows : ∀ x ∈ someRows, ∃ v, keyRow someColumns descending x = .ok [v] ∧
    (v = .null ∨ v = .int 1 ∨ v = .int 2) := by
  intro x hx
  simp only [someRows, List.mem_cons, List.not_mem_nil, or_false] at hx
  obtain rfl | rfl | rfl | rfl := hx
  · exact ⟨.int 1, rfl, .inr (.inl rfl)⟩
  · exact ⟨.null, rfl, .inl rfl⟩
  · exact ⟨.int 2, rfl, .inr (.inr rfl)⟩
  · exact ⟨.int 1, rfl, .inr (.inl rfl)⟩

theorem Sorting.comparableOn_someRows : ComparableOn someColumns descending someRows := by
  intro i
  have hkeys : ∀ v, (∃ x ∈ someRows, ∃ k, keyRow someColumns descending x = .ok k ∧
      k[i]? = some v) → v = .null ∨ v = .int 1 ∨ v = .int 2 := by
    rintro v ⟨x, hx, k, hk, hv⟩
    obtain ⟨u, hu, hcases⟩ := keyRow_someRows x hx
    obtain rfl : [u] = k := Except.ok.inj (hu.symm.trans hk)
    obtain rfl : u = v := by
      cases i with
      | zero => simpa using hv
      | succ i => simp at hv
    exact hcases
  refine Value.transitiveOn_of_exact (fun x hx => ?_) (fun j hj => ?_)
  · rcases hkeys _ hx with h | h | h <;> simp at h
  · rcases hkeys _ hj with h | h | h <;> simp at h <;> subst h <;> decide

/-- The rows in descending order, the one without a key last, also below a limit. -/
theorem Sorting.orders_rows_descending :
    (∃ (s : Buffered (Leaf Nat)) (ys : List Row),
      (Operator.sort descending (.values someColumns someRows)).Runs (.create 1) s ys ∧
        ys.Perm someRows ∧ Ordered someColumns descending ys) ∧
    let tree := Tree.limit (some 3) 0 (.sort descending (.values someColumns someRows))
    ∃ t₀ t₂ : Tree, tree.prepare = (.ok (), t₀) ∧ t₀.rewind = (.ok (), t₂) ∧
      t₂.cursor.orderedBy = descending ∧
      Ordered someColumns descending (t₂.plan.operator.trace (.create 1) t₂.state).rows := by
  have htrace : ∀ s : Leaf Nat, s.position = 0 →
      ((Operator.values someColumns someRows).trace (.create 1) s).rows = someRows := fun s hs => by
    rw [Values.trace_eq, hs]
    rfl
  constructor
  · let s : Buffered (Leaf Nat) := ((Operator.sort descending
      (.values someColumns someRows)).prepare
      .default (Buffered.fresh ⟨.fresh, 0, none⟩)).2
    have hchild : (Operator.values someColumns someRows).Runs (.create 1) s.child someRows :=
      Values.runs rfl
    have hkeys : ∀ x ∈ someRows, ∃ k, keyRow
        ((Operator.values someColumns someRows).status s.child).schema descending x = .ok k :=
      fun x hx => by
        obtain ⟨v, hv, -⟩ := keyRow_someRows x hx
        exact ⟨[v], hv⟩
    obtain ⟨ys, hruns, hperm, hordered, -⟩ := orders_rows.1
      (Values.regular someColumns someRows (.create 1)).settled rfl hchild hkeys
      comparableOn_someRows
    exact ⟨s, ys, hruns, hperm, hordered⟩
  · intro tree
    obtain ⟨t₀, ht₀⟩ : ∃ t₀, tree.prepare = (.ok (), t₀) := ⟨_, rfl⟩
    obtain ⟨t₂, ht₂⟩ : ∃ t₂, t₀.rewind = (.ok (), t₂) := by
      obtain ⟨-, rfl⟩ := Prod.mk.inj ht₀
      exact ⟨_, rfl⟩
    refine ⟨t₀, t₂, ht₀, ht₂, ?_⟩
    have hcompare : t₂.plan.KeysCompare (.create 1) t₂.state := by
      obtain ⟨-, rfl⟩ := Prod.mk.inj ht₀
      obtain ⟨-, rfl⟩ := Prod.mk.inj ht₂
      exact Eq.mpr (congrArg (ComparableOn someColumns descending) (htrace _ rfl))
        comparableOn_someRows
    obtain ⟨-, hordered⟩ := orders_rows.2 ht₀ ⟨_, .refl, rfl⟩ ht₂ (.create 1) hcompare
    obtain ⟨-, rfl⟩ := Prod.mk.inj ht₀
    obtain ⟨-, rfl⟩ := Prod.mk.inj ht₂
    exact ⟨rfl, hordered⟩

end RelQuery
