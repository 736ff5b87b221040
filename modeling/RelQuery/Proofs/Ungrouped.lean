import RelQuery.Proofs.OutputColumns
import RelQuery.Proofs.Plain
import RelQuery.Proofs.Planned

namespace RelQuery

theorem keepTrue_eq_ok {s : Schema} {p : Expr} {rows kept : List Row}
    (h : keepTrue s (some p) rows = .ok kept) :
    ∃ test : Row → Bool, (∀ r ∈ rows, p.holds (.single s r) = .ok (test r)) ∧
      kept = rows.filter test := by
  obtain ⟨tests, htests, h⟩ := Except.bind_eq_ok.1 h
  obtain ⟨test, htest, rfl⟩ := Except.exists_of_mapM htests
  obtain rfl := Except.ok.inj h
  refine ⟨test, htest, ?_⟩
  have hzip : rows.zip (rows.map test) = rows.map fun r => (r, test r) := by
    rw [List.zip_map_right, List.zip_eq_zipWith, List.zipWith_self, List.map_map]
    rfl
  rw [hzip, List.filter_map, List.map_map]
  exact List.map_id _

theorem mem_of_keepTrue {s : Schema} {p : Option Expr} {rows kept : List Row} {r : Row}
    (h : keepTrue s p rows = .ok kept) (hr : r ∈ kept) : r ∈ rows := by
  cases p with
  | none =>
    obtain rfl := Except.ok.inj h
    exact hr
  | some p =>
    obtain ⟨test, -, rfl⟩ := keepTrue_eq_ok h
    exact (List.mem_filter.1 hr).1

namespace SelectBody

open Sorting (rowAtMost)

variable {b : SelectBody} {s s' : Schema} {rows result : List Row} {r y k : Row}

theorem reference_eq_ok (h : b.reference s rows = .ok result) :
    ∃ filtered kept, keepTrue s b.filter rows = .ok filtered ∧
      keepTrue s b.having filtered = .ok kept ∧ ∃ key out : Row → Row,
        (∀ r ∈ kept, b.keyRow s r = .ok (key r)) ∧ (∀ r ∈ kept, b.outputRow s r = .ok (out r)) ∧
          result = windowRows b.limit b.offset
            ((kept.mergeSort (rowAtMost b.orderBy key)).map out) := by
  obtain ⟨filtered, hfiltered, h⟩ := Except.bind_eq_ok.1 h
  obtain ⟨kept, hkept, h⟩ := Except.bind_eq_ok.1 h
  obtain ⟨keys, hkeys, h⟩ := Except.bind_eq_ok.1 h
  obtain ⟨outputs, houtputs, h⟩ := Except.bind_eq_ok.1 h
  obtain rfl := Except.ok.inj h
  obtain ⟨key, hkey, rfl⟩ := Except.exists_of_mapM hkeys
  have hzip : (kept.map key).zip kept = kept.map fun r => (key r, r) := by
    rw [List.zip_map_left, List.zip_eq_zipWith, List.zipWith_self, List.map_map]
    rfl
  have hsorted : (kept.map fun r => (key r, r)).mergeSort (fun x y =>
      (Row.order (b.orderBy.map OrderKey.ascending) x.1 y.1).isLE) =
        (kept.mergeSort (rowAtMost b.orderBy key)).map fun r => (key r, r) := by
    refine (List.map_mergeSort (r := rowAtMost b.orderBy key) ?_).symm
    intro x _ y _
    rfl
  rw [hzip, hsorted, List.mapM_map] at houtputs
  obtain ⟨out, hout, rfl⟩ := Except.exists_of_mapM houtputs
  exact ⟨filtered, kept, hfiltered, hkept, key, out, hkey,
    fun r hr => hout r (List.mem_mergeSort.2 hr), rfl⟩

/-- The keys of a row are those of the row that its columns are found in. -/
theorem keyRow_of_meaning (hfree : b.AggregateFree)
    (hmeaning : ∀ n ∈ b.orderBy.flatMap (·.expr.columns),
      ∃ v, b.meaning s r n = .ok v ∧ Environment.lookup (.single s' y) n = .ok v)
    (hk : b.keyRow s r = .ok k) : Sorting.keyRow s' b.orderBy y = .ok k := by
  refine Except.mapM_of_map_eq (k := QueryError.evaluation) (List.map_congr_left fun o ho => ?_) hk
  have heval : o.expr.evalWith (b.meaning s r) = o.expr.eval (.single s' y) :=
    Expr.evalWith_eq (hfree.orderBy o ho) fun n hn =>
      hmeaning n (List.mem_flatMap.2 ⟨o, ho, hn⟩)
  rw [heval]
  rfl

end SelectBody

namespace Planning

variable {db : Storage} {config : Config} {c c' : Cursor} {b : SelectBody} {rows rows' : List Row}

theorem body_ungrouped (hgroup : b.groupBy = []) (hfree : b.AggregateFree) : body config c b = (do
    let c ← layerSome config c .filter b.filter
    let c ← layerSome config c .filter b.having
    let first := sortsFirst b.orderBy b.items c.schema
    let c ← layerIf config c first (.sort b.orderBy)
    let c ← layerIf config c (!b.isTrivial) (.project b.items)
    let c ← layerIf config c (!b.orderBy.isEmpty && !first) (.sort b.orderBy)
    layerIf config c (b.limit.isSome || 0 < b.offset) (.limit b.limit b.offset)) := by
  have hkeys : ∀ k ∈ b.groupBy, k.containsAggregate = false := by
    rw [hgroup]
    exact fun k hk => absurd hk List.not_mem_nil
  rw [body_plain hfree hkeys, hgroup]
  rfl

theorem rows_layerFilter {p : Option Expr} (hc : Cursor.prepared c.plan config = .ok c)
    (h : layerSome config c .filter p = .ok c') (hrows : c.rows db = .ok rows)
    (hkeep : keepTrue c.schema p rows = .ok rows') :
    Cursor.prepared c'.plan config = .ok c' ∧ c'.schema = c.schema ∧ c'.rows db = .ok rows' := by
  cases p with
  | none =>
    obtain rfl := Except.ok.inj h
    obtain rfl := Except.ok.inj hkeep
    exact ⟨hc, rfl, hrows⟩
  | some p =>
    obtain ⟨test, htest, rfl⟩ := keepTrue_eq_ok hkeep
    obtain ⟨hschema, hfilter⟩ := Cursor.filter_prepared hc h
    exact ⟨Cursor.prepared_plan h, hschema, hfilter hrows htest⟩

theorem rows_layerLimit {limit : Option Nat} {offset : Nat}
    (hc : Cursor.prepared c.plan config = .ok c)
    (h : layerIf config c (limit.isSome || 0 < offset) (.limit limit offset) = .ok c')
    (hrows : c.rows db = .ok rows) : c'.rows db = .ok (windowRows limit offset rows) := by
  unfold layerIf at h
  split at h
  · exact (Cursor.limit_prepared hc h).2 hrows
  · next hwanted =>
    obtain rfl := Except.ok.inj h
    have hnone : limit = none ∧ offset = 0 := by
      cases limit with
      | none => simpa using hwanted
      | some n => simp at hwanted
    rw [hnone.1, hnone.2]
    exact hrows

theorem rows_layerProject {out : Row → Row} (hc : Cursor.prepared c.plan config = .ok c)
    (h : layerIf config c (!b.isTrivial) (.project b.items) = .ok c') (hrows : c.rows db = .ok rows)
    (hwidth : ∀ r ∈ rows, r.length = c.schema.width)
    (hout : ∀ r ∈ rows, b.outputRow c.schema r = .ok (out r)) :
    Cursor.prepared c'.plan config = .ok c' ∧ c'.rows db = .ok (rows.map out) ∧
      c'.schema.columns.map Column.fullName = (b.fields c.schema).map Field.name ∧
      ∃ os, Project.resolveItems c.schema b.items = .ok os := by
  unfold layerIf at h
  split at h
  · obtain ⟨os, hos, hschema, hgives⟩ := Cursor.project_prepared hc h
    have hreads := Project.reads_items hos
    refine ⟨Cursor.prepared_plan h, ?_, ?_, os, hos⟩
    · refine Cursor.rows_of_gives (hgives (Cursor.gives_of_rows hrows) fun r hr => ?_)
      exact hreads.outputRow (hwidth r hr) (hout r hr)
    · rw [hschema, List.map_map]
      exact hreads.names
  · next htrivial =>
    obtain rfl := Except.ok.inj h
    have htrivial : b.isTrivial = true := by simpa using htrivial
    have hsame : rows.map out = rows.map id := by
      apply List.map_congr_left
      intro r hr
      have hcopy := SelectBody.outputRow_of_isTrivial htrivial (hwidth r hr)
      exact Except.ok.inj ((hout r hr).symm.trans hcopy)
    rw [hsame, List.map_id]
    exact ⟨hc, hrows, (SelectBody.names_of_isTrivial c.schema htrivial).symm,
      SelectBody.resolveItems_of_isTrivial c.schema htrivial⟩

theorem meaning_of_sortsFirst {s : Schema} {n : ColumnName} {r : Row}
    (h : sortsFirst b.orderBy b.items s = true) (hn : n ∈ b.orderBy.flatMap (·.expr.columns))
    (hr : r.length = s.width) :
    ∃ v, b.meaning s r n = .ok v ∧ Environment.lookup (.single s r) n = .ok v := by
  simp only [sortsFirst, Bool.and_eq_true, Bool.not_eq_true', List.all_eq_true] at h
  obtain ⟨⟨-, hshadowed⟩, hresolves⟩ := h
  refine SelectBody.meaning_of_source ?_ (hresolves n hn) hr
  have hone := List.any_eq_false.1 hshadowed n hn
  rw [shadowed, List.any_cons, List.any_nil, Bool.or_false]
  simpa using hone

/-- Rows that are sorted behind the projection come out in the order of their keys. -/
theorem rows_sortBehind {s : Schema} {key out : Row → Row} {os : List (Project.Output × Column)}
    (hfree : b.AggregateFree) (htexts : b.TextsNew s)
    (hos : Project.resolveItems s b.items = .ok os)
    (hnames : c.schema.columns.map Column.fullName = (b.fields s).map Field.name)
    (hwidth : ∀ r ∈ rows, r.length = s.width) (hkey : ∀ r ∈ rows, b.keyRow s r = .ok (key r))
    (hout : ∀ r ∈ rows, b.outputRow s r = .ok (out r))
    (hc : Cursor.prepared c.plan config = .ok c) (hrows : c.rows db = .ok (rows.map out))
    (h : layer config c (.sort b.orderBy) = .ok c') :
    c'.rows db = .ok ((rows.mergeSort (Sorting.rowAtMost b.orderBy key)).map out) := by
  obtain ⟨-, hresolves, hsort⟩ := Cursor.sort_prepared hc h
  have hkeyOut : ∀ r ∈ rows, Sorting.keyRow c.schema b.orderBy (out r) = .ok (key r) := by
    intro r hr
    exact SelectBody.keyRow_of_meaning hfree (fun n hn => SelectBody.meaning_of_output hos htexts
      hnames (hwidth r hr) (hout r hr) (hresolves n hn)) (hkey r hr)
  -- The keys of the result, as a function of its rows.
  let keyOut : Row → Row := fun y => (Sorting.keyRow c.schema b.orderBy y).toOption.getD []
  have hkeyOut_eq : ∀ r ∈ rows, keyOut (out r) = key r := by
    intro r hr
    simp only [keyOut, hkeyOut r hr]
    rfl
  have hkeyRow : ∀ y ∈ rows.map out, Sorting.keyRow c.schema b.orderBy y = .ok (keyOut y) := by
    intro y hy
    obtain ⟨r, hr, rfl⟩ := List.mem_map.1 hy
    rw [hkeyOut_eq r hr]
    exact hkeyOut r hr
  rw [hsort hrows hkeyRow, List.map_mergeSort (s := Sorting.rowAtMost b.orderBy keyOut)]
  intro r hr r' hr'
  rw [Sorting.rowAtMost, Sorting.rowAtMost, hkeyOut_eq r hr, hkeyOut_eq r' hr']

/-- Whichever side of the projection the rows are sorted on, they come out in the order of their
keys. -/
theorem rows_sorted {key out : Row → Row} {c₄ c₅ c₆ : Cursor} (hfree : b.AggregateFree)
    (hc : Cursor.prepared c.plan config = .ok c) (htexts : b.TextsNew c.schema)
    (hrows : c.rows db = .ok rows) (hwidth : ∀ r ∈ rows, r.length = c.schema.width)
    (hkey : ∀ r ∈ rows, b.keyRow c.schema r = .ok (key r))
    (hout : ∀ r ∈ rows, b.outputRow c.schema r = .ok (out r))
    (h₄ : layerIf config c (sortsFirst b.orderBy b.items c.schema) (.sort b.orderBy) = .ok c₄)
    (h₅ : layerIf config c₄ (!b.isTrivial) (.project b.items) = .ok c₅)
    (h₆ : layerIf config c₅ (!b.orderBy.isEmpty && !sortsFirst b.orderBy b.items c.schema)
      (.sort b.orderBy) = .ok c₆) :
    Cursor.prepared c₆.plan config = .ok c₆ ∧
      c₆.rows db = .ok ((rows.mergeSort (Sorting.rowAtMost b.orderBy key)).map out) := by
  cases hfirst : sortsFirst b.orderBy b.items c.schema with
  | true =>
    rw [hfirst] at h₄ h₆
    rw [Bool.not_true, Bool.and_false] at h₆
    obtain rfl := Except.ok.inj h₆
    obtain ⟨hschema, -, hsort⟩ := Cursor.sort_prepared hc h₄
    have hsorted := hsort hrows fun r hr => SelectBody.keyRow_of_meaning hfree
      (fun n hn => meaning_of_sortsFirst hfirst hn (hwidth r hr)) (hkey r hr)
    have hmem : ∀ r ∈ rows.mergeSort (Sorting.rowAtMost b.orderBy key), r ∈ rows :=
      fun r hr => List.mem_mergeSort.1 hr
    obtain ⟨hc₅, hrows₅, -⟩ := rows_layerProject (Cursor.prepared_plan h₄) h₅ hsorted
      (fun r hr => hschema ▸ hwidth r (hmem r hr)) (fun r hr => hschema ▸ hout r (hmem r hr))
    exact ⟨hc₅, hrows₅⟩
  | false =>
    rw [hfirst] at h₄ h₆
    obtain rfl := Except.ok.inj h₄
    obtain ⟨hc₅, hrows₅, hnames, os, hos⟩ := rows_layerProject hc h₅ hrows hwidth hout
    cases hkeys : b.orderBy.isEmpty with
    | true =>
      -- Without keys nothing is sorted, and all rows are equal in order.
      rw [hkeys] at h₆
      obtain rfl := Except.ok.inj h₆
      have hsame : rows.mergeSort (Sorting.rowAtMost b.orderBy key) = rows := by
        rw [List.isEmpty_iff.1 hkeys]
        exact List.mergeSort_of_pairwise (List.pairwise_of_forall fun _ _ => rfl)
      rw [hsame]
      exact ⟨hc₅, hrows₅⟩
    | false =>
      rw [hkeys] at h₆
      exact ⟨Cursor.prepared_plan h₆,
        rows_sortBehind hfree htexts hos hnames hwidth hkey hout hc₅ hrows₅ h₆⟩

end Planning

/-- A statement without grouping and aggregate calls gives the rows that it means, wherever they are
sorted: those of its source that its predicates keep, in the order of its keys, read through its
select list, and of these a window. -/
theorem Select.rows_reference {db : Storage} (hdb : db.Built) {config : Config}
    {enclosing : List Select} {q : Select} {source c : Cursor} {rows result : List Row}
    (hgroup : q.body.groupBy = []) (hfree : q.body.AggregateFree)
    (hsource : Planning.source db config q.source = .ok source)
    (hplan : q.plan db config enclosing = .ok c) (htexts : q.body.TextsNew source.schema)
    (hrows : source.rows db = .ok rows)
    (hresult : q.body.reference source.schema rows = .ok result) : c.rows db = .ok result := by
  have hplanned := Planning.planned_source hdb.sound hsource
  have hwidth := hplanned.length_rows hrows
  obtain ⟨filtered, kept, hfiltered, hkept, key, out, hkey, hout, rfl⟩ :=
    SelectBody.reference_eq_ok hresult
  have hbody : Planning.body config source q.body = .ok c := by
    unfold Select.plan at hplan
    split at hplan
    · simp [throw, throwThe, MonadExceptOf.throw, bind, Except.bind] at hplan
    · obtain ⟨source', hsource', hbody⟩ := Except.bind_eq_ok.1 hplan
      rwa [← Except.ok.inj (hsource.symm.trans hsource')] at hbody
  rw [Planning.body_ungrouped hgroup hfree] at hbody
  obtain ⟨c₁, h₁, hbody⟩ := Except.bind_eq_ok.1 hbody
  obtain ⟨c₂, h₂, hbody⟩ := Except.bind_eq_ok.1 hbody
  obtain ⟨c₃, h₃, hbody⟩ := Except.bind_eq_ok.1 hbody
  obtain ⟨c₄, h₄, hbody⟩ := Except.bind_eq_ok.1 hbody
  obtain ⟨c₅, h₅, h₆⟩ := Except.bind_eq_ok.1 hbody
  obtain ⟨hc₁, hschema₁, hrows₁⟩ :=
    Planning.rows_layerFilter hplanned.prepared h₁ hrows hfiltered
  obtain ⟨hc₂, hschema₂, hrows₂⟩ :=
    Planning.rows_layerFilter hc₁ h₂ hrows₁ (hschema₁ ▸ hkept)
  have hschema := hschema₂.trans hschema₁
  have hmem : ∀ r ∈ kept, r.length = source.schema.width := fun r hr =>
    hwidth r (mem_of_keepTrue hfiltered (mem_of_keepTrue hkept hr))
  rw [← hschema] at htexts hmem hkey hout
  obtain ⟨hc₅, hrows₅⟩ := Planning.rows_sorted hfree hc₂ htexts hrows₂ hmem hkey hout h₃ h₄ h₅
  exact Planning.rows_layerLimit hc₅ h₆ hrows₅

/-- A key that is the alias of an item and the name of a column of the source is the item. -/
theorem Select.rows_reference_shadowed :
    let below := Expr.arith .sub (.literal (.int 0)) (.column (.unqualified "k"))
    let q : Select := ⟨Planning.outerConstants,
      [.expr below (some "k"), .expr (.column (.unqualified "y")) none], none, [], none,
      [⟨.column (.unqualified "k"), true⟩], some 2, 0⟩
    ∃ c, q.plan (.create 1) .default [] = .ok c ∧
      c.rows (.create 1) = .ok [[.int (-2), .int 20], [.int (-1), .null]] := by
  intro below q
  obtain ⟨source, hsource, hschema, hrows⟩ := Planning.source_outerConstants
  obtain ⟨c, hc⟩ : ∃ c, q.plan (.create 1) .default [] = .ok c := ⟨_, rfl⟩
  have hfree : q.body.AggregateFree := by
    refine ⟨?_, fun p hp => (nomatch hp), fun p hp => (nomatch hp), ?_⟩
    · intro e a hitem
      simp only [q, List.mem_cons, SelectItem.expr.injEq, List.not_mem_nil, or_false] at hitem
      obtain ⟨rfl, -⟩ | ⟨rfl, -⟩ := hitem
      · rfl
      · rfl
    · intro k hk
      obtain rfl := List.mem_singleton.1 hk
      rfl
  have htexts : q.body.TextsNew source.schema := by
    rw [hschema]
    intro e he hcomputed
    simp only [q, List.mem_cons, SelectItem.expr.injEq, List.not_mem_nil, or_false] at he
    obtain ⟨-, hnone⟩ | ⟨rfl, -⟩ := he
    · nomatch hnone
    · nomatch hcomputed
  have hresult : q.body.reference source.schema
      [[.int 1, .int 10, .null], [.int 2, .null, .int 20]] =
        .ok [[.int (-2), .int 20], [.int (-1), .null]] := by
    rw [hschema]
    unfold q below
    cbv
  exact ⟨c, hc, Select.rows_reference (.create 1) rfl hfree hsource hc htexts hrows hresult⟩

end RelQuery
