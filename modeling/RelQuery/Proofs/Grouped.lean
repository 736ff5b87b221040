import RelQuery.Proofs.Aggregation
import RelQuery.Proofs.GroupKeys
import RelQuery.Proofs.Ungrouped

namespace RelQuery

open Planning.Outputs (itemExprs mem_itemExprs)

section Naming

variable {s s' : Schema} {groupBy : List Expr} {n : ColumnName}

theorem KeyColumns.width_eq (h : KeyColumns s groupBy s') : s'.width = groupBy.length := by
  have hlength := congrArg List.length h
  rwa [List.length_map, List.length_map] at hlength

/-- A reference is the name of one key of a grouping. -/
def KeyName (s : Schema) (groupBy : List Expr) (n : ColumnName) : Prop :=
  groupBy.countP (fun k => (SelectItem.fieldName s k none).answers n) = 1

instance (s : Schema) (groupBy : List Expr) (n : ColumnName) : Decidable (KeyName s groupBy n) :=
  inferInstanceAs (Decidable (_ = 1))

theorem KeyColumns.resolves_iff (hnames : KeyColumns s groupBy s') :
    s'.resolves n = true ↔ KeyName s groupBy n := by
  have hcolumns : s'.columns.zipIdx.countP ((·.answers n) ∘ Prod.fst) =
      s'.columns.countP (·.answers n) := by
    rw [← List.countP_map, List.zipIdx_map_fst]
  have hfull : s'.columns.countP (·.answers n) =
      (s'.columns.map Column.fullName).countP (·.answers n) := by
    rw [List.countP_map]
    exact List.countP_congr fun c _ => by rw [c.answers_eq n]; rfl
  rw [Schema.resolves_iff_length, Schema.positions, Schema.candidates, List.length_map,
    ← List.countP_eq_length_filter]
  change s'.columns.zipIdx.countP ((·.answers n) ∘ Prod.fst) = 1 ↔ _
  rw [hcolumns, hfull, hnames, List.countP_map]
  rfl

theorem Group.keyColumn_eq_ok {child : Status} {k : Expr}
    (h : ∀ n ∈ k.columns, child.schema.resolves n = true) :
    ∃ x, Group.keyColumn child k = .ok x ∧
      x.1.fullName = SelectItem.fieldName child.schema k none := by
  cases hcolumn : k.column? with
  | some n =>
    have hn := h n (Expr.mem_columns_of_column? hcolumn)
    obtain ⟨c, i, hresolve⟩ := Schema.resolves_iff.1 hn
    simp only [Group.keyColumn, SelectItem.fieldName, hcolumn, hresolve]
    exact ⟨_, rfl, rfl⟩
  | none =>
    simp only [Group.keyColumn, SelectItem.fieldName, hcolumn, Operator.resolveAll_eq_ok.2 h]
    exact ⟨_, rfl, rfl⟩

theorem Group.keyColumns_eq_ok {child : Status}
    (h : ∀ k ∈ groupBy, ∀ n ∈ k.columns, child.schema.resolves n = true) :
    ∃ xs, groupBy.mapM (Group.keyColumn child) = .ok xs ∧
      xs.map (·.1.fullName) = groupBy.map (SelectItem.fieldName child.schema · none) := by
  induction groupBy with
  | nil => exact ⟨[], rfl, rfl⟩
  | cons k ks ih =>
    obtain ⟨x, hx, hname⟩ := Group.keyColumn_eq_ok (h k List.mem_cons_self)
    obtain ⟨xs, hxs, hnames⟩ := ih fun k hk => h k (List.mem_cons_of_mem _ hk)
    refine ⟨x :: xs, ?_, ?_⟩
    · exact Except.mapM_cons_eq_ok.2 ⟨x, hx, xs, hxs, rfl⟩
    · rw [List.map_cons, List.map_cons, hname, hnames]

theorem Group.profile_eq_ok (config : Config) (child : Status)
    (h : ∀ k ∈ groupBy, ∀ n ∈ k.columns, child.schema.resolves n = true) :
    ∃ q, Group.profile config groupBy [] child = .ok q ∧
      KeyColumns child.schema groupBy q.schema := by
  obtain ⟨columns, hcolumns, hnames⟩ := Group.keyColumns_eq_ok h
  simp only [Group.profile, AggregateMap.calls, List.map_nil, List.find?_nil, hcolumns]
  refine ⟨_, rfl, ?_⟩
  change ((columns ++ []).map Prod.fst).map Column.fullName = _
  rw [List.append_nil, List.map_map]
  exact hnames

end Naming

namespace Cursor

variable {c : Cursor} {config : Config} {pl : Plan} (hc : Cursor.prepared pl config = .ok c)

include hc

/-- A grouping without calls is prepared where its keys resolve, and gives the keys of the
groups. -/
theorem prepared_group {groupBy : List Expr} (hgroup : groupBy ≠ [])
    (hresolves : ∀ k ∈ groupBy, ∀ n ∈ k.columns, c.schema.resolves n = true) :
    ∃ c', Cursor.prepared (.group groupBy [] pl) config = .ok c' ∧
      KeyColumns c.schema groupBy c'.schema ∧ ∀ {db xs} {key : Row → Row}, c.rows db = .ok xs →
        (∀ x ∈ xs, groupBy.mapM (·.eval (.single c.schema x)) = .ok (key x)) →
        (∀ x ∈ xs, (key x).Sized) →
          c'.rows db = .ok ((xs.map key).eraseDupsBy Row.alike) := by
  obtain ⟨d, hd, rfl⟩ := prepared_ok hc
  obtain ⟨q, hq, hnames⟩ := Group.profile_eq_ok config (pl.operator.status d) hresolves
  have hprepared := prepared_of_ok (p := .group groupBy [] pl)
    (Buffered.prepare_eq_ok.2 ⟨d, q, hd, hq, rfl⟩)
  refine ⟨_, hprepared, hnames, fun {db xs key} hrows hkey hsized => rows_eq_ok.2 ?_⟩
  refine Group.runs (pl.regular db).settled rfl (rows_eq_ok.1 hrows) hgroup (fun x hx => ?_) hsized
  exact Except.mapM_of_map_eq rfl (hkey x hx)

end Cursor

namespace SelectBody

/-- A statement that groups its rows and selects keys of the groups. -/
structure SelectsKeys (b : SelectBody) (s : Schema) : Prop where
  grouped : b.groupBy ≠ []
  having : b.having = none
  orderBy : b.orderBy = []
  items : ∀ item ∈ b.items, ∃ e a, item = .expr e a ∧ b.groupBy.any (e.same ·) = true
  filterPlain : ∀ p, b.filter = some p → p.containsAggregate = false
  keysPlain : ∀ k ∈ b.groupBy, k.containsAggregate = false
  keysResolve : ∀ k ∈ b.groupBy, ∀ n ∈ k.columns, s.resolves n = true

/-- Keys are told from all else in the keys and the items. -/
def KeysTold (b : SelectBody) : Prop :=
  ∀ e ∈ b.groupBy ++ itemExprs b.items, e.Told b.groupBy

variable {b : SelectBody} {s s' : Schema} {e : Expr} {r keys : Row}

theorem SelectsKeys.same (h : b.SelectsKeys s) (he : e ∈ itemExprs b.items) :
    b.groupBy.any (e.same ·) = true := by
  obtain ⟨a, hitem⟩ := mem_itemExprs.1 he
  obtain ⟨e', a', hitem', hsame⟩ := h.items _ hitem
  rw [(SelectItem.expr.inj hitem').1]
  exact hsame

theorem SelectsKeys.exprs (h : b.SelectsKeys s) : ∀ item ∈ b.items, ∃ e a, item = .expr e a := by
  intro item hitem
  obtain ⟨e, a, hexpr, -⟩ := h.items item hitem
  exact ⟨e, a, hexpr⟩

theorem SelectsKeys.mem_groupBy (h : b.SelectsKeys s) (htold : b.KeysTold)
    (he : e ∈ itemExprs b.items) : e ∈ b.groupBy := by
  obtain ⟨k, hk, hsame⟩ := List.any_eq_true.1 (h.same he)
  rw [(htold e (List.mem_append_right _ he)).same e (.self e) k hk hsame]
  exact hk

theorem SelectsKeys.aggregateFree (h : b.SelectsKeys s) (htold : b.KeysTold) : b.AggregateFree := by
  constructor
  · intro e a hitem
    have he : e ∈ itemExprs b.items := mem_itemExprs.2 ⟨a, hitem⟩
    exact h.keysPlain e (h.mem_groupBy htold he)
  · exact h.filterPlain
  · rw [h.having]
    exact fun p hp => nomatch hp
  · rw [h.orderBy]
    exact fun k hk => absurd hk List.not_mem_nil

theorem eval_eq_keyValue (htold : e.Told b.groupBy) (hsame : b.groupBy.any (e.same ·) = true)
    (hvalues : b.groupBy.mapM (·.eval (.single s r)) = .ok keys) :
    e.eval (.single s r) = .ok (b.keyValue keys e) := by
  have hlt : b.groupBy.findIdx (e.same ·) < b.groupBy.length :=
    List.findIdx_lt_length.2 (List.any_eq_true.1 hsame)
  have hfound : e.same b.groupBy[b.groupBy.findIdx (e.same ·)] = true :=
    List.findIdx_getElem (w := hlt)
  have hself := htold.same e (.self e) _ (List.getElem_mem hlt) hfound
  obtain ⟨v, hv, hvalue⟩ := Except.getElem?_of_mapM hvalues (List.getElem?_eq_getElem hlt)
  rw [keyValue, hv]
  rw [← hself] at hvalue
  exact hvalue

end SelectBody

namespace Project

variable {s : Schema} {r : Row} {items : List SelectItem} {f : Expr → Expr} {v : Expr → Value}

theorem resolveItem_expr_eq_ok {e : Expr} {a : Option String} :
    (∃ os, resolveItem s (.expr e a) = .ok os) ↔
      ∀ n, e.column? = some n → s.resolves n = true := by
  cases hcolumn : e.column? with
  | none => simp [resolveItem, hcolumn]
  | some n =>
    rw [resolveItem, hcolumn]
    dsimp only
    cases hresolve : s.resolve n with
    | error err => simp [Schema.resolves, hresolve, Except.isOk, Except.toBool]
    | ok x => cases a <;> simp [Schema.resolves, hresolve, Except.isOk, Except.toBool]

/-- Items that are expressions resolve where those that are columns do. -/
theorem resolveItems_exprs_eq_ok (hexprs : ∀ item ∈ items, ∃ e a, item = .expr e a) :
    (∃ os, resolveItems s (items.map (SelectItem.map f)) = .ok os) ↔
      ∀ e ∈ itemExprs items, ∀ n, (f e).column? = some n → s.resolves n = true := by
  induction items with
  | nil => exact ⟨fun _ e he => absurd he List.not_mem_nil, fun _ => ⟨[], rfl⟩⟩
  | cons item items ih =>
    obtain ⟨e, a, rfl⟩ := hexprs item List.mem_cons_self
    rw [itemExprs, List.forall_mem_cons, ← resolveItem_expr_eq_ok (a := a),
      ← ih fun i hi => hexprs i (List.mem_cons_of_mem _ hi)]
    constructor
    · rintro ⟨os, h⟩
      obtain ⟨os₁, h₁, h⟩ := Except.bind_eq_ok.1 h
      obtain ⟨os₂, h₂, -⟩ := Except.bind_eq_ok.1 h
      exact ⟨⟨os₁, h₁⟩, os₂, h₂⟩
    · rintro ⟨⟨os₁, h₁⟩, os₂, h₂⟩
      exact ⟨os₁ ++ os₂, Except.bind_eq_ok.2 ⟨os₁, h₁, Except.bind_eq_ok.2 ⟨os₂, h₂, rfl⟩⟩⟩

theorem mapM_fields (hexprs : ∀ item ∈ items, ∃ e a, item = .expr e a)
    (h : ∀ e ∈ itemExprs items, (f e).eval (.single s r) = .ok (v e)) :
    ((items.map (SelectItem.map f)).flatMap (·.fields s)).mapM (·.value r) =
      .ok ((itemExprs items).map v) := by
  induction items with
  | nil => rfl
  | cons item items ih =>
    obtain ⟨e, a, rfl⟩ := hexprs item List.mem_cons_self
    have hrest := ih (fun i hi => hexprs i (List.mem_cons_of_mem _ hi))
      fun e' he' => h e' (List.mem_cons_of_mem e he')
    have hvalue : (f e).eval (.single s r) = .ok (v e) := h e List.mem_cons_self
    rw [List.map_cons, List.flatMap_cons, SelectItem.map, SelectItem.fields, List.singleton_append,
      List.mapM_cons, hrest]
    dsimp only
    rw [hvalue]
    rfl

end Project

namespace Planning

variable {config : Config} {c : Cursor} {b : SelectBody} {s : Schema}

theorem body_grouped (h : b.SelectsKeys s) (hfree : b.AggregateFree) : body config c b = (do
    let c ← layerSome config c .filter b.filter
    let c ← layer config c (.group b.groupBy [])
    let c ← layer config c (.project (b.items.map (.map (replaceGrouped b.groupBy))))
    layerIf config c (b.limit.isSome || 0 < b.offset) (.limit b.limit b.offset)) := by
  have hgrouped : b.groupBy.isEmpty = false := List.isEmpty_eq_false_iff.2 h.grouped
  have htrivial : b.isTrivial = false := by
    by_contra htrivial
    have hitems := SelectBody.items_of_isTrivial (by simpa using htrivial)
    obtain ⟨e, a, hitem, -⟩ := h.items (.wildcard none) (hitems ▸ List.mem_singleton_self _)
    exact SelectItem.noConfusion hitem
  rw [body_plain hfree h.keysPlain, hgrouped, htrivial, h.having, h.orderBy]
  rfl

theorem exists_layerFilter (hc : Cursor.prepared c.plan config = .ok c) (p : Option Expr) :
    ∃ c', layerSome config c .filter p = .ok c' := by
  cases p with
  | none => exact ⟨c, rfl⟩
  | some p => exact Cursor.prepared_filter hc p

theorem exists_layerLimit (hc : Cursor.prepared c.plan config = .ok c) (limit : Option Nat)
    (offset : Nat) : ∃ c', layerIf config c (limit.isSome || 0 < offset) (.limit limit offset) =
      .ok c' := by
  unfold layerIf
  split
  · exact Cursor.prepared_limit hc limit offset
  · exact ⟨c, rfl⟩

/-- A select list of expressions is planned if and only if those that are columns resolve, and it
gives the values of the expressions. -/
theorem layerExprs_eq_ok {items : List SelectItem} {f : Expr → Expr}
    (hc : Cursor.prepared c.plan config = .ok c)
    (hexprs : ∀ item ∈ items, ∃ e a, item = .expr e a) :
    (∃ c', layer config c (.project (items.map (SelectItem.map f))) = .ok c') ↔
      ∀ e ∈ itemExprs items, ∀ n, (f e).column? = some n → c.schema.resolves n = true := by
  rw [← Project.resolveItems_exprs_eq_ok hexprs]
  constructor
  · rintro ⟨c', h⟩
    obtain ⟨os, hos, -⟩ := Cursor.project_prepared hc h
    exact ⟨os, hos⟩
  · rintro ⟨os, hos⟩
    exact Cursor.prepared_project hc hos

theorem rows_layerExprs {db : Storage} {items : List SelectItem} {f : Expr → Expr} {c' : Cursor}
    {xs : List Row} {v : Row → Expr → Value} (hc : Cursor.prepared c.plan config = .ok c)
    (hexprs : ∀ item ∈ items, ∃ e a, item = .expr e a)
    (h : layer config c (.project (items.map (SelectItem.map f))) = .ok c')
    (hrows : c.rows db = .ok xs) (hwidth : ∀ x ∈ xs, x.length = c.schema.width)
    (hvalues : ∀ x ∈ xs, ∀ e ∈ itemExprs items,
      (f e).eval (.single c.schema x) = .ok (v x e)) :
    c'.rows db = .ok (xs.map fun x => (itemExprs items).map (v x)) := by
  obtain ⟨os, hos, -, hgives⟩ := Cursor.project_prepared hc h
  refine Cursor.rows_of_gives (hgives (Cursor.gives_of_rows hrows) fun x hx => ?_)
  exact (Project.reads_items hos).outputRow (hwidth x hx)
    (Project.mapM_fields hexprs (hvalues x hx))

end Planning

namespace SelectBody

variable {b : SelectBody} {s s' : Schema} {rows result : List Row}

theorem keyReference_eq_ok (h : b.keyReference s rows = .ok result) :
    ∃ kept, keepTrue s b.filter rows = .ok kept ∧ ∃ key : Row → Row,
      (∀ r ∈ kept, b.groupBy.mapM (·.eval (.single s r)) = .ok (key r)) ∧
        result = windowRows b.limit b.offset (((kept.map key).eraseDupsBy Row.alike).map fun keys =>
          (itemExprs b.items).map (b.keyValue keys)) := by
  obtain ⟨kept, hkept, h⟩ := Except.bind_eq_ok.1 h
  obtain ⟨groups, hgroups, h⟩ := Except.bind_eq_ok.1 h
  obtain rfl := Except.ok.inj h
  obtain ⟨keys, hkeys, hgroups⟩ := Except.bind_eq_ok.1 hgroups
  obtain rfl := Except.ok.inj hgroups
  obtain ⟨key, hkey, rfl⟩ := Except.exists_of_mapM hkeys
  exact ⟨kept, hkept, key, hkey, rfl⟩

/-- Over the row of a group, an item of which nothing but keys is left has the value of its key. -/
theorem eval_item (hselects : b.SelectsKeys s) (htold : b.KeysTold)
    (hcolumns : KeyColumns s b.groupBy s') {r keys : Row} (hr : r.length = s.width)
    (hvalues : b.groupBy.mapM (·.eval (.single s r)) = .ok keys) {e : Expr}
    (he : e ∈ itemExprs b.items)
    (hnames : ∀ n ∈ (replaceGrouped b.groupBy e).columns, KeyName s b.groupBy n) :
    (replaceGrouped b.groupBy e).eval (.single s' keys) = .ok (b.keyValue keys e) := by
  have hmem := hselects.mem_groupBy htold he
  have hkeys : ∀ k ∈ b.groupBy, k.Told b.groupBy := fun k hk => htold k (List.mem_append_left _ hk)
  have heval := eval_replaceGrouped hselects.keysResolve hcolumns hr hvalues hkeys (hkeys e hmem)
    (hselects.keysPlain e hmem) (hselects.keysResolve e hmem)
    fun n hn => hcolumns.resolves_iff.2 (hnames n hn)
  rw [heval]
  exact eval_eq_keyValue (hkeys e hmem) (hselects.same he) hvalues

end SelectBody

theorem Select.plan_grouped {db : Storage} {config : Config} {q : Select} {s : Schema}
    {source c₁ c₂ : Cursor} (hsource : Planning.source db config q.source = .ok source)
    (hselects : q.body.SelectsKeys s) (htold : q.body.KeysTold)
    (h₁ : Planning.layerSome config source .filter q.body.filter = .ok c₁)
    (h₂ : Planning.layer config c₁ (.group q.body.groupBy []) = .ok c₂) :
    q.plan db config [] = (do
      let c ← Planning.layer config c₂
        (.project (q.body.items.map (.map (replaceGrouped q.body.groupBy))))
      Planning.layerIf config c (q.body.limit.isSome || 0 < q.body.offset)
        (.limit q.body.limit q.body.offset)) := by
  have hplan : q.plan db config [] = Planning.body config source q.body := by
    unfold Select.plan
    rw [hsource]
    rfl
  rw [hplan, Planning.body_grouped hselects (hselects.aggregateFree htold), h₁]
  change (Planning.layer config c₁ (.group q.body.groupBy []) >>= _) = _
  rw [h₂]
  rfl

/-- A statement that selects keys of its grouping is planned if and only if each item that is a
column, or becomes one, is then the name of one key. Where nothing but such names is left of any
item, it runs, and gives one row for each group, in the order in which the groups occur first, with
the values of the keys there. -/
theorem Select.rows_grouped {db : Storage} (hdb : db.Built) {config : Config} {q : Select}
    {source : Cursor} {rows result : List Row}
    (hsource : Planning.source db config q.source = .ok source)
    (hselects : q.body.SelectsKeys source.schema) (htold : q.body.KeysTold)
    (hrows : source.rows db = .ok rows)
    (hresult : q.body.keyReference source.schema rows = .ok result) :
    ((∃ c, q.plan db config [] = .ok c) ↔ ∀ e ∈ itemExprs q.body.items, ∀ n,
      (replaceGrouped q.body.groupBy e).column? = some n →
        KeyName source.schema q.body.groupBy n) ∧
    ((∀ e ∈ itemExprs q.body.items,
      ∀ n ∈ (replaceGrouped q.body.groupBy e).columns, KeyName source.schema q.body.groupBy n) →
      (∀ r ∈ rows, ∀ keys, q.body.groupBy.mapM (·.eval (.single source.schema r)) = .ok keys →
        Row.Sized keys) →
        ∃ c, q.plan db config [] = .ok c ∧ c.rows db = .ok result) := by
  have hplanned := Planning.planned_source hdb.sound hsource
  have hwidth := hplanned.length_rows hrows
  obtain ⟨kept, hkept, key, hkey, rfl⟩ := SelectBody.keyReference_eq_ok hresult
  obtain ⟨c₁, h₁⟩ := Planning.exists_layerFilter hplanned.prepared q.body.filter
  obtain ⟨hc₁, hschema, hrows₁⟩ := Planning.rows_layerFilter hplanned.prepared h₁ hrows hkept
  rw [← hschema] at hselects hwidth hkey ⊢
  obtain ⟨c₂, h₂, hcolumns, hgroups⟩ :=
    Cursor.prepared_group hc₁ hselects.grouped hselects.keysResolve
  have hc₂ := Cursor.prepared_plan h₂
  have hplan := Select.plan_grouped hsource hselects htold h₁ h₂
  have hplanned_iff := Planning.layerExprs_eq_ok (f := replaceGrouped q.body.groupBy) hc₂
    hselects.exprs
  constructor
  · constructor
    · rintro ⟨c, h⟩ e he n hn
      rw [hplan] at h
      obtain ⟨c₃, h₃, -⟩ := Except.bind_eq_ok.1 h
      exact hcolumns.resolves_iff.1 (hplanned_iff.1 ⟨c₃, h₃⟩ e he n hn)
    · intro hnames
      obtain ⟨c₃, h₃⟩ := hplanned_iff.2 fun e he n hn => hcolumns.resolves_iff.2 (hnames e he n hn)
      obtain ⟨c, h₄⟩ := Planning.exists_layerLimit (Cursor.prepared_plan h₃) q.body.limit
        q.body.offset
      exact ⟨c, hplan.trans (Except.bind_eq_ok.2 ⟨c₃, h₃, h₄⟩)⟩
  · intro hnames hsized
    obtain ⟨c₃, h₃⟩ := hplanned_iff.2 fun e he n hn => hcolumns.resolves_iff.2
      (hnames e he n (Expr.mem_columns_of_column? hn))
    have hc₃ := Cursor.prepared_plan h₃
    obtain ⟨c, h₄⟩ := Planning.exists_layerLimit hc₃ q.body.limit q.body.offset
    refine ⟨c, hplan.trans (Except.bind_eq_ok.2 ⟨c₃, h₃, h₄⟩), Planning.rows_layerLimit hc₃ h₄ ?_⟩
    have hgroup : ∀ keys ∈ (kept.map key).eraseDupsBy Row.alike, ∃ r ∈ kept, key r = keys :=
      fun keys h => List.mem_map.1 ((mem_of_mem_loop h).resolve_right List.not_mem_nil)
    have hkeys : ∀ r ∈ kept, (key r).Sized := fun r hr =>
      hsized r (mem_of_keepTrue hkept hr) _ (hkey r hr)
    apply Planning.rows_layerExprs hc₂ hselects.exprs h₃ (hgroups hrows₁ hkey hkeys)
    · intro keys h
      obtain ⟨r, hr, rfl⟩ := hgroup keys h
      exact (Except.length_of_mapM (hkey r hr)).trans hcolumns.width_eq.symm
    · intro keys h e he
      obtain ⟨r, hr, rfl⟩ := hgroup keys h
      exact SelectBody.eval_item hselects htold hcolumns (hwidth r (mem_of_keepTrue hkept hr))
        (hkey r hr) he (hnames e he)

/-- A key may stand inside another, as long as nothing but keys is left of that one. -/
theorem Select.rows_grouped_nested :
    let inner := Expr.arith .sub (.column (.unqualified "k")) (.column (.unqualified "k"))
    let outer := Expr.arith .add inner (.literal (.int 5))
    let q : Select := ⟨Planning.outerConstants, [.expr outer none, .expr inner (some "z")], none,
      [inner, outer], none, [], none, 0⟩
    ∃ c, q.plan (.create 1) .default [] = .ok c ∧ c.rows (.create 1) = .ok [[.int 5, .int 0]] := by
  intro inner outer q
  obtain ⟨source, hsource, hschema, hrows⟩ := Planning.source_outerConstants
  have hselects : q.body.SelectsKeys source.schema := by
    rw [hschema]
    refine ⟨List.cons_ne_nil _ _, rfl, rfl, ?_, fun p hp => (nomatch hp), ?_, ?_⟩
    · exact List.forall_mem_cons.2 ⟨⟨outer, none, rfl, rfl⟩,
        List.forall_mem_singleton.2 ⟨inner, some "z", rfl, rfl⟩⟩
    · exact List.forall_mem_cons.2 ⟨rfl, List.forall_mem_singleton.2 rfl⟩
    · simp only [q, outer, inner]
      decide
  have hinner : inner.Told q.body.groupBy := .of_texts rfl (by simp only [q, outer, inner]; decide)
  have houter : outer.Told q.body.groupBy := .of_texts rfl (by simp only [q, outer, inner]; decide)
  have htold : q.body.KeysTold :=
    List.forall_mem_cons.2 ⟨hinner, List.forall_mem_cons.2 ⟨houter,
      List.forall_mem_cons.2 ⟨houter, List.forall_mem_singleton.2 hinner⟩⟩⟩
  have hnames : ∀ e ∈ itemExprs q.body.items,
      ∀ n ∈ (replaceGrouped q.body.groupBy e).columns,
        KeyName source.schema q.body.groupBy n := by
    rw [hschema]
    simp only [q, outer, inner, itemExprs]
    decide
  have hresult : q.body.keyReference source.schema
      [[.int 1, .int 10, .null], [.int 2, .null, .int 20]] = .ok [[.int 5, .int 0]] := by
    rw [hschema]
    unfold q outer inner
    cbv
  have hkeys : ∀ r ∈ [[.int 1, .int 10, .null], [.int 2, .null, .int 20]],
      q.body.groupBy.mapM (·.eval (.single source.schema r)) = .ok [.int 0, .int 5] := by
    rw [hschema]
    exact List.forall_mem_cons.2 ⟨rfl, List.forall_mem_singleton.2 rfl⟩
  refine (Select.rows_grouped (.create 1) hsource hselects htold hrows hresult).2 hnames ?_
  intro r hr keys h
  obtain rfl := Except.ok.inj ((hkeys r hr).symm.trans h)
  decide

/-- Of a key in which another stands, a column may be left that is no key: the statement is planned,
and its run fails. -/
example :
    let inner := Expr.arith .add (.column (.unqualified "k")) (.literal (.int 1))
    let outer := Expr.arith .mul inner (.column (.unqualified "x"))
    let q : Select := ⟨Planning.constants "a" [("k", 1), ("x", 10)], [.expr outer none], none,
      [inner, outer], none, [], none, 0⟩
    ∃ c, q.plan (.create 1) .default [] = .ok c ∧ c.rows (.create 1) =
      .error (.evaluation (.unresolved (.unknown (.unqualified "x")))) :=
  ⟨_, rfl, rfl⟩

end RelQuery
