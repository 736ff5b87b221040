import RelQuery.Proofs.OutputColumns

namespace RelQuery

namespace Expr

mutual
theorem columns_of_same {e e' : Expr} (h : e.same e' = true) : e.columns = e'.columns := by
  cases e <;> cases e' <;> simp only [same, Bool.and_eq_true, beq_iff_eq, Bool.false_eq_true] at h
  case literal.literal | aggregateAll.aggregateAll => rfl
  case column.column => rw [h]
  case compare.compare | arith.arith =>
    rw [columns, columns, columns_of_same h.1.2, columns_of_same h.2]
  case connect.connect | call.call => rw [columns, columns, columnsOf_of_sameAll h.2]
  case not.not | negate.negate => rw [columns, columns, columns_of_same h]
  case isNull.isNull | aggregate.aggregate => rw [columns, columns, columns_of_same h.2]

theorem columnsOf_of_sameAll {es es' : List Expr} (h : sameAll es es' = true) :
    columnsOf es = columnsOf es' := by
  cases es <;> cases es' <;> simp only [sameAll, Bool.and_eq_true, Bool.false_eq_true] at h
  case nil.nil => rfl
  case cons.cons => rw [columnsOf, columnsOf, columns_of_same h.1, columnsOf_of_sameAll h.2]
end

def isDouble : Expr → Bool
  | literal (.float _) => true
  | _ => false

mutual
theorem eq_of_same {e e' : Expr} (hexact : e.any isDouble = false) (h : e.same e' = true) :
    e = e' := by
  cases e <;> cases e' <;>
    simp only [same, Bool.and_eq_true, beq_iff_eq, Bool.false_eq_true] at h <;>
    simp only [any, Bool.or_eq_false_iff] at hexact
  case literal.literal v w =>
    cases v <;> cases w <;> simp_all [Value.same, isDouble]
  case column.column => rw [h]
  case aggregateAll.aggregateAll => rw [h.1, h.2]
  case compare.compare | arith.arith =>
    rw [h.1.1, eq_of_same hexact.2.1 h.1.2, eq_of_same hexact.2.2 h.2]
  case connect.connect | call.call => rw [h.1, eq_of_sameAll hexact.2 h.2]
  case not.not | negate.negate => rw [eq_of_same hexact.2 h]
  case isNull.isNull => rw [h.1, eq_of_same hexact.2 h.2]
  case aggregate.aggregate => rw [h.1.1, h.1.2, eq_of_same hexact.2 h.2]

theorem eq_of_sameAll {es es' : List Expr} (hexact : anyOf isDouble es = false)
    (h : sameAll es es' = true) : es = es' := by
  cases es <;> cases es' <;>
    simp only [sameAll, Bool.and_eq_true, Bool.false_eq_true] at h <;>
    simp only [anyOf, Bool.or_eq_false_iff] at hexact
  case nil.nil => rfl
  case cons.cons => rw [eq_of_same hexact.1 h.1, eq_of_sameAll hexact.2 h.2]
end

/-- Keys are told from all else in an expression: no column of it has the text of a computed key for
its name, and what is the same as a key is that key. -/
structure Told (groupBy : List Expr) (e : Expr) : Prop where
  texts : ∀ k ∈ groupBy, k.column? = none → .unqualified k.display ∉ e.columns
  same : ∀ x, x.Within e → ∀ k ∈ groupBy, x.same k = true → x = k

/-- Some column of an expression has the text of a computed key for its name. -/
def ReadsText (groupBy : List Expr) (e : Expr) : Prop :=
  ∃ k ∈ groupBy, k.column? = none ∧ .unqualified k.display ∈ e.columns

variable {groupBy : List Expr} {c e k : Expr}

theorem column?_eq_none_of_mem_children (h : c ∈ e.children) : e.column? = none := by
  cases e with
  | column n => exact absurd h List.not_mem_nil
  | _ => rfl

theorem mem_columns_of_mem_children {n : ColumnName} (hc : c ∈ e.children) (hn : n ∈ c.columns) :
    n ∈ e.columns := by
  rw [columns_eq (column?_eq_none_of_mem_children hc)]
  exact List.mem_flatMap.2 ⟨c, hc, hn⟩

theorem Told.of_mem_children (h : e.Told groupBy) (hc : c ∈ e.children) : c.Told groupBy := by
  constructor
  · intro k hk hcolumn htext
    exact h.texts k hk hcolumn (mem_columns_of_mem_children hc htext)
  · intro x hx
    exact h.same x (.part hc hx)

theorem Within.any_eq_false {p : Expr → Bool} {x : Expr} (h : x.Within e) (he : e.any p = false) :
    x.any p = false := by
  induction h with
  | self => exact he
  | part hc _ ih =>
    rw [any_eq, Bool.or_eq_false_iff, List.any_eq_false] at he
    exact ih (by simpa using he.2 _ hc)

/-- Without literal doubles, keys are told from all else by their texts. -/
theorem Told.of_texts (hexact : e.any isDouble = false)
    (htexts : ∀ k ∈ groupBy, k.column? = none → .unqualified k.display ∉ e.columns) :
    e.Told groupBy := by
  constructor
  · exact htexts
  · intro x hx k _ hsame
    exact eq_of_same (hx.any_eq_false hexact) hsame

theorem ReadsText.mapParts {f : Expr → Expr} (hc : c ∈ e.children)
    (h : (f c).ReadsText groupBy) : (e.mapParts f).ReadsText groupBy := by
  obtain ⟨k, hk, hcolumn, htext⟩ := h
  refine ⟨k, hk, hcolumn, mem_columns_of_mem_children (c := f c) ?_ htext⟩
  rw [children_mapParts]
  exact List.mem_map_of_mem hc

end Expr

open RelQuery.Expr

variable {groupBy : List Expr} {e k : Expr}

theorem replaceGrouped_column (groupBy : List Expr) (n : ColumnName) :
    replaceGrouped groupBy (.column n) = .column n := by
  rw [replaceGrouped, mapNodes_eq]
  rfl

/-- A node whose parts are replaced gives way to a column if it is the same as a key. -/
theorem replaceGrouped_computed (hcolumn : e.column? = none) : replaceGrouped groupBy e =
    if groupBy.any ((e.mapParts (replaceGrouped groupBy)).same ·) then
      .column (.unqualified (e.mapParts (replaceGrouped groupBy)).display)
    else e.mapParts (replaceGrouped groupBy) := by
  have hparts : replaceGrouped groupBy e = _ := mapNodes_eq _ e
  rw [hparts, column?_mapParts, hcolumn]
  rfl

variable (hkeys : ∀ k ∈ groupBy, k.Told groupBy)

include hkeys

/-- What is the same as a key after its parts are replaced, was that key before. -/
theorem eq_of_same_mapParts (he : e.Told groupBy)
    (hparts : ∀ c ∈ e.children, replaceGrouped groupBy c = c ∨
      (replaceGrouped groupBy c).ReadsText groupBy)
    (hk : k ∈ groupBy) (hsame : (e.mapParts (replaceGrouped groupBy)).same k = true) :
    e.mapParts (replaceGrouped groupBy) = e ∧ e = k := by
  have hself : e.mapParts (replaceGrouped groupBy) = e := by
    rw [mapParts_eq_self_iff]
    intro c hc
    rcases hparts c hc with heq | htext
    · exact heq
    · -- The key would have a column that is named like a key.
      obtain ⟨k', hk', hcolumn, htext⟩ := ReadsText.mapParts hc htext
      rw [columns_of_same hsame] at htext
      exact absurd htext ((hkeys k hk).texts k' hk' hcolumn)
  rw [hself] at hsame
  exact ⟨hself, he.same e (.self e) k hk hsame⟩

/-- An expression in which something is replaced reads the column of a key. -/
theorem replaceGrouped_cases (he : e.Told groupBy) : replaceGrouped groupBy e = e ∨
    (replaceGrouped groupBy e).ReadsText groupBy := by
  induction e using children_induction with
  | step e ih =>
    have hparts := fun c hc => ih c hc (he.of_mem_children hc)
    cases hcolumn : e.column? with
    | some n =>
      rw [column?_eq_some.1 hcolumn]
      exact .inl (replaceGrouped_column groupBy n)
    | none =>
      rw [replaceGrouped_computed hcolumn]
      split
      · next hany =>
        obtain ⟨k, hk, hsame⟩ := List.any_eq_true.1 hany
        obtain ⟨hself, hek⟩ := eq_of_same_mapParts hkeys he hparts hk hsame
        rw [hself]
        exact .inr ⟨e, hek ▸ hk, hcolumn, List.mem_singleton_self _⟩
      · by_cases hself : ∀ c ∈ e.children, replaceGrouped groupBy c = c
        · exact .inl (mapParts_eq_self_iff.2 hself)
        · push Not at hself
          obtain ⟨c, hc, hne⟩ := hself
          exact .inr (ReadsText.mapParts hc ((hparts c hc).resolve_left hne))

/-- Where keys are told from all else, they give way to their columns, and other nodes keep their
kind. -/
theorem replaceGrouped_eq (he : e.Told groupBy) (hcolumn : e.column? = none) :
    (e ∈ groupBy ∧ replaceGrouped groupBy e = .column (.unqualified e.display)) ∨
      replaceGrouped groupBy e = e.mapParts (replaceGrouped groupBy) := by
  rw [replaceGrouped_computed hcolumn]
  split
  · next hany =>
    obtain ⟨k, hk, hsame⟩ := List.any_eq_true.1 hany
    obtain ⟨hself, hek⟩ := eq_of_same_mapParts hkeys he
      (fun c hc => replaceGrouped_cases hkeys (he.of_mem_children hc)) hk hsame
    rw [hself]
    exact .inl ⟨hek ▸ hk, rfl⟩
  · exact .inr rfl

omit hkeys

section Values

variable {s s' : Schema} {r keys : Row} {n : ColumnName}

/-- The columns of a grouping are named after its keys. -/
def KeyColumns (s : Schema) (groupBy : List Expr) (s' : Schema) : Prop :=
  s'.columns.map Column.fullName = groupBy.map (SelectItem.fieldName s · none)

/-- A reference that resolves over the groups denotes one key, whose value it has there. -/
theorem exists_key (hnames : KeyColumns s groupBy s')
    (hvalues : groupBy.mapM (·.eval (.single s r)) = .ok keys) (hn : s'.resolves n = true) :
    ∃ k, (groupBy.filter fun k => (SelectItem.fieldName s k none).answers n) = [k] ∧
      Environment.lookup (.single s' keys) n = k.eval (.single s r) := by
  let field : Expr → Field := fun k =>
    ⟨SelectItem.fieldName s k none, fun r => k.eval (.single s r)⟩
  have hfields : s'.columns.map Column.fullName = (groupBy.map field).map Field.name := by
    rw [List.map_map]
    exact hnames
  have hrow : (groupBy.map field).mapM (·.value r) = .ok keys := by
    rw [List.mapM_map]
    exact hvalues
  obtain ⟨f, v, hfilter, hvalue, hlookup⟩ := Field.exists_of_resolves hfields hrow hn
  rw [List.filter_map] at hfilter
  obtain ⟨k, hk, rfl⟩ := List.map_eq_singleton_iff.1 hfilter
  exact ⟨k, hk, hlookup.trans hvalue.symm⟩

theorem lookup_text (hnames : KeyColumns s groupBy s')
    (hvalues : groupBy.mapM (·.eval (.single s r)) = .ok keys) (he : e ∈ groupBy)
    (hcolumn : e.column? = none) (hn : s'.resolves (.unqualified e.display) = true) :
    Environment.lookup (.single s' keys) (.unqualified e.display) = e.eval (.single s r) := by
  obtain ⟨k, hk, hlookup⟩ := exists_key hnames hvalues hn
  have hmem : e ∈ groupBy.filter fun k =>
      (SelectItem.fieldName s k none).answers (.unqualified e.display) := by
    refine List.mem_filter.2 ⟨he, ?_⟩
    rw [SelectItem.fieldName, hcolumn]
    exact ColumnName.answers_unqualified.2 ⟨rfl, rfl⟩
  rw [hk] at hmem
  rw [hlookup, List.mem_singleton.1 hmem]

variable (hresolves : ∀ k ∈ groupBy, ∀ n ∈ k.columns, s.resolves n = true)
  (hnames : KeyColumns s groupBy s') (hr : r.length = s.width)
  (hvalues : groupBy.mapM (·.eval (.single s r)) = .ok keys)

include hresolves hnames hr hvalues

/-- A column that is left of an expression has the same value over the groups. -/
theorem lookup_key (htold : (column n).Told groupBy) (hsource : s.resolves n = true)
    (hn : s'.resolves n = true) :
    Environment.lookup (.single s' keys) n = Environment.lookup (.single s r) n := by
  obtain ⟨k, hk, hlookup⟩ := exists_key hnames hvalues hn
  have hmem : k ∈ groupBy.filter fun k => (SelectItem.fieldName s k none).answers n := by
    rw [hk]
    exact List.mem_singleton_self k
  obtain ⟨hgroup, hanswers⟩ := List.mem_filter.1 hmem
  rw [hlookup]
  cases hcolumn : k.column? with
  | some m =>
    have hkm := column?_eq_some.1 hcolumn
    rw [hkm] at hanswers hgroup ⊢
    have hm := hresolves _ hgroup m (List.mem_singleton_self m)
    exact SelectBody.eval_of_answers hm hsource hr hanswers
  | none =>
    have hname : SelectItem.fieldName s k none = .unqualified k.display := by
      rw [SelectItem.fieldName, hcolumn]
    rw [hname] at hanswers
    obtain ⟨htable, hdisplay⟩ := ColumnName.answers_unqualified.1 hanswers
    have hnk : n = .unqualified k.display := by
      rw [← hdisplay, ColumnName.unqualified, ← htable]
    exact absurd (hnk ▸ List.mem_singleton_self n) (htold.texts k hgroup hcolumn)

/-- Where nothing but keys is read, an expression has the same value over the groups. -/
theorem eval_replaceGrouped (hkeys : ∀ k ∈ groupBy, k.Told groupBy) (he : e.Told groupBy)
    (hplain : e.containsAggregate = false) (hsource : ∀ n ∈ e.columns, s.resolves n = true)
    (hreads : ∀ n ∈ (replaceGrouped groupBy e).columns, s'.resolves n = true) :
    (replaceGrouped groupBy e).eval (.single s' keys) = e.eval (.single s r) := by
  induction e using children_induction with
  | step e ih =>
    rw [containsAggregate_eq_false] at hplain
    cases hcolumn : e.column? with
    | some n =>
      rw [column?_eq_some.1 hcolumn] at he hsource hreads ⊢
      rw [replaceGrouped_column] at hreads ⊢
      rw [eval, eval]
      exact lookup_key hresolves hnames hr hvalues he (hsource n (List.mem_singleton_self n))
        (hreads n (List.mem_singleton_self n))
    | none =>
      rcases replaceGrouped_eq hkeys he hcolumn with ⟨hgroup, heq⟩ | heq
      · rw [heq] at hreads ⊢
        rw [eval]
        exact lookup_text hnames hvalues hgroup hcolumn
          (hreads _ (List.mem_singleton_self _))
      · rw [heq] at hreads ⊢
        refine eval_mapParts hplain.1 hcolumn fun c hc => ?_
        refine ih c hc (he.of_mem_children hc) (hplain.2 c hc) ?_ ?_
        · intro n hn
          exact hsource n (mem_columns_of_mem_children hc hn)
        · intro n hn
          have hmem : replaceGrouped groupBy c ∈
              (e.mapParts (replaceGrouped groupBy)).children := by
            rw [children_mapParts]
            exact List.mem_map_of_mem hc
          exact hreads n (mem_columns_of_mem_children hmem hn)

end Values

end RelQuery
