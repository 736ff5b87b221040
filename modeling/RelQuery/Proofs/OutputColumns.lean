import RelQuery.Proofs.Stages
import RelQuery.Proofs.Substitution
import RelQuery.Query.Planning

namespace RelQuery

theorem Column.answers_eq (c : Column) (r : ColumnName) : c.answers r = c.fullName.answers r := by
  unfold Column.answers ColumnName.answers
  cases r.table <;> rfl

theorem ColumnName.answers_unqualified {a : String} {r : ColumnName} :
    (unqualified a).answers r = true ↔ r.table = none ∧ r.column = a := by
  obtain ⟨_ | t, column⟩ := r
  · simp only [answers, unqualified, Option.isNone_none, Bool.true_or, Bool.and_true, beq_iff_eq,
      true_and]
    exact eq_comm
  · simp [answers, unqualified]

namespace Project

variable {s : Schema} {item : SelectItem} {items : List SelectItem}
  {os : List (Output × Column)} {r : Row}

/-- Outputs have the names of fields, and their values over the rows of a source. -/
structure Reads (s : Schema) (os : List (Output × Column)) (fs : List Field) : Prop where
  names : os.map (·.2.fullName) = fs.map Field.name
  values : ∀ r : Row, r.length = s.width →
    os.map (fun o => outputValue s r o.1) = fs.map fun f => (f.value r).mapError .evaluation

theorem Reads.append {os' : List (Output × Column)} {fs fs' : List Field} (h : Reads s os fs)
    (h' : Reads s os' fs') : Reads s (os ++ os') (fs ++ fs') := by
  constructor
  · rw [List.map_append, List.map_append, h.names, h'.names]
  · intro r hr
    rw [List.map_append, List.map_append, h.values r hr, h'.values r hr]

theorem reads_copies (s : Schema) (t : Option String) :
    Reads s (copies s fun c => t.isNone || c.table == t) (SelectItem.fields s (.wildcard t)) := by
  constructor
  · rw [copies, SelectItem.fields, List.map_map, List.map_map]
    rfl
  · intro r _
    rw [copies, SelectItem.fields, List.map_map, List.map_map]
    rfl

theorem reads_item (h : resolveItem s item = .ok os) : Reads s os (item.fields s) := by
  cases item with
  | wildcard t =>
    have hcopies : os = copies s fun c => t.isNone || c.table == t := by
      cases t with
      | none => exact (Except.ok.inj h).symm
      | some t =>
        rw [resolveItem] at h
        split at h
        · simp at h
        · exact (Except.ok.inj h).symm
    rw [hcopies]
    exact reads_copies s t
  | expr e a =>
    rw [resolveItem] at h
    cases hcolumn : e.column? with
    | none =>
      rw [hcolumn] at h
      obtain rfl := Except.ok.inj h
      refine ⟨?_, fun r _ => rfl⟩
      cases a with
      | none => simp [SelectItem.fields, SelectItem.fieldName, hcolumn, Column.fullName,
          ColumnName.unqualified]
      | some a => rfl
    | some n =>
      rw [hcolumn] at h
      dsimp only at h
      split at h
      · simp at h
      next info i hresolve =>
      have hvalue : ∀ r : Row, r.length = s.width →
          outputValue s r (.column i) = (e.eval (.single s r)).mapError .evaluation := by
        intro r hr
        rw [Expr.column?_eq_some.1 hcolumn, Expr.eval, Environment.lookup_single hresolve hr]
        rfl
      cases a with
      | none =>
        obtain rfl := Except.ok.inj h
        refine ⟨?_, fun r hr => congrArg (fun v => [v]) (hvalue r hr)⟩
        simp [SelectItem.fields, SelectItem.fieldName, hcolumn, hresolve]
      | some a =>
        obtain rfl := Except.ok.inj h
        exact ⟨rfl, fun r hr => congrArg (fun v => [v]) (hvalue r hr)⟩

theorem reads_items (h : resolveItems s items = .ok os) :
    Reads s os (items.flatMap (·.fields s)) := by
  induction items generalizing os with
  | nil =>
    obtain rfl := Except.ok.inj h
    exact ⟨rfl, fun _ _ => rfl⟩
  | cons item items ih =>
    obtain ⟨os₁, h₁, h⟩ := Except.bind_eq_ok.1 h
    obtain ⟨os₂, h₂, h⟩ := Except.bind_eq_ok.1 h
    obtain rfl := Except.ok.inj h
    exact (reads_item h₁).append (ih h₂)

theorem resolves_of_item {n : ColumnName} {a : Option String}
    (h : resolveItem s (.expr (.column n) a) = .ok os) : s.resolves n = true := by
  rw [Schema.resolves_iff]
  rw [resolveItem] at h
  cases hresolve : s.resolve n with
  | error e => simp [Expr.column?, hresolve] at h
  | ok x => exact ⟨x.1, x.2, rfl⟩

theorem Reads.outputRow {fs : List Field} {y : Row} (h : Reads s os fs) (hr : r.length = s.width)
    (hy : fs.mapM (·.value r) = .ok y) : outputRow s (os.map Prod.fst) r = .ok y := by
  have hvalues : (os.map Prod.fst).map (outputValue s r) = _ :=
    (List.map_map ..).trans (h.values r hr)
  exact Except.mapM_of_map_eq hvalues hy

end Project

/-- A reference that resolves over a result denotes one field of it, whose value it has there. -/
theorem Field.exists_of_resolves {s' : Schema} {fs : List Field} {n : ColumnName} {r y : Row}
    (hnames : s'.columns.map Column.fullName = fs.map Field.name)
    (hy : fs.mapM (·.value r) = .ok y) (hn : s'.resolves n = true) :
    ∃ f v, fs.filter (·.name.answers n) = [f] ∧ f.value r = .ok v ∧
      Environment.lookup (.single s' y) n = .ok v := by
  obtain ⟨c, i, hresolve⟩ := Schema.resolves_iff.1 hn
  obtain ⟨hc, hanswers, -⟩ := Schema.resolve_eq_ok_iff.1 hresolve
  have hlength : y.length = s'.width := by
    have hwidth := congrArg List.length hnames
    rw [List.length_map, List.length_map] at hwidth
    exact (Except.length_of_mapM hy).trans hwidth.symm
  -- The fields that answer are, by their names, the columns that do, and there is one of them.
  have hcolumns : s'.columns.filter (·.answers n) = [c] := by
    have hcandidates := congrArg (List.map Prod.fst) (Schema.resolve_eq_ok.1 hresolve)
    rw [← List.zipIdx_map_fst 0 s'.columns, List.filter_map]
    exact hcandidates
  have hfilter : (fs.filter (·.name.answers n)).map Field.name = [c.fullName] := by
    have hsame : (fun d : Column => d.answers n) = (·.answers n) ∘ Column.fullName := by
      funext d
      exact d.answers_eq n
    have hfields := List.filter_map (f := Field.name) (p := (·.answers n)) (l := fs)
    rw [← hnames, List.filter_map, ← hsame, hcolumns] at hfields
    exact hfields.symm
  obtain ⟨f, hf, hname⟩ := List.map_eq_singleton_iff.1 hfilter
  obtain ⟨g, hg, hgname⟩ : ∃ g, fs[i]? = some g ∧ g.name = c.fullName := by
    have hi : (fs.map Field.name)[i]? = some c.fullName := by
      rw [← hnames, List.getElem?_map, hc, Option.map_some]
    rw [List.getElem?_map] at hi
    exact Option.map_eq_some_iff.1 hi
  have hgf : g = f := by
    have hmem : g ∈ fs.filter (·.name.answers n) := by
      apply List.mem_filter.2
      refine ⟨List.mem_of_getElem? hg, ?_⟩
      rw [hgname, ← Column.answers_eq]
      exact hanswers
    rw [hf] at hmem
    exact List.mem_singleton.1 hmem
  obtain ⟨v, hv, hvalue⟩ := Except.getElem?_of_mapM hy hg
  refine ⟨f, v, hf, hgf ▸ hvalue, ?_⟩
  rw [Environment.lookup_single hresolve hlength, hv]
  rfl

namespace SelectBody

variable {b : SelectBody} {s s' : Schema} {n : ColumnName} {r y : Row}

theorem items_of_isTrivial (h : b.isTrivial = true) : b.items = [.wildcard none] := by
  unfold isTrivial at h
  split at h
  · assumption
  · exact absurd h Bool.false_ne_true

theorem fields_of_isTrivial (s : Schema) (h : b.isTrivial = true) :
    b.fields s = s.columns.zipIdx.map fun c =>
      ⟨c.1.fullName, fun r => .ok ((r[c.2]?).getD .null)⟩ := by
  rw [fields, items_of_isTrivial h, List.flatMap_singleton, SelectItem.fields,
    List.filter_eq_self.2]
  intro c _
  rfl

theorem names_of_isTrivial (s : Schema) (h : b.isTrivial = true) :
    (b.fields s).map Field.name = s.columns.map Column.fullName := by
  have hnames : s.columns.zipIdx.map (Column.fullName ∘ Prod.fst) =
      s.columns.map Column.fullName := by
    rw [← List.map_map, List.zipIdx_map_fst]
  rw [fields_of_isTrivial s h, List.map_map]
  exact hnames

theorem outputRow_of_isTrivial (h : b.isTrivial = true) (hr : r.length = s.width) :
    b.outputRow s r = .ok r := by
  have hcopy : (s.columns.zipIdx.map fun c => (r[c.2]?).getD .null) = r := by
    apply List.ext_getElem
    · rw [List.length_map, List.length_zipIdx, hr]
      rfl
    · intro i _ hi
      simp [List.getElem?_eq_getElem hi]
  rw [outputRow, fields_of_isTrivial s h, List.mapM_map]
  exact (Except.mapM_ok fun _ _ => rfl).trans (congrArg Except.ok hcopy)

theorem resolveItems_of_isTrivial (s : Schema) (h : b.isTrivial = true) :
    ∃ os, Project.resolveItems s b.items = .ok os := by
  rw [items_of_isTrivial h]
  exact ⟨_, rfl⟩

/-- Text of a computed output is not also the name of a column of the source. -/
def TextsNew (b : SelectBody) (s : Schema) : Prop :=
  ∀ e, .expr e none ∈ b.items → e.column? = none → ∀ c ∈ s.columns, c.name ≠ e.display

theorem aliased?_eq_some {e : Expr} (h : b.aliased? n = some e) :
    n.table = none ∧ .expr e (some n.column) ∈ b.items := by
  unfold aliased? at h
  split at h
  · simp at h
  · next htable =>
    obtain ⟨item, hitem, heq⟩ := List.exists_of_findSome?_eq_some h
    refine ⟨by simpa using htable, ?_⟩
    split at heq
    · split at heq
      · next ha =>
        rw [← ha, ← Option.some.inj heq]
        exact hitem
      · simp at heq
    · simp at heq

theorem aliased?_ne_none {e : Expr} (htable : n.table = none)
    (h : .expr e (some n.column) ∈ b.items) : b.aliased? n ≠ none := by
  unfold aliased?
  rw [htable, if_neg (by simp)]
  intro hnone
  have hitem := List.findSome?_eq_none_iff.1 hnone _ h
  simp at hitem

/-- A column of the source that answers a reference to one, is that one. -/
theorem eval_of_answers {m : ColumnName} (hm : s.resolves m = true) (hn : s.resolves n = true)
    (hr : r.length = s.width)
    (hanswers : (SelectItem.fieldName s (.column m) none).answers n = true) :
    (Expr.column m).eval (.single s r) = Environment.lookup (.single s r) n := by
  obtain ⟨c, i, hresolve⟩ := Schema.resolves_iff.1 hn
  obtain ⟨d, j, hmresolve⟩ := Schema.resolves_iff.1 hm
  have hname : SelectItem.fieldName s (.column m) none = d.fullName := by
    simp only [SelectItem.fieldName, Expr.column?, hmresolve]
  rw [hname, ← Column.answers_eq] at hanswers
  have heq : j = i := (Schema.resolve_eq_ok_iff.1 hresolve).2.2 j d
    (Schema.resolve_eq_ok_iff.1 hmresolve).1 hanswers
  rw [Expr.eval, Environment.lookup_single hmresolve hr, Environment.lookup_single hresolve hr, heq]

/-- A field that answers a reference to a column of the source, and is no alias, is that column. -/
theorem value_of_answers {os : List (Project.Output × Column)}
    (hos : Project.resolveItems s b.items = .ok os) (htexts : b.TextsNew s)
    (halias : b.aliased? n = none) (hn : s.resolves n = true) (hr : r.length = s.width) {f : Field}
    (hf : f ∈ b.fields s) (hanswers : f.name.answers n = true) :
    f.value r = Environment.lookup (.single s r) n := by
  obtain ⟨c, i, hresolve⟩ := Schema.resolves_iff.1 hn
  obtain ⟨hc, hcanswers, hone⟩ := Schema.resolve_eq_ok_iff.1 hresolve
  rw [Environment.lookup_single hresolve hr]
  obtain ⟨item, hitem, hf⟩ := List.mem_flatMap.1 hf
  cases item with
  | wildcard t =>
    obtain ⟨⟨d, j⟩, hd, rfl⟩ := List.mem_map.1 hf
    have hj : s.columns[j]? = some d := List.mk_mem_zipIdx_iff_getElem?.1 (List.mem_filter.1 hd).1
    have heq : j = i := hone j d hj ((d.answers_eq n).trans hanswers)
    rw [heq]
  | expr e a =>
    rw [List.mem_singleton.1 hf] at hanswers ⊢
    cases a with
    | some a =>
      obtain ⟨htable, ha⟩ := ColumnName.answers_unqualified.1 hanswers
      exact absurd halias (aliased?_ne_none htable (ha ▸ hitem))
    | none =>
      cases hcolumn : e.column? with
      | none =>
        have hname : SelectItem.fieldName s e none = .unqualified e.display := by
          rw [SelectItem.fieldName, hcolumn]
        rw [hname] at hanswers
        obtain ⟨-, hdisplay⟩ := ColumnName.answers_unqualified.1 hanswers
        have hcname : c.name = n.column := by
          have hboth := hcanswers
          rw [Column.answers, Bool.and_eq_true, beq_iff_eq] at hboth
          exact hboth.1
        exact absurd (hcname.trans hdisplay) (htexts e hitem hcolumn c (List.mem_of_getElem? hc))
      | some m =>
        have he := Expr.column?_eq_some.1 hcolumn
        obtain ⟨os', hos'⟩ := Project.resolveItem_of_mem _ hos hitem
        rw [he] at hos' hanswers ⊢
        rw [← Environment.lookup_single hresolve hr]
        exact eval_of_answers (Project.resolves_of_item hos') hn hr hanswers

/-- What a column of a sort key stands for is what is found under it over the result. -/
theorem meaning_of_output {os : List (Project.Output × Column)}
    (hos : Project.resolveItems s b.items = .ok os) (htexts : b.TextsNew s)
    (hnames : s'.columns.map Column.fullName = (b.fields s).map Field.name)
    (hr : r.length = s.width) (hy : b.outputRow s r = .ok y) (hn : s'.resolves n = true) :
    ∃ v, b.meaning s r n = .ok v ∧ Environment.lookup (.single s' y) n = .ok v := by
  obtain ⟨f, v, hf, hvalue, hlookup⟩ := Field.exists_of_resolves hnames hy hn
  refine ⟨v, ?_, hlookup⟩
  have hmem : f ∈ (b.fields s).filter (·.name.answers n) := hf ▸ List.mem_singleton_self f
  obtain ⟨hfield, hanswers⟩ := List.mem_filter.1 hmem
  unfold meaning
  cases halias : b.aliased? n with
  | some e =>
    -- The field of the item answers too, and only one does.
    obtain ⟨htable, hitem⟩ := aliased?_eq_some halias
    have hitself : (⟨.unqualified n.column, fun r => e.eval (.single s r)⟩ : Field) ∈
        (b.fields s).filter (·.name.answers n) := by
      apply List.mem_filter.2
      refine ⟨List.mem_flatMap.2 ⟨_, hitem, List.mem_singleton_self _⟩, ?_⟩
      exact ColumnName.answers_unqualified.2 ⟨htable, rfl⟩
    rw [hf] at hitself
    rw [← hvalue, ← List.mem_singleton.1 hitself]
  | none =>
    dsimp only
    split
    · next hsource =>
      rw [← value_of_answers hos htexts halias hsource hr hfield hanswers, hvalue]
    · rw [hf]
      exact hvalue

/-- Where the sort comes first, a column of a key stands for what is found under it over the
source. -/
theorem meaning_of_source (hshadow : Planning.shadowed [n] b.items = false)
    (hn : s.resolves n = true) (hr : r.length = s.width) :
    ∃ v, b.meaning s r n = .ok v ∧ Environment.lookup (.single s r) n = .ok v := by
  obtain ⟨c, i, hresolve⟩ := Schema.resolves_iff.1 hn
  have hlookup := Environment.lookup_single hresolve hr
  refine ⟨_, ?_, hlookup⟩
  unfold meaning
  cases halias : b.aliased? n with
  | some e =>
    obtain ⟨htable, hitem⟩ := aliased?_eq_some halias
    have hsame : e.column? = some n := by
      have hitems := hshadow
      simp only [Planning.shadowed, List.any_cons, List.any_nil, Bool.or_false, htable,
        Option.isNone_none, Bool.true_and, List.any_eq_false] at hitems
      simpa using hitems _ hitem
    dsimp only
    rw [Expr.column?_eq_some.1 hsame, Expr.eval, hlookup]
  | none =>
    dsimp only
    rw [if_pos hn, hlookup]

end SelectBody

end RelQuery
