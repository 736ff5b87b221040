import RelQuery.Proofs.Computations
import RelQuery.Proofs.JoinReference
import RelQuery.Proofs.Preparing
import RelQuery.Proofs.Resolution
import RelQuery.Query.Planning

namespace RelQuery

def Value.equals (v w : Value) : Bool := !(v.isNull || w.isNull) && v.compare? w == some .eq

namespace Schema

/-- The columns that do not have one of the names, with their places. -/
def others (s : Schema) (names : List String) : List (Column × Nat) :=
  s.columns.zipIdx.filter fun c => !names.contains c.1.name

/-- No column of one of the names is without a table. -/
def Tabled (s : Schema) (names : List String) : Prop :=
  ∀ c ∈ s.columns, c.name ∈ names → c.table ≠ none

/-- What a row holds in the columns that do not have one of the names. -/
def otherValues (s : Schema) (names : List String) (r : Row) : Row :=
  (s.others names).map fun c => (r[c.2]?).getD .null

end Schema

namespace JoinCondition

/-- The names of the columns that a condition makes the inputs share. -/
def sharedNames (left right : Schema) : JoinCondition → List String
  | .none | .on _ => []
  | .using names => names
  | .natural => left.commonNames right

def equation (left right : Schema) (k : String) : Expr :=
  .compare .eq (.column (left.column k).fullName) (.column (right.column k).fullName)

def predicate (left right : Schema) : JoinCondition → Option Expr
  | .on p => some p
  | c => Expr.conjunction? ((c.sharedNames left right).map (equation left right))

/-- The pairs of rows that a condition lets pass: where its predicate is true, or the shared columns
are equal. -/
def passes (left right : Schema) (c : JoinCondition) (l r : Row) : Bool :=
  match c with
  | .on p => Join.trueFor (some p) left right l r
  | c => (c.sharedNames left right).all fun k => (left.valueOf k l).equals (right.valueOf k r)

/-- What a condition asks of the inputs: no two columns of the same table and name, one column of
each shared name on either side, and a predicate without aggregate calls whose columns resolve. -/
structure Suits (left right : Schema) (c : JoinCondition) : Prop where
  unique : ((left.concat right).columns.map Column.fullName).Nodup
  shared_left : ∀ k ∈ c.sharedNames left right, (left.columns.map Column.name).count k = 1
  shared_right : ∀ k ∈ c.sharedNames left right, (right.columns.map Column.name).count k = 1
  plain : ∀ p, c = .on p → p.containsAggregate = false
  resolves : ∀ p, c = .on p → ∀ r ∈ p.columns, (left.concat right).resolves r = true

end JoinCondition

namespace JoinKind

/-- The columns that a join has before shared columns are merged. -/
def joined (kind : JoinKind) (left right : Schema) : Schema :=
  if kind.leftColumnsOnly then left else left.concat right

def sharedColumn (kind : JoinKind) (left right : Schema) (k : String) : Column :=
  match kind with
  | fullOuter => ⟨k, none, (left.column k).type⟩
  | rightOuter => right.column k
  | _ => left.column k

/-- The columns of the result: the shared ones, then the others of the left and of the right. -/
def columns (kind : JoinKind) (left right : Schema) (names : List String) : Schema :=
  ⟨names.map (kind.sharedColumn left right) ++ (left.others names).map Prod.fst ++
    if kind.leftColumnsOnly then [] else (right.others names).map Prod.fst⟩

def sharedValue (kind : JoinKind) (left right : Schema) (l r : Row) (k : String) : Value :=
  match kind with
  | fullOuter => if (left.valueOf k l).isNull then right.valueOf k r else left.valueOf k l
  | rightOuter => right.valueOf k r
  | _ => left.valueOf k l

/-- A row of the join, in the columns of the result. -/
def shape (kind : JoinKind) (left right : Schema) (names : List String) (x : Row) : Row :=
  let l := x.take left.width
  let r := x.drop left.width
  names.map (kind.sharedValue left right l r) ++ left.otherValues names l ++
    if kind.leftColumnsOnly then [] else right.otherValues names r

/-- Full names tell the columns of the inputs apart, where columns are shared: no shared column is
without a table, and no other column without a table has a namesake. -/
structure Nameable (kind : JoinKind) (left right : Schema) (names : List String) : Prop where
  shared : (left.concat right).Tabled names
  own : names ≠ [] → ∀ c ∈ (kind.joined left right).columns, c.name ∉ names →
    (kind.joined left right).Named c

/-- Where each column of the inputs has a table, full names tell them apart. -/
theorem nameable_of_tables {left right : Schema} (kind : JoinKind) (names : List String)
    (h : ∀ c ∈ (left.concat right).columns, c.table ≠ none) : kind.Nameable left right names := by
  refine ⟨fun c hc _ => h c hc, fun _ c hc _ htable => absurd htable (h c ?_)⟩
  unfold joined at hc
  split at hc
  · exact List.mem_append_left _ hc
  · exact hc

end JoinKind

theorem Value.compareWith_eq {v w : Value} :
    v.compareWith .eq w = .ok (.bool true) ↔ v.equals w = true := by
  unfold compareWith equals
  split
  · next hnull => simp [hnull]
  · next hknown =>
    rcases v.compare? w with _ | o
    · simp
    · simp [hknown, Comparison.accepts]

namespace Expr

variable {env : Environment} {e : Expr} {es : List Expr} {r : ColumnName} {v : Value}

theorem mem_columnsOf : r ∈ columnsOf es ↔ ∃ e ∈ es, r ∈ e.columns := by
  induction es with
  | nil => simp [columnsOf]
  | cons e es ih => simp [columnsOf, ih]

theorem columns_conjunction (h : conjunction? es = some e) : e.columns = columnsOf es := by
  unfold conjunction? at h
  split at h
  · simp at h
  · obtain rfl := Option.some.inj h
    simp [columnsOf]
  · obtain rfl := Option.some.inj h
    rfl

theorem evalTerms_and {sawNull : Bool} (h : evalTerms env .and sawNull es = .ok v) :
    v = .bool true ↔ sawNull = false ∧ ∀ e ∈ es, e.eval env = .ok (.bool true) := by
  induction es generalizing sawNull with
  | nil =>
    rw [evalTerms] at h
    obtain rfl := Except.ok.inj h
    cases sawNull <;> simp [Connective.decisive]
  | cons e es ih =>
    rw [evalTerms] at h
    obtain ⟨w, he, h⟩ := Except.bind_eq_ok.1 h
    -- A term that is unknown or false decides that the conjunction is not true.
    cases w with
    | null =>
      have hrest : evalTerms env .and true es = .ok v := by
        simpa [bind, Except.bind, Value.truth] using h
      simp [ih hrest, he]
    | bool b =>
      cases b with
      | false =>
        obtain rfl : Value.bool false = v := by
          simpa [bind, Except.bind, Value.truth, Connective.decisive] using h
        simp [he]
      | true =>
        have hrest : evalTerms env .and sawNull es = .ok v := by
          simpa [bind, Except.bind, Value.truth, Connective.decisive] using h
        simp [ih hrest, he]
    | int | float | text => simp [bind, Except.bind, Value.truth] at h

theorem eval_conjunction (h : conjunction? es = some e) (hv : e.eval env = .ok v) :
    v = .bool true ↔ ∀ e ∈ es, e.eval env = .ok (.bool true) := by
  unfold conjunction? at h
  split at h
  · simp at h
  · obtain rfl := Option.some.inj h
    simp [hv]
  · obtain rfl := Option.some.inj h
    rw [eval] at hv
    rw [evalTerms_and hv]
    simp

theorem eval_of_holds {b : Bool} (h : e.holds env = .ok b) : ∃ v, e.eval env = .ok v := by
  obtain ⟨v, hv, -⟩ := Except.bind_eq_ok.1 h
  exact ⟨v, hv⟩

end Expr

namespace Schema

variable {s t : Schema} {c d : Column} {i : Nat} {k : String}

theorem getElem?_concat_left (t : Schema) (h : s.columns[i]? = some c) :
    (s.concat t).columns[i]? = some c :=
  (List.getElem?_append_left (List.getElem?_eq_some_iff.1 h).1).trans h

theorem getElem?_concat_right (s : Schema) (h : t.columns[i]? = some c) :
    (s.concat t).columns[s.width + i]? = some c := by
  rw [concat, width, List.getElem?_append_right (Nat.le_add_right ..), Nat.add_sub_cancel_left, h]

theorem named_of_table (h : c.table ≠ none) : s.Named c := fun hnone => absurd hnone h

theorem eq_column (h : (s.columns.map Column.name).count k = 1) (hc : c ∈ s.columns)
    (hname : c.name = k) : c = s.column k := by
  obtain ⟨hcolumn, -, hone⟩ := resolve_eq_ok_iff.1 (resolve_unqualified h)
  obtain ⟨j, hj⟩ := List.mem_iff_getElem?.1 hc
  obtain rfl := hone j c hj (by simp [Column.answers, ColumnName.unqualified, hname])
  exact Option.some.inj (hj.symm.trans hcolumn)

theorem column_mem (h : (s.columns.map Column.name).count k = 1) : s.column k ∈ s.columns :=
  List.mem_of_getElem? (columns_place h).1

theorem ne_of_unique (h : ((s.concat t).columns.map Column.fullName).Nodup) (hc : c ∈ s.columns)
    (hd : d ∈ t.columns) : c ≠ d := by
  rintro rfl
  rw [concat, List.map_append] at h
  exact List.disjoint_of_nodup_append h (List.mem_map_of_mem hc) (List.mem_map_of_mem hd)

end Schema

namespace JoinCondition

variable {left right : Schema} {c : JoinCondition} {l r : Row} {k : String} {names : List String}

theorem Suits.resolve_left (h : c.Suits left right) (hk : k ∈ c.sharedNames left right)
    (htable : (left.column k).table ≠ .none) :
    (left.concat right).resolve (left.column k).fullName = .ok (left.column k, left.place k) :=
  Schema.resolve_fullName h.unique
    (Schema.getElem?_concat_left right (Schema.columns_place (h.shared_left k hk)).1)
    (Schema.named_of_table htable)

theorem Suits.resolve_right (h : c.Suits left right) (hk : k ∈ c.sharedNames left right)
    (htable : (right.column k).table ≠ .none) :
    (left.concat right).resolve (right.column k).fullName =
      .ok (right.column k, left.width + right.place k) :=
  Schema.resolve_fullName h.unique
    (Schema.getElem?_concat_right left (Schema.columns_place (h.shared_right k hk)).1)
    (Schema.named_of_table htable)

theorem Suits.table_left (h : c.Suits left right)
    (htables : (left.concat right).Tabled (c.sharedNames left right))
    (hk : k ∈ c.sharedNames left right) : (left.column k).table ≠ .none := by
  have hcolumn := Schema.columns_place (h.shared_left k hk)
  refine htables _ (List.mem_append_left _ (Schema.column_mem (h.shared_left k hk))) ?_
  rwa [hcolumn.2]

theorem Suits.table_right (h : c.Suits left right)
    (htables : (left.concat right).Tabled (c.sharedNames left right))
    (hk : k ∈ c.sharedNames left right) : (right.column k).table ≠ .none := by
  have hcolumn := Schema.columns_place (h.shared_right k hk)
  refine htables _ (List.mem_append_right _ (Schema.column_mem (h.shared_right k hk))) ?_
  rwa [hcolumn.2]

theorem predicate_eq (hc : ∀ p, c ≠ .on p) : c.predicate left right =
    Expr.conjunction? ((c.sharedNames left right).map (equation left right)) := by
  match c with
  | .on p => exact absurd rfl (hc p)
  | .none | .using _ | .natural => rfl

/-- The equations of shared columns resolve over both inputs when the columns have tables. -/
theorem Suits.equations_resolve (h : c.Suits left right) :
    (∀ k ∈ c.sharedNames left right, ∀ x ∈ (equation left right k).columns,
      (left.concat right).resolves x = true) ↔
        (left.concat right).Tabled (c.sharedNames left right) := by
  constructor
  · intro hresolves d hd hk htable
    have hleft := Schema.columns_place (h.shared_left _ hk)
    have hright := Schema.columns_place (h.shared_right _ hk)
    have hmem_left := Schema.column_mem (h.shared_left _ hk)
    have hmem_right := Schema.column_mem (h.shared_right _ hk)
    have hne := Schema.ne_of_unique h.unique hmem_left hmem_right
    -- Without a table, the shared column of one input has that of the other as a namesake.
    rcases List.mem_append.1 hd with hd | hd
    · have heq := Schema.eq_column (h.shared_left _ hk) hd rfl
      have hnamed := Schema.named_of_resolves (List.mem_append_left _ hmem_left)
        (hresolves _ hk _ (by simp [equation, Expr.columns]))
      refine hne (hnamed (heq ▸ htable) _ (List.mem_append_right _ hmem_right) ?_).symm
      rw [hleft.2, hright.2]
    · have heq := Schema.eq_column (h.shared_right _ hk) hd rfl
      have hnamed := Schema.named_of_resolves (List.mem_append_right _ hmem_right)
        (hresolves _ hk _ (by simp [equation, Expr.columns]))
      refine hne (hnamed (heq ▸ htable) _ (List.mem_append_left _ hmem_left) ?_)
      rw [hleft.2, hright.2]
  · intro htables k hk x hx
    rw [Schema.resolves_iff]
    simp only [equation, Expr.columns, List.mem_append, List.mem_singleton] at hx
    obtain rfl | rfl := hx
    · exact ⟨_, _, h.resolve_left hk (h.table_left htables hk)⟩
    · exact ⟨_, _, h.resolve_right hk (h.table_right htables hk)⟩

/-- The predicate of a condition resolves over both inputs when shared columns have tables. -/
theorem Suits.predicate_resolves (h : c.Suits left right) :
    (∀ p, c.predicate left right = some p → ∀ x ∈ p.columns,
      (left.concat right).resolves x = true) ↔
        (left.concat right).Tabled (c.sharedNames left right) := by
  rw [← h.equations_resolve]
  by_cases hc : ∃ p, c = .on p
  · obtain ⟨p, rfl⟩ := hc
    constructor
    · exact fun _ k hk => nomatch hk
    · rintro - _ ⟨⟩
      exact h.resolves p rfl
  · rw [predicate_eq fun p hp => hc ⟨p, hp⟩]
    constructor
    · intro hp k hk x hx
      have hmem := List.mem_map_of_mem (f := equation left right) hk
      obtain ⟨p, hsome⟩ : ∃ p, Expr.conjunction? ((c.sharedNames left right).map
          (equation left right)) = some p := by
        unfold Expr.conjunction?
        split
        · next hnil => simp [hnil] at hmem
        · exact ⟨_, rfl⟩
        · exact ⟨_, rfl⟩
      refine hp p hsome x ?_
      rw [Expr.columns_conjunction hsome, Expr.mem_columnsOf]
      exact ⟨_, hmem, hx⟩
    · intro hk p hp x hx
      rw [Expr.columns_conjunction hp, Expr.mem_columnsOf] at hx
      obtain ⟨_, hmem, hx⟩ := hx
      obtain ⟨k, hk', rfl⟩ := List.mem_map.1 hmem
      exact hk k hk' x hx

theorem Suits.eval_equation (h : c.Suits left right)
    (htables : (left.concat right).Tabled (c.sharedNames left right))
    (hk : k ∈ c.sharedNames left right) (hl : l.length = left.width) (hr : r.length = right.width) :
    (equation left right k).eval (.pair left l right r) =
      (left.valueOf k l).compareWith .eq (right.valueOf k r) := by
  have hwidth : (l ++ r).length = (left.concat right).width := by
    rw [List.length_append, hl, hr, Schema.width, Schema.width, Schema.width, Schema.concat,
      List.length_append]
  have hleft := Environment.lookup_single (h.resolve_left hk (h.table_left htables hk)) hwidth
  have hright := Environment.lookup_single (h.resolve_right hk (h.table_right htables hk)) hwidth
  have hplace : left.place k < l.length := by
    rw [hl]
    exact (List.getElem?_eq_some_iff.1 (Schema.columns_place (h.shared_left k hk)).1).1
  rw [List.getElem?_append_left hplace] at hleft
  rw [← hl, List.getElem?_append_right (Nat.le_add_right ..), Nat.add_sub_cancel_left] at hright
  simp only [equation, Expr.eval, Environment.lookup_pair right r _ hl, hleft, hright]
  rfl

/-- Where the predicate of a condition has a value, it is true of the pairs that pass. -/
theorem Suits.trueFor_predicate (h : c.Suits left right)
    (htables : (left.concat right).Tabled (c.sharedNames left right)) (hl : l.length = left.width)
    (hr : r.length = right.width)
    (heval : ∀ p, c.predicate left right = some p → ∃ b, p.holds (.pair left l right r) = .ok b) :
    Join.trueFor (c.predicate left right) left right l r = c.passes left right l r := by
  by_cases hc : ∃ p, c = .on p
  · obtain ⟨p, rfl⟩ := hc
    rfl
  have hpredicate : c.predicate left right = _ := predicate_eq fun p hp => hc ⟨p, hp⟩
  have hpasses : c.passes left right l r = (c.sharedNames left right).all
      fun k => (left.valueOf k l).equals (right.valueOf k r) := by
    match c with
    | .on p => exact absurd ⟨p, rfl⟩ hc
    | .none | .using _ | .natural => rfl
  rw [hpasses, Bool.eq_iff_iff, List.all_eq_true]
  match hsome : c.predicate left right with
  | .none =>
    have hnil : c.sharedNames left right = [] := by
      rw [hpredicate] at hsome
      unfold Expr.conjunction? at hsome
      split at hsome
      · next h => exact List.map_eq_nil_iff.1 h
      · simp at hsome
      · simp at hsome
    simp [Join.trueFor, hnil]
  | .some p =>
    obtain ⟨b, hb⟩ := heval p hsome
    obtain ⟨v, hv⟩ := Expr.eval_of_holds hb
    have htrue : Join.trueFor (some p) left right l r = true ↔ v = .bool true := by
      rw [Join.trueFor, hv]
      cases v <;> simp
    rw [htrue, Expr.eval_conjunction (hpredicate.symm.trans hsome) hv, List.forall_mem_map]
    refine forall₂_congr fun k hk => ?_
    rw [h.eval_equation htables hk hl hr, Value.compareWith_eq]

end JoinCondition

namespace Project

variable {α : Type} {s : Schema} {items items' : List SelectItem}
  {outputs outputs' : List (Output × Column)} {x : Row}

theorem resolveItems_append (h : resolveItems s items = .ok outputs)
    (h' : resolveItems s items' = .ok outputs') :
    resolveItems s (items ++ items') = .ok (outputs ++ outputs') := by
  induction items generalizing outputs with
  | nil =>
    obtain rfl := Except.ok.inj h
    exact h'
  | cons item items ih =>
    rw [resolveItems] at h
    obtain ⟨o, hitem, h⟩ := Except.bind_eq_ok.1 h
    obtain ⟨os, hitems, h⟩ := Except.bind_eq_ok.1 h
    obtain rfl := Except.ok.inj h
    rw [List.cons_append, resolveItems, hitem, ih hitems, List.append_assoc]
    rfl

theorem resolveItems_map {as : List α} {f : α → SelectItem} {g : α → Output × Column}
    (h : ∀ a ∈ as, resolveItem s (f a) = .ok [g a]) :
    resolveItems s (as.map f) = .ok (as.map g) := by
  induction as with
  | nil => rfl
  | cons a as ih =>
    rw [List.map_cons, resolveItems, h a List.mem_cons_self,
      ih fun b hb => h b (List.mem_cons_of_mem _ hb)]
    rfl

theorem outputRow_append {os os' : List Output} {v v' : Row} (h : outputRow s os x = .ok v)
    (h' : outputRow s os' x = .ok v') : outputRow s (os ++ os') x = .ok (v ++ v') := by
  unfold outputRow at h h' ⊢
  rw [List.mapM_append, h, h']
  rfl

theorem outputRow_map {as : List α} {f : α → Output} {v : α → Value}
    (h : ∀ a ∈ as, outputValue s x (f a) = .ok (v a)) :
    outputRow s (as.map f) x = .ok (as.map v) := by
  rw [outputRow, List.mapM_map]
  exact Except.mapM_ok h

end Project

namespace Planning

variable {left right : Schema} {c : JoinCondition} {kind : JoinKind} {names : List String} {i : Nat}
  {col : Column} {k : String} {x : Row}

theorem ownItems_eq (names : List String) (s : Schema) : ownItems names s =
    (s.others names).map fun c => .expr (.column c.1.fullName) none := by
  have hcolumns : s.columns = s.columns.zipIdx.map Prod.fst := by rw [List.zipIdx_map_fst]
  rw [ownItems, hcolumns, List.filter_map, List.map_map]
  rfl

theorem sharedColumn_eq {side : String} (h : (left.columns.map Column.name).count k = 1) :
    sharedColumn left side k = .ok (left.column k).fullName := by
  rw [sharedColumn, Schema.resolve_eq_ok.1 (Schema.resolve_unqualified h)]

/-- The full names of a shared column on either side. -/
def sharedNamesOf (left right : Schema) (k : String) : ColumnName × ColumnName :=
  ((left.column k).fullName, (right.column k).fullName)

theorem mapM_sharedPair (hl : ∀ k ∈ names, (left.columns.map Column.name).count k = 1)
    (hr : ∀ k ∈ names, (right.columns.map Column.name).count k = 1) :
    names.mapM (sharedPair left right) = .ok (names.map (sharedNamesOf left right)) :=
  Except.mapM_ok fun k hk => by
    rw [sharedPair, sharedColumn_eq (hl k hk), sharedColumn_eq (hr k hk)]
    rfl

theorem sharedItems_eq (kind : JoinKind)
    (hl : ∀ k ∈ names, (left.columns.map Column.name).count k = 1)
    (hr : ∀ k ∈ names, (right.columns.map Column.name).count k = 1) :
    sharedItems kind left right names =
      .ok (names.map (fun k => sharedItem kind k (sharedNamesOf left right k)) ++
        ownItems names left ++ if kind.leftColumnsOnly then [] else ownItems names right) := by
  rw [sharedItems, mapM_sharedPair hl hr]
  simp only [bind, Except.bind, List.zipWith_map_right, List.zipWith_self]

theorem getElem?_joined_left (h : left.columns[i]? = some col) :
    (kind.joined left right).columns[i]? = some col := by
  unfold JoinKind.joined
  split
  · exact h
  · exact Schema.getElem?_concat_left right h

theorem getElem?_joined_right (hkind : kind.leftColumnsOnly = false)
    (h : right.columns[i]? = some col) :
    (kind.joined left right).columns[left.width + i]? = some col := by
  rw [JoinKind.joined, hkind]
  exact Schema.getElem?_concat_right left h

theorem unique_joined (kind : JoinKind)
    (h : ((left.concat right).columns.map Column.fullName).Nodup) :
    ((kind.joined left right).columns.map Column.fullName).Nodup := by
  unfold JoinKind.joined
  split
  · rw [Schema.concat, List.map_append] at h
    exact h.of_append_left
  · exact h

def sharedOutput (kind : JoinKind) (left right : Schema) (k : String) : Project.Output × Column :=
  let names := sharedNamesOf left right k
  (match kind with
    | .fullOuter => .computed (.call .coalesce [.column names.1, .column names.2])
    | .rightOuter => .column (left.width + right.place k)
    | _ => .column (left.place k),
    kind.sharedColumn left right k)

variable (h : c.Suits left right) (htables : (left.concat right).Tabled (c.sharedNames left right))

include h htables in
theorem resolve_joined_left (kind : JoinKind) (hk : k ∈ c.sharedNames left right) :
    (kind.joined left right).resolve (left.column k).fullName =
      .ok (left.column k, left.place k) :=
  Schema.resolve_fullName (unique_joined kind h.unique)
    (getElem?_joined_left (Schema.columns_place (h.shared_left k hk)).1)
    (Schema.named_of_table (h.table_left htables hk))

include h htables in
theorem resolve_joined_right (kind : JoinKind) (hkind : kind.leftColumnsOnly = false)
    (hk : k ∈ c.sharedNames left right) :
    (kind.joined left right).resolve (right.column k).fullName =
      .ok (right.column k, left.width + right.place k) :=
  Schema.resolve_fullName (unique_joined kind h.unique)
    (getElem?_joined_right hkind (Schema.columns_place (h.shared_right k hk)).1)
    (Schema.named_of_table (h.table_right htables hk))

include h htables in
theorem resolveItem_shared (kind : JoinKind) (hk : k ∈ c.sharedNames left right) :
    Project.resolveItem (kind.joined left right)
      (sharedItem kind k (sharedNamesOf left right k)) = .ok [sharedOutput kind left right k] := by
  have hleft := resolve_joined_left h htables kind hk
  cases kind with
  | rightOuter =>
    have hright := resolve_joined_right h htables .rightOuter rfl hk
    simp only [sharedItem, sharedNamesOf, Project.resolveItem, Expr.column?, hright]
    rfl
  | fullOuter =>
    simp only [sharedItem, sharedNamesOf, Project.resolveItem, Expr.column?, Expr.sqlType, hleft]
    rfl
  | inner | cross | leftOuter | semi | anti =>
    simp only [sharedItem, sharedNamesOf, Project.resolveItem, Expr.column?, hleft]
    rfl

theorem place_lt (h : (left.columns.map Column.name).count k = 1) : left.place k < left.width :=
  (List.getElem?_eq_some_iff.1 (Schema.columns_place h).1).1

theorem coalesce_pair (v w : Value) :
    Value.apply .coalesce [v, w] = .ok (if v.isNull then w else v) := by
  cases v <;> cases w <;> rfl

include h htables in
/-- The output of a shared column holds what the pair of rows holds for its name. -/
theorem outputValue_shared (kind : JoinKind) (hk : k ∈ c.sharedNames left right)
    (hx : x.length = (kind.joined left right).width) :
    Project.outputValue (kind.joined left right) x (sharedOutput kind left right k).1 =
      .ok (kind.sharedValue left right (x.take left.width) (x.drop left.width) k) := by
  have hleft : left.valueOf k (x.take left.width) = (x[left.place k]?).getD .null := by
    rw [Schema.valueOf, List.getElem?_take_of_lt (place_lt (h.shared_left k hk))]
  have hright : right.valueOf k (x.drop left.width) =
      (x[left.width + right.place k]?).getD .null := by
    rw [Schema.valueOf, List.getElem?_drop]
  cases kind with
  | rightOuter => exact congrArg Except.ok hright.symm
  | fullOuter =>
    have hl := Environment.lookup_single (resolve_joined_left h htables .fullOuter hk) hx
    have hr := Environment.lookup_single
      (resolve_joined_right h htables .fullOuter rfl hk) hx
    rw [← hleft] at hl
    rw [← hright] at hr
    simp only [sharedOutput, sharedNamesOf, Project.outputValue, Operator.evalRow, Expr.eval,
      Expr.evalAll, hl, hr, bind, Except.bind, coalesce_pair, Except.mapError,
      JoinKind.sharedValue]
  | inner | cross | leftOuter | semi | anti => exact congrArg Except.ok hleft.symm

theorem mem_others {s : Schema} :
    (col, i) ∈ s.others names ↔ s.columns[i]? = some col ∧ col.name ∉ names := by
  rw [Schema.others, List.mem_filter, List.mk_mem_zipIdx_iff_getElem?]
  simp

/-- The outputs of the columns that are not shared, which start at a place. -/
def ownOutputs (names : List String) (s : Schema) (start : Nat) : List (Project.Output × Column) :=
  (s.others names).map fun c => (.column (start + c.2), c.1)

theorem resolveItems_own {s j : Schema} {start : Nat} (hj : (j.columns.map Column.fullName).Nodup)
    (hnamed : ∀ d ∈ j.columns, d.name ∉ names → j.Named d)
    (hs : ∀ {i col}, s.columns[i]? = some col → j.columns[start + i]? = some col) :
    Project.resolveItems j (ownItems names s) = .ok (ownOutputs names s start) := by
  rw [ownItems_eq]
  refine Project.resolveItems_map ?_
  rintro ⟨col, i⟩ hmem
  obtain ⟨hcol, hname⟩ := mem_others.1 hmem
  have hplace := hs hcol
  have hresolve := Schema.resolve_fullName hj hplace
    (hnamed col (List.mem_of_getElem? hplace) hname)
  simp only [Project.resolveItem, Expr.column?, hresolve]

theorem outputRow_own {s j : Schema} {start : Nat} {r : Row}
    (hr : ∀ i < s.width, x[start + i]? = r[i]?) :
    Project.outputRow j ((ownOutputs names s start).map Prod.fst) x =
      .ok (s.otherValues names r) := by
  rw [ownOutputs, List.map_map]
  refine Project.outputRow_map ?_
  rintro ⟨col, i⟩ hmem
  have hlt := (List.getElem?_eq_some_iff.1 (mem_others.1 hmem).1).1
  exact congrArg (fun v : Option Value => Except.ok (v.getD .null)) (hr i hlt)

def outputs (kind : JoinKind) (left right : Schema) (names : List String) :
    List (Project.Output × Column) :=
  names.map (sharedOutput kind left right) ++ ownOutputs names left 0 ++
    if kind.leftColumnsOnly then [] else ownOutputs names right left.width

theorem columns_outputs (kind : JoinKind) (left right : Schema) (names : List String) :
    (⟨(outputs kind left right names).map Prod.snd⟩ : Schema) = kind.columns left right names := by
  have hown : ∀ s start, (ownOutputs names s start).map Prod.snd =
      (s.others names).map Prod.fst := fun s start => by
    rw [ownOutputs, List.map_map]
    rfl
  have hshared : (names.map (sharedOutput kind left right)).map Prod.snd =
      names.map (kind.sharedColumn left right) := by
    rw [List.map_map]
    rfl
  rw [outputs, JoinKind.columns, List.map_append, List.map_append, hshared, hown]
  split
  · rfl
  · rw [hown]

include h in
theorem resolveItems_shared (hnames : c.sharedNames left right ≠ [])
    (hn : kind.Nameable left right (c.sharedNames left right)) {items : List SelectItem}
    (hitems : sharedItems kind left right (c.sharedNames left right) = .ok items) :
    Project.resolveItems (kind.joined left right) items =
      .ok (outputs kind left right (c.sharedNames left right)) := by
  rw [sharedItems_eq kind h.shared_left h.shared_right] at hitems
  obtain rfl := Except.ok.inj hitems
  have hunique := unique_joined kind h.unique
  have hleft : Project.resolveItems (kind.joined left right)
      (ownItems (c.sharedNames left right) left) = .ok (ownOutputs _ left 0) :=
    resolveItems_own hunique (hn.own hnames) fun hcol => by
      rw [Nat.zero_add]
      exact getElem?_joined_left hcol
  refine Project.resolveItems_append (Project.resolveItems_append
    (Project.resolveItems_map fun k hk => resolveItem_shared h hn.shared kind hk) hleft) ?_
  split
  · rfl
  · next hkind =>
    exact resolveItems_own hunique (hn.own hnames)
      fun hcol => getElem?_joined_right (by simpa using hkind) hcol

include h in
/-- The outputs of a join that shares columns give its rows in the columns of the result. -/
theorem outputRow_shared (kind : JoinKind)
    (htables : (left.concat right).Tabled (c.sharedNames left right))
    (hx : x.length = (kind.joined left right).width) :
    Project.outputRow (kind.joined left right)
      ((outputs kind left right (c.sharedNames left right)).map Prod.fst) x =
        .ok (kind.shape left right (c.sharedNames left right) x) := by
  rw [outputs, List.map_append, List.map_append, List.map_map]
  refine Project.outputRow_append (Project.outputRow_append (Project.outputRow_map fun k hk =>
    outputValue_shared h htables kind hk hx) (outputRow_own fun i hi => ?_)) ?_
  · rw [Nat.zero_add, List.getElem?_take_of_lt hi]
  · split
    · rfl
    · exact outputRow_own fun i _ => by rw [List.getElem?_drop]

include h in
/-- When the items of a join that shares columns resolve, the other columns have their names for
themselves. -/
theorem named_of_resolveItems {items : List SelectItem} {os : List (Project.Output × Column)}
    (hitems : sharedItems kind left right (c.sharedNames left right) = .ok items)
    (hos : Project.resolveItems (kind.joined left right) items = .ok os) :
    ∀ d ∈ (kind.joined left right).columns, d.name ∉ c.sharedNames left right →
      (kind.joined left right).Named d := by
  rw [sharedItems_eq kind h.shared_left h.shared_right] at hitems
  obtain rfl := Except.ok.inj hitems
  intro d hd hname
  have hown : ∀ s : Schema, d ∈ s.columns →
      .expr (.column d.fullName) none ∈ ownItems (c.sharedNames left right) s := fun s hs =>
    List.mem_map_of_mem (f := fun c : Column => SelectItem.expr (.column c.fullName) none)
      (List.mem_filter.2 ⟨hs, by simpa using hname⟩)
  obtain ⟨o, ho⟩ := Project.resolveItem_of_mem (.expr (.column d.fullName) none) hos (by
    unfold JoinKind.joined at hd
    split at hd
    · exact List.mem_append_left _ (List.mem_append_right _ (hown left hd))
    · next hkind =>
      rw [if_neg hkind]
      rcases List.mem_append.1 hd with hd | hd
      · exact List.mem_append_left _ (List.mem_append_right _ (hown left hd))
      · exact List.mem_append_right _ (hown right hd))
  refine Schema.named_of_resolves hd (Schema.resolves_iff.2 ?_)
  simp only [Project.resolveItem, Expr.column?] at ho
  split at ho
  · simp at ho
  · next info i hresolve => exact ⟨info, i, hresolve⟩

end Planning

namespace JoinKind

variable {kind : JoinKind} {left right : Schema} {x : Row}

theorem others_nil (s : Schema) : s.others [] = s.columns.zipIdx := by simp [Schema.others]

theorem otherValues_nil {s : Schema} {r : Row} (h : r.length = s.width) :
    s.otherValues [] r = r := by
  have hlength : (s.others []).length = r.length := by
    rw [others_nil, List.length_zipIdx, h, Schema.width]
  rw [Schema.otherValues]
  refine List.ext_getElem (by rw [List.length_map, hlength]) fun i hi hi' => ?_
  simp [others_nil, List.getElem?_eq_getElem hi']

theorem shape_nil (hx : x.length = (kind.joined left right).width) :
    kind.shape left right [] x = x := by
  unfold joined at hx
  simp only [shape, List.map_nil, List.nil_append]
  split at hx
  · next hkind =>
    rw [if_pos hkind, List.take_of_length_le hx.le, otherValues_nil hx, List.append_nil]
  · next hkind =>
    have hwidth : (left.concat right).width = left.width + right.width := List.length_append
    rw [if_neg hkind, otherValues_nil (by rw [List.length_take]; omega),
      otherValues_nil (by rw [List.length_drop]; omega)]
    exact List.take_append_drop ..

theorem columns_nil (kind : JoinKind) (left right : Schema) :
    kind.columns left right [] = kind.joined left right := by
  rw [columns, joined, others_nil, others_nil, List.zipIdx_map_fst, List.zipIdx_map_fst]
  split <;> simp [Schema.concat]

end JoinKind

end RelQuery
