import Mathlib.Data.List.Nodup
import Mathlib.Data.List.Range
import RelQuery.Expr.Eval

namespace RelQuery

namespace Schema

variable {s t : Schema} {r : ColumnName} {c : Column} {i : Nat}

theorem mem_candidates : (c, i) ∈ s.candidates r ↔ s.columns[i]? = some c ∧ c.answers r = true := by
  rw [candidates, List.mem_filter, List.mk_mem_zipIdx_iff_getElem?]

theorem nodup_candidates (s : Schema) (r : ColumnName) : (s.candidates r).Nodup := by
  refine List.Nodup.filter _ (List.Nodup.of_map Prod.snd ?_)
  rw [List.zipIdx_map_snd]
  exact List.nodup_range'

theorem resolve_eq_ok : s.resolve r = .ok (c, i) ↔ s.candidates r = [(c, i)] := by
  unfold resolve
  split
  · next x h => simp [h]
  · next h => simp [h]
  · next h₁ h₂ => exact ⟨fun h => by simp at h, fun h => absurd h (h₁ _)⟩

/-- A reference resolves to a column when that column answers it and no other does. -/
theorem resolve_eq_ok_iff : s.resolve r = .ok (c, i) ↔ s.columns[i]? = some c ∧ c.answers r = true ∧
    ∀ j d, s.columns[j]? = some d → d.answers r = true → j = i := by
  rw [resolve_eq_ok]
  constructor
  · intro h
    have hmem : (c, i) ∈ s.candidates r := h ▸ List.mem_singleton_self _
    obtain ⟨hc, hr⟩ := mem_candidates.1 hmem
    refine ⟨hc, hr, fun j d hd hdr => ?_⟩
    have hd' : (d, j) ∈ s.candidates r := mem_candidates.2 ⟨hd, hdr⟩
    rw [h, List.mem_singleton] at hd'
    exact congrArg Prod.snd hd'
  · rintro ⟨hc, hr, hone⟩
    have hall : ∀ x ∈ s.candidates r, x = (c, i) := by
      rintro ⟨d, j⟩ hx
      obtain ⟨hd, hdr⟩ := mem_candidates.1 hx
      obtain rfl := hone j d hd hdr
      rw [Option.some.inj (hd.symm.trans hc)]
    have hmem : (c, i) ∈ s.candidates r := mem_candidates.2 ⟨hc, hr⟩
    -- Candidates carry their places, so two of them would be one twice.
    have hnodup := s.nodup_candidates r
    match h : s.candidates r with
    | [] => simp [h] at hmem
    | [x] => rw [hall x (h ▸ List.mem_singleton_self _)]
    | x :: y :: rest =>
      rw [h] at hnodup
      have hx := hall x (h ▸ List.mem_cons_self)
      have hy := hall y (h ▸ List.mem_cons_of_mem _ List.mem_cons_self)
      rw [hx, hy] at hnodup
      simp at hnodup

theorem resolves_iff_length : s.resolves r = true ↔ (s.positions r).length = 1 := by
  rw [resolves, resolve, positions, List.length_map]
  split
  · next h => simp [h, Except.isOk, Except.toBool]
  · next h => simp [h, Except.isOk, Except.toBool]
  · next h₁ h₂ =>
    refine ⟨fun h => by simp [Except.isOk, Except.toBool] at h, fun h => ?_⟩
    obtain ⟨x, hx⟩ := List.length_eq_one_iff.1 h
    exact absurd hx (h₁ x)

theorem positions_concat (s t : Schema) (r : ColumnName) :
    (s.concat t).positions r = s.positions r ++ (t.positions r).map (s.width + ·) := by
  rw [positions, candidates, concat, List.zipIdx_append, List.filter_append, List.map_append]
  congr 1
  rw [positions, candidates, Nat.zero_add, List.zipIdx_eq_map_add, List.filter_map, List.map_map,
    List.map_map]
  rfl

theorem lt_of_mem_positions (h : i ∈ s.positions r) : i < s.width := by
  obtain ⟨⟨c, j⟩, hmem, rfl⟩ := List.mem_map.1 h
  exact (List.getElem?_eq_some_iff.1 (mem_candidates.1 hmem).1).1

theorem positions_of_resolve (h : s.resolve r = .ok (c, i)) : s.positions r = [i] := by
  rw [positions, resolve_eq_ok.1 h]
  rfl

/-- The order of the parts of a schema does not matter for what resolves. -/
theorem resolves_concat_comm (s t : Schema) (r : ColumnName) :
    (s.concat t).resolves r = (t.concat s).resolves r := by
  rw [Bool.eq_iff_iff, resolves_iff_length, resolves_iff_length, positions_concat, positions_concat]
  simp only [List.length_append, List.length_map, Nat.add_comm]

theorem resolves_iff : s.resolves r = true ↔ ∃ c i, s.resolve r = .ok (c, i) := by
  unfold resolves
  cases s.resolve r with
  | error e => simp [Except.isOk, Except.toBool]
  | ok x => exact ⟨fun _ => ⟨x.1, x.2, rfl⟩, fun _ => rfl⟩

theorem check_eq_ok {names : List ColumnName} :
    s.check names = .ok () ↔ ∀ r ∈ names, s.resolves r = true := by
  induction names with
  | nil => simp [check]
  | cons r rs ih =>
    rw [List.forall_mem_cons, ← ih, resolves, check]
    cases s.resolve r <;> simp [bind, Except.bind, Except.isOk, Except.toBool]

/-- A column without a table has its name for itself. -/
def Named (s : Schema) (c : Column) : Prop :=
  c.table = none → ∀ d ∈ s.columns, d.name = c.name → d = c

/-- Where no two columns have the same table and name, the full name of a column resolves to it,
unless it is without a table and shares its name. -/
theorem resolve_fullName (hs : (s.columns.map Column.fullName).Nodup) (hc : s.columns[i]? = some c)
    (hnamed : s.Named c) : s.resolve c.fullName = .ok (c, i) := by
  rw [resolve_eq_ok_iff]
  refine ⟨hc, by cases h : c.table <;> simp [Column.answers, Column.fullName, h], ?_⟩
  intro j d hd hdc
  -- Full names differ, so columns do, and a column has one place.
  have hcolumns := hs.of_map
  have heq : d = c := by
    cases htable : c.table with
    | none =>
      refine hnamed htable d (List.mem_of_getElem? hd) ?_
      simpa [Column.answers, Column.fullName, htable] using hdc
    | some t =>
      refine List.inj_on_of_nodup_map hs (List.mem_of_getElem? hd) (List.mem_of_getElem? hc) ?_
      simpa [Column.answers, Column.fullName, htable, and_comm] using hdc
  subst heq
  exact (List.getElem?_inj (List.getElem?_eq_some_iff.1 hd).1 hcolumns).1 (hd.trans hc.symm)

theorem named_of_resolves (hc : c ∈ s.columns) (h : s.resolves c.fullName = true) : s.Named c := by
  intro htable d hd hname
  obtain ⟨x, i, hx⟩ := resolves_iff.1 h
  obtain ⟨hxi, -, hone⟩ := resolve_eq_ok_iff.1 hx
  have hanswers : ∀ e : Column, e.name = c.name → e.answers c.fullName = true := fun e he => by
    simp [Column.answers, Column.fullName, htable, he]
  obtain ⟨j, hj⟩ := List.mem_iff_getElem?.1 hd
  obtain ⟨k, hk⟩ := List.mem_iff_getElem?.1 hc
  obtain rfl := hone j d hj (hanswers d hname)
  obtain rfl := hone k c hk (hanswers c rfl)
  exact Option.some.inj (hj.symm.trans hk)

def column (s : Schema) (k : String) : Column :=
  (s.columns.find? (·.name == k)).getD ⟨k, none, .integer⟩

def place (s : Schema) (k : String) : Nat := s.columns.findIdx (·.name == k)

def valueOf (s : Schema) (k : String) (r : Row) : Value := (r[s.place k]?).getD .null

theorem resolve_unqualified {k : String} (h : (s.columns.map Column.name).count k = 1) :
    s.resolve (.unqualified k) = .ok (s.column k, s.place k) := by
  have hmem : k ∈ s.columns.map Column.name := List.count_pos_iff.1 (by omega)
  obtain ⟨d, hd, hdk⟩ := List.mem_map.1 hmem
  have hlt : s.columns.findIdx (·.name == k) < s.columns.length :=
    List.findIdx_lt_length_of_exists ⟨d, hd, by simpa using hdk⟩
  rw [column, place, List.find?_eq_getElem?_findIdx, List.getElem?_eq_getElem hlt, Option.getD_some]
  generalize hi : s.columns.findIdx (·.name == k) = i at hlt
  have hname : s.columns[i].name = k := by
    subst hi
    simpa using List.findIdx_getElem (w := hlt)
  have hsplit : s.columns = s.columns.take i ++ s.columns[i] :: s.columns.drop (i + 1) := by
    rw [List.getElem_cons_drop, List.take_append_drop]
  have hrest : k ∉ (s.columns.drop (i + 1)).map Column.name := by
    rw [hsplit, List.map_append, List.map_cons, hname, List.count_append, List.count_cons_self] at h
    exact List.count_eq_zero.1 (by omega)
  refine resolve_eq_ok_iff.2 ⟨List.getElem?_eq_getElem hlt, ?_, ?_⟩
  · simp [Column.answers, hname, ColumnName.unqualified]
  · intro j d hj hdk
    have hdk : d.name = k := by simpa [Column.answers, ColumnName.unqualified] using hdk
    obtain ⟨hjlt, rfl⟩ := List.getElem?_eq_some_iff.1 hj
    rcases Nat.lt_trichotomy j i with hji | hji | hji
    · subst hi
      exact absurd hdk (by simpa using List.not_of_lt_findIdx hji)
    · exact hji
    · -- The name would occur once more behind its first place.
      refine absurd (List.mem_map.2 ⟨s.columns[j], ?_, hdk⟩) hrest
      obtain ⟨m, rfl⟩ : ∃ m, j = i + 1 + m := ⟨j - (i + 1), by omega⟩
      exact List.mem_iff_getElem?.2 ⟨m, by rw [List.getElem?_drop, hj]⟩

theorem columns_place {k : String} (h : (s.columns.map Column.name).count k = 1) :
    s.columns[s.place k]? = some (s.column k) ∧ (s.column k).name = k := by
  obtain ⟨hcolumn, hanswers, -⟩ := resolve_eq_ok_iff.1 (resolve_unqualified h)
  exact ⟨hcolumn, by simpa [Column.answers, ColumnName.unqualified] using hanswers⟩

end Schema

namespace Environment

variable {s t : Schema} {r : ColumnName} {c : Column} {i : Nat} {v w : Row}

theorem found_pair (t : Schema) (w : Row) (r : ColumnName) (hv : v.length = s.width) :
    (pair s v t w).found r = (single (s.concat t) (v ++ w)).found r := by
  have hleft : (s.positions r).map (v[·]?) = (s.positions r).map ((v ++ w)[·]?) :=
    List.map_congr_left fun i hi =>
      (List.getElem?_append_left (hv ▸ Schema.lt_of_mem_positions hi)).symm
  have hright : (t.positions r).map (w[·]?) =
      ((t.positions r).map (s.width + ·)).map ((v ++ w)[·]?) := by
    rw [List.map_map]
    refine List.map_congr_left fun i _ => ?_
    rw [Function.comp_apply, ← hv, List.getElem?_append_right (Nat.le_add_right ..),
      Nat.add_sub_cancel_left]
  simp only [found, pair, single, List.flatMap_cons, List.flatMap_nil, List.append_nil,
    Schema.positions_concat, List.map_append]
  rw [hleft, hright]

theorem lookup_pair (t : Schema) (w : Row) (r : ColumnName) (hv : v.length = s.width) :
    (pair s v t w).lookup r = (single (s.concat t) (v ++ w)).lookup r := by
  rw [lookup, lookup, found_pair t w r hv]

theorem lookup_single (h : s.resolve r = .ok (c, i)) (hv : v.length = s.width) :
    (single s v).lookup r = .ok ((v[i]?).getD .null) := by
  have hlt : i < v.length := by
    rw [hv]
    exact Schema.lt_of_mem_positions (Schema.positions_of_resolve h ▸ List.mem_singleton_self i)
  have hfound : (single s v).found r = [v[i]?] := by
    simp only [found, single, List.flatMap_cons, List.flatMap_nil, List.append_nil,
      Schema.positions_of_resolve h, List.map_cons, List.map_nil]
  rw [lookup, hfound, List.getElem?_eq_getElem hlt]
  rfl

/-- The order of the rows in scope does not matter for references that resolve. -/
theorem lookup_pair_comm (v w : Row) (h : (s.concat t).resolves r = true) :
    (pair t w s v).lookup r = (pair s v t w).lookup r := by
  have hlength := Schema.resolves_iff_length.1 h
  rw [Schema.positions_concat, List.length_append, List.length_map] at hlength
  have hfound : (pair t w s v).found r = (pair s v t w).found r := by
    simp only [found, pair, List.flatMap_cons, List.flatMap_nil, List.append_nil]
    -- One of the two schemas has the only candidate, the other has none.
    rcases hs : s.positions r with _ | ⟨i, is⟩
    · rw [List.map_nil, List.append_nil, List.nil_append]
    · rw [hs, List.length_cons] at hlength
      rw [List.length_eq_zero_iff.1 (show (t.positions r).length = 0 by omega), List.map_nil,
        List.append_nil, List.nil_append]
  rw [lookup, lookup, hfound]

end Environment

namespace Expr

variable {env env' : Environment}

mutual
theorem eval_congr (e : Expr) (h : ∀ c ∈ e.columns, env.lookup c = env'.lookup c) :
    e.eval env = e.eval env' := by
  cases e with
  | literal | aggregate | aggregateAll => simp only [eval]
  | column c => simp only [eval, h c (by simp [columns])]
  | compare op l r | arith op l r =>
    have hl := eval_congr l fun c hc => h c (by simp [columns, hc])
    have hr := eval_congr r fun c hc => h c (by simp [columns, hc])
    simp only [eval, hl, hr]
  | not e | negate e | isNull n e =>
    have he := eval_congr e fun c hc => h c (by simpa [columns] using hc)
    simp only [eval, he]
  | connect op es =>
    have hes := evalTerms_congr op false es fun c hc => h c (by simpa [columns] using hc)
    simp only [eval, hes]
  | call f es =>
    have hes := evalAll_congr es fun c hc => h c (by simpa [columns] using hc)
    simp only [eval, hes]

theorem evalTerms_congr (op : Connective) (sawNull : Bool) (es : List Expr)
    (h : ∀ c ∈ columnsOf es, env.lookup c = env'.lookup c) :
    evalTerms env op sawNull es = evalTerms env' op sawNull es := by
  cases es with
  | nil => simp only [evalTerms]
  | cons e es =>
    have he := eval_congr e fun c hc => h c (by simp [columnsOf, hc])
    have hes : ∀ b, evalTerms env op b es = evalTerms env' op b es := fun b =>
      evalTerms_congr op b es fun c hc => h c (by simp [columnsOf, hc])
    simp only [evalTerms, he, hes]

theorem evalAll_congr (es : List Expr) (h : ∀ c ∈ columnsOf es, env.lookup c = env'.lookup c) :
    evalAll env es = evalAll env' es := by
  cases es with
  | nil => simp only [evalAll]
  | cons e es =>
    have he := eval_congr e fun c hc => h c (by simp [columnsOf, hc])
    have hes := evalAll_congr es fun c hc => h c (by simp [columnsOf, hc])
    simp only [evalAll, he, hes]
end

theorem holds_congr {e : Expr} (h : ∀ c ∈ e.columns, env.lookup c = env'.lookup c) :
    e.holds env = e.holds env' := by
  rw [holds, holds, eval_congr e h]

end Expr

end RelQuery
