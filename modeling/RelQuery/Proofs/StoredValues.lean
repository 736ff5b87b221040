import RelQuery.Proofs.StoredRows

namespace RelQuery

namespace SqlType

variable {t : SqlType} {v w : Value}

/-- The values that a column of a type may hold beside NULL. -/
def Fits : SqlType → Value → Prop
  | boolean, .bool _ => True
  | tinyInt, .int i => -2 ^ 7 ≤ i.toInt ∧ i.toInt < 2 ^ 7
  | smallInt, .int i => -2 ^ 15 ≤ i.toInt ∧ i.toInt < 2 ^ 15
  | integer, .int i => -2 ^ 31 ≤ i.toInt ∧ i.toInt < 2 ^ 31
  | bigInt, .int i => -2 ^ 63 ≤ i.toInt ∧ i.toInt < 2 ^ 63
  | float, .float _ | double, .float _ => True
  | char n, .text s | varChar n, .text s => s.length ≤ n
  | _, _ => False

/-- An integer fits a type that is an integer type of a width with room for it. -/
theorem fits_int {i : Int64} :
    t.Fits (.int i) ↔ ∃ bits, t.intBits? = some bits ∧ inSignedRange bits i.toInt := by
  cases t <;> simp [Fits, intBits?, inSignedRange, twoPow]

theorem fits_text {s : String} : t.Fits (.text s) ↔ ∃ n, t.textLength? = some n ∧ s.length ≤ n := by
  cases t <;> simp [Fits, textLength?]

theorem coerce_eq_ok : t.coerce v = .ok w ↔
    v = .null ∧ w = .null ∨ t.Fits v ∧ w = v ∨
      t.isFloating ∧ ∃ i, v = .int i ∧ w = .float (Double.ofInt i.toInt) := by
  cases v with
  | null => simp [coerce, Fits, @eq_comm _ w]
  | bool b => cases t <;> simp [coerce, coerce.mismatch, Fits, isFloating, @eq_comm _ w]
  | float x => cases t <;> simp [coerce, coerce.mismatch, Fits, isFloating, @eq_comm _ w]
  | text s =>
    rw [fits_text, coerce]
    cases t.textLength? with
    | none => simp [coerce.mismatch]
    | some n => by_cases h : s.length ≤ n <;> simp [h, @eq_comm _ w]
  | int i =>
    rw [fits_int, coerce]
    cases h : t.intBits? with
    | none => cases t <;> simp [coerce.mismatch, isFloating, intBits?, @eq_comm _ w] at h ⊢
    | some bits =>
      have hfloating : t.isFloating = false := by cases t <;> simp [intBits?, isFloating] at h ⊢
      by_cases hrange : inSignedRange bits i.toInt <;> simp [hrange, hfloating, @eq_comm _ w]

theorem coerce_coerced (h : t.coerce v = .ok w) : t.coerce w = .ok w := by
  rcases coerce_eq_ok.1 h with ⟨-, rfl⟩ | ⟨hfits, rfl⟩ | ⟨hfloating, i, -, rfl⟩
  · rfl
  · exact h
  · have hfits : t.Fits (.float (Double.ofInt i.toInt)) := by
      cases t <;> simp [isFloating, Fits] at hfloating ⊢
    exact coerce_eq_ok.2 (.inr (.inl ⟨hfits, rfl⟩))

theorem exists_coerce :
    (∃ w, t.coerce v = .ok w) ↔ v = .null ∨ t.Fits v ∨ t.isFloating ∧ ∃ i, v = .int i := by
  simp only [coerce_eq_ok]
  constructor
  · rintro ⟨w, ⟨h, -⟩ | ⟨h, -⟩ | ⟨h, i, hi, -⟩⟩
    · exact .inl h
    · exact .inr (.inl h)
    · exact .inr (.inr ⟨h, i, hi⟩)
  · rintro (h | h | ⟨h, i, hi⟩)
    · exact ⟨.null, .inl ⟨h, rfl⟩⟩
    · exact ⟨v, .inr (.inl ⟨h, rfl⟩)⟩
    · exact ⟨_, .inr (.inr ⟨h, i, hi, rfl⟩)⟩

theorem fits_of_coerce (h : t.coerce v = .ok w) : w = .null ∨ t.Fits w := by
  rcases coerce_eq_ok.1 (coerce_coerced h) with ⟨hnull, -⟩ | ⟨hfits, -⟩ | ⟨-, i, rfl, hi⟩
  · exact .inl hnull
  · exact .inr hfits
  · simp at hi

end SqlType

namespace Table

variable {t : Table} {r row : Row}

/-- A row for a table: one value for each column, and each can be coerced to the type of its
column. -/
def Accepts (t : Table) (r : Row) : Prop :=
  r.length = t.schema.width ∧
    ∀ c v, (c, v) ∈ t.schema.columns.zip r → ∃ w, c.type.coerce v = .ok w

theorem exists_coerceRow : (∃ row, t.coerceRow r = .ok row) ↔ t.Accepts r := by
  simp only [coerceRow_eq_ok, exists_and_left, Accepts, Coerced]
  refine and_congr_right fun _ => ⟨?_, fun h => ?_⟩
  · rintro ⟨row, hrow⟩ c v hmem
    obtain ⟨i, hi, heq⟩ := List.getElem_of_mem hmem
    have hw := hrow.get hi (hrow.length_eq ▸ hi)
    rw [List.get_eq_getElem, heq] at hw
    exact ⟨_, hw⟩
  · generalize t.schema.columns.zip r = cells at h ⊢
    induction cells with
    | nil => exact ⟨[], .nil⟩
    | cons cell cells ih =>
      obtain ⟨w, hw⟩ := h cell.1 cell.2 List.mem_cons_self
      obtain ⟨ws, hws⟩ := ih fun c v hmem => h c v (List.mem_cons_of_mem _ hmem)
      exact ⟨w :: ws, .cons hw hws⟩

end Table

/-- A row has one value for each column, which is NULL or fits the type of the column. -/
def Schema.Fits (s : Schema) (row : Row) : Prop :=
  List.Forall₂ (fun c v => v = .null ∨ c.type.Fits v) s.columns row

theorem Table.fits_of_coerceRow {t : Table} {r row : Row} (h : t.coerceRow r = .ok row) :
    t.schema.Fits row := by
  obtain ⟨hlength, hrow⟩ := coerceRow_eq_ok.1 h
  have hcolumns : (t.schema.columns.zip r).map Prod.fst = t.schema.columns :=
    List.map_fst_zip (Nat.le_of_eq hlength.symm)
  rw [Schema.Fits, ← hcolumns, List.forall₂_map_left_iff]
  exact hrow.imp fun _ _ => SqlType.fits_of_coerce

theorem Table.Live.row? {P : Schema → Row → Prop} {t : Table} (h : t.Live P) {page slot : Nat}
    {row : Row} (hrow : t.row? page slot = some row) : P t.schema row := by
  obtain ⟨p, hp, hrow⟩ := Option.bind_eq_some_iff.1 hrow
  obtain ⟨_, hs, rfl⟩ := Option.bind_eq_some_iff.1 hrow
  exact h p (List.mem_of_getElem? hp) row (List.mem_of_getElem? hs)

namespace Storage

variable {s : Storage}

/-- Whatever operations have made of a storage, each live row has one value for each column of its
table, NULL or fitting the type. Coercion takes just what is NULL, fits, or is an integer for a
column of doubles, and changes nothing in what it has returned. -/
theorem stored_values_fit (h : s.Built) :
    (∀ t ∈ s.tables, ∀ page slot row, t.row? page slot = some row → t.schema.Fits row) ∧
      (∀ (t : SqlType) v, (∃ w, t.coerce v = .ok w) ↔
        v = .null ∨ t.Fits v ∨ (t = .float ∨ t = .double) ∧ ∃ i, v = .int i) ∧
      ∀ (t : SqlType) v w, t.coerce v = .ok w → t.coerce w = .ok w := by
  refine ⟨fun t ht page slot row hrow => ?_, fun t v => ?_, fun t v w => SqlType.coerce_coerced⟩
  · exact (h.live Table.fits_of_coerceRow t ht).row? hrow
  · have hfloating : t.isFloating = true ↔ t = .float ∨ t = .double := by
      cases t <;> simp [SqlType.isFloating]
    rw [SqlType.exists_coerce, hfloating]

/-- The least integer of a width, an integer kept as a double, and a character of two bytes. -/
theorem stored_values_fit_widened :
    ∃ (s : Storage) (t : Table), s.Built ∧ t ∈ s.tables ∧
      t.row? 0 0 = some [.int (-128), .float (Double.ofInt 3), .text "é"] ∧
      t.schema.Fits [.int (-128), .float (Double.ofInt 3), .text "é"] ∧
      SqlType.double.coerce (.float (Double.ofInt 3)) = .ok (.float (Double.ofInt 3)) := by
  let columns : List (String × SqlType) := [("a", .tinyInt), ("b", .double), ("c", .char 1)]
  let empty : Storage := ⟨2, [.create "t" columns 2]⟩
  have hcreate : (create 2).createTable "t" columns = .ok empty := rfl
  have hinsert : empty.insert "t" [.int (-128), .int 3, .text "é"] = .ok (⟨"t", 0, 0⟩,
      empty.put { Table.create "t" columns 2 with
        pages := [[some [.int (-128), .float (Double.ofInt 3), .text "é"]]] }) := rfl
  have hbuilt := (Built.create 2).createTable hcreate |>.insert hinsert
  obtain ⟨hfits, -, hsame⟩ := stored_values_fit hbuilt
  exact ⟨_, _, hbuilt, List.mem_singleton_self _, rfl,
    hfits _ (List.mem_singleton_self _) 0 0 _ rfl,
    hsame .double (.int 3) _ rfl⟩

end Storage

end RelQuery
