import RelQuery.Proofs.Paging
import RelQuery.Proofs.StoredRows

namespace RelQuery

namespace Change

variable {σ τ : Type} {attempt : σ → Change → Except StorageError (Option Location × σ)}
  {attempt' : τ → Change → Except StorageError (Option Location × τ)} {view : σ → τ}
  {Inv : σ → Prop}

theorem run_map (hview : ∀ {s} c, Inv s →
    attempt' (view s) c = (attempt s c).map (Prod.map id view))
    (hkeep : ∀ {s s' c place}, Inv s → attempt s c = .ok (place, s') → Inv s') {s : σ} (hs : Inv s)
    (cs : List Change) :
    run attempt' (view s) cs = Prod.map id view (run attempt s cs) ∧ Inv (run attempt s cs).2 := by
  induction cs generalizing s with
  | nil => exact ⟨rfl, hs⟩
  | cons c cs ih =>
    have hsettle : settle attempt' (view s) c = Prod.map id view (settle attempt s c) ∧
        Inv (settle attempt s c).2 := by
      unfold settle
      rw [hview c hs]
      cases hattempt : attempt s c with
      | error e => exact ⟨rfl, hs⟩
      | ok x => exact ⟨rfl, hkeep hs hattempt⟩
    have hrest := ih hsettle.2
    refine ⟨?_, hrest.2⟩
    rw [run, run, hsettle.1]
    simp only [Prod.map, hrest.1, id_eq]

end Change

namespace Table

variable {t t' : Table} {size : Nat} {l : Location} {r : Row}

/-- A table without its pages: their slots, one after the other. -/
def ledger (t : Table) : Ledger := ⟨t.name, t.schema, t.pages.flatten⟩

/-- A table whose inserts fill pages of a size. -/
structure Paged (size : Nat) (t : Table) : Prop where
  capacity : t.rowsPerPage = size
  filled : Page.Filled size t.pages

theorem ledger_insert (hsize : 0 < size) (ht : t.Paged size) (r : Row) :
    t.ledger.insert size r = (t.insert r).map (Prod.map id ledger) := by
  have hcoerce : t.ledger.coerceRow r = t.coerceRow r := rfl
  unfold Ledger.insert Table.insert
  rw [hcoerce]
  cases t.coerceRow r with
  | error e => rfl
  | ok r =>
    obtain ⟨-, hflatten, hplace⟩ := ht.filled.append r hsize
    simp only [bind, Except.bind, Except.map, ht.capacity, Prod.map, id_eq, ledger, hflatten,
      hplace]
    rfl

theorem Paged.insert (hsize : 0 < size) (ht : t.Paged size) (h : t.insert r = .ok (l, t')) :
    t'.Paged size := by
  obtain ⟨row, -, -, rfl⟩ := insert_eq_ok.1 h
  refine ⟨ht.capacity, ?_⟩
  have happend := ht.filled.append row hsize
  rw [← ht.capacity] at happend ⊢
  exact happend.1

theorem row?_eq (ht : t.Paged size) (page slot : Nat) : t.row? page slot =
    if slot < size then (t.ledger.slots[page * size + slot]?).join else none := by
  have hjoin : t.row? page slot = (t.pages[page]?.bind fun p => p[slot]?).join := by
    unfold row?
    cases t.pages[page]? with
    | none => rfl
    | some p => cases hs : p[slot]? <;> simp [hs]
  rw [hjoin, ht.filled.slot_eq page slot]
  split <;> rfl

theorem ledger_replace (ht : t.Paged size) (l : Location) (contents : Option Row) :
    t.ledger.replace size l contents = (t.replace l contents).map ledger := by
  unfold Ledger.replace Table.replace Location.number?
  rw [row?_eq ht]
  by_cases hslot : l.slot < size
  · rw [if_pos hslot, if_pos hslot]
    dsimp only
    rcases t.ledger.slots[l.page * size + l.slot]? with _ | _ | r
    · rfl
    · rfl
    · have hset := ht.filled.flatten_modify hslot l.page contents
      simp only [Option.join_some, Except.map, ledger, hset]
  · rw [if_neg hslot, if_neg hslot]
    rfl

theorem Paged.replace (ht : t.Paged size) {contents : Option Row}
    (h : t.replace l contents = .ok t') : t'.Paged size := by
  obtain ⟨-, rfl⟩ := replace_eq_ok.1 h
  exact ⟨ht.capacity, ht.filled.modify l.page l.slot contents⟩

/-- What changes do to the table that they are about. -/
inductive Edit (t : Table) : Table → Prop
  | insert {r : Row} {l : Location} {u : Table} : t.insert r = .ok (l, u) → Edit t u
  | replace {l : Location} {contents : Option Row} {u : Table} :
      t.replace l contents = .ok u → Edit t u
  | analyze : Edit t { t with stats := some t.measure }

theorem Paged.edit (hsize : 0 < size) (ht : t.Paged size) (h : t.Edit t') : t'.Paged size := by
  cases h with
  | insert h => exact ht.insert hsize h
  | replace h => exact ht.replace h
  | analyze => exact ⟨ht.capacity, ht.filled⟩

end Table

namespace Storage

variable {s s' : Storage} {t : Table} {name : String} {place : Option Location}

/-- A storage without its pages and its statistics. -/
def catalog (s : Storage) : Catalog := ⟨s.rowsPerPage, s.tables.map Table.ledger⟩

/-- A storage that finds each of its tables by its name, with pages of its size. -/
structure Paged (s : Storage) : Prop where
  positive : 0 < s.rowsPerPage
  names : (s.tables.map Table.name).Nodup
  tables : ∀ t ∈ s.tables, t.Paged s.rowsPerPage

theorem find?_catalog (s : Storage) (name : String) :
    s.catalog.find? name = (s.find? name).map Table.ledger := List.find?_map ..

theorem ledger_catalog (s : Storage) (name : String) :
    s.catalog.ledger name = (s.table name).map Table.ledger := by
  unfold Catalog.ledger Storage.table
  rw [find?_catalog]
  cases s.find? name <;> rfl

theorem catalog_put (s : Storage) (t : Table) : (s.put t).catalog = s.catalog.put t.ledger := by
  simp only [catalog, put, Catalog.put, List.map_map, Catalog.mk.injEq, true_and]
  apply List.map_congr_left
  intro u _
  exact apply_ite Table.ledger ..

theorem Paged.table (h : s.Paged) (ht : s.table name = .ok t) : t.Paged s.rowsPerPage :=
  h.tables t (mem_of_table ht)

theorem Paged.put (h : s.Paged) (ht : t.Paged s.rowsPerPage) : (s.put t).Paged := by
  have hnames : (s.put t).tables.map Table.name = s.tables.map Table.name := by
    simp only [Storage.put, List.map_map]
    apply List.map_congr_left
    intro u _
    simp only [Function.comp_apply]
    split
    · next heq => exact (eq_of_beq heq).symm
    · rfl
  refine ⟨h.positive, hnames ▸ h.names, fun u hu => ?_⟩
  obtain ⟨v, hv, rfl⟩ := List.mem_map.1 hu
  split
  · exact ht
  · exact h.tables v hv

/-- To put back a table that looks the same changes nothing that clients see. -/
theorem Paged.catalog_put_same (h : s.Paged) {u : Table} (hu : u ∈ s.tables)
    (ht : t.ledger = u.ledger) : (s.put t).catalog = s.catalog := by
  have hname : t.name = u.name := congrArg Ledger.name ht
  simp only [catalog, Storage.put, List.map_map, Catalog.mk.injEq, true_and]
  apply List.map_congr_left
  intro v hv
  simp only [Function.comp_apply]
  split
  · next heq =>
    have hvu : v = u := List.inj_on_of_nodup_map h.names hv hu ((eq_of_beq heq).trans hname)
    rw [ht, hvu]
  · rfl

theorem catalog_attempt (h : s.Paged) (c : Change) :
    s.catalog.attempt c = (s.attempt c).map (Prod.map id catalog) := by
  cases c with
  | createTable name columns =>
    simp only [Catalog.attempt, attempt, createTable, find?_catalog]
    cases s.find? name with
    | none => simp [Except.map, catalog, Table.ledger, Ledger.create, Table.create]
    | some t => rfl
  | insert name r =>
    simp only [Catalog.attempt, attempt, Storage.insert, ledger_catalog]
    cases ht : s.table name with
    | error e => rfl
    | ok t =>
      have hinsert : t.ledger.insert s.catalog.pageSize r = _ :=
        Table.ledger_insert h.positive (h.table ht) r
      simp only [Except.map, bind, Except.bind]
      rw [hinsert]
      cases t.insert r with
      | error e => rfl
      | ok x => simp only [Except.map, Prod.map, id_eq, catalog_put]
  | update l r =>
    simp only [Catalog.attempt, attempt, Storage.update, ledger_catalog]
    cases ht : s.table l.table with
    | error e => rfl
    | ok t =>
      have hcoerce : t.ledger.coerceRow r = t.coerceRow r := rfl
      simp only [Except.map, bind, Except.bind]
      rw [hcoerce]
      cases t.coerceRow r with
      | error e => rfl
      | ok r =>
        have hreplace : t.ledger.replace s.catalog.pageSize l (some r) = _ :=
          Table.ledger_replace (h.table ht) l (some r)
        dsimp only
        rw [hreplace]
        cases t.replace l (some r) with
        | error e => rfl
        | ok t' => simp only [Except.map, Prod.map, id_eq, catalog_put]
  | delete l =>
    simp only [Catalog.attempt, attempt, Storage.delete, ledger_catalog]
    cases ht : s.table l.table with
    | error e => rfl
    | ok t =>
      have hreplace : t.ledger.replace s.catalog.pageSize l none = _ :=
        Table.ledger_replace (h.table ht) l none
      simp only [Except.map, bind, Except.bind]
      rw [hreplace]
      cases t.replace l none with
      | error e => rfl
      | ok t' => simp only [Except.map, Prod.map, id_eq, catalog_put]
  | analyze name =>
    simp only [Catalog.attempt, attempt, Storage.analyze, ledger_catalog]
    cases ht : s.table name with
    | error e => rfl
    | ok t =>
      have hsame : (s.put { t with stats := some t.measure }).catalog = s.catalog :=
        h.catalog_put_same (mem_of_table ht) rfl
      simp only [Except.map, bind, Except.bind, Prod.map, id_eq, hsame]

theorem Paged.createTable {columns : List (String × SqlType)} (h : s.Paged)
    (hs' : s.createTable name columns = .ok s') : s'.Paged := by
  obtain ⟨hfind, rfl⟩ := createTable_eq_ok.1 hs'
  refine ⟨h.positive, ?_, ?_⟩
  · have hnew : name ∉ s.tables.map Table.name := by
      intro hmem
      obtain ⟨t, ht, hname⟩ := List.mem_map.1 hmem
      exact List.find?_eq_none.1 hfind t ht (beq_iff_eq.2 hname)
    rw [List.map_append]
    exact List.Nodup.append h.names (List.nodup_singleton name) (by simpa [Table.create] using hnew)
  · exact List.forall_mem_append.2 ⟨h.tables, List.forall_mem_singleton.2 ⟨rfl, trivial⟩⟩

theorem attempt_edits {c : Change} (hc : s.attempt c = .ok (place, s')) :
    (∃ name columns, s.createTable name columns = .ok s') ∨
      ∃ t ∈ s.tables, ∃ u, t.Edit u ∧ s' = s.put u := by
  cases c with
  | createTable name columns => exact .inl ⟨name, columns, (attempt_createTable.1 hc).1⟩
  | insert name r =>
    obtain ⟨l, hc, -⟩ := attempt_insert.1 hc
    obtain ⟨t, t', ht, ht', rfl⟩ := insert_eq_ok.1 hc
    exact .inr ⟨t, mem_of_table ht, t', .insert ht', rfl⟩
  | update l r =>
    obtain ⟨t, row, t', ht, -, ht', rfl⟩ := update_eq_ok.1 (attempt_update.1 hc).1
    exact .inr ⟨t, mem_of_table ht, t', .replace ht', rfl⟩
  | delete l =>
    obtain ⟨t, t', ht, ht', rfl⟩ := delete_eq_ok.1 (attempt_delete.1 hc).1
    exact .inr ⟨t, mem_of_table ht, t', .replace ht', rfl⟩
  | analyze name =>
    obtain ⟨⟨stats, hc⟩, -⟩ := attempt_analyze.1 hc
    obtain ⟨t, ht, -, rfl⟩ := analyze_eq_ok.1 hc
    exact .inr ⟨t, mem_of_table ht, _, .analyze, rfl⟩

theorem Paged.attempt {c : Change} (h : s.Paged) (hc : s.attempt c = .ok (place, s')) :
    s'.Paged := by
  obtain ⟨name, columns, hcreate⟩ | ⟨t, ht, u, hedit, rfl⟩ := attempt_edits hc
  · exact h.createTable hcreate
  · exact h.put ((h.tables t ht).edit h.positive hedit)

/-- Storages that operations build find each table by its name, with filled pages. -/
theorem Built.paged (h : s.Built) : s.Paged := by
  refine h.keeps (fun rowsPerPage => ⟨?_, List.nodup_nil, fun t ht => absurd ht List.not_mem_nil⟩)
    Paged.attempt
  change 0 < max 1 rowsPerPage
  omega

/-- A storage answers to changes as its catalog does, and its pages stay filled. -/
theorem changes_catalog (h : s.Paged) (cs : List Change) :
    s.catalog.changes cs = Prod.map id catalog (s.changes cs) ∧ (s.changes cs).2.Paged :=
  Change.run_map (fun c hs => catalog_attempt hs c) Paged.attempt h cs

end Storage

end RelQuery
