import RelQuery.Proofs.OpenScans
import RelQuery.Proofs.StoragePages
import RelQuery.Proofs.StoredRows

namespace RelQuery

namespace Storage

variable {db db' : Storage} {t : Table} {name : String} {info : TableInfo}

/-- What tables have when they are made and keep when they are edited, all tables have. -/
theorem Built.tables {I : Table → Prop}
    (hcreate : ∀ name columns size, I (.create name columns size))
    (hedit : ∀ {t u : Table}, t.Edit u → I t → I u) (h : db.Built) : ∀ t ∈ db.tables, I t := by
  refine h.keeps (I := fun s => ∀ t ∈ s.tables, I t) (fun _ _ ht => absurd ht List.not_mem_nil)
    fun {s s' c place} hs hc => ?_
  obtain ⟨name, columns, hcreated⟩ | ⟨t, ht, u, hu, rfl⟩ := attempt_edits hc
  · obtain ⟨-, rfl⟩ := createTable_eq_ok.1 hcreated
    exact List.forall_mem_append.2 ⟨hs, List.forall_mem_singleton.2 (hcreate ..)⟩
  · exact forall_put hs (hedit hu (hs t ht))

theorem Built.length_stats (h : db.Built) (ht : t ∈ db.tables) :
    t.currentStats.columns.length = t.schema.width := by
  have hstats : ∀ t ∈ db.tables, ∀ s, t.stats = some s → s.columns.length = t.schema.width := by
    refine h.tables (fun name columns size s hs => ?_) fun {t u} hedit ht s hs => ?_
    · simp [Table.create] at hs
    · cases hedit with
      | insert h =>
        obtain ⟨row, -, -, rfl⟩ := Table.insert_eq_ok.1 h
        exact ht s hs
      | replace h =>
        obtain ⟨-, rfl⟩ := Table.replace_eq_ok.1 h
        exact ht s hs
      | analyze =>
        obtain rfl := Option.some.inj hs
        simp [Table.measure]
  unfold Table.currentStats
  cases hs : t.stats with
  | none => exact List.length_replicate
  | some s => exact hstats t ht s hs

theorem Paged.table_attempt {c : Change} {place : Option Location} (h : db.Paged)
    (ht : db.table name = .ok t) (hc : db.attempt c = .ok (place, db')) :
    ∃ u, db'.table name = .ok u ∧ u.schema = t.schema := by
  have hfind := table_eq_ok.1 ht
  obtain ⟨name', columns, hcreate⟩ | ⟨v, hv, u, hedit, rfl⟩ := attempt_edits hc
  · obtain ⟨-, rfl⟩ := createTable_eq_ok.1 hcreate
    refine ⟨t, table_eq_ok.2 ?_, rfl⟩
    unfold Storage.find? at hfind ⊢
    rw [List.find?_append, hfind, Option.some_or]
  · obtain ⟨hname, hschema, -⟩ := hedit.grows
    have hput : (db.put u).find? name =
        (db.find? name).map fun w => if w.name == u.name then u else w := find?_putNamed name
    rw [hfind] at hput
    refine ⟨_, table_eq_ok.2 hput, ?_⟩
    dsimp only
    split
    · next heq =>
      have hvt : v = t := List.inj_on_of_nodup_map h.names hv (List.mem_of_find?_eq_some hfind)
        (hname.symm.trans (eq_of_beq heq).symm)
      rw [hschema, hvt]
    · rfl

theorem Paged.table_changes (h : db.Paged) (ht : db.table name = .ok t) (cs : List Change) :
    ∃ u, (db.changes cs).2.table name = .ok u ∧ u.schema = t.schema := by
  induction cs generalizing db t with
  | nil => exact ⟨t, ht, rfl⟩
  | cons c cs ih =>
    have hstep : ∃ u, (Change.settle Storage.attempt db c).2.table name = .ok u ∧
        u.schema = t.schema := by
      unfold Change.settle
      split
      · next hc => exact h.table_attempt ht hc
      · exact ⟨t, ht, rfl⟩
    obtain ⟨u, hu, hschema⟩ := hstep
    obtain ⟨v, hv, hschema'⟩ := ih (h.settle c) hu
    exact ⟨v, hv, hschema'.trans hschema⟩

/-- A table was opened in the past of a storage that operations have built. -/
def OpenedIn (db : Storage) (info : TableInfo) : Prop :=
  ∃ (past : Storage) (cs : List Change) (name : String),
    past.Built ∧ past.openTable name = .ok info ∧ (past.changes cs).2 = db

theorem OpenedIn.length_stats (h : db.OpenedIn info) :
    info.stats.columns.length = info.schema.width := by
  obtain ⟨past, cs, name, hbuilt, hopen, -⟩ := h
  obtain ⟨t, ht, rfl⟩ := openTable_eq_ok.1 hopen
  exact hbuilt.length_stats (mem_of_table ht)

/-- What coercion makes true of a row holds of the rows of an opened table. -/
theorem OpenedIn.readFrom {P : Schema → Row → Prop}
    (hP : ∀ {t : Table} {r r'}, t.coerceRow r = .ok r' → P t.schema r') (h : db.OpenedIn info)
    {page slot : Nat} {x : Tuple} (hx : db.readFrom info.name page slot = some x) :
    P info.schema x.values := by
  obtain ⟨past, cs, name, hbuilt, hopen, rfl⟩ := h
  obtain ⟨t, ht, rfl⟩ := openTable_eq_ok.1 hopen
  obtain ⟨u, hu, hschema⟩ := hbuilt.paged.table_changes ht cs
  rw [name_of_table ht, ← name_of_table hu] at hx
  exact hschema ▸ readFrom_of_live ((hbuilt.changes cs).live hP) hu hx

end Storage

end RelQuery
