import RelQuery.Proofs.OpenScans
import RelQuery.Proofs.StoredValues
import RelQuery.Storage.InPlace

namespace RelQuery

namespace Page

/-- The last page takes a row if it has room, and else a new page does. -/
theorem append_eq (capacity : Nat) (row : Row) (ps : List Page) : append capacity row ps =
    match ps.getLast?.filter (·.length < capacity) with
    | some p => (ps.modify (ps.length - 1) (· ++ [some row]), ps.length - 1, p.length)
    | none => (ps ++ [[some row]], ps.length, 0) := by
  induction ps using Page.append.induct capacity row with
  | case1 => rfl
  | case2 p hlt => simp [Page.append, Option.filter, hlt]
  | case3 p hlt => simp [Page.append, Option.filter, hlt]
  | case4 p q ps pages n slot heq ih =>
    rw [heq] at ih
    rw [Page.append, heq, List.getLast?_cons_cons]
    split at ih
    all_goals
      obtain ⟨rfl, rfl, rfl⟩ := ih
      simp

end Page

namespace Table

variable {t : Table} {r row : Row}

/-- The table with a row behind all others, and the place of that row. -/
def withRow (t : Table) (row : Row) : Location × Table :=
  match t.openPage? with
  | some p => (t.location (t.pages.length - 1) p.length,
      { t with pages := t.pages.modify (t.pages.length - 1) (· ++ [some row]) })
  | none => (t.location t.pages.length 0, { t with pages := t.pages ++ [[some row]] })

theorem insert_eq (t : Table) (r : Row) : t.insert r = (t.coerceRow r).map t.withRow := by
  unfold insert withRow openPage?
  cases t.coerceRow r with
  | error e => rfl
  | ok row =>
    simp only [bind, Except.bind, Except.map, Page.append_eq]
    cases t.pages.getLast?.filter fun p => p.length < t.rowsPerPage <;> rfl

/-- Two tables are the same but for what one slot holds. -/
structure SameBut (page slot : Nat) (t t' : Table) : Prop where
  frame : t' = { t with pages := t'.pages }
  pages : ∀ i, i ≠ page → t'.pages[i]? = t.pages[i]?
  slots : ∀ j, j ≠ slot → t'.slot? page j = t.slot? page j

theorem sameBut_modify {page slot : Nat} {edit : Page → Page}
    (hedit : ∀ p, t.pages[page]? = some p → ∀ j, j ≠ slot → (edit p)[j]? = p[j]?) :
    SameBut page slot t { t with pages := t.pages.modify page edit } where
  frame := rfl
  pages i hi := List.getElem?_modify_ne _ _ hi.symm
  slots j hj := by
    simp only [slot?, List.getElem?_modify_eq]
    cases hp : t.pages[page]? with
    | none => rfl
    | some p => exact hedit p hp j hj

theorem sameBut_withRow (t : Table) (row : Row) :
    SameBut (t.withRow row).1.page (t.withRow row).1.slot t (t.withRow row).2 ∧
      t.slot? (t.withRow row).1.page (t.withRow row).1.slot = none ∧
      (t.withRow row).2.slot? (t.withRow row).1.page (t.withRow row).1.slot = some (some row) := by
  unfold withRow
  cases hopen : t.openPage? with
  | none =>
    refine ⟨⟨rfl, fun i hi => ?_, fun j hj => ?_⟩, ?_, ?_⟩
    · change i ≠ t.pages.length at hi
      simp only [List.getElem?_append]
      split
      · rfl
      · rw [List.getElem?_eq_none (by simp; omega), List.getElem?_eq_none (by omega)]
    · change j ≠ 0 at hj
      simp [slot?, location, hj]
    · simp [slot?, location]
    · simp [slot?, location]
  | some p =>
    obtain ⟨hlast, -⟩ := Option.filter_eq_some_iff.1 hopen
    have hp : t.pages[t.pages.length - 1]? = some p := by rw [← List.getLast?_eq_getElem?, hlast]
    refine ⟨sameBut_modify fun q hq j hj => ?_, ?_, ?_⟩
    · obtain rfl := Option.some.inj (hp.symm.trans hq)
      change j ≠ p.length at hj
      simp only [List.getElem?_append]
      split
      · rfl
      · rw [List.getElem?_eq_none (by simp; omega), List.getElem?_eq_none (by omega)]
    · simp [slot?, location, hp]
    · simp [slot?, location, hp]

theorem row?_eq_slot? (t : Table) (page slot : Nat) :
    t.row? page slot = (t.slot? page slot).join := by
  unfold row? slot?
  cases t.pages[page]? with
  | none => rfl
  | some p => cases hs : p[slot]? <;> simp [hs]

end Table

namespace Storage

/-- What a change leaves, which is nothing new if it fails. -/
def settled {α : Type} (s : Storage) :
    Except StorageError (α × Storage) → Except StorageError α × Storage
  | .ok (a, s') => (.ok a, s')
  | .error e => (.error e, s)

theorem settle_eq (s : Storage) (c : Change) :
    Change.settle attempt s c = s.settled (s.attempt c) := by
  unfold Change.settle
  rcases s.attempt c with e | ⟨place, s'⟩ <;> rfl

end Storage

namespace Procedure

variable {α β : Type} {s : Storage} {name : String}

theorem exec_bind (p : Procedure α) (f : α → Procedure β) : (p >>= f).exec s =
    match p.exec s with
    | (.ok a, s') => (f a).exec s'
    | (.error e, s') => (.error e, s') := by
  unfold exec
  rw [ExceptT.run_bind, StateT.run_bind]
  rcases p.run.run s with ⟨e | a, s'⟩ <;> rfl

theorem exec_liftExcept (x : Except StorageError α) :
    (liftExcept x : Procedure α).exec s = (x, s) := by
  cases x <;> rfl

theorem exec_get : (get : Procedure Storage).exec s = (.ok s, s) := rfl

theorem exec_table : (table name).exec s = (s.table name, s) := by
  unfold table Storage.table
  rw [exec_bind, exec_get]
  dsimp only
  cases s.find? name <;> rfl

/-- To write to a table is to put another in its place, where no other has its name. -/
theorem exec_write (h : (s.tables.map Table.name).Nodup) {t : Table} (ht : t ∈ s.tables)
    {edit : Table → Table} (hname : (edit t).name = t.name) :
    (write t.name edit).exec s = (.ok (), s.put (edit t)) := by
  have htables : (s.tables.map fun u => if u.name == t.name then edit u else u) =
      s.tables.map fun u => if u.name == (edit t).name then edit t else u := by
    rw [hname]
    apply List.map_congr_left
    intro u hu
    by_cases heq : u.name = t.name
    · rw [List.inj_on_of_nodup_map h hu ht heq]
    · rw [if_neg (mt beq_iff_eq.1 heq), if_neg (mt beq_iff_eq.1 heq)]
  change (Except.ok (), { s with tables := _ }) = _
  rw [htables]
  rfl

theorem exec_replace (h : (s.tables.map Table.name).Nodup) {t : Table} (ht : t ∈ s.tables)
    (l : Location) (contents : Option Row) : (replace t l contents).exec s =
      s.settled ((t.replace l contents).map fun u => ((), s.put u)) := by
  unfold replace Table.replace
  rw [Table.row?_eq_slot?]
  rcases t.slot? l.page l.slot with _ | _ | r
  · rfl
  · rfl
  · exact exec_write h ht rfl

theorem exec_update (h : (s.tables.map Table.name).Nodup) (l : Location) (r : Row) :
    (update l r).exec s = s.settled ((s.update l r).map fun s' => ((), s')) := by
  unfold update Storage.update
  rw [exec_bind, exec_table]
  cases ht : s.table l.table with
  | error e => rfl
  | ok t =>
    dsimp only
    rw [exec_bind, exec_liftExcept]
    cases hr : t.coerceRow r with
    | error e => simp only [bind, Except.bind, hr]; rfl
    | ok row =>
      simp only [bind, Except.bind, hr]
      rw [exec_replace h (Storage.mem_of_table ht)]
      cases t.replace l (some row) <;> rfl

theorem exec_delete (h : (s.tables.map Table.name).Nodup) (l : Location) :
    (delete l).exec s = s.settled ((s.delete l).map fun s' => ((), s')) := by
  unfold delete Storage.delete
  rw [exec_bind, exec_table]
  cases ht : s.table l.table with
  | error e => rfl
  | ok t =>
    dsimp only
    rw [exec_replace h (Storage.mem_of_table ht)]
    simp only [bind, Except.bind]
    cases t.replace l none <;> rfl

theorem exec_insert (h : (s.tables.map Table.name).Nodup) (name : String) (r : Row) :
    (insert name r).exec s = s.settled (s.insert name r) := by
  cases ht : s.table name with
  | error e =>
    rw [insert, exec_bind, exec_table, Storage.insert, ht]
    rfl
  | ok t =>
    obtain rfl := Storage.name_of_table ht
    have hmem := Storage.mem_of_table ht
    have hinsert : s.insert t.name r =
        ((t.coerceRow r).map t.withRow).map fun x => (x.1, s.put x.2) := by
      rw [← Table.insert_eq, Storage.insert, ht]
      change (t.insert r >>= fun x => Except.ok (x.1, s.put x.2)) = _
      cases t.insert r <;> rfl
    rw [hinsert, insert, exec_bind, exec_table, ht]
    dsimp only
    rw [exec_bind, exec_liftExcept]
    cases t.coerceRow r with
    | error e => rfl
    | ok row =>
      simp only [Except.map, Table.withRow]
      cases t.openPage? with
      | none =>
        dsimp only
        rw [exec_bind, addPage, exec_write h hmem rfl]
        rfl
      | some p =>
        dsimp only
        rw [exec_bind, writePage, exec_write h hmem rfl]
        rfl

theorem exec_analyze (h : (s.tables.map Table.name).Nodup) (name : String) :
    (analyze name).exec s = s.settled (s.analyze name) := by
  rw [analyze, exec_bind, exec_table, Storage.analyze]
  cases ht : s.table name with
  | error e => rfl
  | ok t =>
    obtain rfl := Storage.name_of_table ht
    dsimp only
    rw [exec_bind, exec_write h (Storage.mem_of_table ht) rfl]
    rfl

theorem exec_createTable (name : String) (columns : List (String × SqlType)) :
    (createTable name columns).exec s =
      s.settled ((s.createTable name columns).map fun s' => ((), s')) := by
  unfold createTable Storage.createTable
  rw [exec_bind, exec_get]
  dsimp only
  cases s.find? name <;> rfl

/-- What is done with the result of steps changes nothing in what they leave. -/
theorem exec_bind_settled {p : Procedure α} {x : Except StorageError (α × Storage)}
    (h : p.exec s = s.settled x) (f : α → β) :
    (p >>= fun a => pure (f a)).exec s = s.settled (x.map (Prod.map f id)) := by
  rw [exec_bind, h]
  rcases x with e | ⟨a, s'⟩ <;> rfl

end Procedure

namespace Storage

variable {s s' : Storage}

/-- Made in place, a change leaves what it leaves when it makes a new storage, and nothing new when
it fails: all that can be wrong with it is found before anything is written. -/
theorem perform_eq (h : (s.tables.map Table.name).Nodup) (c : Change) :
    s.perform c = Change.settle attempt s c := by
  rw [settle_eq]
  cases c with
  | createTable name columns =>
    refine (Procedure.exec_bind_settled (Procedure.exec_createTable name columns)
      fun _ => none).trans ?_
    cases hs : s.createTable name columns <;> simp [attempt, hs, Except.map]
  | insert name r =>
    refine (Procedure.exec_bind_settled (Procedure.exec_insert h name r) some).trans ?_
    cases hs : s.insert name r <;> simp [attempt, hs, Except.map, Prod.map]
  | update l r =>
    refine (Procedure.exec_bind_settled (Procedure.exec_update h l r) fun _ => none).trans ?_
    cases hs : s.update l r <;> simp [attempt, hs, Except.map]
  | delete l =>
    refine (Procedure.exec_bind_settled (Procedure.exec_delete h l) fun _ => none).trans ?_
    cases hs : s.delete l <;> simp [attempt, hs, Except.map]
  | analyze name =>
    refine (Procedure.exec_bind_settled (Procedure.exec_analyze h name) fun _ => none).trans ?_
    cases hs : s.analyze name <;> simp [attempt, hs, Except.map, Prod.map]

/-- Two storages are the same but for one table. -/
structure SameBut (name : String) (s s' : Storage) : Prop where
  rowsPerPage : s'.rowsPerPage = s.rowsPerPage
  find?_eq : ∀ other, other ≠ name → s'.find? other = s.find? other

/-- What a slot of a table holds becomes something else, and nothing else changes. -/
def Writes (s s' : Storage) (t : Table) (l : Location) (old new : Option (Option Row)) : Prop :=
  s.find? l.table = some t ∧ t.slot? l.page l.slot = old ∧ SameBut l.table s s' ∧
    ∃ t', s'.find? l.table = some t' ∧ t'.slot? l.page l.slot = new ∧
      t.SameBut l.page l.slot t'

/-- What a change that succeeds does, and that it does nothing else. -/
def Effect (s s' : Storage) (place : Option Location) : Change → Prop
  | .createTable name columns =>
    place = none ∧ s.find? name = none ∧ SameBut name s s' ∧ s'.find? name = some
      { name := name
        schema := ⟨columns.map fun c => ⟨c.1, some name, c.2⟩⟩
        rowsPerPage := s.rowsPerPage
        pages := []
        stats := none }
  | .insert name r => ∃ l t row, place = some l ∧ l.table = name ∧
      Table.Coerced t.schema.columns r row ∧ s.Writes s' t l none (some (some row))
  | .update l r => place = none ∧ ∃ t old row, Table.Coerced t.schema.columns r row ∧
      s.Writes s' t l (some (some old)) (some (some row))
  | .delete l => place = none ∧ ∃ t old, s.Writes s' t l (some (some old)) (some none)
  | .analyze name => place = none ∧ SameBut name s s' ∧
      ∃ t, s.find? name = some t ∧ s'.find? name = some { t with stats := some t.measure }

/-- What it takes for a change to succeed. -/
def Admits (s : Storage) : Change → Prop
  | .createTable name _ => s.find? name = none
  | .insert name r => ∃ t, s.find? name = some t ∧ t.Accepts r
  | .update l r => ∃ t old, s.find? l.table = some t ∧ t.slot? l.page l.slot = some (some old) ∧
      t.Accepts r
  | .delete l => ∃ t old, s.find? l.table = some t ∧ t.slot? l.page l.slot = some (some old)
  | .analyze name => ∃ t, s.find? name = some t

theorem find?_put {t u : Table} (hu : s.find? t.name = some u) (name : String) :
    (s.put t).find? name = if name = t.name then some t else s.find? name :=
  find?_putNamed_of_find? (ne_of_eq_of_ne hu (Option.some_ne_none u)) name

theorem sameBut_put {t u : Table} (hu : s.find? t.name = some u) : SameBut t.name s (s.put t) :=
  ⟨rfl, fun other hne => by rw [find?_put hu, if_neg hne]⟩

theorem writes_put {t t' : Table} {l : Location} {old new : Option (Option Row)}
    (ht : s.find? l.table = some t) (hold : t.slot? l.page l.slot = old)
    (hnew : t'.slot? l.page l.slot = new) (hsame : t.SameBut l.page l.slot t') :
    s.Writes (s.put t') t l old new := by
  have htable : t.name = l.table := name_of_table (table_eq_ok.2 ht)
  have hname : t'.name = l.table := (congrArg Table.name hsame.frame).trans htable
  have ht' : s.find? t'.name = some t := hname ▸ ht
  refine ⟨ht, hold, hname ▸ sameBut_put ht', t', ?_, hnew, hsame⟩
  rw [find?_put ht', if_pos hname.symm]

theorem writes_replace {t t' : Table} {l : Location} {contents : Option Row}
    (ht : s.find? l.table = some t) (h : t.replace l contents = .ok t') :
    ∃ old, s.Writes (s.put t') t l (some (some old)) (some contents) := by
  obtain ⟨⟨old, hold⟩, rfl⟩ := Table.replace_eq_ok.1 h
  rw [Table.row?_eq_slot?] at hold
  have hslot := Option.join_eq_some_iff.1 hold
  refine ⟨old, writes_put ht hslot ?_ (Table.sameBut_modify fun p _ j hj => ?_)⟩
  · obtain ⟨p, hp, hlive⟩ := Option.bind_eq_some_iff.1 hslot
    obtain ⟨hlt, -⟩ := List.getElem?_eq_some_iff.1 hlive
    simp [Table.slot?, hp, hlt]
  · exact List.getElem?_set_ne hj.symm

theorem effect_of_attempt {c : Change} {place : Option Location}
    (hc : s.attempt c = .ok (place, s')) : s.Effect s' place c := by
  cases c with
  | createTable name columns =>
    obtain ⟨hdone, rfl⟩ := attempt_createTable.1 hc
    obtain ⟨hfind, rfl⟩ := createTable_eq_ok.1 hdone
    have happend : ∀ other, List.find? (·.name == other)
        (s.tables ++ [Table.create name columns s.rowsPerPage]) =
          (s.find? other).or
            (if name = other then some (.create name columns s.rowsPerPage) else none) := by
      intro other
      rw [List.find?_append, List.find?_singleton]
      simp [Table.create, Storage.find?]
    refine ⟨rfl, hfind, ⟨rfl, fun other hne => ?_⟩, ?_⟩
    · rw [Storage.find?, happend, if_neg hne.symm, Option.or_none]
    · rw [Storage.find?, happend, if_pos rfl, hfind, Option.none_or]
      rfl
  | insert name r =>
    obtain ⟨l, hdone, rfl⟩ := attempt_insert.1 hc
    obtain ⟨t, t', ht, ht', rfl⟩ := insert_eq_ok.1 hdone
    rw [Table.insert_eq] at ht'
    obtain ⟨row, hrow, heq⟩ := Except.map_eq_ok.1 ht'
    obtain ⟨hsame, hold, hnew⟩ := t.sameBut_withRow row
    rw [heq] at hsame hold hnew
    have hplace : l.table = name := by
      have htable : (t.withRow row).1.table = t.name := by
        unfold Table.withRow
        cases t.openPage? <;> rfl
      rw [heq] at htable
      exact htable.trans (name_of_table ht)
    exact ⟨l, t, row, rfl, hplace, (Table.coerceRow_eq_ok.1 hrow).2,
      writes_put (hplace ▸ table_eq_ok.1 ht) hold hnew hsame⟩
  | update l r =>
    obtain ⟨hdone, rfl⟩ := attempt_update.1 hc
    obtain ⟨t, row, t', ht, hrow, ht', rfl⟩ := update_eq_ok.1 hdone
    obtain ⟨old, hwrites⟩ := writes_replace (table_eq_ok.1 ht) ht'
    exact ⟨rfl, t, old, row, (Table.coerceRow_eq_ok.1 hrow).2, hwrites⟩
  | delete l =>
    obtain ⟨hdone, rfl⟩ := attempt_delete.1 hc
    obtain ⟨t, t', ht, ht', rfl⟩ := delete_eq_ok.1 hdone
    obtain ⟨old, hwrites⟩ := writes_replace (table_eq_ok.1 ht) ht'
    exact ⟨rfl, t, old, hwrites⟩
  | analyze name =>
    obtain ⟨⟨stats, hdone⟩, rfl⟩ := attempt_analyze.1 hc
    obtain ⟨t, ht, -, rfl⟩ := analyze_eq_ok.1 hdone
    have hfind := table_eq_ok.1 ht
    obtain rfl := name_of_table ht
    let measured : Table := { t with stats := some t.measure }
    have hput : s.find? measured.name = some t := hfind
    exact ⟨rfl, sameBut_put hput, t, hfind, (find?_put hput t.name).trans (if_pos rfl)⟩

theorem exists_replace (t : Table) (l : Location) (contents : Option Row) :
    (∃ t', t.replace l contents = .ok t') ↔ ∃ old, t.slot? l.page l.slot = some (some old) := by
  simp [Table.replace_eq_ok, Table.row?_eq_slot?, Option.join_eq_some_iff]

theorem attempt_admits (s : Storage) (c : Change) :
    (∃ place s', s.attempt c = .ok (place, s')) ↔ s.Admits c := by
  have hname : ∀ {name t}, s.table name = .ok t ↔ s.find? name = some t := table_eq_ok
  constructor
  · rintro ⟨place, s', hc⟩
    cases c with
    | createTable name columns => exact (createTable_eq_ok.1 (attempt_createTable.1 hc).1).1
    | insert name r =>
      obtain ⟨l, hc, -⟩ := attempt_insert.1 hc
      obtain ⟨t, t', ht, ht', -⟩ := insert_eq_ok.1 hc
      rw [Table.insert_eq] at ht'
      obtain ⟨row, hrow, -⟩ := Except.map_eq_ok.1 ht'
      exact ⟨t, hname.1 ht, Table.exists_coerceRow.1 ⟨row, hrow⟩⟩
    | update l r =>
      obtain ⟨t, row, t', ht, hrow, ht', -⟩ := update_eq_ok.1 (attempt_update.1 hc).1
      obtain ⟨old, hold⟩ := (exists_replace t l (some row)).1 ⟨t', ht'⟩
      exact ⟨t, old, hname.1 ht, hold, Table.exists_coerceRow.1 ⟨row, hrow⟩⟩
    | delete l =>
      obtain ⟨t, t', ht, ht', -⟩ := delete_eq_ok.1 (attempt_delete.1 hc).1
      obtain ⟨old, hold⟩ := (exists_replace t l none).1 ⟨t', ht'⟩
      exact ⟨t, old, hname.1 ht, hold⟩
    | analyze name =>
      obtain ⟨⟨stats, hc⟩, -⟩ := attempt_analyze.1 hc
      obtain ⟨t, ht, -⟩ := analyze_eq_ok.1 hc
      exact ⟨t, hname.1 ht⟩
  · intro h
    cases c with
    | createTable name columns =>
      exact ⟨_, _, attempt_createTable.2 ⟨createTable_eq_ok.2 ⟨h, rfl⟩, rfl⟩⟩
    | insert name r =>
      obtain ⟨t, ht, haccepts⟩ := h
      obtain ⟨row, hrow⟩ := Table.exists_coerceRow.2 haccepts
      have hinsert : t.insert r = .ok (t.withRow row) := by
        rw [Table.insert_eq, hrow]
        rfl
      exact ⟨_, _, attempt_insert.2 ⟨_, insert_eq_ok.2 ⟨t, _, hname.2 ht, hinsert, rfl⟩, rfl⟩⟩
    | update l r =>
      obtain ⟨t, old, ht, hold, haccepts⟩ := h
      obtain ⟨row, hrow⟩ := Table.exists_coerceRow.2 haccepts
      obtain ⟨t', ht'⟩ := (exists_replace t l (some row)).2 ⟨old, hold⟩
      exact ⟨_, _, attempt_update.2
        ⟨update_eq_ok.2 ⟨t, row, t', hname.2 ht, hrow, ht', rfl⟩, rfl⟩⟩
    | delete l =>
      obtain ⟨t, old, ht, hold⟩ := h
      obtain ⟨t', ht'⟩ := (exists_replace t l none).2 ⟨old, hold⟩
      exact ⟨_, _, attempt_delete.2 ⟨delete_eq_ok.2 ⟨t, t', hname.2 ht, ht', rfl⟩, rfl⟩⟩
    | analyze name =>
      obtain ⟨t, ht⟩ := h
      exact ⟨_, _, attempt_analyze.2 ⟨⟨_, analyze_eq_ok.2 ⟨t, hname.2 ht, rfl, rfl⟩⟩, rfl⟩⟩

theorem attempt_of_empty {t : Table} {l : Location} (ht : s.find? l.table = some t)
    (hempty : t.row? l.page l.slot = none) : s.attempt (.delete l) = .error (.invalidLocation l) ∧
      ∀ r, ∃ e, s.attempt (.update l r) = .error e ∧ (t.Accepts r → e = .invalidLocation l) := by
  have hreplace : ∀ contents, t.replace l contents = .error (.invalidLocation l) :=
    fun contents => by
    unfold Table.replace
    rw [hempty]
  have htable : s.table l.table = .ok t := table_eq_ok.2 ht
  refine ⟨?_, fun r => ?_⟩
  · rw [attempt, Storage.delete, htable]
    change (t.replace l none >>= fun u => Except.ok (s.put u)).map _ = _
    rw [hreplace]
    rfl
  · rw [attempt, Storage.update, htable]
    change ∃ e, (t.coerceRow r >>= fun row => t.replace l (some row) >>= fun u =>
      Except.ok (s.put u)).map _ = .error e ∧ _
    cases hr : t.coerceRow r with
    | error e =>
      refine ⟨e, rfl, fun haccepts => ?_⟩
      obtain ⟨row, hrow⟩ := Table.exists_coerceRow.2 haccepts
      simp [hr] at hrow
    | ok row =>
      refine ⟨_, ?_, fun _ => rfl⟩
      simp only [bind, Except.bind, hreplace]
      rfl

theorem Built.perform_eq (h : s.Built) (c : Change) :
    s.perform c = Change.settle Storage.attempt s c :=
  Storage.perform_eq h.paged.names c

theorem Built.perform (h : s.Built) (c : Change) : (s.perform c).2.Built := by
  rw [h.perform_eq]
  exact h.changes [c]

theorem Built.emptied_performAll {l : Location} (h : s.Built) (hl : s.catalog.Emptied l)
    (cs : List Change) : (s.performAll cs).Built ∧ (s.performAll cs).catalog.Emptied l := by
  induction cs generalizing s with
  | nil => exact ⟨h, hl⟩
  | cons c cs ih =>
    have hc : (s.perform c).2.catalog.Emptied l := by
      rw [h.perform_eq]
      exact h.paged.emptied_settle hl c
    exact ih (h.perform c) hc

/-- A change is all or nothing. If it fails, the storage is as it was, and if it succeeds, just what
its kind says is changed; it succeeds where its table, its slot and its row admit it. A deleted row
stays deleted whatever is done then. -/
theorem change_all_or_nothing (h : s.Built) :
    (∀ c e s', s.perform c = (.error e, s') → s' = s) ∧
      (∀ c place s', s.perform c = (.ok place, s') → s.Effect s' place c) ∧
      (∀ c, (∃ place s', s.perform c = (.ok place, s')) ↔ s.Admits c) ∧
      (∀ c, s.perform c = Change.settle attempt s c) ∧
      ∀ l s', s.perform (.delete l) = (.ok none, s') → ∀ cs,
        (s'.performAll cs).perform (.delete l) = (.error (.invalidLocation l), s'.performAll cs) ∧
          ∀ r, ∃ e, (s'.performAll cs).perform (.update l r) = (.error e, s'.performAll cs) ∧
            ∀ t, (s'.performAll cs).find? l.table = some t → t.Accepts r →
              e = .invalidLocation l := by
  have hsettled : ∀ c, s.perform c = s.settled (s.attempt c) := fun c =>
    (h.perform_eq c).trans (settle_eq s c)
  have hok : ∀ {c place s'}, s.perform c = (.ok place, s') ↔ s.attempt c = .ok (place, s') := by
    intro c place s'
    rw [hsettled]
    rcases s.attempt c with e | ⟨place', s''⟩ <;> simp [settled]
  refine ⟨fun c e s' hc => ?_, fun c place s' hc => effect_of_attempt (hok.1 hc), fun c => ?_,
    h.perform_eq, fun l s' hc cs => ?_⟩
  · rw [hsettled] at hc
    rcases hattempt : s.attempt c with e' | ⟨place, s''⟩ <;> simp [hattempt, settled] at hc
    exact hc.2.symm
  · simp only [hok]
    exact attempt_admits s c
  · obtain ⟨db, hdelete, heq⟩ := Except.map_eq_ok.1 (hok.1 hc)
    obtain rfl : db = s' := (Prod.mk.inj heq).2
    have hstep := h.perform (.delete l)
    have hemptied := h.paged.emptied_of_delete hdelete
    rw [← h.perform_eq, hc] at hemptied
    rw [hc] at hstep
    obtain ⟨hbuilt, hgone⟩ := hstep.emptied_performAll hemptied cs
    generalize db.performAll cs = s₁ at hbuilt hgone
    have hrow := hbuilt.paged.row?_of_emptied hgone
    obtain ⟨g, hg, -⟩ := hgone
    rw [find?_catalog] at hg
    obtain ⟨t, ht, -⟩ := Option.map_eq_some_iff.1 hg
    rw [Storage.row?, ht, Option.bind_some] at hrow
    obtain ⟨hdeleted, hupdated⟩ := attempt_of_empty ht hrow
    have hfails : ∀ {c e}, s₁.attempt c = .error e → s₁.perform c = (.error e, s₁) := by
      intro c e hc
      rw [hbuilt.perform_eq, settle_eq, hc]
      rfl
    refine ⟨hfails hdeleted, fun r => ?_⟩
    obtain ⟨e, he, haccepts⟩ := hupdated r
    refine ⟨e, hfails he, fun t' ht' => ?_⟩
    obtain rfl := Option.some.inj (ht.symm.trans ht')
    exact haccepts

/-- An update that fails at its second value, and a row that is deleted before another is
inserted. -/
theorem change_all_or_nothing_deleted :
    ∃ s s' : Storage, s.Built ∧ (s.perform (.update ⟨"t", 0, 0⟩ [.int 2, .int 2])).2 = s ∧
      s.perform (.delete ⟨"t", 0, 0⟩) = (.ok none, s') ∧
      ((s'.performAll [.insert "t" [.int 3, .null]]).perform (.delete ⟨"t", 0, 0⟩)).1 =
        .error (.invalidLocation ⟨"t", 0, 0⟩) := by
  let empty : Table := .create "t" [("a", .tinyInt), ("b", .boolean)] 1
  let s : Storage := ⟨1, [{ empty with pages := [[some [.int 1, .bool true]]] }]⟩
  let s' : Storage := ⟨1, [{ empty with pages := [[none]] }]⟩
  have hcreate : (create 1).createTable "t" [("a", .tinyInt), ("b", .boolean)] =
      .ok ⟨1, [empty]⟩ := rfl
  have hinsert : (⟨1, [empty]⟩ : Storage).insert "t" [.int 1, .bool true] =
      .ok (⟨"t", 0, 0⟩, s) := rfl
  have hbuilt : s.Built := ((Built.create 1).createTable hcreate).insert hinsert
  have hdelete : s.perform (.delete ⟨"t", 0, 0⟩) = (.ok none, s') := rfl
  obtain ⟨hfails, -, -, -, hgone⟩ := change_all_or_nothing hbuilt
  obtain ⟨hdeleted, -⟩ := hgone _ _ hdelete [.insert "t" [.int 3, .null]]
  exact ⟨s, s', hbuilt, hfails (.update ⟨"t", 0, 0⟩ [.int 2, .int 2]) _ _ rfl, hdelete,
    congrArg Prod.fst hdeleted⟩

end Storage

end RelQuery
