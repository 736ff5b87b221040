import Mathlib.Tactic
import RelQuery.Proofs.Computations
import RelQuery.Session
import RelQuery.Storage.Ledger

namespace RelQuery

section Named

variable {α : Type} {name : α → String} {as : List α} {a : α}

/-- An element that takes the place of all of its name is found where one of these was. -/
theorem find?_putNamed (n : String) :
    (as.map fun b => if name b == name a then a else b).find? (name · == n) =
      (as.find? (name · == n)).map fun b => if name b == name a then a else b := by
  have hsame : ((name · == n) ∘ fun b => if name b == name a then a else b) = (name · == n) := by
    funext b
    simp only [Function.comp_apply]
    split
    · next heq => rw [eq_of_beq heq]
    · rfl
  rw [List.find?_map, hsame]

theorem find?_putNamed_of_find? (ha : as.find? (name · == name a) ≠ none) (n : String) :
    (as.map fun b => if name b == name a then a else b).find? (name · == n) =
      if n = name a then some a else as.find? (name · == n) := by
  rw [find?_putNamed]
  cases hb : as.find? (name · == n) with
  | none =>
    rw [if_neg]
    · rfl
    · rintro rfl
      exact ha hb
  | some b =>
    have hname : name b = n := by simpa using List.find?_some hb
    rw [Option.map_some, hname]
    by_cases heq : n = name a
    · rw [if_pos (beq_iff_eq.2 heq), if_pos heq]
    · rw [if_neg (mt beq_iff_eq.1 heq), if_neg heq]

end Named

namespace Page

def Live (P : Row → Prop) (ps : List Page) : Prop := ∀ p ∈ ps, ∀ r, some r ∈ p → P r

variable {P : Row → Prop} {p : Page} {ps : List Page} {row r : Row} {n i j slot : Nat}

theorem first_mem (h : first i p = some (j, r)) : some r ∈ p := by
  induction p generalizing i with
  | nil => simp [first] at h
  | cons s p ih =>
    cases s with
    | none => exact List.mem_cons_of_mem _ (ih h)
    | some r' =>
      obtain ⟨-, rfl⟩ := Prod.mk.inj (Option.some.inj h)
      exact List.mem_cons_self

theorem Live.of_firstFrom (hps : Live P ps) (h : firstFrom n slot ps = some (i, j, r)) : P r := by
  induction ps generalizing n slot with
  | nil => simp [firstFrom] at h
  | cons p ps ih =>
    obtain ⟨hp, hps⟩ := List.forall_mem_cons.1 hps
    rw [firstFrom] at h
    split at h
    · next hfirst =>
      simp only [Option.some.injEq, Prod.mk.injEq] at h
      obtain ⟨-, -, rfl⟩ := h
      exact hp _ (List.mem_of_mem_drop (first_mem hfirst))
    · exact ih hps h

theorem Live.append (hps : Live P ps) (hrow : P row) (capacity : Nat) :
    Live P (append capacity row ps).1 := by
  have hnew : Live P [[some row]] := by
    rintro p hp r hr
    obtain rfl := List.mem_singleton.1 hp
    obtain rfl := Option.some.inj (List.mem_singleton.1 hr)
    exact hrow
  induction ps using Page.append.induct capacity row with
  | case1 => exact hnew
  | case2 p hlt =>
    rw [Page.append, if_pos hlt]
    refine List.forall_mem_singleton.2 fun r hr => ?_
    rcases List.mem_append.1 hr with hr | hr
    · exact hps p List.mem_cons_self r hr
    · obtain rfl := Option.some.inj (List.mem_singleton.1 hr)
      exact hrow
  | case3 p hlt =>
    rw [Page.append, if_neg hlt]
    exact List.forall_mem_cons.2 ⟨hps p List.mem_cons_self, hnew⟩
  | case4 p q ps _ _ _ _ ih =>
    obtain ⟨hp, hps⟩ := List.forall_mem_cons.1 hps
    exact List.forall_mem_cons.2 ⟨hp, ih hps⟩

theorem Live.modify (hps : Live P ps) {contents : Option Row}
    (hcontents : ∀ r, contents = some r → P r) (i j : Nat) :
    Live P (ps.modify i (·.set j contents)) := by
  intro p hp r hr
  obtain ⟨k, hk⟩ := List.mem_iff_getElem?.1 hp
  rw [List.getElem?_modify] at hk
  obtain ⟨q, hq, rfl⟩ := Option.map_eq_some_iff.1 hk
  have hq := List.mem_of_getElem? hq
  split at hr
  · -- The slot that was set holds the new contents, the others what they held.
    rcases List.mem_or_eq_of_mem_set hr with hr | rfl
    · exact hps q hq r hr
    · exact hcontents r rfl
  · exact hps q hq r hr

end Page

namespace Table

variable {P : Schema → Row → Prop} {t t' : Table} {cs : List Column} {r r' row : Row} {l : Location}

/-- The live rows of a table pass a test of rows over its columns. -/
def Live (P : Schema → Row → Prop) (t : Table) : Prop := Page.Live (P t.schema) t.pages

/-- The live rows of a table have one value for each of its columns. -/
def Sound (t : Table) : Prop := Page.Live (·.length = t.schema.width) t.pages

/-- Values that are coerced to the types of their columns, one by one. -/
def Coerced (cs : List Column) (r row : Row) : Prop :=
  List.Forall₂ (fun c w => c.1.type.coerce c.2 = .ok w) (cs.zip r) row

theorem coerceValues_eq_ok (hlength : r.length = cs.length) :
    coerceValues cs r = .ok row ↔ Coerced cs r row := by
  induction cs generalizing r row with
  | nil =>
    obtain rfl := List.length_eq_zero_iff.1 hlength
    simp [coerceValues, Coerced, eq_comm]
  | cons c cs ih =>
    obtain ⟨v, vs, rfl⟩ := List.exists_cons_of_length_eq_add_one hlength
    have hrest : vs.length = cs.length := Nat.succ.inj hlength
    rw [coerceValues, Coerced, List.zip_cons_cons, List.forall₂_cons_left_iff]
    cases hv : c.type.coerce v with
    | error e => simp
    | ok w =>
      simp only [Except.bind_eq_ok, ih hrest, Coerced, Except.ok.injEq]
      constructor
      · rintro ⟨ws, hws, rfl⟩
        exact ⟨w, ws, rfl, hws, rfl⟩
      · rintro ⟨_, ws, rfl, hws, rfl⟩
        exact ⟨ws, hws, rfl⟩

theorem coerceRow_eq_ok :
    t.coerceRow r = .ok row ↔ r.length = t.schema.width ∧ Coerced t.schema.columns r row := by
  unfold coerceRow
  split
  · next hlength =>
    rw [coerceValues_eq_ok hlength]
    exact (and_iff_right hlength).symm
  · next hlength => simp [hlength]

theorem length_coerceRow (h : t.coerceRow r = .ok r') : r'.length = t.schema.width := by
  obtain ⟨hlength, hrow⟩ := coerceRow_eq_ok.1 h
  rw [← hrow.length_eq, List.length_zip, Schema.width, hlength]
  exact Nat.min_self _

theorem insert_eq_ok : t.insert r = .ok (l, t') ↔ ∃ row, t.coerceRow r = .ok row ∧
    t.location (Page.append t.rowsPerPage row t.pages).2.1
        (Page.append t.rowsPerPage row t.pages).2.2 = l ∧
      { t with pages := (Page.append t.rowsPerPage row t.pages).1 } = t' := by
  simp [insert, Except.bind_eq_ok]

theorem replace_eq_ok {contents : Option Row} : t.replace l contents = .ok t' ↔
    (∃ old, t.row? l.page l.slot = some old) ∧
      { t with pages := t.pages.modify l.page (·.set l.slot contents) } = t' := by
  unfold replace
  cases t.row? l.page l.slot <;> simp

theorem Live.insert (hP : ∀ {r r'}, t.coerceRow r = .ok r' → P t.schema r') (ht : t.Live P)
    (h : t.insert r = .ok (l, t')) : t'.Live P := by
  obtain ⟨row, hrow, -, rfl⟩ := insert_eq_ok.1 h
  exact Page.Live.append ht (hP hrow) _

theorem Live.replace (ht : t.Live P) {contents : Option Row}
    (hcontents : ∀ r, contents = some r → P t.schema r)
    (h : t.replace l contents = .ok t') : t'.Live P := by
  obtain ⟨-, rfl⟩ := replace_eq_ok.1 h
  exact Page.Live.modify ht hcontents _ _

theorem Live.readFrom (ht : t.Live P) {page slot : Nat} {x : Tuple}
    (h : t.readFrom page slot = some x) : P t.schema x.values := by
  obtain ⟨⟨n, i, r⟩, hfirst, rfl⟩ := Option.map_eq_some_iff.1 h
  exact Page.Live.of_firstFrom (fun p hp => ht p (List.mem_of_mem_drop hp)) hfirst

end Table

namespace Storage

variable {s s' : Storage} {t : Table} {name : String} {r : Row} {l : Location}

def Sound (s : Storage) : Prop := ∀ t ∈ s.tables, t.Sound

theorem table_eq_ok : s.table name = .ok t ↔ s.find? name = some t := by
  unfold Storage.table
  cases s.find? name <;> simp

theorem openTable_eq_ok {info : TableInfo} : s.openTable name = .ok info ↔
    ∃ t, s.table name = .ok t ∧ ⟨t.name, t.schema, t.currentStats⟩ = info := by
  unfold openTable
  cases s.table name <;> simp

theorem name_of_table (ht : s.table name = .ok t) : t.name = name := by
  simpa using List.find?_some (table_eq_ok.1 ht)

theorem mem_of_table (ht : s.table name = .ok t) : t ∈ s.tables :=
  List.mem_of_find?_eq_some (table_eq_ok.1 ht)

/-- The rows that a storage reads from a table pass what its live rows pass. -/
theorem readFrom_of_live {P : Schema → Row → Prop} (h : ∀ t ∈ s.tables, t.Live P)
    (ht : s.table name = .ok t) {page slot : Nat} {x : Tuple}
    (hx : s.readFrom t.name page slot = some x) : P t.schema x.values := by
  rw [name_of_table ht, Storage.readFrom, table_eq_ok.1 ht] at hx
  exact (h t (mem_of_table ht)).readFrom hx

theorem Sound.readFrom (h : s.Sound) (ht : s.table name = .ok t) {page slot : Nat} {x : Tuple}
    (hx : s.readFrom t.name page slot = some x) : x.values.length = t.schema.width :=
  readFrom_of_live (P := fun columns r => r.length = columns.width) h ht hx

theorem forall_put {I : Table → Prop} (h : ∀ u ∈ s.tables, I u) (ht : I t) :
    ∀ u ∈ (s.put t).tables, I u := by
  intro u hu
  obtain ⟨v, hv, rfl⟩ := List.mem_map.1 hu
  split
  · exact ht
  · exact h v hv

section Operations

variable {columns : List (String × SqlType)} {stats : TableStats} {place : Option Location}

theorem createTable_eq_ok : s.createTable name columns = .ok s' ↔
    s.find? name = none ∧ { s with tables := s.tables ++ [.create name columns s.rowsPerPage] } =
      s' := by
  unfold createTable
  cases s.find? name <;> simp

theorem insert_eq_ok : s.insert name r = .ok (l, s') ↔
    ∃ t t', s.table name = .ok t ∧ t.insert r = .ok (l, t') ∧ s.put t' = s' := by
  simp [insert, Except.bind_eq_ok]

theorem update_eq_ok : s.update l r = .ok s' ↔ ∃ t row t', s.table l.table = .ok t ∧
    t.coerceRow r = .ok row ∧ t.replace l (some row) = .ok t' ∧ s.put t' = s' := by
  simp [update, Except.bind_eq_ok]

theorem delete_eq_ok : s.delete l = .ok s' ↔
    ∃ t t', s.table l.table = .ok t ∧ t.replace l none = .ok t' ∧ s.put t' = s' := by
  simp [delete, Except.bind_eq_ok]

theorem analyze_eq_ok : s.analyze name = .ok (stats, s') ↔ ∃ t, s.table name = .ok t ∧
    t.measure = stats ∧ s.put { t with stats := some t.measure } = s' := by
  simp [analyze, Except.bind_eq_ok]

theorem attempt_createTable : s.attempt (.createTable name columns) = .ok (place, s') ↔
    s.createTable name columns = .ok s' ∧ none = place := by
  simp [attempt, Except.map_eq_ok]

theorem attempt_insert : s.attempt (.insert name r) = .ok (place, s') ↔
    ∃ l, s.insert name r = .ok (l, s') ∧ some l = place := by
  simp [attempt, Except.map_eq_ok]

theorem attempt_update : s.attempt (.update l r) = .ok (place, s') ↔
    s.update l r = .ok s' ∧ none = place := by
  simp [attempt, Except.map_eq_ok]

theorem attempt_delete : s.attempt (.delete l) = .ok (place, s') ↔
    s.delete l = .ok s' ∧ none = place := by
  simp [attempt, Except.map_eq_ok]

theorem attempt_analyze : s.attempt (.analyze name) = .ok (place, s') ↔
    (∃ stats, s.analyze name = .ok (stats, s')) ∧ none = place := by
  simp [attempt, Except.map_eq_ok]

end Operations

/-- The storages that operations build from an empty one. -/
inductive Built : Storage → Prop
  | create (rowsPerPage : Nat) : Built (create rowsPerPage)
  | createTable {s s' : Storage} {name : String} {columns : List (String × SqlType)} :
      Built s → s.createTable name columns = .ok s' → Built s'
  | insert {s s' : Storage} {name : String} {r : Row} {l : Location} :
      Built s → s.insert name r = .ok (l, s') → Built s'
  | update {s s' : Storage} {l : Location} {r : Row} : Built s → s.update l r = .ok s' → Built s'
  | delete {s s' : Storage} {l : Location} : Built s → s.delete l = .ok s' → Built s'
  | analyze {s s' : Storage} {name : String} {stats : TableStats} :
      Built s → s.analyze name = .ok (stats, s') → Built s'

theorem Built.live {P : Schema → Row → Prop}
    (hP : ∀ {t : Table} {r r'}, t.coerceRow r = .ok r' → P t.schema r') (h : Built s) :
    ∀ t ∈ s.tables, t.Live P := by
  induction h with
  | create => exact fun _ ht => absurd ht List.not_mem_nil
  | createTable _ h ih =>
    obtain ⟨-, rfl⟩ := createTable_eq_ok.1 h
    exact List.forall_mem_append.2
      ⟨ih, List.forall_mem_singleton.2 fun _ hp => absurd hp List.not_mem_nil⟩
  | insert _ h ih =>
    obtain ⟨t, t', ht, ht', rfl⟩ := insert_eq_ok.1 h
    exact forall_put ih ((ih t (mem_of_table ht)).insert hP ht')
  | update _ h ih =>
    obtain ⟨t, row, t', ht, hrow, ht', rfl⟩ := update_eq_ok.1 h
    refine forall_put ih ((ih t (mem_of_table ht)).replace ?_ ht')
    rintro _ ⟨⟩
    exact hP hrow
  | delete _ h ih =>
    obtain ⟨t, t', ht, ht', rfl⟩ := delete_eq_ok.1 h
    exact forall_put ih ((ih t (mem_of_table ht)).replace (by simp) ht')
  | analyze _ h ih =>
    obtain ⟨t, ht, -, rfl⟩ := analyze_eq_ok.1 h
    have hlive : t.Live P := ih t (mem_of_table ht)
    exact forall_put ih hlive

theorem Built.sound (h : Built s) : s.Sound :=
  h.live (P := fun columns r => r.length = columns.width) Table.length_coerceRow

theorem Built.attempt {c : Change} {place : Option Location} (h : s.Built)
    (hc : s.attempt c = .ok (place, s')) : s'.Built := by
  cases c with
  | createTable name columns => exact h.createTable (attempt_createTable.1 hc).1
  | insert name r =>
    obtain ⟨l, hc, -⟩ := attempt_insert.1 hc
    exact h.insert hc
  | update l r => exact h.update (attempt_update.1 hc).1
  | delete l => exact h.delete (attempt_delete.1 hc).1
  | analyze name =>
    obtain ⟨⟨stats, hc⟩, -⟩ := attempt_analyze.1 hc
    exact h.analyze hc

/-- What holds of an empty storage and is kept by changes holds of all that operations build. -/
theorem Built.keeps {I : Storage → Prop} (hcreate : ∀ rowsPerPage, I (.create rowsPerPage))
    (hattempt : ∀ {s s' : Storage} {c : Change} {place : Option Location}, I s →
      s.attempt c = .ok (place, s') → I s') (h : s.Built) : I s := by
  induction h with
  | create rowsPerPage => exact hcreate rowsPerPage
  | createTable _ h ih => exact hattempt ih (attempt_createTable.2 ⟨h, rfl⟩)
  | insert _ h ih => exact hattempt ih (attempt_insert.2 ⟨_, h, rfl⟩)
  | update _ h ih => exact hattempt ih (attempt_update.2 ⟨h, rfl⟩)
  | delete _ h ih => exact hattempt ih (attempt_delete.2 ⟨h, rfl⟩)
  | analyze _ h ih => exact hattempt ih (attempt_analyze.2 ⟨⟨_, h⟩, rfl⟩)

end Storage

namespace Session

variable {s : Session} {I : Storage → Prop}

theorem keeps_stored (h : I s.storage) {r : Except StorageError Storage}
    (hr : ∀ {db}, r = .ok db → I db) : I (s.stored r).2.storage := by
  cases r with
  | ok db => exact hr rfl
  | error e => exact h

theorem keeps_withCursor (h : I s.storage) {name : String} {f : Cursor → Reply × Session}
    (hf : ∀ c, I (f c).2.storage) : I (s.withCursor name f).2.storage := by
  unfold withCursor
  split
  · exact hf _
  · exact h

theorem keeps_withTuple (h : I s.storage) {name : String} {f : Tuple → Reply × Session}
    (hf : ∀ t, I (f t).2.storage) : I (s.withTuple name f).2.storage := by
  unfold withTuple
  split
  · exact hf _
  · exact h

theorem keeps_planned (h : I s.storage) (name : String) (r : Except QueryError Cursor) :
    I (s.planned name r).2.storage := by
  cases r <;> exact h

theorem keeps_holding (h : I s.storage) (hold : Option String) (t : Tuple) :
    I (s.holding hold t).storage := by
  cases hold <;> exact h

theorem keeps_next (h : I s.storage) (name : String) (hold : Option String) (c : Cursor) :
    I (s.next name hold c).2.storage := by
  unfold next
  rcases c.next s.storage with ⟨e | _ | t, c'⟩
  · exact h
  · exact h
  · exact keeps_holding (s := s.putCursor name c') h hold t

/-- Only the actions on the storage change it: what holds of a storage and after every change of it
holds after an action. -/
theorem keeps_effect (h : I s.storage)
    (hchange : ∀ {c place db}, s.storage.attempt c = .ok (place, db) → I db) (a : Action) :
    I (s.effect a).2.storage := by
  cases a with
  | createTable t cs =>
    exact keeps_stored h fun hr => hchange (c := .createTable t cs)
      (by rw [Storage.attempt, hr]; rfl)
  | update l r =>
    exact keeps_stored h fun hr => hchange (c := .update l r) (by rw [Storage.attempt, hr]; rfl)
  | delete l =>
    exact keeps_stored h fun hr => hchange (c := .delete l) (by rw [Storage.attempt, hr]; rfl)
  | insert t r =>
    rw [effect]
    split
    · next hinsert => exact hchange (c := .insert t r) (by rw [Storage.attempt, hinsert]; rfl)
    · exact h
  | analyze t =>
    rw [effect]
    split
    · next hanalyze => exact hchange (c := .analyze t) (by rw [Storage.attempt, hanalyze]; rfl)
    · exact h
  | openTable t =>
    rw [effect]
    split <;> exact h
  | read t page slot hold =>
    rw [effect]
    split
    · exact h
    · split
      · exact h
      · next x _ => exact keeps_holding h hold x
  | pinned | rowsPerPage | setConfig | query => exact h
  | plan name | planScan name | build name => exact keeps_planned h name _
  | next => exact keeps_withCursor h fun c => keeps_next h _ _ c
  | control | drain | collect | duplicate | configure | inspect | discard =>
    exact keeps_withCursor h fun _ => h
  | look | unpin | drop | copy | detach => exact keeps_withTuple h fun _ => h
  | concat => exact keeps_withTuple h fun t => keeps_withTuple h fun _ => h

theorem built_effect (h : s.storage.Built) (a : Action) : (s.effect a).2.storage.Built :=
  keeps_effect h h.attempt a

/-- Whatever a session does, its storage is one that operations build from an empty one. -/
theorem built_run (rowsPerPage : Nat) (config : Config) (actions : List Action) :
    ((start rowsPerPage config).run actions).storage.Built := by
  have hrun : ∀ {s : Session}, s.storage.Built → (s.run actions).storage.Built := by
    induction actions with
    | nil => exact id
    | cons a as ih =>
      intro s h
      have hact : (s.act a).2.storage.Built := built_effect h a
      exact ih hact
  exact hrun (.create rowsPerPage)

end Session

end RelQuery
