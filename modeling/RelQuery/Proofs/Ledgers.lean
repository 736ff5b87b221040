import RelQuery.Proofs.Layers
import RelQuery.Proofs.LedgerChanges

namespace RelQuery

namespace Location

variable {size j k : Nat} {table : String} {l m : Location}

/-- In the order of pages and slots, a place comes before another. -/
def Before (l m : Location) : Prop := l.page < m.page ∨ l.page = m.page ∧ l.slot < m.slot

theorem isFrom_eq_true {page slot : Nat} :
    l.isFrom page slot = true ↔ page < l.page ∨ page = l.page ∧ slot ≤ l.slot := by
  simp [isFrom]

theorem Before.isFrom (h : l.Before m) : m.isFrom l.page (l.slot + 1) = true :=
  isFrom_eq_true.2 h

theorem not_isFrom_behind (h : l.Before m ∨ l = m) : l.isFrom m.page (m.slot + 1) = false := by
  apply Bool.eq_false_iff.2
  intro hfrom
  rcases isFrom_eq_true.1 hfrom with hlt | ⟨heq, hle⟩
  · rcases h with (hpage | ⟨hpage, -⟩) | rfl <;> omega
  · rcases h with (hpage | ⟨-, hslot⟩) | rfl <;> omega

/-- Whatever is behind a place that is not before a position is not before it either. -/
theorem Before.isFrom_trans {page slot : Nat} (h : l.Before m) (hl : l.isFrom page slot = true) :
    m.isFrom page slot = true := by
  rw [isFrom_eq_true] at hl ⊢
  rcases h with h | h <;> omega

theorem numbered_before (h : j < k) : (numbered size table j).Before (numbered size table k) := by
  have hdiv : j / size ≤ k / size := Nat.div_le_div_right (Nat.le_of_lt h)
  by_cases heq : j / size = k / size
  · have hj := Nat.div_add_mod j size
    have hk := Nat.div_add_mod k size
    rw [heq] at hj
    exact .inr ⟨heq, by change j % size < k % size; omega⟩
  · exact .inl (Nat.lt_of_le_of_ne hdiv heq)

theorem numbered_injective : Function.Injective (numbered size table) := by
  intro j k h
  have hj := Nat.div_add_mod j size
  have hk := Nat.div_add_mod k size
  obtain ⟨-, hdiv, hmod⟩ := Location.mk.inj h
  rw [hdiv, hmod] at hj
  exact hj.symm.trans hk

end Location

section Entries

variable {size page slot : Nat} {es : List (Location × Row)} {e : Location × Row}

theorem Ledger.entries_sorted (size : Nat) (l : Ledger) :
    (l.entries size).Pairwise fun a b => a.1.Before b.1 := by
  have hnumbers : l.slots.zipIdx.Pairwise fun a b => a.2 < b.2 := by
    rw [← List.pairwise_map (f := Prod.snd), List.zipIdx_map_snd]
    exact List.pairwise_lt_range'
  apply hnumbers.filterMap
  intro a b hlt x hx y hy
  obtain ⟨r, -, rfl⟩ := Option.map_eq_some_iff.1 hx
  obtain ⟨r', -, rfl⟩ := Option.map_eq_some_iff.1 hy
  exact Location.numbered_before hlt

/-- The entries from a position on are the first of them and the entries behind it. -/
theorem filter_isFrom_eq_cons (hsorted : es.Pairwise fun a b => a.1.Before b.1)
    (hfind : es.find? (·.1.isFrom page slot) = some e) :
    es.filter (·.1.isFrom page slot) = e :: es.filter (·.1.isFrom e.1.page (e.1.slot + 1)) := by
  obtain ⟨he, before, behind, rfl, hbefore⟩ := List.find?_eq_some_iff_append.1 hfind
  obtain ⟨-, hcons, hacross⟩ := List.pairwise_append.1 hsorted
  obtain ⟨hbehind, -⟩ := List.pairwise_cons.1 hcons
  -- What comes before `e` is passed over by both filters, what comes behind it by neither.
  have hbefore_from : before.filter (·.1.isFrom page slot) = [] := by
    apply List.filter_eq_nil_iff.2
    intro a ha
    simpa using hbefore a ha
  have hbefore_behind : before.filter (·.1.isFrom e.1.page (e.1.slot + 1)) = [] := by
    apply List.filter_eq_nil_iff.2
    intro a ha
    have hlt := hacross a ha e List.mem_cons_self
    simp [Location.not_isFrom_behind (.inl hlt)]
  have hcons_from : (e :: behind).filter (·.1.isFrom page slot) = e :: behind := by
    apply List.filter_eq_self.2
    intro a ha
    rcases List.mem_cons.1 ha with rfl | ha
    · exact he
    · exact (hbehind a ha).isFrom_trans he
  have hcons_behind : (e :: behind).filter (·.1.isFrom e.1.page (e.1.slot + 1)) = behind := by
    have hself : e.1.isFrom e.1.page (e.1.slot + 1) = false := Location.not_isFrom_behind (.inr rfl)
    rw [List.filter_cons, hself, if_neg Bool.false_ne_true]
    apply List.filter_eq_self.2
    intro a ha
    exact (hbehind a ha).isFrom
  rw [List.filter_append, List.filter_append, hbefore_from, hcons_from, hbefore_behind,
    hcons_behind, List.nil_append, List.nil_append]

end Entries

namespace Table

variable {size : Nat} {t : Table}

theorem entries_ledger (hsize : 0 < size) (ht : t.Paged size) : t.ledger.entries size =
    (Page.places 0 t.pages).map fun x => (t.location x.1 x.2.1, x.2.2) := by
  rw [ht.filled.places_eq hsize, Nat.zero_mul, List.map_filterMap]
  apply List.filterMap_congr
  intro s _
  rw [Option.map_map]
  rfl

/-- To read from a position on is to look for the first entry that does not come before it. -/
theorem readFrom_eq (hsize : 0 < size) (ht : t.Paged size) (page slot : Nat) :
    t.readFrom page slot = ((t.ledger.entries size).find? (·.1.isFrom page slot)).map fun e =>
      .stored e.2 e.1 := by
  rw [Table.readFrom, Page.firstFrom_drop, entries_ledger hsize ht, List.find?_map, Option.map_map]
  rfl

end Table

namespace Scan

variable {db : Storage} {table : TableInfo} {es : List (Location × Row)}

theorem trace_eq (hsorted : es.Pairwise fun a b => a.1.Before b.1)
    (hread : ∀ page slot, db.readFrom table.name page slot =
      (es.find? (·.1.isFrom page slot)).map fun e => .stored e.2 e.1)
    (s : Leaf Position) (hopen : s.position.done = false) :
    (Operator.scan table none).trace db s =
      ⟨(es.filter (·.1.isFrom s.position.page s.position.slot)).map fun e => .stored e.2 e.1,
        .ok ()⟩ := by
  revert hopen
  refine Operator.next_induction (o := .scan table none) db
    (motive := fun s : Leaf Position => s.position.done = false →
      (Operator.scan table none).trace db s =
        ⟨(es.filter (·.1.isFrom s.position.page s.position.slot)).map fun e => .stored e.2 e.1,
          .ok ()⟩) (fun (s : Leaf Position) ih hopen => ?_) s
  have hnext : (Operator.scan table none).next db s = Leaf.next (next table none db) s := rfl
  rw [Leaf.next, next, pull, hopen, if_neg Bool.false_ne_true, hread] at hnext
  cases hfind : es.find? (·.1.isFrom s.position.page s.position.slot) with
  | none =>
    rw [hfind] at hnext
    have hnil : es.filter (·.1.isFrom s.position.page s.position.slot) = [] :=
      List.filter_eq_nil_iff.2 (List.find?_eq_none.1 hfind)
    rw [hnil]
    exact Operator.trace_of_none hnext
  | some e =>
    rw [hfind] at hnext
    have hrest := ih _ _ hnext rfl
    rw [filter_isFrom_eq_cons hsorted hfind]
    exact (Operator.trace_of_some hnext).trans (congrArg (Trace.cons (.stored e.2 e.1)) hrest)

end Scan

namespace Cursor

variable {c c' : Cursor} {db : Storage} {ts : List Tuple}

theorem collect_of_trace (hrewind : c.rewind = (.ok (), c')) (htrace : c'.trace db = ⟨ts, .ok ()⟩) :
    (c.collect db).1 = .ok (ts.map Tuple.unpin) := by
  obtain ⟨hdrain, hend⟩ := drain_eq c' db
  rcases hd : c'.drain db with ⟨ts', e, c''⟩
  rw [hd, htrace] at hdrain hend
  obtain rfl : ts' = ts := hdrain
  obtain rfl : e = .ok () := hend
  simp only [collect, hrewind, hd]

theorem collect_scan {table : TableInfo} {es : List (Location × Row)}
    (hsorted : es.Pairwise fun a b => a.1.Before b.1)
    (hread : ∀ page slot, db.readFrom table.name page slot =
      (es.find? (·.1.isFrom page slot)).map fun e => .stored e.2 e.1) (config : Config) :
    ∃ c, Cursor.prepared (.scan table none) config = .ok c ∧
      (c.collect db).1 = .ok (es.map fun e => (Tuple.stored e.2 e.1).unpin) := by
  let ready : Leaf Scan.Position := ⟨⟨some (Scan.profile config table none), 0⟩, .first, none⟩
  have hprepare : (Plan.scan table none).operator.prepare config
      (Plan.scan table none).operator.start = (.ok (), ready) :=
    Leaf.prepare_eq_ok.2 ⟨_, rfl, rfl⟩
  have hall : es.filter (·.1.isFrom 0 0) = es := by
    apply List.filter_eq_self.2
    intro e _
    rw [Location.isFrom_eq_true]
    omega
  have htrace : (Operator.scan table none).trace db ready = _ :=
    Scan.trace_eq hsorted hread ready rfl
  rw [show ready.position = .first from rfl, Scan.Position.first, hall] at htrace
  let cursor : Cursor := ⟨.scan table none, config, ready⟩
  have hrewind : cursor.rewind = (.ok (), cursor) := rfl
  have hcollect := collect_of_trace hrewind htrace
  rw [List.map_map] at hcollect
  exact ⟨_, prepared_of_ok hprepare, hcollect⟩

end Cursor

namespace Catalog

variable {c c' : Catalog} {ch : Change} {place : Option Location} {name : String} {l : Ledger}

def count (c : Catalog) (name : String) : Nat := ((c.find? name).map (·.slots.length)).getD 0

def places (c : Catalog) (name : String) : List Location :=
  (List.range (c.count name)).map (.numbered c.pageSize name)

theorem ledger_eq_ok : c.ledger name = .ok l ↔ c.find? name = some l := by
  unfold Catalog.ledger
  cases c.find? name <;> simp

theorem name_of_find? (h : c.find? name = some l) : l.name = name := by
  simpa using List.find?_some h

theorem find?_put (hl : c.find? l.name ≠ none) (name : String) :
    (c.put l).find? name = if name = l.name then some l else c.find? name :=
  find?_putNamed_of_find? hl name

theorem count_put (hl : c.find? l.name ≠ none) (name : String) :
    (c.put l).count name = if name = l.name then l.slots.length else c.count name := by
  unfold count
  rw [find?_put hl]
  split <;> rfl

theorem count_of_find? (h : c.find? name = some l) : c.count name = l.slots.length := by
  rw [count, h, Option.map_some, Option.getD_some]

/-- Where a ledger takes the place of one with as many slots, no table changes its number of
rows. -/
theorem count_put_same {slots : List (Option Row)} (h : c.find? name = some l)
    (hslots : slots.length = l.slots.length) :
    (c.put { l with slots := slots }).count = c.count := by
  funext other
  have hname := name_of_find? h
  rw [count_put (by rw [hname, h]; exact Option.some_ne_none l)]
  split
  · next heq => rw [heq, hname, count_of_find? h, hslots]
  · rfl

theorem count_replace {size : Nat} {l' : Ledger} {loc : Location} {contents : Option Row}
    (h : c.find? name = some l) (hl' : l.replace size loc contents = .ok l') :
    (c.put l').count = c.count := by
  unfold Ledger.replace at hl'
  split at hl'
  · simp at hl'
  · split at hl'
    · obtain rfl := Except.ok.inj hl'
      exact count_put_same h (List.length_set ..)
    · simp at hl'

/-- A change that succeeds gives out no place and keeps the numbers of rows, or it inserts a row
into one table and gives out its place, which has the next number. -/
theorem attempt_cases (h : c.attempt ch = .ok (place, c')) : c'.pageSize = c.pageSize ∧
    (place = none ∧ c'.count = c.count ∨
      ∃ name r, ch = .insert name r ∧ place = some (.numbered c.pageSize name (c.count name)) ∧
        ∀ other, c'.count other = if other = name then c.count name + 1 else c.count other) := by
  cases ch with
  | createTable name columns =>
    simp only [Catalog.attempt] at h
    split at h
    · simp at h
    next hfind =>
    obtain ⟨rfl, rfl⟩ := Prod.mk.inj (Except.ok.inj h)
    refine ⟨rfl, .inl ⟨rfl, ?_⟩⟩
    funext other
    unfold count Catalog.find?
    rw [List.find?_append, List.find?_singleton]
    -- A new ledger is empty, as is the count of a table that is not there.
    cases c.ledgers.find? (·.name == other) with
    | some l => rfl
    | none =>
      rw [Option.none_or]
      split <;> rfl
  | insert name r =>
    obtain ⟨l, hl, h⟩ := Except.bind_eq_ok.1 h
    obtain ⟨⟨place', l'⟩, hinsert, h⟩ := Except.bind_eq_ok.1 h
    obtain ⟨r', -, hinsert⟩ := Except.bind_eq_ok.1 hinsert
    obtain ⟨rfl, rfl⟩ := Prod.mk.inj (Except.ok.inj hinsert)
    obtain ⟨rfl, rfl⟩ := Prod.mk.inj (Except.ok.inj h)
    have hfind := ledger_eq_ok.1 hl
    have hname := name_of_find? hfind
    refine ⟨rfl, .inr ⟨name, r, rfl, ?_, fun other => ?_⟩⟩
    · rw [hname, count_of_find? hfind]
    · rw [count_put (by rw [hname, hfind]; exact Option.some_ne_none l), hname,
        count_of_find? hfind, List.length_append, List.length_singleton]
  | update l r =>
    obtain ⟨m, hm, h⟩ := Except.bind_eq_ok.1 h
    obtain ⟨r', -, h⟩ := Except.bind_eq_ok.1 h
    obtain ⟨m', hm', h⟩ := Except.bind_eq_ok.1 h
    obtain ⟨rfl, rfl⟩ := Prod.mk.inj (Except.ok.inj h)
    exact ⟨rfl, .inl ⟨rfl, count_replace (ledger_eq_ok.1 hm) hm'⟩⟩
  | delete l =>
    obtain ⟨m, hm, h⟩ := Except.bind_eq_ok.1 h
    obtain ⟨m', hm', h⟩ := Except.bind_eq_ok.1 h
    obtain ⟨rfl, rfl⟩ := Prod.mk.inj (Except.ok.inj h)
    exact ⟨rfl, .inl ⟨rfl, count_replace (ledger_eq_ok.1 hm) hm'⟩⟩
  | analyze name =>
    obtain ⟨m, -, heq⟩ := Except.map_eq_ok.1 h
    obtain ⟨rfl, rfl⟩ := Prod.mk.inj heq
    exact ⟨rfl, .inl ⟨rfl, rfl⟩⟩

/-- A change gives out the places of the slots that it makes, and they are those of inserts. -/
theorem places_settle (c : Catalog) (ch : Change) :
    (Change.settle Catalog.attempt c ch).2.pageSize = c.pageSize ∧
      (∀ name, (Change.settle Catalog.attempt c ch).2.places name =
        c.places name ++ History.placed name [(ch, (Change.settle Catalog.attempt c ch).1)]) ∧
      ∀ l, (Change.settle Catalog.attempt c ch).1 = .ok (some l) → ∃ r, ch = .insert l.table r := by
  unfold Change.settle
  cases hattempt : c.attempt ch with
  | error e =>
    refine ⟨rfl, fun name => ?_, fun l h => by simp at h⟩
    cases ch <;> exact (List.append_nil _).symm
  | ok x =>
    obtain ⟨hsize, ⟨hplace, hcount⟩ | ⟨name, r, rfl, hplace, hcount⟩⟩ := attempt_cases hattempt
    · refine ⟨hsize, fun name => ?_, fun l h => by simp [hplace] at h⟩
      have hnone : History.placed name [(ch, .ok x.1)] = [] := by
        rw [hplace]
        cases ch <;> rfl
      rw [hnone, List.append_nil, places, places, hsize, hcount]
    · refine ⟨hsize, fun other => ?_, fun l h => ⟨r, ?_⟩⟩
      · rw [places, places, hsize, hcount]
        by_cases heq : other = name
        · have hone : History.placed other [(.insert name r, .ok x.1)] =
              [.numbered c.pageSize name (c.count name)] := by
            rw [hplace, heq]
            simp [History.placed]
          rw [if_pos heq, hone, heq, List.range_succ, List.map_append]
          rfl
        · have hnone : History.placed other [(.insert name r, .ok x.1)] = [] := by
            rw [hplace]
            simp [History.placed, Ne.symm heq]
          rw [if_neg heq, hnone, List.append_nil]
      · have hl : some (Location.numbered c.pageSize name (c.count name)) = some l :=
          hplace.symm.trans (Except.ok.inj h)
        rw [← Option.some.inj hl]
        rfl

/-- The places that a run gives out are those of the slots that come to be in it. -/
theorem places_changes (c : Catalog) (cs : List Change) :
    (c.changes cs).2.pageSize = c.pageSize ∧
      (∀ name, (c.changes cs).2.places name = c.places name ++ (c.changes cs).1.placed name) ∧
      ∀ x ∈ (c.changes cs).1, ∀ l, x.2 = .ok (some l) → ∃ r, x.1 = .insert l.table r := by
  induction cs generalizing c with
  | nil => exact ⟨rfl, fun _ => (List.append_nil _).symm, fun x hx => absurd hx List.not_mem_nil⟩
  | cons ch cs ih =>
    obtain ⟨hsize, hplaces, hinsert⟩ := places_settle c ch
    obtain ⟨hsize', hplaces', hinsert'⟩ := ih (Change.settle Catalog.attempt c ch).2
    refine ⟨hsize'.trans hsize, fun name => ?_, List.forall_mem_cons.2 ⟨hinsert, hinsert'⟩⟩
    have hcons : (c.changes (ch :: cs)).1.placed name =
        History.placed name [(ch, (Change.settle Catalog.attempt c ch).1)] ++
          ((Change.settle Catalog.attempt c ch).2.changes cs).1.placed name :=
      List.filterMap_append (l := [(ch, (Change.settle Catalog.attempt c ch).1)])
    rw [hcons, ← List.append_assoc, ← hplaces name]
    exact hplaces' name

end Catalog

namespace History

variable {h : History}

theorem filter_places (hinsert : ∀ x ∈ h, ∀ l, x.2 = .ok (some l) → ∃ r, x.1 = .insert l.table r)
    (name : String) : h.places.filter (·.table = name) = h.placed name := by
  rw [places, List.filter_filterMap, placed]
  apply List.filterMap_congr
  rintro ⟨ch, e | _ | l⟩ hx
  · cases ch <;> rfl
  · cases ch <;> rfl
  · obtain ⟨r, rfl⟩ := hinsert _ hx l rfl
    by_cases heq : l.table = name <;> simp [Except.toOption, heq]

/-- No place is given out twice if none is given out twice in its table. -/
theorem places_nodup (hinsert : ∀ x ∈ h, ∀ l, x.2 = .ok (some l) → ∃ r, x.1 = .insert l.table r)
    (hplaced : ∀ name, (h.placed name).Nodup) : h.places.Nodup := by
  rw [List.nodup_iff_count_le_one]
  intro l
  have hcount : (h.places.filter (·.table = l.table)).count l = h.places.count l :=
    List.count_filter (by simp)
  rw [← hcount, filter_places hinsert]
  exact List.nodup_iff_count_le_one.1 (hplaced l.table) l

end History

namespace Storage

variable {size : Nat} {db : Storage} {t : Table}

/-- A storage keeps a table on pages of a size and reads it as its ledger. -/
structure Keeps (db : Storage) (size : Nat) (t : Table) : Prop where
  full : ∀ p ∈ t.pages.dropLast, p.length = size
  nonempty : ∀ p ∈ t.pages, p ≠ []
  sorted : (t.ledger.entries size).Pairwise fun a b => a.1.Before b.1
  /-- A position is read on from by the first entry that does not come before it. -/
  readFrom_eq : ∀ page slot, db.readFrom t.name page slot =
    ((t.ledger.entries size).find? (·.1.isFrom page slot)).map fun e => .stored e.2 e.1
  /-- A scan gives all entries. -/
  collect_eq : ∀ (info : TableInfo) (config : Config), info.name = t.name →
    ∃ c, Cursor.prepared (.scan info none) config = .ok c ∧
      (c.collect db).1 = .ok ((t.ledger.entries size).map fun e => (Tuple.stored e.2 e.1).unpin)

theorem Paged.find?_eq (h : db.Paged) (ht : t ∈ db.tables) : db.find? t.name = some t := by
  cases hfind : db.find? t.name with
  | none => exact absurd (List.find?_eq_none.1 hfind t ht) (by simp)
  | some u =>
    have hname : u.name = t.name := by simpa using List.find?_some hfind
    rw [List.inj_on_of_nodup_map h.names (List.mem_of_find?_eq_some hfind) ht hname]

theorem Paged.keeps (h : db.Paged) (ht : t ∈ db.tables) : db.Keeps db.rowsPerPage t := by
  have hpaged := h.tables t ht
  have hread : ∀ page slot, db.readFrom t.name page slot =
      ((t.ledger.entries db.rowsPerPage).find? (·.1.isFrom page slot)).map fun e =>
        .stored e.2 e.1 := by
    intro page slot
    rw [Storage.readFrom, h.find?_eq ht]
    exact Table.readFrom_eq h.positive hpaged page slot
  have hsorted := t.ledger.entries_sorted db.rowsPerPage
  refine ⟨hpaged.filled.full, hpaged.filled.nonempty h.positive, hsorted, hread,
    fun info config hname => ?_⟩
  exact Cursor.collect_scan hsorted (hname ▸ hread) config

/-- Whatever changes are made of a storage, it answers to them as ledgers would, each of which only
grows: the inserts into a table are given the places with the numbers 0, 1, 2 and so on, none of
them twice, and the tables are kept on full pages and read as their ledgers. -/
theorem changes_refine_ledgers (hsize : 0 < size) (cs : List Change) {h : History}
    (hrun : (create size).changes cs = (h, db)) :
    (Catalog.create size).changes cs = (h, db.catalog) ∧
      (∀ name, h.placed name = (List.range (db.catalog.count name)).map (.numbered size name)) ∧
      h.places.Nodup ∧ ∀ t ∈ db.tables, db.Keeps size t := by
  have hmax : max 1 size = size := by omega
  have hempty : (create size).catalog = Catalog.create size := by
    simp only [create, catalog, Catalog.create, hmax, List.map_nil]
  have hpaged : (create size).Paged := by
    refine ⟨?_, List.nodup_nil, fun t ht => absurd ht List.not_mem_nil⟩
    change 0 < max 1 size
    omega
  obtain ⟨hchanges, hfinal⟩ := changes_catalog hpaged cs
  rw [hempty, hrun] at hchanges
  rw [hrun] at hfinal
  obtain ⟨hsame, hplaces, hinsert⟩ := Catalog.places_changes (Catalog.create size) cs
  rw [hchanges] at hsame hplaces hinsert
  have hplaced : ∀ name, h.placed name =
      (List.range (db.catalog.count name)).map (.numbered size name) := by
    intro name
    have hname := hplaces name
    rw [Catalog.places, hsame] at hname
    exact hname.symm
  have hnodup : ∀ name, (h.placed name).Nodup := by
    intro name
    rw [hplaced name]
    exact List.nodup_range.map Location.numbered_injective
  refine ⟨hchanges, hplaced, History.places_nodup hinsert hnodup, fun t ht => ?_⟩
  have hkeeps := hfinal.keeps ht
  rwa [show db.rowsPerPage = size from hsame] at hkeeps

/-- Four inserts and a delete, on pages of two slots. -/
theorem changes_refine_ledgers_deleted :
    let cs : List Change := [.createTable "t" [("a", .integer)], .insert "t" [.int 1],
      .insert "t" [.int 2], .insert "t" [.int 3], .delete ⟨"t", 0, 1⟩, .insert "t" [.int 4]]
    ((create 2).changes cs).1.placed "t" = [⟨"t", 0, 0⟩, ⟨"t", 0, 1⟩, ⟨"t", 1, 0⟩, ⟨"t", 1, 1⟩] ∧
      ∀ t ∈ ((create 2).changes cs).2.tables, ((create 2).changes cs).2.Keeps 2 t := by
  intro cs
  have hrun : (create 2).changes cs = (((create 2).changes cs).1, ((create 2).changes cs).2) := rfl
  obtain ⟨-, hplaced, -, hkeeps⟩ := changes_refine_ledgers Nat.two_pos cs hrun
  exact ⟨(hplaced "t").trans (by decide), hkeeps⟩

end Storage

end RelQuery
