import RelQuery.Proofs.Ledgers

namespace RelQuery

theorem Location.Before.ne {l m : Location} (h : l.Before m) : l ≠ m := by
  rintro rfl
  rcases h with h | ⟨-, h⟩ <;> omega

namespace Ledger

variable {size : Nat} {g : Ledger} {l : Location} {r : Row}

theorem mem_entries (hsize : 0 < size) : (l, r) ∈ g.entries size ↔
    l.table = g.name ∧ ∃ k, l.number? size = some k ∧ g.slots[k]? = some (some r) := by
  constructor
  · intro h
    obtain ⟨⟨slot, k⟩, hk, heq⟩ := List.mem_filterMap.1 h
    obtain ⟨r', rfl, heq⟩ := Option.map_eq_some_iff.1 heq
    obtain ⟨rfl, rfl⟩ := Prod.mk.inj heq
    have hnumber : (Location.numbered size g.name k).number? size = some k := by
      have hdiv := Nat.div_add_mod' k size
      simp only [Location.number?, Location.numbered, if_pos (Nat.mod_lt k hsize), hdiv]
    exact ⟨rfl, k, hnumber, List.mem_zipIdx_iff_getElem?.1 hk⟩
  · rintro ⟨htable, k, hk, hslot⟩
    have hplace : Location.numbered size g.name k = l := by
      unfold Location.number? at hk
      split at hk
      · next hlt =>
        obtain rfl := Option.some.inj hk
        have hdiv : (l.page * size + l.slot) / size = l.page := by
          rw [Nat.mul_comm, Nat.mul_add_div hsize, Nat.div_eq_of_lt hlt, Nat.add_zero]
        have hmod : (l.page * size + l.slot) % size = l.slot := by
          rw [Nat.mul_comm, Nat.mul_add_mod, Nat.mod_eq_of_lt hlt]
        rw [Location.numbered, hdiv, hmod, ← htable]
      · simp at hk
    refine List.mem_filterMap.2 ⟨(some r, k), List.mem_zipIdx_iff_getElem?.2 hslot, ?_⟩
    rw [Option.map_some, hplace]

end Ledger

namespace Catalog

variable {c c' : Catalog} {ch : Change} {place : Option Location} {l : Location}

/-- The row at a place was deleted. -/
def Emptied (c : Catalog) (l : Location) : Prop :=
  ∃ g, c.find? l.table = some g ∧
    ∃ k, l.number? c.pageSize = some k ∧ g.slots[k]? = some none

theorem Emptied.put (h : c.Emptied l) {g g' : Ledger} (hg : c.find? g.name = some g)
    (hname : g'.name = g.name)
    (hslots : ∀ k : Nat, g.slots[k]? = some none → g'.slots[k]? = some none) :
    (c.put g').Emptied l := by
  obtain ⟨m, hm, k, hk, hslot⟩ := h
  have hfind : (c.put g').find? l.table = if l.table = g'.name then some g' else c.find? l.table :=
    find?_put (by rw [hname, hg]; exact Option.some_ne_none g) l.table
  by_cases heq : l.table = g'.name
  · rw [if_pos heq] at hfind
    have hsame : m = g := by
      rw [heq, hname, hg] at hm
      exact (Option.some.inj hm).symm
    exact ⟨g', hfind, k, hk, hslots k (hsame ▸ hslot)⟩
  · rw [if_neg heq] at hfind
    exact ⟨m, hfind.trans hm, k, hk, hslot⟩

theorem find?_of_ledger {name : String} {g : Ledger} (h : c.ledger name = .ok g) :
    c.find? g.name = some g := by
  have hfind := ledger_eq_ok.1 h
  rwa [name_of_find? hfind]

/-- Only a live row is replaced, so that a deleted one does not come back. -/
theorem Emptied.replace (h : c.Emptied l) {g g' : Ledger} (hg : c.find? g.name = some g)
    {size : Nat} {p : Location} {contents : Option Row}
    (hreplace : g.replace size p contents = .ok g') : (c.put g').Emptied l := by
  unfold Ledger.replace at hreplace
  split at hreplace
  · simp at hreplace
  · next k hk =>
    split at hreplace
    · next r hlive =>
      obtain rfl := Except.ok.inj hreplace
      refine h.put hg rfl fun j hj => ?_
      have hne : k ≠ j := by
        rintro rfl
        simp [hlive] at hj
      rw [List.getElem?_set_ne hne, hj]
    · simp at hreplace

theorem Emptied.attempt (h : c.Emptied l) (hc : c.attempt ch = .ok (place, c')) : c'.Emptied l := by
  cases ch with
  | createTable name columns =>
    simp only [Catalog.attempt] at hc
    split at hc
    · simp at hc
    · obtain ⟨-, rfl⟩ := Prod.mk.inj (Except.ok.inj hc)
      obtain ⟨g, hg, k, hk, hslot⟩ := h
      refine ⟨g, ?_, k, hk, hslot⟩
      unfold Catalog.find? at hg ⊢
      rw [List.find?_append, hg, Option.some_or]
  | insert name r =>
    obtain ⟨g, hg, hc⟩ := Except.bind_eq_ok.1 hc
    obtain ⟨⟨place', g'⟩, hinsert, hc⟩ := Except.bind_eq_ok.1 hc
    obtain ⟨r', -, hinsert⟩ := Except.bind_eq_ok.1 hinsert
    obtain ⟨-, rfl⟩ := Prod.mk.inj (Except.ok.inj hinsert)
    obtain ⟨-, rfl⟩ := Prod.mk.inj (Except.ok.inj hc)
    refine h.put (find?_of_ledger hg) rfl fun k hk => ?_
    obtain ⟨hlt, -⟩ := List.getElem?_eq_some_iff.1 hk
    rw [List.getElem?_append_left hlt, hk]
  | update p r =>
    obtain ⟨g, hg, hc⟩ := Except.bind_eq_ok.1 hc
    obtain ⟨r', -, hc⟩ := Except.bind_eq_ok.1 hc
    obtain ⟨g', hg', hc⟩ := Except.bind_eq_ok.1 hc
    obtain ⟨-, rfl⟩ := Prod.mk.inj (Except.ok.inj hc)
    exact h.replace (find?_of_ledger hg) hg'
  | delete p =>
    obtain ⟨g, hg, hc⟩ := Except.bind_eq_ok.1 hc
    obtain ⟨g', hg', hc⟩ := Except.bind_eq_ok.1 hc
    obtain ⟨-, rfl⟩ := Prod.mk.inj (Except.ok.inj hc)
    exact h.replace (find?_of_ledger hg) hg'
  | analyze name =>
    obtain ⟨g, -, heq⟩ := Except.map_eq_ok.1 hc
    obtain ⟨-, rfl⟩ := Prod.mk.inj heq
    exact h

theorem emptied_of_delete (hc : c.attempt (.delete l) = .ok (place, c')) : c'.Emptied l := by
  obtain ⟨g, hg, hc⟩ := Except.bind_eq_ok.1 hc
  obtain ⟨g', hg', hc⟩ := Except.bind_eq_ok.1 hc
  obtain ⟨-, rfl⟩ := Prod.mk.inj (Except.ok.inj hc)
  unfold Ledger.replace at hg'
  split at hg'
  · simp at hg'
  · next k hk =>
    split at hg'
    · next r hlive =>
      obtain rfl := Except.ok.inj hg'
      have hname : g.name = l.table := name_of_find? (ledger_eq_ok.1 hg)
      obtain ⟨hlt, -⟩ := List.getElem?_eq_some_iff.1 hlive
      refine ⟨{ g with slots := g.slots.set k none }, ?_, k, hk, List.getElem?_set_self hlt⟩
      rw [find?_put (by simp [find?_of_ledger hg]), if_pos hname.symm]
    · simp at hg'

end Catalog

namespace Storage

variable {db db' : Storage} {name : String} {l : Location} {r : Row} {c : Change}

def row? (s : Storage) (l : Location) : Option Row :=
  (s.find? l.table).bind (·.row? l.page l.slot)

/-- The live rows of a table with their places, none where there is no such table. -/
def entries (s : Storage) (name : String) : List (Location × Row) :=
  ((s.find? name).map fun t => t.ledger.entries s.rowsPerPage).getD []

theorem entries_sorted (db : Storage) (name : String) :
    (db.entries name).Pairwise fun a b => a.1.Before b.1 := by
  unfold entries
  cases db.find? name with
  | none => exact List.Pairwise.nil
  | some t => exact t.ledger.entries_sorted db.rowsPerPage

theorem Paged.readFrom_eq (h : db.Paged) (name : String) (page slot : Nat) :
    db.readFrom name page slot =
      ((db.entries name).find? (·.1.isFrom page slot)).map fun e => .stored e.2 e.1 := by
  unfold Storage.readFrom entries
  cases hfind : db.find? name with
  | none => rfl
  | some t => exact Table.readFrom_eq h.positive (h.table (table_eq_ok.2 hfind)) page slot

theorem Paged.row?_eq (h : db.Paged) (l : Location) : db.row? l =
    (db.catalog.find? l.table).bind fun g =>
      (l.number? db.rowsPerPage).bind fun k => g.slots[k]?.join := by
  unfold row?
  rw [find?_catalog]
  cases hfind : db.find? l.table with
  | none => rfl
  | some t =>
    have hrow := Table.row?_eq (h.table (table_eq_ok.2 hfind)) l.page l.slot
    rw [Option.bind_some, hrow, Option.map_some, Option.bind_some, Location.number?]
    split <;> rfl

theorem Paged.mem_entries (h : db.Paged) :
    (l, r) ∈ db.entries name ↔ l.table = name ∧ db.row? l = some r := by
  unfold entries
  cases hfind : db.find? name with
  | none =>
    have hnone : ¬(l.table = name ∧ db.row? l = some r) := by
      rintro ⟨rfl, hrow⟩
      simp [row?, hfind] at hrow
    simpa using hnone
  | some t =>
    have hname : t.name = name := name_of_table (table_eq_ok.2 hfind)
    rw [Option.map_some, Option.getD_some, Ledger.mem_entries h.positive]
    rw [show t.ledger.name = name from hname]
    refine and_congr_right fun htable => ?_
    rw [h.row?_eq, find?_catalog, htable, hfind, Option.map_some, Option.bind_some,
      Option.bind_eq_some_iff]
    simp only [Option.join_eq_some_iff]

theorem Paged.row?_of_emptied (h : db.Paged) (hl : db.catalog.Emptied l) : db.row? l = none := by
  obtain ⟨g, hg, k, hk, hslot⟩ := hl
  have hnumber : l.number? db.rowsPerPage = some k := hk
  rw [h.row?_eq, hg, Option.bind_some, hnumber, Option.bind_some, hslot]
  rfl

theorem Paged.settle (h : db.Paged) (c : Change) :
    (Change.settle Storage.attempt db c).2.Paged := by
  unfold Change.settle
  split
  · next hc => exact h.attempt hc
  · exact h

theorem Paged.emptied_settle (h : db.Paged) (hl : db.catalog.Emptied l) (c : Change) :
    (Change.settle Storage.attempt db c).2.catalog.Emptied l := by
  unfold Change.settle
  split
  · next place db' hc =>
    have hview := catalog_attempt h c
    rw [hc] at hview
    exact hl.attempt hview
  · exact hl

theorem Paged.emptied_of_delete (h : db.Paged) (hdelete : db.delete l = .ok db') :
    (Change.settle Storage.attempt db (.delete l)).2.catalog.Emptied l := by
  have hc : db.attempt (.delete l) = .ok (none, db') := by
    rw [Storage.attempt, hdelete]
    rfl
  have hview := catalog_attempt h (.delete l)
  rw [hc] at hview
  unfold Change.settle
  rw [hc]
  exact Catalog.emptied_of_delete hview

/-- Changes of a storage that operations have built are such operations. -/
theorem Built.changes (h : db.Built) (cs : List Change) : (db.changes cs).2.Built := by
  induction cs generalizing db with
  | nil => exact h
  | cons c cs ih =>
    have hstep : (Change.settle Storage.attempt db c).2.Built := by
      unfold Change.settle
      split
      · next hc => exact h.attempt hc
      · exact h
    exact ih hstep

end Storage

namespace Scan

/-- What happens while a scan is open: it is asked for a row, or the storage is changed. -/
inductive Event
  | next
  | change (c : Change)

def Event.change? : Event → Option Change
  | .next => none
  | .change c => some c

/-- A call of an open scan: the storage at that moment, and what came of the call. -/
structure Reading where
  storage : Storage
  result : Except QueryError (Option Tuple)

/-- The place of the row that a call returned. -/
def Reading.place? (a : Reading) : Option Location :=
  match a.result with
  | .ok (some t) => t.location?
  | _ => none

section

variable (table : TableInfo) (predicate : Option Expr)

/-- The calls of a scan, in order. Changes of the storage do not touch its state. -/
def readings : Storage → (Operator.scan table predicate).State → List Event → List Reading
  | _, _, [] => []
  | db, s, .next :: es =>
    let (r, s) := (Operator.scan table predicate).next db s
    ⟨db, r⟩ :: readings db s es
  | db, s, .change c :: es => readings (Change.settle Storage.attempt db c).2 s es

/-- A live row for which the predicate is true stands at a place. -/
def Offers (db : Storage) (l : Location) : Prop :=
  ∃ r, db.row? l = some r ∧ accepts table.schema predicate (.stored r l) = .ok true

end

section Call

variable {test : Tuple → Except QueryError Bool} {db : Storage} {name : String}
  {es : List (Location × Row)} {e : Location × Row} {p p' : Position} {l : Location}
  {r : Except QueryError (Option Tuple)} {fuel : Nat}

/-- A place has still to be read. -/
def Position.Ahead (p : Position) (l : Location) : Prop :=
  p.done = false ∧ l.isFrom p.page p.slot = true

theorem Position.ahead_first (l : Location) : Position.first.Ahead l :=
  ⟨rfl, Location.isFrom_eq_true.2 (by simp only [Position.first]; omega)⟩

theorem Position.ahead_behind : (Position.behind e.1).Ahead l ↔ e.1.Before l :=
  ⟨fun h => Location.isFrom_eq_true.1 h.2, fun h => ⟨rfl, h.isFrom⟩⟩

/-- What a call does when the table has the given entries: the position moves forward, no accepted
row is passed over unless it is returned, and what is returned is an accepted row that was ahead and
has all the rest behind it. -/
structure Advance (test : Tuple → Except QueryError Bool) (es : List (Location × Row))
    (p : Position) (r : Except QueryError (Option Tuple)) (p' : Position) : Prop where
  forward : ∀ l, p'.Ahead l → p.Ahead l
  passed : ∀ e ∈ es, p.Ahead e.1 → test (.stored e.2 e.1) = .ok true →
    p'.Ahead e.1 ∨ r = .ok (some (.stored e.2 e.1))
  returned : ∀ t, r = .ok (some t) → ∃ e ∈ es, t = .stored e.2 e.1 ∧ test t = .ok true ∧
    p.Ahead e.1 ∧ ∀ l, p'.Ahead l → e.1.Before l
  ended : r = .ok none → p'.done = true

theorem Advance.of_done (hdone : p.done = true) : Advance test es p (.ok none) p where
  forward _ h := h
  passed e _ h := by
    rw [h.1] at hdone
    exact absurd hdone Bool.false_ne_true
  returned t h := by simp at h
  ended _ := hdone

theorem Advance.of_none (hfind : es.find? (·.1.isFrom p.page p.slot) = none) :
    Advance test es p (.ok none) { p with done := true } where
  forward l h := by simp [Position.Ahead] at h
  passed e he h := absurd h.2 (List.find?_eq_none.1 hfind e he)
  returned t h := by simp at h
  ended _ := rfl

section First

variable (hsorted : es.Pairwise fun a b => a.1.Before b.1) (hopen : p.done = false)
  (hfind : es.find? (·.1.isFrom p.page p.slot) = some e)

include hopen hfind in
theorem forward_of_first (h : (Position.behind e.1).Ahead l) : p.Ahead l :=
  ⟨hopen, (Position.ahead_behind.1 h).isFrom_trans (List.find?_some (p := fun e =>
    Location.isFrom p.page p.slot (Prod.fst e)) hfind)⟩

include hsorted hfind in
theorem first_or_behind {e' : Location × Row} (he' : e' ∈ es) (h : p.Ahead e'.1) :
    e' = e ∨ (Position.behind e.1).Ahead e'.1 := by
  have hmem : e' ∈ es.filter (·.1.isFrom p.page p.slot) := List.mem_filter.2 ⟨he', h.2⟩
  rw [filter_isFrom_eq_cons hsorted hfind] at hmem
  rcases List.mem_cons.1 hmem with heq | hmem
  · exact .inl heq
  · exact .inr ⟨rfl, (List.mem_filter.1 hmem).2⟩

include hsorted hopen hfind in
theorem Advance.of_accepted (htest : test (.stored e.2 e.1) = .ok true) :
    Advance test es p (.ok (some (.stored e.2 e.1))) (.behind e.1) where
  forward _ h := forward_of_first hopen hfind h
  passed e' he' h _ := by
    rcases first_or_behind hsorted hfind he' h with rfl | hbehind
    · exact .inr rfl
    · exact .inl hbehind
  returned t ht := by
    obtain rfl := Option.some.inj (Except.ok.inj ht)
    refine ⟨e, List.mem_of_find?_eq_some hfind, rfl, htest, ⟨hopen, ?_⟩, fun l h => ?_⟩
    · simpa using List.find?_some hfind
    · exact Position.ahead_behind.1 h
  ended h := by simp at h

include hsorted hopen hfind in
/-- A first row that is not accepted is passed over, and the call fails or goes on behind it. -/
theorem Advance.of_passed (htest : test (.stored e.2 e.1) ≠ .ok true)
    (h : Advance test es (.behind e.1) r p') : Advance test es p r p' where
  forward l hl := forward_of_first hopen hfind (h.forward l hl)
  passed e' he' hahead hok := by
    rcases first_or_behind hsorted hfind he' hahead with rfl | hbehind
    · exact absurd hok htest
    · exact h.passed e' he' hbehind hok
  returned t ht := by
    obtain ⟨e', he', heq, hok, hahead, hrest⟩ := h.returned t ht
    exact ⟨e', he', heq, hok, forward_of_first hopen hfind hahead, hrest⟩
  ended := h.ended

end First

theorem Advance.of_error (e : QueryError) : Advance test es p (.error e) p where
  forward _ h := h
  passed _ _ h _ := .inl h
  returned t h := by simp at h
  ended h := by simp at h

theorem pull_advance (hsorted : es.Pairwise fun a b => a.1.Before b.1)
    (hread : ∀ page slot, db.readFrom name page slot =
      (es.find? (·.1.isFrom page slot)).map fun e => .stored e.2 e.1)
    (hfuel : remaining db name p < fuel) (h : pull test db name fuel p = (r, p')) :
    Advance test es p r p' := by
  induction fuel generalizing p with
  | zero => omega
  | succ fuel ih =>
    rw [pull] at h
    split at h
    · next hdone =>
      obtain ⟨rfl, rfl⟩ := Prod.mk.inj h
      exact .of_done hdone
    · next hdone =>
      have hopen : p.done = false := by simpa using hdone
      cases hfind : es.find? (·.1.isFrom p.page p.slot) with
      | none =>
        rw [hread, hfind] at h
        obtain ⟨rfl, rfl⟩ := Prod.mk.inj h
        exact .of_none hfind
      | some e =>
        have hfirst : db.readFrom name p.page p.slot = some (.stored e.2 e.1) := by
          rw [hread, hfind]
          rfl
        have hlt : remaining db name (.behind e.1) < remaining db name p := by
          obtain ⟨l, hl, hlt⟩ := Storage.slotsFrom_readFrom hfirst
          obtain rfl := Option.some.inj hl
          simpa [remaining, hopen, Position.behind] using hlt
        rw [hfirst] at h
        have hbehind : ((Tuple.stored e.2 e.1).location?.map Position.behind).getD p =
            .behind e.1 :=
          rfl
        dsimp only at h
        rw [hbehind] at h
        rcases htest : test (.stored e.2 e.1) with x | _ | _ <;> rw [htest] at h
        · obtain ⟨rfl, rfl⟩ := Prod.mk.inj h
          exact .of_passed hsorted hopen hfind (by simp [htest]) (.of_error x)
        · exact .of_passed hsorted hopen hfind (by simp [htest]) (ih (by omega) h)
        · obtain ⟨rfl, rfl⟩ := Prod.mk.inj h
          exact .of_accepted hsorted hopen hfind htest

end Call

section Run

variable {table : TableInfo} {predicate : Option Expr} {db db' : Storage}
  {s s' : Leaf Position} {es es₁ es₂ : List Event} {l : Location}
  {r : Except QueryError (Option Tuple)}

theorem next_advance (hdb : db.Paged) (hschema : s.status.schema = table.schema)
    (h : (Operator.scan table predicate).next db s = (r, s')) :
    Advance (accepts table.schema predicate) (db.entries table.name) s.position r s'.position ∧
      s'.status.schema = table.schema := by
  obtain ⟨hpull, hprofile, -⟩ := Leaf.next_eq h
  rw [hschema] at hpull
  refine ⟨?_, ?_⟩
  · exact pull_advance (db.entries_sorted table.name) (hdb.readFrom_eq table.name)
      (Nat.lt_succ_self _) hpull
  · rw [← hschema, Status.schema, Status.schema, hprofile]

theorem readings_next (h : (Operator.scan table predicate).next db s = (r, s')) :
    readings table predicate db s (.next :: es) = ⟨db, r⟩ :: readings table predicate db s' es := by
  simp only [readings, h]

theorem place?_eq_some {a : Reading} :
    a.place? = some l ↔ ∃ t, a.result = .ok (some t) ∧ t.location? = some l := by
  unfold Reading.place?
  split
  · next t ht => simp [ht]
  · next hnone =>
    constructor
    · simp
    · rintro ⟨t, ht, -⟩
      exact absurd ht (hnone t)

/-- The rows that are still to be returned are ahead, and they come in the order of their places. -/
theorem readings_sorted (hdb : db.Paged) (hschema : s.status.schema = table.schema) :
    (∀ l ∈ (readings table predicate db s es).filterMap Reading.place?, s.position.Ahead l) ∧
      ((readings table predicate db s es).filterMap Reading.place?).Pairwise Location.Before := by
  induction es generalizing db s with
  | nil => exact ⟨fun l h => absurd h List.not_mem_nil, List.Pairwise.nil⟩
  | cons e es ih =>
    cases e with
    | change c => exact ih (hdb.settle c) hschema
    | next =>
      rcases hnext : (Operator.scan table predicate).next db s with ⟨r, s'⟩
      obtain ⟨hadvance, hschema'⟩ := next_advance hdb hschema hnext
      obtain ⟨hahead, hpairwise⟩ := ih hdb hschema'
      have hforward : ∀ l ∈ (readings table predicate db s' es).filterMap Reading.place?,
          s.position.Ahead l := fun l hl => hadvance.forward l (hahead l hl)
      rw [readings_next hnext]
      cases hplace : Reading.place? ⟨db, r⟩ with
      | none =>
        rw [List.filterMap_cons_none hplace]
        exact ⟨hforward, hpairwise⟩
      | some l =>
        rw [List.filterMap_cons_some hplace]
        obtain ⟨t, ht, hl⟩ := place?_eq_some.1 hplace
        obtain ⟨e, -, rfl, -, he, hbehind⟩ := hadvance.returned t ht
        obtain rfl : e.1 = l := Option.some.inj hl
        exact ⟨List.forall_mem_cons.2 ⟨he, hforward⟩,
          List.pairwise_cons.2 ⟨fun l hl => hbehind l (hahead l hl), hpairwise⟩⟩

/-- What is returned stands at its place at that moment, and the predicate is true for it. -/
theorem returned_of_mem (hdb : db.Paged) (hschema : s.status.schema = table.schema) {a : Reading}
    (ha : a ∈ readings table predicate db s es) {t : Tuple} (ht : a.result = .ok (some t)) :
    ∃ l, t.location? = some l ∧ l.table = table.name ∧ a.storage.row? l = some t.values ∧
      accepts table.schema predicate t = .ok true := by
  induction es generalizing db s with
  | nil => exact absurd ha List.not_mem_nil
  | cons e es ih =>
    cases e with
    | change c => exact ih (hdb.settle c) hschema ha
    | next =>
      rcases hnext : (Operator.scan table predicate).next db s with ⟨r, s'⟩
      obtain ⟨hadvance, hschema'⟩ := next_advance hdb hschema hnext
      rw [readings_next hnext] at ha
      rcases List.mem_cons.1 ha with rfl | ha
      · obtain ⟨e, he, rfl, hok, -⟩ := hadvance.returned t ht
        obtain ⟨htable, hrow⟩ := hdb.mem_entries.1 he
        exact ⟨e.1, rfl, htable, hrow, hok⟩
      · exact ih hdb hschema' ha

/-- A row ahead that every call finds accepted has been returned when the scan is at its end. -/
theorem returned_of_offered (hdb : db.Paged) (hschema : s.status.schema = table.schema)
    {before rest : List Reading} {a : Reading}
    (hsplit : readings table predicate db s es = before ++ a :: rest) (hend : a.result = .ok none)
    (htable : l.table = table.name) (hahead : s.position.Ahead l)
    (hoffers : ∀ b ∈ before ++ [a], Offers table predicate b.storage l) :
    l ∈ before.filterMap Reading.place? := by
  induction es generalizing db s before with
  | nil => simp [readings] at hsplit
  | cons e es ih =>
    cases e with
    | change c => exact ih (hdb.settle c) hschema hsplit hahead hoffers
    | next =>
      rcases hnext : (Operator.scan table predicate).next db s with ⟨r, s'⟩
      obtain ⟨hadvance, hschema'⟩ := next_advance hdb hschema hnext
      rw [readings_next hnext] at hsplit
      -- The call either keeps the row ahead or returns it.
      have hcall : Offers table predicate db l →
          s'.position.Ahead l ∨ Reading.place? ⟨db, r⟩ = some l := by
        rintro ⟨x, hrow, hok⟩
        refine (hadvance.passed (l, x) (hdb.mem_entries.2 ⟨htable, hrow⟩) hahead hok).imp_right ?_
        intro hr
        exact place?_eq_some.2 ⟨_, hr, rfl⟩
      cases before with
      | nil =>
        obtain ⟨rfl, -⟩ := List.cons.inj hsplit
        rcases hcall (hoffers _ List.mem_cons_self) with hstill | hplace
        · have hopen : s'.position.done = false := hstill.1
          rw [hadvance.ended hend] at hopen
          simp at hopen
        · obtain ⟨t, ht, -⟩ := place?_eq_some.1 hplace
          rw [hend] at ht
          simp at ht
      | cons b before =>
        obtain ⟨rfl, htail⟩ := List.cons.inj hsplit
        obtain ⟨hb, hrest⟩ := List.forall_mem_cons.1 hoffers
        rcases hcall hb with hstill | hplace
        · obtain ⟨c, hc, hl⟩ := List.mem_filterMap.1 (ih hdb hschema' htail hstill hrest)
          exact List.mem_filterMap.2 ⟨c, List.mem_cons_of_mem _ hc, hl⟩
        · exact List.mem_filterMap.2 ⟨_, List.mem_cons_self, hplace⟩

/-- What happens later starts in the storage that the earlier changes left. -/
theorem readings_append (hdb : db.Paged) (hschema : s.status.schema = table.schema) :
    (db.changes (es₁.filterMap Event.change?)).2.Paged ∧
      ∃ s' : Leaf Position, s'.status.schema = table.schema ∧
        readings table predicate db s (es₁ ++ es₂) = readings table predicate db s es₁ ++
          readings table predicate (db.changes (es₁.filterMap Event.change?)).2 s' es₂ := by
  induction es₁ generalizing db s with
  | nil => exact ⟨hdb, s, hschema, rfl⟩
  | cons e es₁ ih =>
    cases e with
    | change c => exact ih (hdb.settle c) hschema
    | next =>
      rcases hnext : (Operator.scan table predicate).next db s with ⟨r, s'⟩
      obtain ⟨-, hschema'⟩ := next_advance hdb hschema hnext
      obtain ⟨hpaged, s'', hschema'', hsplit⟩ := ih hdb hschema'
      refine ⟨hpaged, s'', hschema'', ?_⟩
      rw [List.cons_append, readings_next hnext, readings_next hnext, hsplit]
      rfl

theorem not_returned_of_emptied (hdb : db.Paged) (hschema : s.status.schema = table.schema)
    (hl : db.catalog.Emptied l) :
    l ∉ (readings table predicate db s es).filterMap Reading.place? := by
  induction es generalizing db s with
  | nil => exact List.not_mem_nil
  | cons e es ih =>
    cases e with
    | change c => exact ih (hdb.settle c) hschema (hdb.emptied_settle hl c)
    | next =>
      rcases hnext : (Operator.scan table predicate).next db s with ⟨r, s'⟩
      obtain ⟨hadvance, hschema'⟩ := next_advance hdb hschema hnext
      have hrest := ih hdb hschema' hl
      rw [readings_next hnext]
      intro hmem
      obtain ⟨a, ha, hplace⟩ := List.mem_filterMap.1 hmem
      rcases List.mem_cons.1 ha with rfl | ha
      · obtain ⟨t, ht, hloc⟩ := place?_eq_some.1 hplace
        obtain ⟨e, he, rfl, -⟩ := hadvance.returned t ht
        obtain rfl : e.1 = l := Option.some.inj hloc
        have hlive := (hdb.mem_entries.1 he).2
        rw [hdb.row?_of_emptied hl] at hlive
        simp at hlive
      · exact hrest (List.mem_filterMap.2 ⟨a, ha, hplace⟩)

theorem started {config : Config} {s₀ s₁ : (Operator.scan table predicate).State}
    (hprepare : (Operator.scan table predicate).prepare config s₀ = (.ok (), s₁))
    (hrewind : (Operator.scan table predicate).rewind s₁ = (.ok (), s)) :
    s.position = .first ∧ s.status.schema = table.schema := by
  obtain ⟨p, hp, hs₁⟩ := Leaf.prepare_eq_ok.1 hprepare
  obtain rfl := Except.ok.inj hp
  have hstart : Leaf.rewind .scan Position.first s₁ = (.ok (), s) := hrewind
  rw [Leaf.rewind_ok hstart, hs₁]
  exact ⟨rfl, rfl⟩

/-- A scan that was started reads its table faithfully, whatever is inserted, updated and deleted
between its calls. It returns rows in the order of their places, each as it is stored at that
moment and with the predicate true. A row for which the predicate is true at every call until the
scan comes to its end is returned once, and a row that is deleted before it was returned is not
returned. -/
theorem open_scan_reads {config : Config} {s₀ s₁ : (Operator.scan table predicate).State}
    (hdb : db.Built) (hprepare : (Operator.scan table predicate).prepare config s₀ = (.ok (), s₁))
    (hrewind : (Operator.scan table predicate).rewind s₁ = (.ok (), s)) (es : List Event) :
    ((readings table predicate db s es).filterMap Reading.place?).Pairwise Location.Before ∧
    (∀ a ∈ readings table predicate db s es, ∀ t, a.result = .ok (some t) →
      ∃ l, t.location? = some l ∧ l.table = table.name ∧ a.storage.row? l = some t.values ∧
        accepts table.schema predicate t = .ok true) ∧
    (∀ l before a rest, readings table predicate db s es = before ++ a :: rest →
      a.result = .ok none → l.table = table.name →
      (∀ b ∈ before ++ [a], Offers table predicate b.storage l) →
      ((readings table predicate db s es).filterMap Reading.place?).count l = 1) ∧
    ∀ l before after db', es = before ++ .change (.delete l) :: after →
      (db.changes (before.filterMap Event.change?)).2.delete l = .ok db' →
      l ∉ (readings table predicate db s before).filterMap Reading.place? →
      l ∉ (readings table predicate db s es).filterMap Reading.place? := by
  obtain ⟨hfirst, hschema⟩ := started hprepare hrewind
  have hpaged := hdb.paged
  have hsorted : ((readings table predicate db s es).filterMap Reading.place?).Pairwise
      Location.Before := (readings_sorted hpaged hschema).2
  refine ⟨hsorted, fun a ha t ht => returned_of_mem hpaged hschema ha ht, ?_, ?_⟩
  · intro l before a rest hsplit hend htable hoffers
    have hahead : s.position.Ahead l := hfirst ▸ Position.ahead_first l
    have hmem := returned_of_offered hpaged hschema hsplit hend htable hahead hoffers
    have hnodup := hsorted.imp fun h => h.ne
    rw [hsplit, List.filterMap_append] at hnodup ⊢
    exact List.count_eq_one_of_mem hnodup (List.mem_append_left _ hmem)
  · rintro l before after db' rfl hdelete hbefore hmem
    obtain ⟨hpaged', s', hschema', hsplit⟩ := readings_append hpaged hschema
    rw [hsplit, List.filterMap_append] at hmem
    rcases List.mem_append.1 hmem with hmem | hmem
    · exact hbefore hmem
    · have hemptied := hpaged'.emptied_of_delete hdelete
      exact not_returned_of_emptied (hpaged'.settle _) hschema' hemptied hmem

/-- Two pages of two rows. The first row of the second page is deleted before the scan comes to
it, the row behind it is new, and the row that the scan has passed over becomes one that it would
take. -/
theorem open_scan_reads_changed :
    let table : TableInfo := ⟨"t", ⟨[⟨"a", some "t", .integer⟩]⟩, .unknown 1⟩
    let predicate : Option Expr := some (.compare .gt (.column ⟨none, "a"⟩) (.literal (.int 1)))
    let db := ((Storage.create 2).changes [.createTable "t" [("a", .integer)],
      .insert "t" [.int 1], .insert "t" [.int 2], .insert "t" [.int 3]]).2
    let s : Leaf Position := ⟨⟨some (profile .default table predicate), 0⟩, .first, none⟩
    let es : List Event := [.next, .change (.delete ⟨"t", 1, 0⟩), .change (.insert "t" [.int 4]),
      .change (.update ⟨"t", 0, 0⟩ [.int 9]), .next, .next]
    (readings table predicate db s es).map Reading.place? =
        [some ⟨"t", 0, 1⟩, some ⟨"t", 1, 1⟩, none] ∧
      ((readings table predicate db s es).filterMap Reading.place?).count ⟨"t", 0, 1⟩ = 1 ∧
      ⟨"t", 1, 0⟩ ∉ (readings table predicate db s es).filterMap Reading.place? := by
  intro table predicate db s es
  have hdb : db.Built := (Storage.Built.create 2).changes _
  have hprepare : (Operator.scan table predicate).prepare .default s = (.ok (), s) := rfl
  have hrewind : (Operator.scan table predicate).rewind s = (.ok (), s) := rfl
  obtain ⟨-, -, honce, hdeleted⟩ := open_scan_reads hdb hprepare hrewind es
  have hplaces : (readings table predicate db s es).map Reading.place? =
      [some ⟨"t", 0, 1⟩, some ⟨"t", 1, 1⟩, none] := by decide
  refine ⟨hplaces, ?_, ?_⟩
  · obtain ⟨a, ha, hend⟩ : ∃ a, (readings table predicate db s es).drop 2 = [a] ∧
        a.result = .ok none := ⟨_, rfl, rfl⟩
    have hsplit := (List.take_append_drop 2 (readings table predicate db s es)).symm
    rw [ha] at hsplit
    have hstored : ∀ b ∈ readings table predicate db s es,
        b.storage.row? ⟨"t", 0, 1⟩ = some [.int 2] := by decide
    have haccepts : accepts table.schema predicate (.stored [.int 2] ⟨"t", 0, 1⟩) = .ok true := rfl
    apply honce ⟨"t", 0, 1⟩ _ _ _ hsplit hend rfl
    rw [← hsplit]
    exact fun b hb => ⟨[.int 2], hstored b hb, haccepts⟩
  · exact hdeleted _ [.next] _ _ rfl rfl (by decide)

end Run

end Scan

end RelQuery
