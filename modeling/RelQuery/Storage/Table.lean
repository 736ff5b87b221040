import RelQuery.Error
import RelQuery.Estimate.Statistics

namespace RelQuery

def total {α : Type} (f : α → Nat) : List α → Nat
  | [] => 0
  | a :: as => f a + total f as

/-- The slots of one page; a deleted row leaves `none`. -/
abbrev Page := List (Option Row)

namespace Page

/-- The first live row among slots that are numbered from `i`. -/
def first (i : Nat) : Page → Option (Nat × Row)
  | [] => none
  | some r :: _ => some (i, r)
  | none :: slots => first (i + 1) slots

/-- The first live row at or after a slot of the first page, or anywhere on a later one; the pages
are numbered from `n`. -/
def firstFrom (n slot : Nat) : List Page → Option (Nat × Nat × Row)
  | [] => none
  | p :: ps =>
    match first slot (p.drop slot) with
    | some (i, r) => some (n, i, r)
    | none => firstFrom (n + 1) 0 ps

def slotsFrom (slot : Nat) : List Page → Nat
  | [] => 0
  | p :: ps => total List.length ps + (p.length - slot)

theorem first_some {i j : Nat} {p : Page} {r : Row} (h : first i p = some (j, r)) :
    i ≤ j ∧ j < i + p.length := by
  induction p generalizing i with
  | nil => simp [first] at h
  | cons s p ih =>
    cases s with
    | none =>
      have := ih h
      simp only [List.length_cons]
      omega
    | some r' =>
      simp only [first, Option.some.injEq, Prod.mk.injEq] at h
      simp only [List.length_cons]
      omega

theorem slotsFrom_firstFrom {n m slot i : Nat} {ps : List Page} {r : Row}
    (h : firstFrom n slot ps = some (m, i, r)) :
    n ≤ m ∧ slotsFrom (i + 1) (ps.drop (m - n)) < slotsFrom slot ps := by
  induction ps generalizing n slot with
  | nil => simp [firstFrom] at h
  | cons p ps ih =>
    rw [firstFrom] at h
    split at h
    · next hfirst =>
      simp only [Option.some.injEq, Prod.mk.injEq] at h
      obtain ⟨rfl, rfl, rfl⟩ := h
      have hlt := first_some hfirst
      simp only [List.length_drop] at hlt
      simp only [Nat.le_refl, Nat.sub_self, List.drop_zero, slotsFrom, true_and]
      omega
    · obtain ⟨hle, hlt⟩ := ih h
      have hdrop : (p :: ps).drop (m - n) = ps.drop (m - (n + 1)) := by
        rw [show m - n = m - (n + 1) + 1 by omega, List.drop_succ_cons]
      have htotal : slotsFrom 0 ps = total List.length ps := by
        cases ps with
        | nil => rfl
        | cons q qs =>
          simp only [slotsFrom, total]
          omega
      have hcons : slotsFrom slot (p :: ps) = total List.length ps + (p.length - slot) := rfl
      rw [hdrop]
      omega

/-- Appends a row to the last page, or to a new one, and tells the page and the slot. -/
def append (capacity : Nat) (row : Row) : List Page → List Page × Nat × Nat
  | [] => ([[some row]], 0, 0)
  | [p] =>
    if p.length < capacity then ([p ++ [some row]], 0, p.length) else ([p, [some row]], 1, 0)
  | p :: q :: ps =>
    let (ps, n, i) := append capacity row (q :: ps)
    (p :: ps, n + 1, i)

end Page

structure Table where
  name : String
  schema : Schema
  rowsPerPage : Nat
  pages : List Page
  stats : Option TableStats

namespace Table

def create (name : String) (columns : List (String × SqlType)) (rowsPerPage : Nat) : Table :=
  { name := name
    schema := ⟨columns.map fun c => ⟨c.1, some name, c.2⟩⟩
    rowsPerPage := rowsPerPage
    pages := []
    stats := none }

def location (t : Table) (page slot : Nat) : Location := ⟨t.name, page, slot⟩

/-- Coerces values to the types of their columns; the first that does not fit gives the error. -/
def coerceValues : List Column → Row → Except StorageError Row
  | c :: cs, v :: vs =>
    match c.type.coerce v with
    | .error e => .error (.invalidValue e)
    | .ok v => do
      let vs ← coerceValues cs vs
      .ok (v :: vs)
  | _, _ => .ok []

def coerceRow (t : Table) (r : Row) : Except StorageError Row :=
  if r.length = t.schema.width then coerceValues t.schema.columns r
  else .error (.columnCount t.name t.schema.width r.length)

def insert (t : Table) (r : Row) : Except StorageError (Location × Table) := do
  let r ← t.coerceRow r
  let (pages, page, slot) := Page.append t.rowsPerPage r t.pages
  .ok (t.location page slot, { t with pages := pages })

def row? (t : Table) (page slot : Nat) : Option Row := do
  let p ← t.pages[page]?
  let s ← p[slot]?
  s

/-- Puts new contents into the slot of a live row. -/
def replace (t : Table) (l : Location) (contents : Option Row) : Except StorageError Table :=
  match t.row? l.page l.slot with
  | some _ => .ok { t with pages := t.pages.modify l.page (·.set l.slot contents) }
  | none => .error (.invalidLocation l)

/-- The first live row at or after a position, pinned. -/
def readFrom (t : Table) (page slot : Nat) : Option Tuple :=
  (Page.firstFrom page slot (t.pages.drop page)).map fun (n, i, r) => .stored r (t.location n i)

def slotsFrom (t : Table) (page slot : Nat) : Nat := Page.slotsFrom slot (t.pages.drop page)

theorem slotsFrom_readFrom {t : Table} {page slot : Nat} {x : Tuple}
    (h : t.readFrom page slot = some x) :
    ∃ l, x.location? = some l ∧ t.slotsFrom l.page (l.slot + 1) < t.slotsFrom page slot := by
  obtain ⟨⟨n, i, r⟩, hfirst, rfl⟩ := Option.map_eq_some_iff.1 h
  obtain ⟨hle, hlt⟩ := Page.slotsFrom_firstFrom hfirst
  refine ⟨t.location n i, rfl, ?_⟩
  rwa [List.drop_drop, Nat.add_sub_cancel' hle] at hlt

def liveRows (t : Table) : List Row := t.pages.flatMap fun p => p.filterMap id

def valueSize : Value → Nat
  | .null => 0
  | .bool _ => 1
  | .int _ | .float _ => 8
  | .text s => s.utf8ByteSize + 2

def measure (t : Table) : TableStats :=
  let rows := t.liveRows
  let size := total (total valueSize) rows
  let declared := total (fun c => c.type.storageSize) t.schema.columns
  { tuples := rows.length
    pages := t.pages.length
    averageSize :=
      if rows.isEmpty then Single.ofNat declared
      else Single.ofNat size / Single.ofNat rows.length
    columns :=
      (List.range t.schema.width).map fun i => .ofValues (rows.filterMap (·[i]?)) }

def currentStats (t : Table) : TableStats := t.stats.getD (.unknown t.schema.width)

end Table

end RelQuery
