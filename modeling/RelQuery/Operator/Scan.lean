import RelQuery.Operator.Leaf

namespace RelQuery

namespace Scan

structure Position where
  page : Nat
  slot : Nat
  done : Bool
  deriving DecidableEq

def Position.first : Position := ⟨0, 0, false⟩

def profile (c : Config) (table : TableInfo) (predicate : Option Expr) : Profile :=
  let selectivity :=
    match predicate with
    | some p => p.selectivity table.schema table.stats.columns c.defaultSelectivity
    | none => 1.0
  ⟨table.schema, c.costModel.scan table.stats selectivity, table.stats.columns⟩

def accepts (s : Schema) (predicate : Option Expr) (t : Tuple) : Except QueryError Bool :=
  match predicate with
  | some p => Operator.accepts s p t
  | none => .ok true

def Position.behind (l : Location) : Position := ⟨l.page, l.slot + 1, false⟩

/-- The next live row that is accepted. The position moves past a row before it is looked at. -/
def pull (test : Tuple → Except QueryError Bool) (db : Storage) (table : String) :
    Nat → Position → Outcome (Option Tuple) Position
  | 0, p => (.ok none, p)
  | fuel + 1, p =>
    if p.done then (.ok none, p)
    else
      match db.readFrom table p.page p.slot with
      | none => (.ok none, { p with done := true })
      | some t =>
        let p := (t.location?.map Position.behind).getD p
        match test t with
        | .error e => (.error e, p)
        | .ok true => (.ok (some t), p)
        | .ok false => pull test db table fuel p

def remaining (db : Storage) (table : String) (p : Position) : Nat :=
  if p.done then 0 else db.slotsFrom table p.page p.slot

theorem pull_lt {test : Tuple → Except QueryError Bool} {db : Storage} {table : String} {fuel : Nat}
    {p p' : Position} {t : Tuple} (h : pull test db table fuel p = (.ok (some t), p')) :
    remaining db table p' < remaining db table p := by
  induction fuel generalizing p with
  | zero => simp [pull] at h
  | succ fuel ih =>
    rw [pull] at h
    split at h
    · simp at h
    · next hopen =>
      split at h
      · simp at h
      · next x hx =>
        obtain ⟨l, hl, hlt⟩ := Storage.slotsFrom_readFrom hx
        have hle : remaining db table (.behind l) < remaining db table p := by
          simpa [remaining, hopen, Position.behind] using hlt
        simp only [hl, Option.map_some, Option.getD_some] at h
        split at h
        · simp at h
        · obtain ⟨-, rfl⟩ := Prod.mk.inj h
          exact hle
        · exact Nat.lt_trans (ih h) hle

/-- The next row of a table, with more fuel than the table has slots. -/
def next (table : TableInfo) (predicate : Option Expr) (db : Storage) (s : Schema) (p : Position) :
    Outcome (Option Tuple) Position :=
  pull (accepts s predicate) db table.name (remaining db table.name p + 1) p

def label (table : TableInfo) (predicate : Option Expr) : String :=
  match predicate with
  | some p => "FileScan[table: " ++ table.name ++ ", pred: " ++ p.display ++ "]"
  | none => "FileScan[table: " ++ table.name ++ "]"

def source (table : TableInfo) (predicate : Option Expr) : Leaf.Source Position where
  first := .first
  pull := next table predicate
  remaining db := remaining db table.name
  pull_lt := pull_lt

end Scan

def Operator.scan (table : TableInfo) (predicate : Option Expr) : Operator :=
  .leaf .scan (Scan.label table predicate) (fun c => .ok (Scan.profile c table predicate))
    (Scan.source table predicate)

end RelQuery
