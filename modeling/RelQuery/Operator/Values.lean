import RelQuery.Operator.Leaf

namespace RelQuery

namespace Values

/-- The type of a column of constants, read off a value of it. -/
def inferType : Value → SqlType
  | .bool _ => .boolean
  | .float _ => .double
  | .text s => .varCharOf s
  | .null | .int _ => .bigInt

/-- Columns of the given names; the type of each is that of its first value that is not NULL. -/
def inferSchema (names : List String) (rows : List Row) : Schema :=
  ⟨names.zipIdx.map fun n =>
    let column := rows.filterMap (·[n.2]?)
    ⟨n.1, none, ((column.find? fun v => !v.isNull).map inferType).getD .integer⟩⟩

/-- Every row has one value per column. -/
def profile (c : Config) (schema : Schema) (rows : List Row) : Except QueryError Profile :=
  match rows.find? (·.length != schema.width) with
  | some r => .error (.invalidArgument (.rowWidth r.length schema.width))
  | none =>
    .ok
      { schema := schema
        cost := c.costModel.values rows.length schema.rowSize
        columns := (List.range schema.width).map fun i => .ofValues (rows.filterMap (·[i]?)) }

def pull (rows : List Row) (p : Nat) : Outcome (Option Tuple) Nat :=
  match rows[p]? with
  | none => (.ok none, p)
  | some r => (.ok (some (.computed r)), p + 1)

theorem pull_some {rows : List Row} {p p' : Nat} {t : Tuple}
    (h : pull rows p = (.ok (some t), p')) :
    p < rows.length ∧ p' = p + 1 := by
  unfold pull at h
  split at h
  · simp at h
  · next r hr =>
    obtain ⟨-, rfl⟩ := Prod.mk.inj h
    exact ⟨(List.getElem?_eq_some_iff.1 hr).1, rfl⟩

def source (rows : List Row) : Leaf.Source Nat where
  first := 0
  pull _ _ := pull rows
  remaining _ p := rows.length - p
  pull_lt h := by
    have := pull_some h
    omega

end Values

def Operator.values (schema : Schema) (rows : List Row) : Operator :=
  .leaf .values ("Values[rows=" ++ toString rows.length ++ "]") (Values.profile · schema rows)
    (Values.source rows)

end RelQuery
