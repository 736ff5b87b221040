import RelQuery.Operator.Buffer

namespace RelQuery

namespace Sorting

def profile (c : Config) (keys : List OrderKey) (child : Status) : Except QueryError Profile := do
  Operator.resolveAll child.schema (keys.flatMap (·.expr.columns))
  .ok ⟨child.schema, c.costModel.sort child.cost, child.columns⟩

def keyRow (s : Schema) (keys : List OrderKey) (r : Row) : Except QueryError Row :=
  keys.mapM fun k => Operator.evalRow s k.expr r

/-- Takes in a tuple behind the earlier ones; its page is given up. -/
def collect (s : Schema) (keys : List OrderKey) (rows : List (Row × Tuple)) (t : Tuple) :
    Except QueryError (List (Row × Tuple)) := do
  let k ← keyRow s keys t.values
  .ok (rows ++ [(k, t.unpin)])

def atMost (flags : List Bool) (a b : Row × Tuple) : Bool := (Row.order flags a.1 b.1).isLE

def arrange (keys : List OrderKey) (rows : List (Row × Tuple)) : List Tuple :=
  (rows.mergeSort (atMost (keys.map OrderKey.ascending))).map (·.2)

def load (keys : List OrderKey) (child : Operator) (db : Storage) (s : child.State) :
    Outcome (List Tuple) child.State :=
  let (r, s') :=
    Buffered.fold (collect (child.status s).schema keys) (child.next db) (child.remaining db s + 1)
      [] s
  (r.map (arrange keys), s')

theorem length_collect {s : Schema} {keys : List OrderKey} {rows rows' : List (Row × Tuple)}
    {t : Tuple} (h : collect s keys rows t = .ok rows') : rows'.length = rows.length + 1 := by
  simp only [collect, bind, Except.bind] at h
  split at h
  · simp at h
  · obtain rfl := Except.ok.inj h
    simp

theorem length_load {keys : List OrderKey} {child : Operator} {db : Storage} {s s' : child.State}
    {rows : List Tuple} (h : load keys child db s = (.ok rows, s')) :
    rows.length ≤ child.remaining db s + 0 := by
  simp only [load, Prod.mk.injEq] at h
  obtain ⟨h, -⟩ := h
  cases hf : (Buffered.fold (collect (child.status s).schema keys) (child.next db)
      (child.remaining db s + 1) [] s).1 with
  | error e => simp [hf, Except.map] at h
  | ok ps =>
    have hle := Buffered.fold_le List.length child.next_lt
      (fun h => Nat.le_of_eq (length_collect h)) (Prod.ext hf rfl)
    simp only [hf, Except.map, Except.ok.injEq] at h
    simpa [← h, arrange] using hle

end Sorting

def Operator.sort (keys : List OrderKey) (child : Operator) : Operator :=
  .buffered .sort keys ("Sort[" ++ ", ".intercalate (keys.map OrderKey.display) ++ "]") child
    (Sorting.profile · keys ·) ⟨Sorting.load keys child, 0, Sorting.length_load⟩

end RelQuery
