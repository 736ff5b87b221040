import RelQuery.Operator.Basic

namespace RelQuery

namespace Filter

variable {σ : Type}

def profile (c : Config) (predicate : Expr) (child : Status) : Profile :=
  let selectivity := predicate.selectivity child.schema child.columns c.defaultSelectivity
  ⟨child.schema, c.costModel.filter child.cost selectivity, child.columns⟩

def pull (test : Tuple → Except QueryError Bool) (next : σ → Outcome (Option Tuple) σ) :
    Nat → σ → Outcome (Option Tuple) σ
  | 0, s => (.ok none, s)
  | fuel + 1, s =>
    match next s with
    | (.error e, s) => (.error e, s)
    | (.ok none, s) => (.ok none, s)
    | (.ok (some t), s) =>
      match test t with
      | .error e => (.error e, s)
      | .ok true => (.ok (some t), s)
      | .ok false => pull test next fuel s

theorem pull_lt {test : Tuple → Except QueryError Bool} {next : σ → Outcome (Option Tuple) σ}
    {m : σ → Nat} (hnext : ∀ {s s' t}, next s = (.ok (some t), s') → m s' < m s) {fuel : Nat}
    {s s' : σ} {t : Tuple} (h : pull test next fuel s = (.ok (some t), s')) : m s' < m s := by
  induction fuel generalizing s with
  | zero => simp [pull] at h
  | succ fuel ih =>
    rw [pull] at h
    split at h
    · simp at h
    · simp at h
    · next u c hc =>
      have hlt := hnext hc
      split at h
      · simp at h
      · obtain ⟨-, rfl⟩ := Prod.mk.inj h
        exact hlt
      · exact Nat.lt_trans (ih h) hlt

def next (predicate : Expr) (child : Operator) (db : Storage) (s : Wrapped Unit child.State) :
    Outcome (Option Tuple) (Wrapped Unit child.State) :=
  let (r, c) :=
    pull (Operator.accepts s.status.schema predicate) (child.next db)
      (child.remaining db s.child + 1) s.child
  let status := match r with
    | .ok (some _) => s.status.count
    | _ => s.status
  (r, { s with status := status, child := c })

theorem next_some {predicate : Expr} {child : Operator} {db : Storage}
    {s s' : Wrapped Unit child.State}
    {t : Tuple} (h : next predicate child db s = (.ok (some t), s')) :
    child.remaining db s'.child < child.remaining db s.child := by
  simp only [next, Prod.mk.injEq] at h
  obtain ⟨h, rfl⟩ := h
  exact pull_lt child.next_lt (Prod.ext h rfl)

end Filter

def Operator.filter (predicate : Expr) (child : Operator) : Operator :=
  .wrapped .filter ("Select[pred: " ++ predicate.display ++ "]") child.marks (.unmarkable .filter)
    child.orderedBy child
    { start := ()
      settle := fun c s => .ok (Filter.profile c predicate s, ())
      next := Filter.next predicate child
      next_some := Filter.next_some }

end RelQuery
