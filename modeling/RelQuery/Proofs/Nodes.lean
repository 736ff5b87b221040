import Mathlib.Tactic
import RelQuery.Expr.Traverse

namespace RelQuery.Expr

variable {c e : Expr} {es : List Expr} {f g : Expr → Expr}

theorem sizeOf_lt_of_mem_children (h : c ∈ e.children) : sizeOf c < sizeOf e := by
  cases e with
  | literal | column | aggregateAll => exact absurd h List.not_mem_nil
  | compare op l r | arith op l r =>
    rcases List.mem_cons.1 h with heq | h
    · rw [heq]
      simp +arith
    · rw [List.mem_singleton.1 h]
      simp +arith
  | not e | negate e | isNull n e | aggregate f d e =>
    rw [List.mem_singleton.1 h]
    simp +arith
  | connect op es | call f es =>
    have hlt := List.sizeOf_lt_of_mem (show c ∈ es from h)
    simp only [connect.sizeOf_spec, call.sizeOf_spec]
    omega

/-- To prove something of an expression, it may be assumed of its parts. -/
@[elab_as_elim]
theorem children_induction {motive : Expr → Prop}
    (step : ∀ e, (∀ c ∈ e.children, motive c) → motive e) (e : Expr) : motive e :=
  step e fun c _ => children_induction step c
termination_by e
decreasing_by exact sizeOf_lt_of_mem_children ‹_›

/-- An expression stands somewhere in another. -/
inductive Within : Expr → Expr → Prop
  | self (e : Expr) : Within e e
  | part {x c e : Expr} : c ∈ e.children → Within x c → Within x e

theorem Within.trans {d : Expr} (h : c.Within d) (h' : d.Within e) : c.Within e := by
  induction h' with
  | self => exact h
  | part hmem _ ih => exact .part hmem ih

section Traverse

variable {m : Type → Type} [Monad m] [LawfulMonad m] (enter : Expr → m Unit) (leave : Expr → m Expr)

theorem traverseAll_eq (es : List Expr) :
    traverseAll enter leave es = es.mapM (traverse enter leave) := by
  induction es with
  | nil => rw [traverseAll, List.mapM_nil]
  | cons e es ih => rw [traverseAll, List.mapM_cons, ih]

/-- A node is entered, its parts are traversed, and what comes of them is left. -/
theorem traverse_eq (e : Expr) : e.traverse enter leave =
    (do enter e; let e ← mapChildren (traverse enter leave) e; leave e) := by
  cases e <;>
    simp only [traverse, mapChildren, traverseAll_eq, bind_assoc, pure_bind]

end Traverse

section Labels

/-- What a node is apart from its parts. -/
inductive Label
  | literal (v : Value)
  | column (name : ColumnName)
  | compare (op : Comparison)
  | arith (op : ArithOp)
  | connect (op : Connective)
  | not
  | negate
  | isNull (negated : Bool)
  | call (fn : ScalarFunction)
  | aggregate (fn : AggregateFunction) (distinct : Bool)
  | aggregateAll (fn : AggregateFunction) (distinct : Bool)

def label : Expr → Label
  | literal v => .literal v
  | column n => .column n
  | compare op _ _ => .compare op
  | arith op _ _ => .arith op
  | connect op _ => .connect op
  | not _ => .not
  | negate _ => .negate
  | isNull negated _ => .isNull negated
  | call fn _ => .call fn
  | aggregate fn distinct _ => .aggregate fn distinct
  | aggregateAll fn distinct => .aggregateAll fn distinct

/-- The same node over other parts, if there are as many of them. -/
def withParts : Expr → List Expr → Expr
  | compare op _ _, [l, r] => compare op l r
  | arith op _ _, [l, r] => arith op l r
  | connect op _, es => connect op es
  | not _, [e] => not e
  | negate _, [e] => negate e
  | isNull negated _, [e] => isNull negated e
  | call fn _, es => call fn es
  | aggregate fn distinct _, [e] => aggregate fn distinct e
  | e, _ => e

variable {a b e : Expr} {es : List Expr}

theorem eq_of_label (hlabel : a.label = b.label) (hchildren : a.children = b.children) : a = b := by
  cases a <;> cases b <;> simp_all [label, children]

theorem label_withParts (e : Expr) (es : List Expr) : (e.withParts es).label = e.label := by
  unfold withParts
  split <;> rfl

theorem isAggregate_withParts (e : Expr) (es : List Expr) :
    (e.withParts es).isAggregate = e.isAggregate := by
  unfold withParts
  split <;> rfl

theorem children_withParts (h : es.length = e.children.length) :
    (e.withParts es).children = es := by
  cases e with
  | literal | column | aggregateAll => exact (List.length_eq_zero_iff.1 h).symm
  | compare | arith =>
    obtain ⟨l, r, rfl⟩ := List.length_eq_two.1 h
    rfl
  | not | negate | isNull | aggregate =>
    obtain ⟨a, rfl⟩ := List.length_eq_one_iff.1 h
    rfl
  | connect | call => rfl

theorem withParts_children (e : Expr) : e.withParts e.children = e := by
  cases e <;> rfl

theorem mapChildren_eq {m : Type → Type} [Monad m] [LawfulMonad m] (f : Expr → m Expr) (e : Expr) :
    e.mapChildren f = (do let es ← e.children.mapM f; pure (e.withParts es)) := by
  cases e <;> simp [mapChildren, children, withParts]

end Labels

section Children

theorem mapM_congr {m : Type → Type} [Monad m] [LawfulMonad m] {f g : Expr → m Expr}
    (h : ∀ c ∈ es, f c = g c) : es.mapM f = es.mapM g := by
  induction es with
  | nil => rw [List.mapM_nil, List.mapM_nil]
  | cons e es ih =>
    rw [List.mapM_cons, List.mapM_cons, h e List.mem_cons_self,
      ih fun c hc => h c (List.mem_cons_of_mem e hc)]

theorem mapChildren_congr {m : Type → Type} [Monad m] [LawfulMonad m] {f g : Expr → m Expr}
    (h : ∀ c ∈ e.children, f c = g c) : mapChildren f e = mapChildren g e := by
  rw [mapChildren_eq, mapChildren_eq, mapM_congr h]

/-- The same node with every part mapped by a function. -/
def mapParts (f : Expr → Expr) : Expr → Expr
  | literal v => literal v
  | column c => column c
  | compare op l r => compare op (f l) (f r)
  | arith op l r => arith op (f l) (f r)
  | connect op es => connect op (es.map f)
  | not e => not (f e)
  | negate e => negate (f e)
  | isNull negated e => isNull negated (f e)
  | call g es => call g (es.map f)
  | aggregate g distinct e => aggregate g distinct (f e)
  | aggregateAll g distinct => aggregateAll g distinct

theorem withParts_map (f : Expr → Expr) (e : Expr) :
    e.withParts (e.children.map f) = e.mapParts f := by
  cases e <;> rfl

theorem mapChildren_pure {m : Type → Type} [Monad m] [LawfulMonad m] (f : Expr → Expr) (e : Expr) :
    mapChildren (m := m) (fun c => pure (f c)) e = pure (e.mapParts f) := by
  rw [mapChildren_eq, List.mapM_pure, pure_bind, withParts_map]

theorem mapNodes_eq (f : Expr → Expr) (e : Expr) : e.mapNodes f = f (e.mapParts (mapNodes f)) := by
  have hchildren : mapChildren (m := Id) (mapNodes f) e = e.mapParts (mapNodes f) :=
    mapChildren_pure (m := Id) (mapNodes f) e
  have htraverse : e.mapNodes f = f (mapChildren (m := Id) (mapNodes f) e) :=
    traverse_eq (m := Id) (fun _ => pure ()) (fun x => pure (f x)) e
  rw [htraverse, hchildren]

theorem children_mapParts (f : Expr → Expr) (e : Expr) :
    (e.mapParts f).children = e.children.map f := by
  cases e <;> rfl

theorem column?_eq_some {n : ColumnName} : e.column? = some n ↔ e = column n := by
  cases e <;> simp [column?]

theorem column?_mapParts (f : Expr → Expr) (e : Expr) : (e.mapParts f).column? = e.column? := by
  cases e <;> rfl

theorem isAggregate_mapParts (f : Expr → Expr) (e : Expr) :
    (e.mapParts f).isAggregate = e.isAggregate := by
  cases e <;> rfl

theorem mapParts_mapParts (f g : Expr → Expr) (e : Expr) :
    (e.mapParts f).mapParts g = e.mapParts (g ∘ f) := by
  cases e <;> simp [mapParts]

theorem mapParts_eq_iff : e.mapParts f = e.mapParts g ↔ ∀ c ∈ e.children, f c = g c := by
  cases e <;> simp [mapParts, children]

theorem mapParts_id (e : Expr) : e.mapParts id = e := by
  cases e <;> simp [mapParts]

theorem mapParts_eq_self_iff : e.mapParts f = e ↔ ∀ c ∈ e.children, f c = c := by
  have hiff := mapParts_eq_iff (e := e) (f := f) (g := id)
  rwa [mapParts_id] at hiff

end Children

section Parts

theorem anyOf_eq (p : Expr → Bool) (es : List Expr) : anyOf p es = es.any (any p) := by
  induction es with
  | nil => rfl
  | cons e es ih => rw [anyOf, List.any_cons, ih]

/-- A test passes somewhere in a tree if it does at the root or in one of the parts. -/
theorem any_eq (p : Expr → Bool) (e : Expr) : e.any p = (p e || e.children.any (any p)) := by
  cases e <;> simp [any, children, anyOf_eq]

theorem containsAggregate_eq (e : Expr) :
    e.containsAggregate = (e.isAggregate || e.children.any containsAggregate) :=
  any_eq isAggregate e

theorem containsAggregate_eq_false : e.containsAggregate = false ↔
    e.isAggregate = false ∧ ∀ c ∈ e.children, c.containsAggregate = false := by
  rw [containsAggregate_eq, Bool.or_eq_false_iff, List.any_eq_false]
  simp only [Bool.not_eq_true]

theorem columnsOf_eq (es : List Expr) : columnsOf es = es.flatMap columns := by
  induction es with
  | nil => rfl
  | cons e es ih => rw [columnsOf, List.flatMap_cons, ih]

theorem mem_columns_of_column? {n : ColumnName} (h : e.column? = some n) : n ∈ e.columns := by
  rw [column?_eq_some.1 h]
  exact List.mem_singleton_self n

theorem columns_eq (h : e.column? = none) : e.columns = e.children.flatMap columns := by
  cases e <;> simp_all [columns, children, columnsOf_eq, column?]

theorem columns_subset_of_mem_children (h : c ∈ e.children) : c.columns ⊆ e.columns := by
  cases hcolumn : e.column? with
  | none =>
    rw [columns_eq hcolumn]
    exact fun r hr => List.mem_flatMap.2 ⟨c, h, hr⟩
  | some n =>
    rw [column?_eq_some.1 hcolumn] at h
    exact absurd h List.not_mem_nil

end Parts

end RelQuery.Expr
