import RelQuery.Expr.Basic

namespace RelQuery.Expr

variable {m : Type → Type} [Monad m]

/-- The same node with every part mapped, from left to right. -/
def mapChildren (f : Expr → m Expr) : Expr → m Expr
  | literal v => pure (literal v)
  | column c => pure (column c)
  | compare op l r => do
    let l ← f l
    let r ← f r
    pure (compare op l r)
  | arith op l r => do
    let l ← f l
    let r ← f r
    pure (arith op l r)
  | connect op es => do
    let es ← es.mapM f
    pure (connect op es)
  | not e => do
    let e ← f e
    pure (not e)
  | negate e => do
    let e ← f e
    pure (negate e)
  | isNull negated e => do
    let e ← f e
    pure (isNull negated e)
  | call g es => do
    let es ← es.mapM f
    pure (call g es)
  | aggregate g distinct e => do
    let e ← f e
    pure (aggregate g distinct e)
  | aggregateAll g distinct => pure (aggregateAll g distinct)

variable (enter : Expr → m Unit) (leave : Expr → m Expr)

mutual
/-- Enters each node in pre-order and leaves it, rebuilt from its new parts, in post-order.
What `leave` puts in the place of a node is not visited again. -/
def traverse : Expr → m Expr
  | literal v => do
    enter (literal v)
    leave (literal v)
  | column c => do
    enter (column c)
    leave (column c)
  | compare op l r => do
    enter (compare op l r)
    let l ← traverse l
    let r ← traverse r
    leave (compare op l r)
  | arith op l r => do
    enter (arith op l r)
    let l ← traverse l
    let r ← traverse r
    leave (arith op l r)
  | connect op es => do
    enter (connect op es)
    let es ← traverseAll es
    leave (connect op es)
  | not e => do
    enter (not e)
    let e ← traverse e
    leave (not e)
  | negate e => do
    enter (negate e)
    let e ← traverse e
    leave (negate e)
  | isNull negated e => do
    enter (isNull negated e)
    let e ← traverse e
    leave (isNull negated e)
  | call g es => do
    enter (call g es)
    let es ← traverseAll es
    leave (call g es)
  | aggregate g distinct e => do
    enter (aggregate g distinct e)
    let e ← traverse e
    leave (aggregate g distinct e)
  | aggregateAll g distinct => do
    enter (aggregateAll g distinct)
    leave (aggregateAll g distinct)

def traverseAll : List Expr → m (List Expr)
  | [] => pure []
  | e :: es => do
    let e ← traverse e
    let es ← traverseAll es
    pure (e :: es)
end

/-- Maps every node, from the leaves upwards. -/
def mapNodes (f : Expr → Expr) (e : Expr) : Expr :=
  traverse (m := Id) (fun _ => pure ()) (fun x => pure (f x)) e

end RelQuery.Expr
