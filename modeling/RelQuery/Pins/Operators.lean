import RelQuery.Pins.Counts
import RelQuery.Plan

namespace RelQuery

/-- The tuples that an operator and those below it hold, and the pins that each operation takes and
gives up, in their order. -/
structure Operator.Pins (o : Operator) where
  /-- The left rows that joins have in hand. -/
  inHand : o.State → List Tuple
  /-- The rows that marks remember and that buffers are loaded with. -/
  setAside : o.State → List Tuple
  next : Storage → o.State → List PinEvent
  rewind : o.State → List PinEvent
  mark : o.State → List PinEvent
  reset : o.State → List PinEvent
  cleanUp : o.State → List PinEvent

def Operator.Pins.leaf {κ : Type} {kind : OperatorKind} {label : String}
    {profile : Config → Except QueryError Profile} {source : Leaf.Source κ}
    (pull : Storage → Schema → κ → List PinEvent) :
    (Operator.leaf kind label profile source).Pins where
  inHand _ := []
  setAside _ := []
  next db (s : Leaf κ) := pull db s.status.schema s.position
  rewind _ := []
  mark _ := []
  reset _ := []
  cleanUp _ := []

namespace Scan

/-- A row that is not accepted, or that fails the test, is dropped. -/
def pullPins (test : Tuple → Except QueryError Bool) (db : Storage) (table : String) :
    Nat → Position → List PinEvent
  | 0, _ => []
  | fuel + 1, p =>
    if p.done then []
    else
      match db.readFrom table p.page p.slot with
      | none => []
      | some t =>
        t.taken ++
          match test t with
          | .error _ => t.released
          | .ok true => []
          | .ok false =>
            t.released ++ pullPins test db table fuel ((t.location?.map Position.behind).getD p)

def nextPins (table : TableInfo) (predicate : Option Expr) (db : Storage) (s : Schema)
    (p : Position) : List PinEvent :=
  pullPins (accepts s predicate) db table.name (remaining db table.name p + 1) p

end Scan

def Operator.Pins.scan (table : TableInfo) (predicate : Option Expr) :
    (Operator.scan table predicate).Pins :=
  .leaf (Scan.nextPins table predicate)

def Operator.Pins.values (schema : Schema) (rows : List Row) : (Operator.values schema rows).Pins :=
  .leaf fun _ _ _ => []

/-- An operator that has no state of its own in a run passes the calls on. -/
def Operator.Pins.wrapped {κ : Type} {kind : OperatorKind} {label : String} {marks : Bool}
    {refusal : StateError} {orderedBy : List OrderKey} {child : Operator}
    {body : Wrapped.Body κ child} (pins : child.Pins)
    (next : Storage → Wrapped κ child.State → List PinEvent) :
    (Operator.wrapped kind label marks refusal orderedBy child body).Pins where
  inHand (s : Wrapped κ child.State) := pins.inHand s.child
  setAside (s : Wrapped κ child.State) := pins.setAside s.child
  next := next
  rewind (s : Wrapped κ child.State) := if s.status.prepared then pins.rewind s.child else []
  mark (s : Wrapped κ child.State) := if marks then pins.mark s.child else []
  reset (s : Wrapped κ child.State) := if marks then pins.reset s.child else []
  cleanUp (s : Wrapped κ child.State) := pins.cleanUp s.child

/-- A tuple that is not accepted, or that fails the test, is dropped. -/
def Filter.pullPins {σ : Type} (test : Tuple → Except QueryError Bool)
    (next : σ → Outcome (Option Tuple) σ) (pins : σ → List PinEvent) : Nat → σ → List PinEvent
  | 0, _ => []
  | fuel + 1, s =>
    pins s ++
      match next s with
      | (.ok (some t), s) =>
        match test t with
        | .error _ => t.released
        | .ok true => []
        | .ok false => t.released ++ pullPins test next pins fuel s
      | _ => []

def Operator.Pins.filter (predicate : Expr) {child : Operator} (pins : child.Pins) :
    (Operator.filter predicate child).Pins :=
  .wrapped pins fun db s =>
    Filter.pullPins (Operator.accepts s.status.schema predicate) (child.next db) (pins.next db)
      (child.remaining db s.child + 1) s.child

def given : Except QueryError (Option Tuple) → List Tuple
  | .ok (some t) => [t]
  | _ => []

/-- The input row is dropped once the output row is computed, or has failed to be. -/
def Operator.Pins.project (items : List SelectItem) {child : Operator} (pins : child.Pins) :
    (Operator.project items child).Pins :=
  .wrapped pins fun db s =>
    pins.next db s.child ++ Tuple.releaseAll (given (child.next db s.child).1)

def Operator.Pins.rename (table : String) {child : Operator} (pins : child.Pins) :
    (Operator.rename table child).Pins :=
  .wrapped pins fun db s => pins.next db s.child

def Operator.Pins.barrier {child : Operator} (pins : child.Pins) :
    (Operator.barrier child).Pins :=
  .wrapped pins fun db s => pins.next db s.child

namespace Limit

variable {σ : Type}

def skipPins (next : σ → Outcome (Option Tuple) σ) (pins : σ → List PinEvent) :
    Nat → σ → List PinEvent
  | 0, _ => []
  | n + 1, s =>
    pins s ++
      match next s with
      | (.ok (some t), s) => t.released ++ skipPins next pins n s
      | _ => []

def nextPins (limit : Option Nat) (offset : Nat) (pull : σ → Outcome (Option Tuple) σ)
    (pins : σ → List PinEvent) (s : State σ) : List PinEvent :=
  if s.counters.done || reached limit s.counters then []
  else
    skipPins pull pins (offset - s.counters.skipped) s.child ++
      match skip pull (offset - s.counters.skipped) s.counters s.child with
      | (.ok true, _, cs) => pins cs
      | _ => []

end Limit

def Operator.Pins.limit (limit : Option Nat) (offset : Nat) {child : Operator} (pins : child.Pins) :
    (Operator.limit limit offset child).Pins where
  inHand (s : Limit.State child.State) := pins.inHand s.child
  setAside (s : Limit.State child.State) := pins.setAside s.child
  next db := Limit.nextPins limit offset (child.next db) (pins.next db)
  rewind (s : Limit.State child.State) :=
    if s.status.prepared then pins.rewind s.child else []
  mark (s : Limit.State child.State) := if child.marks then pins.mark s.child else []
  reset (s : Limit.State child.State) :=
    if child.marks && s.mark.isSome then pins.reset s.child else []
  cleanUp (s : Limit.State child.State) := pins.cleanUp s.child

namespace Buffered

variable {σ β : Type}

/-- A tuple is dropped, or unpinned, when it has been taken in. -/
def foldPins (step : β → Tuple → Except QueryError β) (next : σ → Outcome (Option Tuple) σ)
    (pins : σ → List PinEvent) : Nat → β → σ → List PinEvent
  | 0, _, _ => []
  | fuel + 1, b, s =>
    pins s ++
      match next s with
      | (.ok (some t), s) =>
        t.released ++
          match step b t with
          | .error _ => []
          | .ok b => foldPins step next pins fuel b s
      | _ => []

/-- What is handed out is a copy of the row in the buffer. -/
def handPins (s : Buffered σ) : List PinEvent := Tuple.takeAll (s.rows[s.position]?).toList

/-- A buffer that is loaded anew gives up the rows it had. -/
def nextPins (load : σ → Outcome (List Tuple) σ) (pins : σ → List PinEvent) (s : Buffered σ) :
    List PinEvent :=
  if s.loaded then s.handPins
  else
    pins s.child ++
      match load s.child with
      | (.error _, _) => []
      | (.ok rows, c) =>
        Tuple.releaseAll s.rows ++ handPins { s with rows := rows, loaded := true, child := c }

end Buffered

def Operator.Pins.buffered {kind : OperatorKind} {orderedBy : List OrderKey} {label : String}
    {child : Operator} {profile : Config → Status → Except QueryError Profile}
    {loader : Buffered.Loader child} (pins : child.Pins)
    (load : Storage → child.State → List PinEvent) :
    (Operator.buffered kind orderedBy label child profile loader).Pins where
  inHand (s : Buffered child.State) := pins.inHand s.child
  setAside (s : Buffered child.State) := s.rows ++ pins.setAside s.child
  next db := Buffered.nextPins (loader.load db) (load db)
  rewind (s : Buffered child.State) :=
    if s.status.prepared then Tuple.releaseAll s.rows ++ pins.rewind s.child else []
  mark _ := []
  reset _ := []
  cleanUp (s : Buffered child.State) := Tuple.releaseAll s.rows ++ pins.cleanUp s.child

def Operator.Pins.sort (keys : List OrderKey) {child : Operator} (pins : child.Pins) :
    (Operator.sort keys child).Pins :=
  .buffered pins fun db s =>
    Buffered.foldPins (Sorting.collect (child.status s).schema keys) (child.next db) (pins.next db)
      (child.remaining db s + 1) [] s

def Operator.Pins.group (groupBy : List Expr) (aggregates : AggregateMap) {child : Operator}
    (pins : child.Pins) : (Operator.group groupBy aggregates child).Pins :=
  .buffered pins fun db s =>
    Buffered.foldPins (Group.step (child.status s).schema groupBy aggregates.calls) (child.next db)
      (pins.next db) (child.remaining db s + 1) [] s

namespace Join

variable {σ τ : Type}

/-- The pins of the two children, as far as the machine uses them. -/
structure InputPins (σ τ : Type) where
  nextLeft : σ → List PinEvent
  nextRight : τ → List PinEvent
  rewindRight : τ → List PinEvent

/-- The left row in hand is dropped before the next one is asked for. -/
def advancePins (kind : JoinKind) (inputs : Inputs σ τ) (pins : InputPins σ τ) (p : Progress)
    (l : σ)
    (r : τ) : List PinEvent :=
  Tuple.releaseAll p.kept ++
    (pins.nextLeft l ++
      match (inputs.nextLeft l).1 with
      | .error _ => []
      | .ok (some _) => pins.rewindRight r
      | .ok none => if kind = .fullOuter then pins.rewindRight r else [])

/-- A left row that is still to come out alone stays in hand. -/
def endOfRightPins (kind : JoinKind) (inputs : Inputs σ τ) (pins : InputPins σ τ) (matched : Bool)
    (p : Progress) (l : σ) (r : τ) : List PinEvent :=
  if p.rightEmpty && kind.needsRight then Tuple.releaseAll p.kept
  else if !matched && kind.preservesLeft then []
  else if !matched && kind == .anti then []
  else advancePins kind inputs pins p l r

/-- A right row is dropped as soon as it has met the left one. -/
def stepPins (kind : JoinKind) (inputs : Inputs σ τ) (pins : InputPins σ τ) (p : Progress) (l : σ)
    (r : τ) : List PinEvent :=
  match p.phase with
  | .exhausted | .padding | .unmatched => []
  | .start => advancePins kind inputs pins p l r
  | .scanning matched =>
    if p.leftDone then advancePins kind inputs pins p l r
    else
      pins.nextRight r ++
        match inputs.nextRight r with
        | (.error _, _) => []
        | (.ok none, r) => endOfRightPins kind inputs pins matched p l r
        | (.ok (some u), _) => u.released
  | .rightUnmatched => pins.nextRight r ++ Tuple.releaseAll (given (inputs.nextRight r).1)

def runPins (move : Progress → σ → τ → Step σ τ) (pins : Progress → σ → τ → List PinEvent) :
    Nat → Progress → σ → τ → List PinEvent
  | 0, _, _, _ => []
  | fuel + 1, p, l, r =>
    pins p l r ++
      match move p l r with
      | (.ok .again, p, l, r) => runPins move pins fuel p l r
      | _ => []

/-- The pins of two operators, as the machine uses them. -/
def inputPins {left right : Operator} (pins : left.Pins) (pins' : right.Pins) (db : Storage) :
    InputPins left.State right.State :=
  ⟨pins.next db, pins'.next db, pins'.rewind⟩

def nextPins (kind : JoinKind) (predicate : Option Expr) {left right : Operator} (pins : left.Pins)
    (pins' : right.Pins) (db : Storage) (s : State left.State right.State) : List PinEvent :=
  runPins (move kind predicate left right db s.leftSchema s.rightSchema)
    (stepPins kind (inputs left right db) (inputPins pins pins' db))
    (movesLeft left right db s.progress s.left s.right + 1) s.progress s.left s.right

/-- The right child is called when the call of the left one succeeds. -/
def bothPins (f : σ → Outcome Unit σ) (pins : σ → List PinEvent) (pins' : τ → List PinEvent)
    (s : State σ τ) : List PinEvent :=
  pins s.left ++
    match (f s.left).1 with
    | .error _ => []
    | .ok _ => pins' s.right

variable (f : σ → Outcome Unit σ) (g : τ → Outcome Unit τ) (pins : σ → List PinEvent)
  (pins' : τ → List PinEvent)

/-- The left row in hand is dropped when both children have started. -/
def rewindPins (s : State σ τ) : List PinEvent :=
  if s.status.prepared then
    bothPins f pins pins' s ++
      match (both f g s).1 with
      | .error _ => []
      | .ok _ => Tuple.releaseAll s.progress.kept
  else []

def State.remembered (s : State σ τ) : List Tuple := (s.mark.map Progress.kept).getD []

def markPins (marks : Bool) (s : State σ τ) : List PinEvent :=
  if marks then
    bothPins f pins pins' s ++
      match (both f g s).1 with
      | .error _ => []
      | .ok _ => Tuple.takeAll s.progress.remembered.kept ++ Tuple.releaseAll s.remembered
  else []

/-- A copy of the mark takes the place of the row in hand, or is dropped when a child fails. -/
def resetPins (marks : Bool) (s : State σ τ) : List PinEvent :=
  if marks && s.mark.isSome then
    Tuple.takeAll s.remembered ++
      (bothPins f pins pins' s ++
        match (both f g s).1 with
        | .error _ => Tuple.releaseAll s.remembered
        | .ok _ => Tuple.releaseAll s.progress.kept)
  else []

end Join

def Operator.Pins.join (kind : JoinKind) (predicate : Option Expr) (swapped : Bool)
    {left right : Operator} (pins : left.Pins) (pins' : right.Pins) :
    (Operator.join kind predicate swapped left right).Pins where
  inHand (s : Join.State left.State right.State) :=
    s.progress.kept ++ pins.inHand s.left ++ pins'.inHand s.right
  setAside (s : Join.State left.State right.State) :=
    s.remembered ++ pins.setAside s.left ++ pins'.setAside s.right
  next := Join.nextPins kind predicate pins pins'
  rewind := Join.rewindPins left.rewind right.rewind pins.rewind pins'.rewind
  mark := Join.markPins left.mark right.mark pins.mark pins'.mark (left.marks && right.marks)
  reset := Join.resetPins left.reset right.reset pins.reset pins'.reset (left.marks && right.marks)
  cleanUp (s : Join.State left.State right.State) :=
    Tuple.releaseAll s.progress.kept ++ (pins.cleanUp s.left ++ pins'.cleanUp s.right)

def Plan.pins : (p : Plan) → p.operator.Pins
  | scan t p => .scan t p
  | values s rows => .values s rows
  | filter p c => .filter p c.pins
  | project items c => .project items c.pins
  | rename t c => .rename t c.pins
  | sort keys c => .sort keys c.pins
  | limit l o c => .limit l o c.pins
  | group keys calls c => .group keys calls c.pins
  | join k p swapped l r => .join k p swapped l.pins r.pins
  | barrier c => .barrier c.pins

namespace Cursor

/-- The left rows that the joins of the plan have in hand. -/
def inHand (c : Cursor) : List Tuple := c.plan.pins.inHand c.state

/-- The rows that the marks and the buffers of the plan hold. -/
def setAside (c : Cursor) : List Tuple := c.plan.pins.setAside c.state

def nextPins (c : Cursor) (db : Storage) : List PinEvent := c.plan.pins.next db c.state

def rewindPins (c : Cursor) : List PinEvent := c.plan.pins.rewind c.state

def cleanUpPins (c : Cursor) : List PinEvent := c.plan.pins.cleanUp c.state

/-- A tuple that comes is unpinned, or dropped, before the next one is asked for. -/
def drainPinsFor (db : Storage) : Nat → Cursor → List PinEvent
  | 0, _ => []
  | fuel + 1, c =>
    c.nextPins db ++
      match c.next db with
      | (.ok (some t), c) => t.released ++ drainPinsFor db fuel c
      | _ => []

def drainPins (c : Cursor) (db : Storage) : List PinEvent := drainPinsFor db (c.remaining db + 1) c

/-- The cursor is cleaned up only when the run succeeds. -/
def collectPins (c : Cursor) (db : Storage) : List PinEvent :=
  c.rewindPins ++
    match c.rewind with
    | (.error _, _) => []
    | (.ok _, c) =>
      c.drainPins db ++
        match c.drain db with
        | (_, .error _, _) => []
        | (_, .ok _, c) => c.cleanUpPins

end Cursor

end RelQuery
