import RelQuery.Operator.Basic

namespace RelQuery

namespace Join

/-- What the machine does next. -/
inductive Phase
  | start
  | scanning (matched : Bool)
  | padding
  | unmatched
  | rightUnmatched
  | exhausted
  deriving DecidableEq

/-- The part of the state that a mark remembers. -/
structure Progress where
  phase : Phase
  /-- The left row in hand. -/
  left : Option Tuple
  /-- The left row in hand needs no more right rows. -/
  leftDone : Bool
  /-- No right row has been seen in this run. -/
  rightEmpty : Bool
  /-- The number of right rows read for the left row in hand. -/
  ordinal : Nat
  /-- Which right rows, by their number, have had a partner. -/
  matchedRight : List Bool
  deriving DecidableEq

def Progress.fresh : Progress := ⟨.start, none, false, true, 0, []⟩

structure State (σ τ : Type) where
  status : Status
  leftSchema : Schema
  rightSchema : Schema
  progress : Progress
  mark : Option Progress
  left : σ
  right : τ

variable {σ τ : Type}

/-- The outcome of one move. -/
inductive Move
  | again
  | row (r : Row)
  | finished

abbrev Step (σ τ : Type) := Outcome Move (Progress × σ × τ)

/-- The two children, as far as the machine uses them. -/
structure Inputs (σ τ : Type) where
  nextLeft : σ → Outcome (Option Tuple) σ
  nextRight : τ → Outcome (Option Tuple) τ
  rewindRight : τ → Outcome Unit τ

/-- Starts the right input again and goes on in the given phase. -/
def rewindFor (inputs : Inputs σ τ) (phase : Phase) (p : Progress) (l : σ) (r : τ) : Step σ τ :=
  match inputs.rewindRight r with
  | (.error e, r) => (.error e, p, l, r)
  | (.ok _, r) => (.ok .again, { p with ordinal := 0, phase := phase }, l, r)

/-- Gives up the left row in hand and takes the next one. -/
def advance (kind : JoinKind) (inputs : Inputs σ τ) (p : Progress) (l : σ) (r : τ) : Step σ τ :=
  let p := { p with left := none, leftDone := false }
  match inputs.nextLeft l with
  | (.error e, l) => (.error e, p, l, r)
  | (.ok (some t), l) => rewindFor inputs (.scanning false) { p with left := some t } l r
  | (.ok none, l) =>
    if kind = .fullOuter then rewindFor inputs .rightUnmatched p l r
    else (.ok .again, { p with phase := .exhausted }, l, r)

def settle (p : Progress) : Progress := { p with phase := .scanning true, leftDone := true }

/-- A list of flags in which a place has been set, if it exists. -/
def setFlag (flags : List Bool) (n : Nat) : List Bool := flags.set n true

/-- A list of flags that has at least so many places. -/
def extendFlags (flags : List Bool) (n : Nat) : List Bool :=
  flags ++ List.replicate (n - flags.length) false

/-- The right input has come to its end for the left row in hand. -/
def endOfRight (kind : JoinKind) (inputs : Inputs σ τ) (matched : Bool) (p : Progress) (l : σ)
    (r : τ) : Step σ τ :=
  if p.rightEmpty && kind.needsRight then
    (.ok .again, { p with left := none, phase := .exhausted }, l, r)
  else if !matched && kind.preservesLeft then (.ok .again, { p with phase := .padding }, l, r)
  else if !matched && kind == .anti then (.ok .again, { p with phase := .unmatched }, l, r)
  else advance kind inputs p l r

/-- The left row in hand has met a right row that matches. -/
def found (kind : JoinKind) (p : Progress) (ordinal : Nat) (t u : Tuple) :
    Except QueryError Move × Progress :=
  match kind with
  | .inner | .cross | .leftOuter | .fullOuter =>
    (.ok (.row (t.values ++ u.values)),
      { p with phase := .scanning true, matchedRight := setFlag p.matchedRight ordinal })
  | .semi => (.ok (.row t.values), settle p)
  | .anti => (.ok .again, settle p)
  | .rightOuter => (.error (.configuration .rightOuterJoin), p)

/-- A right row has been read for the left row in hand. -/
def meet (kind : JoinKind) (test : Tuple → Tuple → Except QueryError Bool) (p : Progress)
    (u : Tuple) : Except QueryError Move × Progress :=
  let ordinal := p.ordinal
  let p :=
    { p with
      ordinal := ordinal + 1
      rightEmpty := false
      matchedRight :=
        if kind = JoinKind.fullOuter then extendFlags p.matchedRight (ordinal + 1)
        else p.matchedRight }
  match p.left with
  | none => (.ok .again, { p with phase := .exhausted })
  | some t =>
    match test t u with
    | .error e => (.error e, p)
    | .ok false => (.ok .again, p)
    | .ok true => found kind p ordinal t u

def step (kind : JoinKind) (inputs : Inputs σ τ) (test : Tuple → Tuple → Except QueryError Bool)
    (leftWidth rightWidth : Nat) (p : Progress) (l : σ) (r : τ) : Step σ τ :=
  match p.phase with
  | .exhausted => (.ok .finished, p, l, r)
  | .start => advance kind inputs p l r
  | .scanning matched =>
    if p.leftDone then advance kind inputs p l r
    else
      match inputs.nextRight r with
      | (.error e, r) => (.error e, p, l, r)
      | (.ok none, r) => endOfRight kind inputs matched p l r
      | (.ok (some u), r) =>
        let (m, p) := meet kind test p u
        (m, p, l, r)
  | .padding =>
    match p.left with
    | some t => (.ok (.row (t.values ++ Tuple.nulls rightWidth)), settle p, l, r)
    | none => (.ok .again, settle p, l, r)
  | .unmatched =>
    match p.left with
    | some t => (.ok (.row t.values), settle p, l, r)
    | none => (.ok .again, settle p, l, r)
  | .rightUnmatched =>
    match inputs.nextRight r with
    | (.error e, r) => (.error e, p, l, r)
    | (.ok none, r) => (.ok .again, { p with phase := .exhausted }, l, r)
    | (.ok (some u), r) =>
      let move : Move :=
        if (p.matchedRight[p.ordinal]?).getD false then .again
        else .row (Tuple.nulls leftWidth ++ u.values)
      (.ok move, { p with ordinal := p.ordinal + 1 }, l, r)

/-- Repeats moves until a row comes out or the end is reached. -/
def run (move : Progress → σ → τ → Step σ τ) :
    Nat → Progress → σ → τ → Outcome (Option Row) (Progress × σ × τ)
  | 0, p, l, r => (.ok none, p, l, r)
  | fuel + 1, p, l, r =>
    match move p l r with
    | (.error e, s) => (.error e, s)
    | (.ok .finished, s) => (.ok none, s)
    | (.ok (.row x), s) => (.ok (some x), s)
    | (.ok .again, p, l, r) => run move fuel p l r

/-- A pair of rows matches where the predicate is true, and always without one. -/
def matches? (predicate : Option Expr) (s s' : Schema) (t u : Tuple) : Except QueryError Bool :=
  match predicate with
  | none => .ok true
  | some p => (p.holds (.pair s t.values s' u.values)).mapError .evaluation

/-- Puts the columns of the right input in front. -/
def exchange (leftWidth : Nat) (r : List α) : List α := r.drop leftWidth ++ r.take leftWidth

/-- The moves that one left row can take, when a run of the right input has at most `supply`
rows. -/
def movesPerLeft (supply : Nat) : Nat := supply + 4

/-- A bound on the moves still to come, from bounds on the rows of the two inputs. -/
def remaining (supply left right : Nat) (p : Progress) : Nat :=
  let rest := left * movesPerLeft supply + movesPerLeft supply
  match p.phase with
  | .exhausted => 0
  | .rightUnmatched => right + 1
  | .padding | .unmatched => rest + 2
  | .start => rest + 1
  | .scanning _ => if p.leftDone then rest + 1 else rest + right + 3

section Bound

variable {kind : JoinKind} {inputs : Inputs σ τ} {ml : σ → Nat} {mr : τ → Nat} {supply : Nat}
  {p p' : Progress} {l l' : σ} {r r' : τ} {m : Move}

theorem rewindFor_ok {phase : Phase} (h : rewindFor inputs phase p l r = (.ok m, p', l', r')) :
    inputs.rewindRight r = (.ok (), r') ∧ m = .again ∧
      p' = { p with ordinal := 0, phase := phase } ∧ l' = l := by
  unfold rewindFor at h
  split at h
  · simp at h
  · next r₁ hr =>
    simp only [Prod.mk.injEq, Except.ok.injEq] at h
    obtain ⟨rfl, rfl, rfl, rfl⟩ := h
    exact ⟨hr, rfl, rfl, rfl⟩

variable (hl : ∀ {l l' t}, inputs.nextLeft l = (.ok (some t), l') → ml l' < ml l)
  (hr : ∀ {r r' u}, inputs.nextRight r = (.ok (some u), r') → mr r' < mr r)
  (hw : ∀ {r r'}, inputs.rewindRight r = (.ok (), r') → mr r' ≤ supply)

include hl hw in
theorem advance_le (h : advance kind inputs p l r = (.ok m, p', l', r')) :
    remaining supply (ml l') (mr r') p' ≤
      ml l * movesPerLeft supply + movesPerLeft supply := by
  unfold advance at h
  split at h
  · simp at h
  · next t l₁ hl₁ =>
    obtain ⟨hr₁, -, rfl, rfl⟩ := rewindFor_ok h
    have hlt : (ml l' + 1) * movesPerLeft supply ≤ ml l * movesPerLeft supply :=
      Nat.mul_le_mul_right _ (hl hl₁)
    have hle := hw hr₁
    simp only [remaining, Bool.false_eq_true, if_false, Nat.add_mul, movesPerLeft] at hlt ⊢
    omega
  · split at h
    · obtain ⟨hr₁, -, rfl, -⟩ := rewindFor_ok h
      have hle := hw hr₁
      simp only [remaining, movesPerLeft]
      omega
    · simp only [Prod.mk.injEq] at h
      obtain ⟨-, rfl, -, -⟩ := h
      simp [remaining]

theorem remaining_settle (left right : Nat) : remaining supply left right (settle p) =
    left * movesPerLeft supply + movesPerLeft supply + 1 := rfl

theorem meet_le {test : Tuple → Tuple → Except QueryError Bool} {u : Tuple} {left right : Nat}
    {matched : Bool} (h : p.phase = .scanning matched) :
    remaining supply left right (meet kind test p u).2 ≤
      left * movesPerLeft supply + movesPerLeft supply + right + 3 := by
  have hscan : ∀ q : Progress, q.phase = .scanning matched ∨ q.phase = .scanning true →
      remaining supply left right q ≤
        left * movesPerLeft supply + movesPerLeft supply + right + 3 := by
    rintro q (hq | hq) <;> simp only [remaining, hq] <;> split <;> omega
  unfold meet
  simp only
  split
  · simp [remaining]
  · split
    · exact hscan _ (.inl h)
    · exact hscan _ (.inl h)
    · cases kind
      case semi | anti => exact hscan _ (.inr rfl)
      case rightOuter => exact hscan _ (.inl h)
      all_goals exact hscan _ (.inr rfl)

include hl hw in
theorem endOfRight_le {matched : Bool}
    (h : endOfRight kind inputs matched p l r = (.ok m, p', l', r')) :
    remaining supply (ml l') (mr r') p' ≤
      ml l * movesPerLeft supply + movesPerLeft supply + 2 := by
  unfold endOfRight at h
  split at h
  · simp only [Prod.mk.injEq] at h
    obtain ⟨-, rfl, -, -⟩ := h
    simp [remaining]
  · split at h
    · simp only [Prod.mk.injEq] at h
      obtain ⟨-, rfl, rfl, -⟩ := h
      simp [remaining]
    · split at h
      · simp only [Prod.mk.injEq] at h
        obtain ⟨-, rfl, rfl, -⟩ := h
        simp [remaining]
      · have := advance_le hl hw h
        omega

include hl hr hw in
theorem step_lt {test : Tuple → Tuple → Except QueryError Bool} {leftWidth rightWidth : Nat}
    (hp : p.phase ≠ .exhausted)
    (h : step kind inputs test leftWidth rightWidth p l r = (.ok m, p', l', r')) :
    remaining supply (ml l') (mr r') p' < remaining supply (ml l) (mr r) p := by
  have hrest : p.phase = .padding ∨ p.phase = .unmatched → remaining supply (ml l) (mr r) p =
      ml l * movesPerLeft supply + movesPerLeft supply + 2 := by
    rintro (hp | hp) <;> simp only [remaining, hp]
  unfold step at h
  split at h
  · next hphase => exact absurd hphase hp
  · next hphase =>
    have hle := advance_le hl hw h
    simp only [remaining, hphase] at hle ⊢
    omega
  · next matched hphase =>
    split at h
    · next hdone =>
      have hle := advance_le hl hw h
      simp only [remaining, hphase, hdone, if_true] at hle ⊢
      omega
    · next hdone =>
      have hnow : remaining supply (ml l) (mr r) p =
          ml l * movesPerLeft supply + movesPerLeft supply + mr r + 3 := by
        simp only [remaining, hphase, hdone, Bool.false_eq_true, if_false]
      split at h
      · simp at h
      · have hle := endOfRight_le hl hw h
        omega
      · next u r₁ hr₁ =>
        have hlt := hr hr₁
        simp only [Prod.mk.injEq] at h
        obtain ⟨-, rfl, rfl, rfl⟩ := h
        have hle : remaining supply (ml l) (mr r₁) (meet kind test p u).2 ≤
            ml l * movesPerLeft supply + movesPerLeft supply + mr r₁ + 3 := meet_le hphase
        omega
  · next hphase =>
    have hnow := hrest (.inl hphase)
    split at h <;>
    · simp only [Prod.mk.injEq] at h
      obtain ⟨-, rfl, rfl, rfl⟩ := h
      rw [remaining_settle]
      omega
  · next hphase =>
    have hnow := hrest (.inr hphase)
    split at h <;>
    · simp only [Prod.mk.injEq] at h
      obtain ⟨-, rfl, rfl, rfl⟩ := h
      rw [remaining_settle]
      omega
  · next hphase =>
    have hnow : remaining supply (ml l) (mr r) p = mr r + 1 := by simp only [remaining, hphase]
    split at h
    · simp at h
    · simp only [Prod.mk.injEq] at h
      obtain ⟨-, rfl, -, -⟩ := h
      simp [remaining, hphase]
    · next u r₁ hr₁ =>
      have hlt := hr hr₁
      simp only [Prod.mk.injEq] at h
      obtain ⟨-, rfl, rfl, rfl⟩ := h
      simp only [remaining, hphase]
      omega

theorem run_lt {move : Progress → σ → τ → Step σ τ} (measure : Progress → σ → τ → Nat)
    (hmove : ∀ {p l r m p' l' r'}, move p l r = (.ok m, p', l', r') → m ≠ .finished →
      measure p' l' r' < measure p l r) {fuel : Nat} {x : Row}
    (h : run move fuel p l r = (.ok (some x), p', l', r')) : measure p' l' r' < measure p l r := by
  induction fuel generalizing p l r with
  | zero => simp [run] at h
  | succ fuel ih =>
    rw [run] at h
    split at h
    · simp at h
    · simp at h
    · next y s hs =>
      obtain ⟨-, rfl⟩ := Prod.mk.inj h
      exact hmove hs (by simp)
    · next q l₁ r₁ hq => exact Nat.lt_trans (ih h) (hmove hq (by simp))

end Bound

def inputs (left right : Operator) (db : Storage) : Inputs left.State right.State :=
  ⟨left.next db, right.next db, right.rewind⟩

def movesLeft (left right : Operator) (db : Storage) (p : Progress) (l : left.State)
    (r : right.State) : Nat :=
  remaining (right.supply db) (left.remaining db l) (right.remaining db r) p

/-- One move over two operators, for rows of the given schemas. -/
def move (kind : JoinKind) (predicate : Option Expr) (left right : Operator) (db : Storage)
    (leftSchema rightSchema : Schema) (p : Progress) (l : left.State) (r : right.State) :
    Step left.State right.State :=
  step kind (inputs left right db) (matches? predicate leftSchema rightSchema) leftSchema.width
    rightSchema.width p l r

theorem move_lt {kind : JoinKind} {predicate : Option Expr} {left right : Operator} {db : Storage}
    {leftSchema rightSchema : Schema} {p p' : Progress} {l l' : left.State} {r r' : right.State}
    {m : Move}
    (h : move kind predicate left right db leftSchema rightSchema p l r = (.ok m, p', l', r'))
    (hm : m ≠ .finished) : movesLeft left right db p' l' r' < movesLeft left right db p l r := by
  refine step_lt left.next_lt right.next_lt right.rewind_le (fun hp => ?_) h
  simp only [move, step, hp, Prod.mk.injEq, Except.ok.injEq] at h
  exact hm h.1.symm

/-- The columns of a result row in the order of the output. -/
def dress (swapped : Bool) (leftWidth : Nat) (r : Row) : Row :=
  if swapped then exchange leftWidth r else r

def next (kind : JoinKind) (predicate : Option Expr) (swapped : Bool) (left right : Operator)
    (db : Storage) (s : State left.State right.State) :
    Outcome (Option Tuple) (State left.State right.State) :=
  let (r, p, l, r') :=
    run (move kind predicate left right db s.leftSchema s.rightSchema)
      (movesLeft left right db s.progress s.left s.right + 1) s.progress s.left s.right
  let s' := { s with progress := p, left := l, right := r' }
  match r with
  | .error e => (.error e, s')
  | .ok none => (.ok none, s')
  | .ok (some row) =>
    (.ok (some (.computed (dress swapped s.leftSchema.width row))),
      { s' with status := s.status.count })

theorem next_some {kind : JoinKind} {predicate : Option Expr} {swapped : Bool}
    {left right : Operator} {db : Storage} {s s' : State left.State right.State} {t : Tuple}
    (h : next kind predicate swapped left right db s = (.ok (some t), s')) :
    movesLeft left right db s'.progress s'.left s'.right <
      movesLeft left right db s.progress s.left s.right := by
  unfold next at h
  simp only at h
  split at h
  · simp at h
  · simp at h
  · next row hrow =>
    obtain ⟨-, rfl⟩ := Prod.mk.inj h
    exact run_lt (movesLeft left right db) move_lt (Prod.ext hrow rfl)

/-- Which joins can run: a right outer join runs as a left outer join with its inputs exchanged, and
a join that yields left columns alone has nothing to exchange. -/
def checkKind (kind : JoinKind) (swapped : Bool) : Except QueryError Unit :=
  if kind = .rightOuter then .error (.configuration .rightOuterJoin)
  else if swapped && kind.leftColumnsOnly then .error (.configuration (.unswappable kind))
  else .ok ()

def profile (c : Config) (kind : JoinKind) (predicate : Option Expr) (swapped : Bool)
    (left right : Status) : Except QueryError Profile := do
  let both := left.schema.concat right.schema
  let stats := left.columns ++ right.columns
  let selectivity ←
    match predicate with
    | none => .ok (1.0 : Float32)
    | some p => do
      Operator.resolveAll both p.columns
      .ok (p.selectivity both stats c.defaultSelectivity)
  let cost := c.costModel.join left.cost right.cost kind selectivity
  let width := left.schema.width
  if kind.leftColumnsOnly then .ok ⟨left.schema, cost, stats.take width⟩
  else if swapped then .ok ⟨right.schema.concat left.schema, cost, exchange width stats⟩
  else .ok ⟨both, cost, stats⟩

def prepare (kind : JoinKind) (predicate : Option Expr) (swapped : Bool) (left right : Operator)
    (c : Config) (s : State left.State right.State) :
    Outcome Unit (State left.State right.State) :=
  match left.prepare c s.left with
  | (.error e, l) => (.error e, { s with left := l })
  | (.ok _, l) =>
    match right.prepare c s.right with
    | (.error e, r) => (.error e, { s with left := l, right := r })
    | (.ok _, r) =>
      match checkKind kind swapped with
      | .error e => (.error e, { s with left := l, right := r })
      | .ok _ =>
        let s :=
          { s with
            leftSchema := (left.status l).schema
            rightSchema := (right.status r).schema
            left := l
            right := r }
        match profile c kind predicate swapped (left.status l) (right.status r) with
        | .error e => (.error e, s)
        | .ok p => (.ok (), { s with status := s.status.settle p })

/-- Runs an operation on the left child and then on the right one. -/
def both (f : σ → Outcome Unit σ) (g : τ → Outcome Unit τ) (s : State σ τ) :
    Outcome Unit (State σ τ) :=
  match f s.left with
  | (.error e, l) => (.error e, { s with left := l })
  | (.ok _, l) => ((g s.right).1, { s with left := l, right := (g s.right).2 })

def rewind (f : σ → Outcome Unit σ) (g : τ → Outcome Unit τ) (s : State σ τ) :
    Outcome Unit (State σ τ) :=
  match s.status.check .join with
  | .error e => (.error e, s)
  | .ok _ =>
    match both f g { s with status := s.status.restart } with
    | (.error e, s) => (.error e, s)
    | (.ok _, s) => (.ok (), { s with progress := .fresh })

theorem rewind_ok {f : σ → Outcome Unit σ} {g : τ → Outcome Unit τ} {s s' : State σ τ}
    (h : rewind f g s = (.ok (), s')) :
    f s.left = (.ok (), s'.left) ∧ g s.right = (.ok (), s'.right) ∧ s'.progress = .fresh := by
  unfold rewind both at h
  split at h
  · simp at h
  · split at h
    · simp at h
    · next hboth =>
      split at hboth
      · simp at hboth
      · next hleft =>
        simp only [Prod.mk.injEq] at hboth
        obtain ⟨hright, rfl⟩ := hboth
        obtain ⟨-, rfl⟩ := Prod.mk.inj h
        exact ⟨hleft, Prod.ext hright rfl, rfl⟩

/-- A marked left row is kept without its page. -/
def Progress.remembered (p : Progress) : Progress := { p with left := p.left.map Tuple.detach }

def setMark (marks : Bool) (f : σ → Outcome Unit σ) (g : τ → Outcome Unit τ) (s : State σ τ) :
    Outcome Unit (State σ τ) :=
  if marks then
    match both f g s with
    | (.error e, s) => (.error e, s)
    | (.ok _, s) => (.ok (), { s with mark := some s.progress.remembered })
  else
    (.error (.invalidState (.unmarkable .join)), s)

def reset (marks : Bool) (f : σ → Outcome Unit σ) (g : τ → Outcome Unit τ) (s : State σ τ) :
    Outcome Unit (State σ τ) :=
  if marks then
    match s.mark with
    | none => (.error (.invalidState (.noMark .join)), s)
    | some m =>
      match both f g s with
      | (.error e, s) => (.error e, s)
      | (.ok _, s) => (.ok (), { s with progress := m })
  else
    (.error (.invalidState (.unmarkable .join)), s)

/-- Gives up the left row in hand and the flags of the right rows; the phase stays. -/
def cleanUp (f : σ → σ) (g : τ → τ) (s : State σ τ) : State σ τ :=
  { s with
    progress := { s.progress with left := none, matchedRight := [] }
    left := f s.left
    right := g s.right }

def label (kind : JoinKind) (predicate : Option Expr) (swapped : Bool) : String :=
  "NestedLoopJoin[" ++ kind.display ++
    (match predicate with
     | some p => ", pred: " ++ p.display
     | none => "") ++
    (if swapped then ", swapped" else "") ++ "]"

def Progress.kept (p : Progress) : List Tuple := p.left.toList

end Join

def Operator.join (kind : JoinKind) (predicate : Option Expr) (swapped : Bool)
    (left right : Operator) : Operator where
  State := Join.State left.State right.State
  start := ⟨.fresh, .empty, .empty, .fresh, none, left.start, right.start⟩
  marks := left.marks && right.marks
  orderedBy := []
  status := Join.State.status
  prepare := Join.prepare kind predicate swapped left right
  rewind := Join.rewind left.rewind right.rewind
  next := Join.next kind predicate swapped left right
  mark := Join.setMark (left.marks && right.marks) left.mark right.mark
  reset := Join.reset (left.marks && right.marks) left.reset right.reset
  cleanUp := Join.cleanUp left.cleanUp right.cleanUp
  supply db :=
    Join.remaining (right.supply db) (left.supply db) (right.supply db) .fresh
  remaining db s := Join.movesLeft left right db s.progress s.left s.right
  kept s :=
    s.progress.kept ++ ((s.mark.map Join.Progress.kept).getD []) ++ left.kept s.left ++
      right.kept s.right
  report s :=
    .node .join (Join.label kind predicate swapped) s.status (left.marks && right.marks) []
      [left.report s.left, right.report s.right]
  next_lt := Join.next_some
  rewind_le {db s s'} h := by
    obtain ⟨hleft, -, hfresh⟩ := Join.rewind_ok h
    have hle : left.remaining db s'.left * Join.movesPerLeft (right.supply db) ≤
        left.supply db * Join.movesPerLeft (right.supply db) :=
      Nat.mul_le_mul_right _ (left.rewind_le hleft)
    simp only [Join.movesLeft, hfresh, Join.remaining, Join.Progress.fresh]
    omega

end RelQuery
