import RelQuery.Proofs.Widths
import RelQuery.Proofs.OpenScans
import RelQuery.Proofs.Rerun
import RelQuery.Proofs.StoredRows

namespace RelQuery

/-- What a call gives depends on what it takes from the position, and on nothing else of it. -/
theorem Leaf.next_of_pull_eq {κ : Type} (pull : Schema → κ → Outcome (Option Tuple) κ) {s : Leaf κ}
    {p : κ} (h : pull s.status.schema s.position = pull s.status.schema p) :
    Leaf.next pull s = Leaf.next pull { s with position := p } := by
  simp only [Leaf.next, h]

namespace Scan

variable {test : Tuple → Except QueryError Bool} {db : Storage} {name : String} {table : TableInfo}

theorem pull_fuel {n n' : Nat} {p : Position} (h : remaining db name p < n)
    (h' : remaining db name p < n') : pull test db name n p = pull test db name n' p := by
  induction n generalizing n' p with
  | zero => omega
  | succ n ih =>
    obtain ⟨n', rfl⟩ : ∃ k, n' = k + 1 := ⟨n' - 1, by omega⟩
    rw [pull, pull]
    split
    · rfl
    · next hopen =>
      split
      · rfl
      · next x hx =>
        obtain ⟨l, hl, hlt⟩ := Storage.slotsFrom_readFrom hx
        have hle : remaining db name (.behind l) < remaining db name p := by
          simpa [remaining, hopen, Position.behind] using hlt
        simp only [hl, Option.map_some, Option.getD_some]
        split
        · rfl
        · rfl
        · exact ih (by omega) (by omega)

theorem next_of_read (predicate : Option Expr) {s : Schema} {p : Position} {t : Tuple}
    {l : Location}
    (hopen : p.done = false) (hread : db.readFrom table.name p.page p.slot = some t)
    (hl : t.location? = some l) : next table predicate db s p =
      match accepts s predicate t with
      | .error e => (.error e, .behind l)
      | .ok true => (.ok (some t), .behind l)
      | .ok false => next table predicate db s (.behind l) := by
  have hlt : remaining db table.name (.behind l) < remaining db table.name p := by
    obtain ⟨l', hl', hlt⟩ := Storage.slotsFrom_readFrom hread
    obtain rfl : l = l' := Option.some.inj (hl.symm.trans hl')
    simpa [remaining, hopen, Position.behind] using hlt
  rw [next, pull, hopen, if_neg Bool.false_ne_true, hread]
  simp only [hl, Option.map_some, Option.getD_some]
  rcases accepts s predicate t with e | _ | _
  · rfl
  · exact pull_fuel hlt (Nat.lt_succ_self _)
  · rfl

theorem leaf_next {predicate : Option Expr} {s : Leaf Position}
    {r : Except QueryError (Option Tuple)} {p : Position}
    (h : next table predicate db s.status.schema s.position = (r, p)) :
    ∃ st : Status, st.schema = s.status.schema ∧
      (Operator.scan table predicate).next db s = (r, (⟨st, p, s.mark⟩ : Leaf Position)) := by
  rcases hnext : Leaf.next (next table predicate db) s with ⟨r', s'⟩
  obtain ⟨hpull, hprofile, hmark⟩ := Leaf.next_eq hnext
  obtain ⟨rfl, rfl⟩ := Prod.mk.inj (h.symm.trans hpull)
  refine ⟨s'.status, ?_, ?_⟩
  · rw [Status.schema, Status.schema, hprofile]
  · rw [← hmark]
    exact hnext

/-- A scan with a predicate gives what a filter makes of the rows of the scan without one. -/
theorem trace_some (predicate : Expr) (s s' : Leaf Position) (h : s.position = s'.position) :
    (Operator.scan table (some predicate)).trace db s =
      ((Operator.scan table none).trace db s').choose (Filter.keep s.status.schema predicate) := by
  revert s h
  refine Operator.next_induction (o := .scan table none) db (motive := fun s' : Leaf Position =>
    ∀ s : Leaf Position, s.position = s'.position →
      (Operator.scan table (some predicate)).trace db s =
        ((Operator.scan table none).trace db s').choose (Filter.keep s.status.schema predicate))
    (fun (s' : Leaf Position) ih (s : Leaf Position) h => ?_) s'
  have hend : ∀ {p : Position}, (∀ (predicate : Option Expr) (s : Schema),
      next table predicate db s s'.position = (.ok none, p)) →
      (Operator.scan table (some predicate)).trace db s =
        ((Operator.scan table none).trace db s').choose
          (Filter.keep s.status.schema predicate) := by
    intro p hpull
    obtain ⟨st, -, hs⟩ := leaf_next (h ▸ hpull (some predicate) s.status.schema)
    obtain ⟨st', -, hs'⟩ := leaf_next (hpull none s'.status.schema)
    rw [Operator.trace_of_none hs, Operator.trace_of_none hs', Trace.choose_nil]
  cases hdone : s'.position.done with
  | true => exact hend fun _ _ => by rw [next, pull, hdone, if_pos rfl]
  | false =>
    cases hread : db.readFrom table.name s'.position.page s'.position.slot with
    | none =>
      refine hend (p := { s'.position with done := true }) fun _ _ => ?_
      rw [next, pull, hdone, if_neg Bool.false_ne_true, hread]
    | some t =>
      obtain ⟨l, hl, -⟩ := Storage.slotsFrom_readFrom hread
      obtain ⟨st', -, hs'⟩ := leaf_next (next_of_read none hdone hread hl)
      have hpull := next_of_read (some predicate) (s := s.status.schema) hdone hread hl
      rw [← h] at hpull
      have hkeep : Filter.keep s.status.schema predicate t =
          (accepts s.status.schema (some predicate) t).map fun b =>
            if b then some t else none := rfl
      rw [Operator.trace_of_some hs', Trace.choose_cons, hkeep]
      rcases hacc : accepts s.status.schema (some predicate) t with e | _ | _ <;> rw [hacc] at hpull
      · obtain ⟨st, -, hs⟩ := leaf_next hpull
        exact Operator.trace_of_error hs
      · have hsame : (Operator.scan table (some predicate)).next db s =
            (Operator.scan table (some predicate)).next db
              (⟨s.status, .behind l, s.mark⟩ : Leaf Position) :=
          Leaf.next_of_pull_eq (next table (some predicate) db) hpull
        exact (Operator.trace_eq_of_next_eq hsame).trans (ih _ _ hs' _ rfl)
      · obtain ⟨st, hschema, hs⟩ := leaf_next hpull
        have hrest := ih _ _ hs' (⟨st, .behind l, s.mark⟩ : Leaf Position) rfl
        rw [← hschema]
        exact (Operator.trace_of_some hs).trans (congrArg (Trace.cons t) hrest)

end Scan

namespace Join

section Machines

variable {σ τ : Type} {inputs : Inputs σ τ} {L : σ → Prop} {R : τ → Prop}
  {leftWidth rightWidth : Nat}
  {test : Tuple → Tuple → Except QueryError Bool} {accept : Row → Except QueryError Bool}
  {p q : Progress} {l : σ} {r : τ}

/-- Inputs whose rows have so many values, in the states that a run comes to. -/
structure Inputs.Wide (inputs : Inputs σ τ) (L : σ → Prop) (R : τ → Prop)
    (leftWidth rightWidth : Nat) : Prop where
  left : ∀ {l l' x}, L l → inputs.nextLeft l = (x, l') →
    L l' ∧ ∀ t, x = .ok (some t) → t.values.length = leftWidth
  right : ∀ {r r' x}, R r → inputs.nextRight r = (x, r') →
    R r' ∧ ∀ u, x = .ok (some u) → u.values.length = rightWidth
  rewind : ∀ {r r' x}, R r → inputs.rewindRight r = (x, r') → R r'

/-- Phases of an inner join and of a cross join over the same inputs; whether the left row in hand
has had a partner does not matter to them. -/
inductive Phase.Level : Phase → Phase → Prop
  | start : Level .start .start
  | scanning (m n : Bool) : Level (.scanning m) (.scanning n)
  | exhausted : Level .exhausted .exhausted

/-- An inner join and a cross join at the same place of their runs, over inputs in the same
states. -/
structure Abreast (L : σ → Prop) (R : τ → Prop) (leftWidth : Nat) (a b : Progress × σ × τ) :
    Prop where
  phase : a.1.phase.Level b.1.phase
  left : b.1.left = a.1.left
  leftDone : a.1.leftDone = false ∧ b.1.leftDone = false
  rightEmpty : b.1.rightEmpty = a.1.rightEmpty
  inputs : b.2 = a.2
  reached : L a.2.1 ∧ R a.2.2
  wide : ∀ t, a.1.left = some t → t.values.length = leftWidth

theorem Abreast.right_moved {r' : τ} (h : Abreast L R leftWidth (p, l, r) (q, l, r)) (hr : R r') :
    Abreast L R leftWidth (p, l, r') (q, l, r') :=
  ⟨h.phase, h.left, h.leftDone, h.rightEmpty, rfl, ⟨h.reached.1, hr⟩, h.wide⟩

/-- A move that tests a pair of rows, beside a move that gives out its concatenation; all other
moves are the same. -/
inductive Thins {α : Type} (accept : Row → Except QueryError Bool) (S : α → α → Prop) :
    Outcome Move α → Outcome Move α → Prop
  | error (e a b) : Thins accept S (.error e, a) (.error e, b)
  | finished (a b) : Thins accept S (.ok .finished, a) (.ok .finished, b)
  | again {a b} : S a b → Thins accept S (.ok .again, a) (.ok .again, b)
  | refused {x e} (a b) : accept x = .error e → Thins accept S (.error e, a) (.ok (.row x), b)
  | dropped {x a b} : accept x = .ok false → S a b →
      Thins accept S (.ok .again, a) (.ok (.row x), b)
  | kept {x a b} : accept x = .ok true → S a b → Thins accept S (.ok (.row x), a) (.ok (.row x), b)

section Step

variable (hI : inputs.Wide L R leftWidth rightWidth)
  (h : Abreast L R leftWidth (p, l, r) (q, l, r))

include hI h

theorem rewindFor_thins {phase phase' : Phase} (hphase : phase.Level phase') :
    Thins accept (Abreast L R leftWidth) (rewindFor inputs phase p l r)
      (rewindFor inputs phase' q l r) := by
  unfold rewindFor
  rcases hr : inputs.rewindRight r with ⟨e | _, r'⟩
  · exact .error ..
  · exact .again ⟨hphase, h.left, h.leftDone, h.rightEmpty, rfl,
      ⟨h.reached.1, hI.rewind h.reached.2 hr⟩, h.wide⟩

theorem advance_thins : Thins accept (Abreast L R leftWidth) (advance .inner inputs p l r)
    (advance .cross inputs q l r) := by
  unfold advance
  rcases hl : inputs.nextLeft l with ⟨e | _ | t, l'⟩
  · exact .error ..
  · have hreached := (hI.left h.reached.1 hl).1
    exact .again ⟨.exhausted, rfl, ⟨rfl, rfl⟩, h.rightEmpty, rfl, ⟨hreached, h.reached.2⟩,
      fun _ ht => (nomatch ht)⟩
  · obtain ⟨hreached, hwide⟩ := hI.left h.reached.1 hl
    have hnext : Abreast L R leftWidth ({ p with left := some t, leftDone := false }, l', r)
        ({ q with left := some t, leftDone := false }, l', r) :=
      ⟨h.phase, rfl, ⟨rfl, rfl⟩, h.rightEmpty, rfl, ⟨hreached, h.reached.2⟩, fun u hu => by
        obtain rfl := Option.some.inj hu
        exact hwide t rfl⟩
    exact rewindFor_thins hI hnext (.scanning false false)

omit hI h in
/-- Where neither side pads, a machine at the end of its right rows gives up or goes on. -/
theorem endOfRight_eq {kind : JoinKind} (hkind : kind = .inner ∨ kind = .cross) (m : Bool) :
    endOfRight kind inputs m p l r =
      if p.rightEmpty then (.ok .again, { p with left := none, phase := .exhausted }, l, r)
      else advance kind inputs p l r := by
  rcases hkind with rfl | rfl <;> cases m <;> cases hempty : p.rightEmpty <;>
    simp [endOfRight, hempty, JoinKind.needsRight, JoinKind.preservesLeft]

theorem endOfRight_thins (m n : Bool) : Thins accept (Abreast L R leftWidth)
    (endOfRight .inner inputs m p l r) (endOfRight .cross inputs n q l r) := by
  have hempty : q.rightEmpty = p.rightEmpty := h.rightEmpty
  rw [endOfRight_eq (.inl rfl), endOfRight_eq (.inr rfl), hempty]
  split
  · exact .again ⟨.exhausted, rfl, h.leftDone, rfl, rfl, h.reached, fun _ ht => (nomatch ht)⟩
  · exact advance_thins hI h

omit hI in
/-- The pair that an inner join tests is the row that a cross join gives. -/
theorem meet_thins
    (htest : ∀ t u : Tuple, t.values.length = leftWidth → u.values.length = rightWidth →
      test t u = accept (t.values ++ u.values)) {m : Bool} (hp : p.phase = .scanning m)
    {u : Tuple} (hu : u.values.length = rightWidth) :
    Thins accept (Abreast L R leftWidth)
      ((meet .inner test p u).1, (meet .inner test p u).2, l, r)
      ((meet .cross (fun _ _ => .ok true) q u).1,
        (meet .cross (fun _ _ => .ok true) q u).2, l, r) := by
  have hleft : q.left = p.left := h.left
  unfold meet
  dsimp only
  rw [hleft]
  cases ht : p.left with
  | none =>
    exact .again ⟨.exhausted, rfl, h.leftDone, rfl, rfl, h.reached, fun _ hv => (nomatch hv)⟩
  | some t =>
    have hwide : ∀ v, some t = some v → v.values.length = leftWidth :=
      fun v hv => h.wide v (ht.trans hv)
    have hpair := htest t u (hwide t rfl) hu
    dsimp only
    rw [hpair]
    rcases hacc : accept (t.values ++ u.values) with e | _ | _
    · exact .refused _ _ hacc
    · refine .dropped hacc ⟨?_, rfl, h.leftDone, rfl, rfl, h.reached, hwide⟩
      exact hp ▸ .scanning m true
    · exact .kept hacc ⟨.scanning true true, rfl, h.leftDone, rfl, rfl, h.reached, hwide⟩

theorem step_thins
    (htest : ∀ t u : Tuple, t.values.length = leftWidth → u.values.length = rightWidth →
      test t u = accept (t.values ++ u.values)) (lw rw : Nat) :
    Thins accept (Abreast L R leftWidth) (step .inner inputs test lw rw p l r)
      (step .cross inputs (fun _ _ => .ok true) lw rw q l r) := by
  have hphase : p.phase.Level q.phase := h.phase
  obtain ⟨hpdone, hqdone⟩ : p.leftDone = false ∧ q.leftDone = false := h.leftDone
  unfold step
  generalize hp : p.phase = phase at hphase ⊢
  generalize q.phase = phase' at hphase ⊢
  cases hphase with
  | start => exact advance_thins hI h
  | exhausted => exact .finished ..
  | scanning m n =>
    simp only [hpdone, hqdone, Bool.false_eq_true, if_false]
    rcases hr : inputs.nextRight r with ⟨e | _ | u, r'⟩
    · exact .error ..
    · exact endOfRight_thins hI (h.right_moved (hI.right h.reached.2 hr).1) m n
    · obtain ⟨hreached, hwide⟩ := hI.right h.reached.2 hr
      exact meet_thins (h.right_moved hreached) htest hp (hwide u rfl)

end Step

/-- Machines side by side: the rows of the one are those of the other that are accepted, up to the
first that is refused. -/
theorem Emits.thin {S : Progress × σ × τ → Progress × σ × τ → Prop}
    {move move' : Progress → σ → τ → Step σ τ} {f : Row → Tuple}
    {keep : Tuple → Except QueryError (Option Tuple)}
    (hkeep : ∀ x, keep (f x) = (accept x).map fun b => if b then some (f x) else none)
    (hmove : ∀ {p l r q l' r'}, S (p, l, r) (q, l', r') →
      Thins accept S (move p l r) (move' q l' r'))
    {l' : σ} {r' : τ} {rows : List Row} {e : Except QueryError Unit}
    (h : Emits move' q l' r' rows e)
    (hS : S (p, l, r) (q, l', r')) : ∃ rows' e', Emits move p l r rows' e' ∧
      (⟨rows'.map f, e'⟩ : Trace) = Trace.choose keep ⟨rows.map f, e⟩ := by
  induction h generalizing p l r with
  | error h =>
    have hthins := h ▸ hmove hS
    generalize hm : move p l r = x at hthins
    cases hthins with
    | error e a b => exact ⟨[], _, .error hm, rfl⟩
  | finished h =>
    have hthins := h ▸ hmove hS
    generalize hm : move p l r = x at hthins
    cases hthins with
    | finished a b => exact ⟨[], _, .finished hm, rfl⟩
  | again h _ ih =>
    have hthins := h ▸ hmove hS
    generalize hm : move p l r = x at hthins
    cases hthins with
    | again hS' =>
      obtain ⟨rows', e', hemits, htrace⟩ := ih hS'
      exact ⟨rows', e', .again hm hemits, htrace⟩
  | @row q l' r' q' l'' r'' x rows e h _ ih =>
    have hthins := h ▸ hmove hS
    generalize hm : move p l r = y at hthins
    have hcons : (⟨(x :: rows).map f, e⟩ : Trace) = Trace.cons (f x) ⟨rows.map f, e⟩ := rfl
    rw [hcons, Trace.choose_cons, hkeep]
    cases hthins with
    | refused a b hx =>
      rw [hx]
      exact ⟨[], _, .error hm, rfl⟩
    | dropped hx hS' =>
      obtain ⟨rows', e', hemits, htrace⟩ := ih hS'
      rw [hx]
      exact ⟨rows', e', .again hm hemits, htrace⟩
    | kept hx hS' =>
      obtain ⟨rows', e', hemits, htrace⟩ := ih hS'
      rw [hx]
      exact ⟨x :: rows', e', .row hm hemits, congrArg (Trace.cons (f x)) htrace⟩

end Machines

/-- A prepared join starts a run with nothing in hand, when both inputs start. -/
theorem rewind_eq {σ τ : Type} {f : σ → Outcome Unit σ} {g : τ → Outcome Unit τ} {s : State σ τ}
    {l : σ} {r : τ} (hcheck : s.status.check .join = .ok ()) (hf : f s.left = (.ok (), l))
    (hg : g s.right = (.ok (), r)) : rewind f g s =
      (.ok (), ⟨s.status.restart, s.leftSchema, s.rightSchema, .fresh, s.mark, l, r⟩) := by
  simp only [rewind, hcheck, both, hf, hg]

section Operators

variable {left right : Operator} {db : Storage} {predicate : Expr} {swapped : Bool}
  {ls rs : Schema} {l₀ : left.State} {r₀ : right.State}

theorem inputs_wide (hl : left.Fits db l₀) (hls : (left.status l₀).schema = ls)
    (hr : right.Fits db r₀) (hrs : (right.status r₀).schema = rs) :
    (inputs left right db).Wide (left.Reaches db .runs l₀) (right.Reaches db .runs r₀) ls.width
      rs.width where
  left hreach hnext := by
    refine ⟨hreach.trans (.next hnext (.inl rfl)), ?_⟩
    rintro t rfl
    exact hls ▸ hl.next hreach hnext
  right hreach hnext := by
    refine ⟨hreach.trans (.next hnext (.inl rfl)), ?_⟩
    rintro t rfl
    exact hrs ▸ hr.next hreach hnext
  rewind hreach hrewind := hreach.trans (.rewind hrewind (.inl rfl))

theorem dress_pair (swapped : Bool) {v w : Row} (hv : v.length = ls.width) :
    dress swapped ls.width (v ++ w) = if swapped then w ++ v else v ++ w := by
  cases swapped with
  | false => rfl
  | true =>
    change (v ++ w).drop ls.width ++ (v ++ w).take ls.width = w ++ v
    rw [← hv, List.drop_left, List.take_left]

/-- The predicate of a join is true for a pair of rows when it is true for the row that the pair
makes, over the columns of the join. -/
theorem matches_eq_accepts (hresolves : Resolves (some predicate) ls rs) {t u : Tuple}
    (ht : t.values.length = ls.width) (hu : u.values.length = rs.width) :
    matches? (some predicate) ls rs t u =
      Operator.accepts (resultSchema .cross swapped ls rs) predicate
        (.computed (dress swapped ls.width (t.values ++ u.values))) := by
  have hholds : predicate.holds (.pair ls t.values rs u.values) =
      predicate.holds (.single (resultSchema .cross swapped ls rs)
        (dress swapped ls.width (t.values ++ u.values))) := by
    rw [dress_pair swapped ht]
    apply Expr.holds_congr
    intro c hc
    cases swapped with
    | false => exact Environment.lookup_pair rs u.values c ht
    | true =>
      have hcomm := Environment.lookup_pair_comm t.values u.values (hresolves predicate rfl c hc)
      exact hcomm.symm.trans (Environment.lookup_pair ls t.values c hu)
  exact congrArg (Except.mapError QueryError.evaluation) hholds

/-- An inner join gives what a filter makes of the rows of the cross join. -/
theorem trace_inner (swapped : Bool) (hresolves : Resolves (some predicate) ls rs)
    (hl : left.Fits db l₀)
    (hls : (left.status l₀).schema = ls) (hr : right.Fits db r₀)
    (hrs : (right.status r₀).schema = rs) {l : left.State} {r : right.State}
    (hleft : left.Reaches db .runs l₀ l) (hright : right.Reaches db .runs r₀ r)
    (st st' : Status) (mark mark' : Option Progress) :
    (Operator.join .inner (some predicate) swapped left right).trace db
        (⟨st, ls, rs, .fresh, mark, l, r⟩ : State left.State right.State) =
      ((Operator.join .cross none swapped left right).trace db
        (⟨st', ls, rs, .fresh, mark', l, r⟩ : State left.State right.State)).choose
          (Filter.keep (resultSchema .cross swapped ls rs) predicate) := by
  obtain ⟨rows, e, hcross⟩ := exists_emits .cross none left right db ls rs .fresh l r
  have hmove : ∀ {p l r q l' r'}, Abreast (left.Reaches db .runs l₀) (right.Reaches db .runs r₀)
      ls.width (p, l, r) (q, l', r') → Thins
        (fun x => Operator.accepts (resultSchema .cross swapped ls rs) predicate
          (.computed (dress swapped ls.width x)))
        (Abreast (left.Reaches db .runs l₀) (right.Reaches db .runs r₀) ls.width)
        (move .inner (some predicate) left right db ls rs p l r)
        (move .cross none left right db ls rs q l' r') := by
    intro p l r q l' r' h
    obtain ⟨rfl, rfl⟩ := Prod.mk.inj h.inputs
    exact step_thins (inputs_wide hl hls hr hrs) h
      (fun t u ht hu => matches_eq_accepts hresolves ht hu) _ _
  have hkeep : ∀ x, Filter.keep (resultSchema .cross swapped ls rs) predicate
      (.computed (dress swapped ls.width x)) = (Operator.accepts (resultSchema .cross swapped ls rs)
        predicate (.computed (dress swapped ls.width x))).map fun b =>
          if b then some (.computed (dress swapped ls.width x)) else none := fun _ => rfl
  obtain ⟨rows', e', hinner, htrace⟩ := hcross.thin hkeep hmove
    ⟨.start, rfl, ⟨rfl, rfl⟩, rfl, rfl, ⟨hleft, hright⟩, fun _ ht => (nomatch ht)⟩
  rw [trace_of_emits hinner, trace_of_emits hcross]
  exact htrace

end Operators

end Join

namespace Plan

/-- The tables that a plan scans were opened in a storage. -/
def Opened (db : Storage) : Plan → Prop
  | scan t _ => ∃ u, db.table t.name = .ok u ∧ u.schema = t.schema
  | values .. => True
  | filter _ c | project _ c | rename _ c | sort _ c | limit _ _ c | group _ _ c | barrier c =>
    c.Opened db
  | join _ _ _ l r => l.Opened db ∧ r.Opened db

theorem Opened.readsWide {db : Storage} (hdb : db.Sound) {p : Plan} (h : p.Opened db) :
    p.ReadsWide db := by
  induction p with
  | scan t _ =>
    obtain ⟨u, hu, hschema⟩ := h
    intro page slot x hx
    rw [← Storage.name_of_table hu] at hx
    exact hschema ▸ hdb.readFrom hu hx
  | values => trivial
  | filter _ _ ih | project _ _ ih | rename _ _ ih | sort _ _ ih | limit _ _ _ ih | group _ _ _ ih
  | barrier _ ih => exact ih h
  | join _ _ _ _ _ ihl ihr => exact ⟨ihl h.1, ihr h.2⟩

end Plan

namespace Cursor

variable {db : Storage} {config : Config} {p pl pr : Plan} {c c₀ c' d d₀ : Cursor}
  {table : TableInfo}
  {predicate : Expr} {swapped : Bool}

/-- Whatever was called since a plan was prepared, it collects what its first run gives. -/
theorem collect_of_reaches {s₀ s₁ : p.operator.State}
    (hs₁ : p.operator.rewind s₀ = (.ok (), s₁)) (h : Reaches db .any ⟨p, config, s₀⟩ c) :
    (c.collect db).1 = (p.operator.trace db s₁).collected := by
  obtain ⟨s, hs, rfl⟩ := h
  have hreplays := (p.regular db).replays s₀
  have hok : (p.operator.rewind s).1 = .ok () := (hreplays.rewind hs).trans (by rw [hs₁])
  have hrewind : (setState ⟨p, config, s₀⟩ s).rewind =
      (.ok (), ⟨p, config, (p.operator.rewind s).2⟩) := by
    simp only [rewind, run, setState, hok]
  have htrace := hreplays.trace hs hok
  rw [hs₁] at htrace
  rw [collect_eq hrewind]
  exact congrArg Trace.collected htrace

theorem rewound {s₀ : p.operator.State}
    (h : p.operator.prepare config p.operator.start = (.ok (), s₀)) :
    ∃ s₁, p.operator.rewind s₀ = (.ok (), s₁) := ⟨_, Prod.ext (p.ready.starts h) rfl⟩

/-- The first run of a filter over a prepared plan starts where the first run of the plan starts. -/
theorem filter_start {s₀ : p.operator.State}
    (hs₀ : p.operator.prepare config p.operator.start = (.ok (), s₀)) {s₁ : p.operator.State}
    (hs₁ : p.operator.rewind s₀ = (.ok (), s₁))
    (hd : Cursor.prepared (.filter predicate p) config = .ok d₀) (hreach : d₀.Reaches db .any d) :
    (d.collect db).1 = ((p.operator.trace db s₁).choose
      (Filter.keep (p.operator.status s₀).schema predicate)).collected := by
  obtain ⟨s, hs, rfl⟩ := prepared_ok hd
  obtain ⟨s₀', q, k, hs₀', hq, rfl⟩ := Wrapped.prepare_eq_ok.1 hs
  obtain ⟨rfl, rfl⟩ := Prod.mk.inj (Except.ok.inj hq)
  obtain rfl : s₀ = s₀' := (Prod.mk.inj (hs₀.symm.trans hs₀')).2
  let st : Status := .settle .fresh (Filter.profile config predicate (p.operator.status s₀))
  have hstart : Wrapped.rewind .filter p.operator.rewind (⟨st, (), s₀⟩ : Wrapped Unit _) =
      (.ok (), ⟨st.restart, (), s₁⟩) := by
    rw [Wrapped.rewind_of_prepared (show st.check .filter = .ok () from rfl), hs₁]
  have hrewind : (Plan.filter predicate p).operator.rewind
      (⟨st, (), s₀⟩ : Wrapped Unit p.operator.State) =
        (.ok (), (⟨st.restart, (), s₁⟩ : Wrapped Unit p.operator.State)) := hstart
  refine (collect_of_reaches (p := .filter predicate p) hrewind hreach).trans ?_
  exact congrArg Trace.collected (Filter.trace_eq predicate _)

/-- The same of a scan with a predicate and of a filter above the scan. -/
theorem collect_scan_filter (hc : Cursor.prepared (.scan table (some predicate)) config = .ok c₀)
    (hd : Cursor.prepared (.filter predicate (.scan table none)) config = .ok d₀)
    (hc' : c₀.Reaches db .any c) (hd' : d₀.Reaches db .any d) :
    (c.collect db).1 = (d.collect db).1 := by
  obtain ⟨s, hs, rfl⟩ := prepared_ok hc
  obtain ⟨q, hq, rfl⟩ := Leaf.prepare_eq_ok.1 hs
  obtain rfl := Except.ok.inj hq
  let st : Status := .settle .fresh (Scan.profile config table none)
  have hplain : (Plan.scan table none).operator.prepare config
    (Plan.scan table none).operator.start =
      (.ok (), (⟨st, .first, none⟩ : Leaf Scan.Position)) := rfl
  have hstart : (Plan.scan table none).operator.rewind (⟨st, .first, none⟩ : Leaf Scan.Position) =
      (.ok (), (⟨st.restart, .first, none⟩ : Leaf Scan.Position)) := rfl
  rw [filter_start hplain hstart hd hd']
  refine (collect_of_reaches (p := .scan table (some predicate)) rfl hc').trans ?_
  exact congrArg Trace.collected (Scan.trace_some predicate _ _ rfl)

/-- The first run of a join over prepared plans starts where their first runs start. -/
theorem join_start {l l₁ : pl.operator.State} {r r₁ : pr.operator.State} (kind : JoinKind)
    (predicate : Option Expr) (swapped : Bool) (q : Profile) (ls rs : Schema)
    (hl : pl.operator.rewind l = (.ok (), l₁)) (hr : pr.operator.rewind r = (.ok (), r₁)) :
    (Plan.join kind predicate swapped pl pr).operator.rewind
        (⟨.settle .fresh q, ls, rs, .fresh, none, l, r⟩ :
          Join.State pl.operator.State pr.operator.State) =
      (.ok (), (⟨Status.restart (.settle .fresh q), ls, rs, .fresh, none, l₁, r₁⟩ :
        Join.State pl.operator.State pr.operator.State)) := by
  have hstart := Join.rewind_eq (f := pl.operator.rewind) (g := pr.operator.rewind)
    (s := ⟨.settle .fresh q, ls, rs, .fresh, none, l, r⟩) (Status.check_settle ..) hl hr
  exact hstart

theorem collect_join_filter (hdb : db.Sound) (hl : pl.Opened db) (hr : pr.Opened db)
    (hc : Cursor.prepared (.join .inner (some predicate) swapped pl pr) config = .ok c₀)
    (hd : Cursor.prepared (.filter predicate (.join .cross none swapped pl pr)) config = .ok d₀)
    (hc' : c₀.Reaches db .any c) (hd' : d₀.Reaches db .any d) :
    (c.collect db).1 = (d.collect db).1 := by
  obtain ⟨s, hs, rfl⟩ := prepared_ok hc
  obtain ⟨l, r, q, hpl, hpr, hkind, hq, rfl⟩ := Join.prepare_eq_ok.1 hs
  obtain ⟨t, ht, -⟩ := prepared_ok hd
  obtain ⟨t₀, -, -, ht₀, -, -⟩ := Wrapped.prepare_eq_ok.1 ht
  obtain ⟨l', r', q', hpl', hpr', -, hq', rfl⟩ := Join.prepare_eq_ok.1 ht₀
  obtain rfl : l = l' := (Prod.mk.inj (hpl.symm.trans hpl')).2
  obtain rfl : r = r' := (Prod.mk.inj (hpr.symm.trans hpr')).2
  obtain ⟨l₁, hl₁⟩ := rewound hpl
  obtain ⟨r₁, hr₁⟩ := rewound hpr
  have hinner := join_start .inner (some predicate) swapped q (pl.operator.status l).schema
    (pr.operator.status r).schema hl₁ hr₁
  have hcross := join_start .cross none swapped q' (pl.operator.status l).schema
    (pr.operator.status r).schema hl₁ hr₁
  have htrace := Join.trace_inner swapped (Join.resolves_of_profile hq)
    (pl.fits (hl.readsWide hdb) hpl) rfl (pr.fits (hr.readsWide hdb) hpr) rfl
    (.rewind hl₁ (.inr rfl)) (.rewind hr₁ (.inr rfl)) (Status.restart (.settle .fresh q))
    (Status.restart (.settle .fresh q')) none none
  have hschema : Status.schema (.settle .fresh q') = Join.resultSchema .cross swapped
    (pl.operator.status l).schema (pr.operator.status r).schema := Join.schema_of_profile hq'
  have hcollect := filter_start (p := .join .cross none swapped pl pr) ht₀ hcross hd hd'
  refine (collect_of_reaches (p := .join .inner (some predicate) swapped pl pr) hinner hc').trans ?_
  refine Eq.trans ?_ hcollect.symm
  rw [← hschema] at htrace
  exact congrArg Trace.collected htrace

/-- It does not matter where a predicate is evaluated: a scan that takes it collects the tuples that
a filter above the scan collects, with their places, and an inner join that takes it collects those
of a filter above the cross join, or both fail with the same error. -/
theorem collect_placement (hdb : db.Built) (predicate : Expr) (config : Config) :
    (∀ {table c₀ d₀ c d}, Cursor.prepared (.scan table (some predicate)) config = .ok c₀ →
      Cursor.prepared (.filter predicate (.scan table none)) config = .ok d₀ →
      c₀.Reaches db .any c → d₀.Reaches db .any d → (c.collect db).1 = (d.collect db).1) ∧
    ∀ {swapped left right c₀ d₀ c d}, left.Opened db → right.Opened db →
      Cursor.prepared (.join .inner (some predicate) swapped left right) config = .ok c₀ →
      Cursor.prepared (.filter predicate (.join .cross none swapped left right)) config = .ok d₀ →
      c₀.Reaches db .any c → d₀.Reaches db .any d → (c.collect db).1 = (d.collect db).1 :=
  ⟨collect_scan_filter, collect_join_filter hdb.sound⟩

/-- Two tables whose columns are joined on equality, with the columns of the right one in front. -/
theorem collect_placement_equal :
    let db := ((Storage.create 2).changes [.createTable "l" [("a", .integer)],
      .createTable "r" [("b", .integer)], .insert "l" [.int 1], .insert "l" [.int 2],
      .insert "r" [.int 2], .insert "r" [.null]]).2
    let predicate : Expr := .compare .eq (.column ⟨none, "a"⟩) (.column ⟨some "r", "b"⟩)
    let left : Plan := .scan ⟨"l", ⟨[⟨"a", some "l", .integer⟩]⟩, .unknown 1⟩ none
    let right : Plan := .scan ⟨"r", ⟨[⟨"b", some "r", .integer⟩]⟩, .unknown 1⟩ none
    ∃ c d, Cursor.prepared (.join .inner (some predicate) true left right) .default = .ok c ∧
      Cursor.prepared (.filter predicate (.join .cross none true left right)) .default = .ok d ∧
      (c.collect db).1 = (d.collect db).1 ∧
      (d.collect db).1.toOption = some [.computed [.int 2, .int 2]] := by
  intro db predicate left right
  have hdb : db.Built := (Storage.Built.create 2).changes _
  obtain ⟨c, hc⟩ : ∃ c, Cursor.prepared (.join .inner (some predicate) true left right) .default =
    .ok c := ⟨_, rfl⟩
  have hd : Cursor.prepared (.filter predicate (.join .cross none true left right)) .default =
    .ok _ := rfl
  have hl : left.Opened db := ⟨_, rfl, rfl⟩
  have hr : right.Opened db := ⟨_, rfl, rfl⟩
  refine ⟨c, _, hc, hd, ?_, ?_⟩
  · exact (collect_placement hdb predicate .default).2 hl hr hc hd ⟨_, .refl, rfl⟩ ⟨_, .refl, rfl⟩
  · decide +kernel

end Cursor

end RelQuery
