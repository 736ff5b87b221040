import RelQuery.Proofs.Replay

namespace RelQuery

namespace Join

section Moves

variable {σ τ : Type} {kind : JoinKind} {inputs : Inputs σ τ}
  {test : Tuple → Tuple → Except QueryError Bool} {leftWidth rightWidth : Nat} {p : Progress}
  {l : σ} {r : τ}

/-- The rows that repeated moves give, and how they end. -/
inductive Emits (move : Progress → σ → τ → Step σ τ) :
    Progress → σ → τ → List Row → Except QueryError Unit → Prop
  | error {p l r e q} : move p l r = (.error e, q) → Emits move p l r [] (.error e)
  | finished {p l r q} : move p l r = (.ok .finished, q) → Emits move p l r [] (.ok ())
  | again {p l r p' l' r' rows e} : move p l r = (.ok .again, p', l', r') →
      Emits move p' l' r' rows e → Emits move p l r rows e
  | row {p l r p' l' r' x rows e} : move p l r = (.ok (.row x), p', l', r') →
      Emits move p' l' r' rows e → Emits move p l r (x :: rows) e

theorem run_fuel {move : Progress → σ → τ → Step σ τ} (measure : Progress → σ → τ → Nat)
    (hmove : ∀ {p l r p' l' r'}, move p l r = (.ok .again, p', l', r') →
      measure p' l' r' < measure p l r) {n n' : Nat} (h : measure p l r < n)
    (h' : measure p l r < n') : run move n p l r = run move n' p l r := by
  induction n generalizing n' p l r with
  | zero => omega
  | succ n ih =>
    obtain ⟨n', rfl⟩ : ∃ k, n' = k + 1 := ⟨n' - 1, by omega⟩
    rw [run, run]
    rcases hs : move p l r with ⟨e | _ | x | _, p', l', r'⟩
    · rfl
    · have hlt := hmove hs
      exact ih (by omega) (by omega)
    · rfl
    · rfl

end Moves

variable {kind : JoinKind} {predicate : Option Expr} {swapped : Bool} {left right : Operator}
  {db : Storage} {π : Policy} {ls rs : Schema}

section Children

variable {p p' : Progress} {l l' : left.State} {r r' : right.State} {m : Except QueryError Move}

/-- Calls lead the two inputs from one state to another. -/
def Leads (left right : Operator) (db : Storage) (π : Policy) (l : left.State) (r : right.State)
    (l' : left.State) (r' : right.State) : Prop :=
  left.Reaches db π l l' ∧ right.Reaches db π r r'

theorem rewindFor_leads {phase : Phase}
    (h : rewindFor (inputs left right db) phase p l r = (m, p', l', r')) (hm : π.Tolerates m) :
    Leads left right db π l r l' r' := by
  unfold rewindFor at h
  split at h
  · next hr =>
    simp only [Prod.mk.injEq] at h
    obtain ⟨rfl, rfl, rfl, rfl⟩ := h
    exact ⟨.refl, .rewind hr hm.of_error⟩
  · next hr =>
    simp only [Prod.mk.injEq] at h
    obtain ⟨rfl, rfl, rfl, rfl⟩ := h
    exact ⟨.refl, .rewind hr (.inr rfl)⟩

theorem advance_leads (h : advance kind (inputs left right db) p l r = (m, p', l', r'))
    (hm : π.Tolerates m) : Leads left right db π l r l' r' := by
  unfold advance at h
  split at h
  · next hl =>
    simp only [Prod.mk.injEq] at h
    obtain ⟨rfl, rfl, rfl, rfl⟩ := h
    exact ⟨.next hl hm.of_error, .refl⟩
  · next hl =>
    obtain ⟨hleft, hright⟩ := rewindFor_leads h hm
    exact ⟨(Operator.Reaches.next hl (.inr rfl)).trans hleft, hright⟩
  · next hl =>
    have hleft := Operator.Reaches.next (π := π) hl (.inr rfl)
    split at h
    · obtain ⟨hleft', hright⟩ := rewindFor_leads h hm
      exact ⟨hleft.trans hleft', hright⟩
    · simp only [Prod.mk.injEq] at h
      obtain ⟨rfl, rfl, rfl, rfl⟩ := h
      exact ⟨hleft, .refl⟩

theorem endOfRight_leads {matched : Bool}
    (h : endOfRight kind (inputs left right db) matched p l r = (m, p', l', r'))
    (hm : π.Tolerates m) : Leads left right db π l r l' r' := by
  unfold endOfRight at h
  split at h
  case isTrue =>
    simp only [Prod.mk.injEq] at h
    obtain ⟨rfl, rfl, rfl, rfl⟩ := h
    exact ⟨.refl, .refl⟩
  split at h
  case isTrue =>
    simp only [Prod.mk.injEq] at h
    obtain ⟨rfl, rfl, rfl, rfl⟩ := h
    exact ⟨.refl, .refl⟩
  split at h
  case isTrue =>
    simp only [Prod.mk.injEq] at h
    obtain ⟨rfl, rfl, rfl, rfl⟩ := h
    exact ⟨.refl, .refl⟩
  exact advance_leads h hm

theorem move_leads (h : move kind predicate left right db ls rs p l r = (m, p', l', r'))
    (hm : π.Tolerates m) : Leads left right db π l r l' r' := by
  unfold move step at h
  split at h
  case h_1 =>
    simp only [Prod.mk.injEq] at h
    obtain ⟨rfl, rfl, rfl, rfl⟩ := h
    exact ⟨.refl, .refl⟩
  case h_2 => exact advance_leads h hm
  case h_3 =>
    split at h
    · exact advance_leads h hm
    · split at h
      · next hr =>
        simp only [Prod.mk.injEq] at h
        obtain ⟨rfl, rfl, rfl, rfl⟩ := h
        exact ⟨.refl, .next hr hm.of_error⟩
      · next hr =>
        obtain ⟨hleft, hright⟩ := endOfRight_leads h hm
        exact ⟨hleft, (Operator.Reaches.next hr (.inr rfl)).trans hright⟩
      · next hr =>
        simp only [Prod.mk.injEq] at h
        obtain ⟨-, -, rfl, rfl⟩ := h
        exact ⟨.refl, .next hr (.inr rfl)⟩
  case h_4 | h_5 =>
    split at h <;>
    · simp only [Prod.mk.injEq] at h
      obtain ⟨rfl, rfl, rfl, rfl⟩ := h
      exact ⟨.refl, .refl⟩
  case h_6 =>
    split at h
    · next hr =>
      simp only [Prod.mk.injEq] at h
      obtain ⟨rfl, rfl, rfl, rfl⟩ := h
      exact ⟨.refl, .next hr hm.of_error⟩
    · next hr =>
      simp only [Prod.mk.injEq] at h
      obtain ⟨rfl, rfl, rfl, rfl⟩ := h
      exact ⟨.refl, .next hr (.inr rfl)⟩
    · next hr =>
      simp only [Prod.mk.injEq] at h
      obtain ⟨-, -, rfl, rfl⟩ := h
      exact ⟨.refl, .next hr (.inr rfl)⟩

theorem run_leads {n : Nat} {x : Except QueryError (Option Row)}
    (h : run (move kind predicate left right db ls rs) n p l r = (x, p', l', r'))
    (hx : π.Tolerates x) : Leads left right db π l r l' r' := by
  induction n generalizing p l r with
  | zero =>
    simp only [run, Prod.mk.injEq] at h
    obtain ⟨-, -, rfl, rfl⟩ := h
    exact ⟨.refl, .refl⟩
  | succ n ih =>
    rw [run] at h
    rcases hs : move kind predicate left right db ls rs p l r with ⟨e | _ | y | _, q, l₁, r₁⟩ <;>
      simp only [hs, Prod.mk.injEq] at h
    · obtain ⟨rfl, -, rfl, rfl⟩ := h
      exact move_leads hs hx.of_error
    · obtain ⟨hleft, hright⟩ := move_leads hs (Policy.tolerates_ok (π := π) _)
      obtain ⟨hleft', hright'⟩ := ih h
      exact ⟨hleft.trans hleft', hright.trans hright'⟩
    · obtain ⟨-, -, rfl, rfl⟩ := h
      exact move_leads hs (Policy.tolerates_ok _)
    · obtain ⟨-, -, rfl, rfl⟩ := h
      exact move_leads hs (Policy.tolerates_ok _)

end Children

section Trace

variable {s s' : State left.State right.State} {p p' : Progress} {l l' : left.State}
  {r r' : right.State}

def State.place (s : State left.State right.State) (p : Progress) (l : left.State)
    (r : right.State) : State left.State right.State :=
  { s with progress := p, left := l, right := r }

theorem next_of_error {e : QueryError} {q : Progress × left.State × right.State}
    (h : move kind predicate left right db s.leftSchema s.rightSchema s.progress s.left s.right =
      (.error e, q)) :
    next kind predicate swapped left right db s = (.error e, s.place q.1 q.2.1 q.2.2) := by
  rw [next, run, h]
  rfl

theorem next_of_finished {q : Progress × left.State × right.State}
    (h : move kind predicate left right db s.leftSchema s.rightSchema s.progress s.left s.right =
      (.ok .finished, q)) :
    next kind predicate swapped left right db s = (.ok none, s.place q.1 q.2.1 q.2.2) := by
  rw [next, run, h]
  rfl

theorem next_of_row {x : Row}
    (h : move kind predicate left right db s.leftSchema s.rightSchema s.progress s.left s.right =
      (.ok (.row x), p, l, r)) :
    next kind predicate swapped left right db s =
      (.ok (some (.computed (dress swapped s.leftSchema.width x))),
        State.place { s with status := s.status.count } p l r) := by
  rw [next, run, h]
  rfl

theorem next_of_again
    (h : move kind predicate left right db s.leftSchema s.rightSchema s.progress s.left s.right =
      (.ok .again, p, l, r)) :
    next kind predicate swapped left right db s =
      next kind predicate swapped left right db (s.place p l r) := by
  -- The move took one unit of fuel, and made the bound on the moves to come smaller.
  have hfuel : run (move kind predicate left right db s.leftSchema s.rightSchema)
      (movesLeft left right db s.progress s.left s.right) p l r =
        run (move kind predicate left right db s.leftSchema s.rightSchema)
          (movesLeft left right db p l r + 1) p l r :=
    run_fuel (movesLeft left right db) (fun h => move_lt h (by simp)) (move_lt h (by simp))
      (Nat.lt_succ_self _)
  rw [next, run, h]
  dsimp only
  rw [hfuel]
  rfl

theorem trace_of_emits {rows : List Row} {e : Except QueryError Unit}
    (h : Emits (move kind predicate left right db ls rs) p l r rows e) (status : Status)
    (mark : Option Progress) :
    (Operator.join kind predicate swapped left right).trace db
        (⟨status, ls, rs, p, mark, l, r⟩ : State left.State right.State) =
      ⟨rows.map fun x => .computed (dress swapped ls.width x), e⟩ := by
  -- Rows count in the status, nothing else of it matters.
  induction h generalizing status with
  | @error p l r e q h =>
    exact Operator.trace_of_error (o := .join kind predicate swapped left right)
      (next_of_error (s := ⟨status, ls, rs, p, mark, l, r⟩) h)
  | @finished p l r q h =>
    exact Operator.trace_of_none (o := .join kind predicate swapped left right)
      (next_of_finished (s := ⟨status, ls, rs, p, mark, l, r⟩) h)
  | @again p l r p' l' r' rows e h _ ih =>
    exact (Operator.trace_eq_of_next_eq (o := .join kind predicate swapped left right)
      (next_of_again (s := ⟨status, ls, rs, p, mark, l, r⟩) h)).trans (ih status)
  | @row p l r p' l' r' x rows e h _ ih =>
    exact (Operator.trace_of_some (o := .join kind predicate swapped left right)
      (next_of_row (s := ⟨status, ls, rs, p, mark, l, r⟩) h)).trans
        (congrArg (Trace.cons _) (ih status.count))

theorem exists_emits (kind : JoinKind) (predicate : Option Expr) (left right : Operator)
    (db : Storage) (ls rs : Schema) (p : Progress) (l : left.State) (r : right.State) :
    ∃ rows e, Emits (move kind predicate left right db ls rs) p l r rows e := by
  induction h : movesLeft left right db p l r using Nat.strong_induction_on generalizing p l r with
  | _ n ih =>
    rcases hs : move kind predicate left right db ls rs p l r with ⟨e | _ | x | _, p', l', r'⟩
    · exact ⟨[], .error e, .error hs⟩
    · obtain ⟨rows, e, hrest⟩ := ih _ (h ▸ move_lt hs (by simp)) p' l' r' rfl
      exact ⟨rows, e, .again hs hrest⟩
    · obtain ⟨rows, e, hrest⟩ := ih _ (h ▸ move_lt hs (by simp)) p' l' r' rfl
      exact ⟨x :: rows, e, .row hs hrest⟩
    · exact ⟨[], .ok (), .finished hs⟩

end Trace

section Calls

variable {s s' : State left.State right.State} {x : Except QueryError Unit}

def State.settled (s : State left.State right.State) : Option Profile × Schema × Schema :=
  (s.status.profile, s.leftSchema, s.rightSchema)

/-- What a call on a join does to its inputs, to what is settled and to the mark. -/
structure Moves (left right : Operator) (db : Storage) (π : Policy)
    (s s' : State left.State right.State) : Prop where
  leads : Leads left right db π s.left s.right s'.left s'.right
  settled : s'.settled = s.settled
  mark : s'.mark = s.mark

theorem next_moves {x : Except QueryError (Option Tuple)}
    (h : next kind predicate swapped left right db s = (x, s')) (hx : π.Tolerates x) :
    Moves left right db π s s' := by
  unfold next at h
  rcases hrun : run (move kind predicate left right db s.leftSchema s.rightSchema)
    (movesLeft left right db s.progress s.left s.right + 1) s.progress s.left s.right with
    ⟨e | _ | row, p, l, r⟩ <;> simp only [hrun] at h <;> obtain ⟨rfl, rfl⟩ := Prod.mk.inj h
  · exact ⟨run_leads hrun hx.of_error, rfl, rfl⟩
  · exact ⟨run_leads hrun (Policy.tolerates_ok _), rfl, rfl⟩
  · exact ⟨run_leads hrun (Policy.tolerates_ok _), rfl, rfl⟩

theorem both_moves {f : left.State → Outcome Unit left.State}
    {g : right.State → Outcome Unit right.State}
    (hf : ∀ {a b x}, f a = (x, b) → π.Tolerates x → left.Reaches db π a b)
    (hg : ∀ {a b x}, g a = (x, b) → π.Tolerates x → right.Reaches db π a b)
    (h : both f g s = (x, s')) (hx : π.Tolerates x) :
    Moves left right db π s s' ∧ s'.progress = s.progress := by
  unfold both at h
  split at h
  · next hleft =>
    obtain ⟨rfl, rfl⟩ := Prod.mk.inj h
    exact ⟨⟨⟨hf hleft hx, .refl⟩, rfl, rfl⟩, rfl⟩
  · next hleft =>
    obtain ⟨rfl, rfl⟩ := Prod.mk.inj h
    exact ⟨⟨⟨hf hleft (Policy.tolerates_ok _), hg rfl hx⟩, rfl, rfl⟩, rfl⟩

theorem rewind_moves (h : rewind left.rewind right.rewind s = (x, s')) (hx : π.Tolerates x) :
    Moves left right db π s s' := by
  have hboth : ∀ {x s₁}, both left.rewind right.rewind { s with status := s.status.restart } =
      (x, s₁) → π.Tolerates x → Moves left right db π s s₁ := fun h hx => by
    obtain ⟨⟨hleads, hsettled, hmark⟩, -⟩ :=
      both_moves (fun h => .rewind h) (fun h => .rewind h) h hx
    exact ⟨hleads, hsettled, hmark⟩
  unfold rewind at h
  split at h
  · obtain ⟨-, rfl⟩ := Prod.mk.inj h
    exact ⟨⟨.refl, .refl⟩, rfl, rfl⟩
  · split at h
    · next heq =>
      obtain ⟨rfl, rfl⟩ := Prod.mk.inj h
      exact hboth heq hx
    · next heq =>
      obtain ⟨rfl, rfl⟩ := Prod.mk.inj h
      obtain ⟨hleads, hsettled, hmark⟩ := hboth heq hx
      exact ⟨hleads, hsettled, hmark⟩

theorem setMark_moves {marks : Bool} (hm : π.mark = true)
    (h : setMark marks left.mark right.mark s = (x, s')) (hx : π.Tolerates x) :
    Leads left right db π s.left s.right s'.left s'.right ∧ s'.settled = s.settled := by
  unfold setMark at h
  split at h
  · split at h
    · next hboth =>
      obtain ⟨rfl, rfl⟩ := Prod.mk.inj h
      obtain ⟨⟨hleads, hsettled, -⟩, -⟩ :=
        both_moves (fun h => .mark h hm) (fun h => .mark h hm) hboth hx
      exact ⟨hleads, hsettled⟩
    · next hboth =>
      obtain ⟨rfl, rfl⟩ := Prod.mk.inj h
      obtain ⟨⟨hleads, hsettled, -⟩, -⟩ :=
        both_moves (fun h => .mark h hm) (fun h => .mark h hm) hboth hx
      exact ⟨hleads, hsettled⟩
  · obtain ⟨-, rfl⟩ := Prod.mk.inj h
    exact ⟨⟨.refl, .refl⟩, rfl⟩

theorem reset_moves {marks : Bool} (hm : π.reset = true)
    (h : reset marks left.reset right.reset s = (x, s')) (hx : π.Tolerates x) :
    Moves left right db π s s' := by
  unfold reset at h
  split at h
  · split at h
    · obtain ⟨-, rfl⟩ := Prod.mk.inj h
      exact ⟨⟨.refl, .refl⟩, rfl, rfl⟩
    · split at h
      · next hboth =>
        obtain ⟨rfl, rfl⟩ := Prod.mk.inj h
        exact (both_moves (fun h => .reset h hm) (fun h => .reset h hm) hboth hx).1
      · next hboth =>
        obtain ⟨rfl, rfl⟩ := Prod.mk.inj h
        obtain ⟨⟨hleads, hsettled, hmark⟩, -⟩ :=
          both_moves (fun h => .reset h hm) (fun h => .reset h hm) hboth hx
        exact ⟨hleads, hsettled, hmark⟩
  · obtain ⟨-, rfl⟩ := Prod.mk.inj h
    exact ⟨⟨.refl, .refl⟩, rfl, rfl⟩

/-- A call on a join makes calls on its inputs, and changes neither what is settled nor, unless it
marks, the mark. -/
theorem step_moves (h : (Operator.join kind predicate swapped left right).Step db π s s') :
    Leads left right db π s.left s.right s'.left s'.right ∧ s'.settled = s.settled ∧
      (π.mark = false → s'.mark = s.mark) := by
  refine h.rec_calls ?rewind ?next ?mark ?reset ?cleanUp
  case rewind =>
    intro x h hx
    obtain ⟨hleads, hsettled, hmark⟩ := rewind_moves h hx
    exact ⟨hleads, hsettled, fun _ => hmark⟩
  case next =>
    intro x h hx
    obtain ⟨hleads, hsettled, hmark⟩ := next_moves h hx
    exact ⟨hleads, hsettled, fun _ => hmark⟩
  case mark =>
    intro x hm h hx
    obtain ⟨hleads, hsettled⟩ := setMark_moves hm h hx
    exact ⟨hleads, hsettled, fun hπ => by simp [hπ] at hm⟩
  case reset =>
    intro x hm h hx
    obtain ⟨hleads, hsettled, hmark⟩ := reset_moves hm h hx
    exact ⟨hleads, hsettled, fun _ => hmark⟩
  case cleanUp =>
    rintro hm rfl
    exact ⟨⟨.cleanUp hm, .cleanUp hm⟩, rfl, fun _ => rfl⟩

section Reaches

variable (h : (Operator.join kind predicate swapped left right).Reaches db π s s')

include h

theorem reaches_left : left.Reaches db π s.left s'.left :=
  h.lift (o := .join kind predicate swapped left right) State.left fun h => (step_moves h).1.1

theorem reaches_right : right.Reaches db π s.right s'.right :=
  h.lift (o := .join kind predicate swapped left right) State.right fun h => (step_moves h).1.2

theorem settled_eq : s'.settled = s.settled :=
  h.keeps (o := .join kind predicate swapped left right) State.settled fun h => (step_moves h).2.1

end Reaches

theorem settled : (Operator.join kind predicate swapped left right).Settled db :=
  fun _ _ h => congrArg Prod.fst (settled_eq h)

end Calls

end Join

end RelQuery
