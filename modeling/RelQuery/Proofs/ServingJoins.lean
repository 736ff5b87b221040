import RelQuery.Proofs.JoinReplay
import RelQuery.Proofs.Serving

namespace RelQuery

variable {left right : Operator} {D : Storage → Prop} {TL TR TJ : Row → Prop}
  {G : EvalError → Prop} {db : Storage}

namespace Join

/-- Rows are given one by one only in joins that keep them. -/
def Phase.suits (kind : JoinKind) : Phase → Bool
  | .padding => kind.preservesLeft
  | .unmatched => kind == .anti
  | .rightUnmatched => kind == .fullOuter
  | _ => true

/-- The left row in hand is of a kind, and the machine is where a join of the kind can be. -/
structure Progress.Fit (kind : JoinKind) (TL : Row → Prop) (p : Progress) : Prop where
  left : ∀ t, p.left = some t → TL t.values
  phase : p.phase.suits kind = true

theorem Progress.fit_fresh (kind : JoinKind) (TL : Row → Prop) : Progress.fresh.Fit kind TL :=
  ⟨fun _ h => (nomatch h), rfl⟩

theorem Progress.fit_remembered {kind : JoinKind} {p : Progress} (h : p.Fit kind TL) :
    p.remembered.Fit kind TL := by
  refine ⟨fun t ht => ?_, h.phase⟩
  obtain ⟨u, hu, rfl⟩ := Option.map_eq_some_iff.1 ht
  exact h.left u hu

/-- The rows that a join makes of left and of right rows are of a kind. -/
structure Makes (kind : JoinKind) (leftWidth rightWidth : Nat) (TL TR TJ : Row → Prop) : Prop where
  pair : kind.leftColumnsOnly = false → ∀ x y, TL x → TR y → TJ (x ++ y)
  single : kind.leftColumnsOnly = true → ∀ x, TL x → TJ x
  padded : kind.preservesLeft = true → ∀ x, TL x → TJ (x ++ Tuple.nulls rightWidth)
  unmatched : kind = .fullOuter → ∀ y, TR y → TJ (Tuple.nulls leftWidth ++ y)

theorem makes_any (kind : JoinKind) (leftWidth rightWidth : Nat) :
    Makes kind leftWidth rightWidth TL TR fun _ => True :=
  ⟨fun _ _ _ _ _ => trivial, fun _ _ _ => trivial, fun _ _ _ => trivial, fun _ _ _ => trivial⟩

section Moves

variable {kind : JoinKind} {predicate : Option Expr} {ls rs : Schema} {p : Progress}
  {l : left.State} {r : right.State}

/-- A move gives a row of a kind or none, and leaves the machine and its inputs as they have to
be. -/
structure Good (left right : Operator) (D : Storage → Prop) (kind : JoinKind)
    (TL TR TJ : Row → Prop) (G : EvalError → Prop) {α : Type} (P : α → Prop)
    (x : Outcome α (Progress × left.State × right.State)) : Prop where
  result : Within P G x.1
  progress : x.2.1.Fit kind TL
  left : left.Serves D TL G x.2.2.1
  right : right.Serves D TR G x.2.2.2

def Move.Of (TJ : Row → Prop) (m : Move) : Prop := ∀ x, m = .row x → TJ x

theorem Move.of_row {x : Row} (h : TJ x) : (Move.row x).Of TJ := fun y hy => by
  cases hy
  exact h

theorem Move.of_again : Move.again.Of TJ := fun _ h => nomatch h

theorem Move.of_finished : Move.finished.Of TJ := fun _ h => nomatch h

variable (hcalm : right.Calm) (hdb : D db)

include hcalm hdb

theorem rewindFor_good {phase : Phase} (hp : p.Fit kind TL) (hphase : phase.suits kind = true)
    (hl : left.Serves D TL G l) (hr : right.Serves D TR G r) :
    Good left right D kind TL TR TJ G (Move.Of TJ)
      (rewindFor (inputs left right db) phase p l r) := by
  have hcall := hr.call hcalm hdb .rewind
  unfold rewindFor
  dsimp only [inputs]
  rcases hx : right.rewind r with ⟨e | _, r'⟩ <;>
  have hr' := hr.of_reaches hdb (.rewind hx (.inl rfl) : right.Reaches db .any r r')
  · rw [Operator.call, hx] at hcall
    exact ⟨hcall, hp, hl, hr'⟩
  · exact ⟨Move.of_again, ⟨hp.left, hphase⟩, hl, hr'⟩

theorem advance_good (hp : p.phase.suits kind = true) (hl : left.Serves D TL G l)
    (hr : right.Serves D TR G r) :
    Good left right D kind TL TR TJ G (Move.Of TJ)
      (advance kind (inputs left right db) p l r) := by
  have hnone : Progress.Fit kind TL { p with left := none, leftDone := false } :=
    ⟨fun _ h => (nomatch h), hp⟩
  unfold advance
  dsimp only [inputs]
  rcases hx : left.next db l with ⟨e | _ | t, l'⟩ <;> obtain ⟨hgives, hl'⟩ := hl.next hdb hx
  · exact ⟨hgives, hnone, hl', hr⟩
  · dsimp only
    split
    · next hkind => exact rewindFor_good hcalm hdb hnone (by simp [Phase.suits, hkind]) hl' hr
    · exact ⟨Move.of_again, ⟨fun _ h => (nomatch h), rfl⟩, hl', hr⟩
  · have ht : Progress.Fit kind TL { p with left := some t, leftDone := false } :=
      ⟨fun u hu => Option.some.inj hu ▸ hgives t rfl, hp⟩
    exact rewindFor_good hcalm hdb ht rfl hl' hr

theorem endOfRight_good {matched : Bool} (hp : p.Fit kind TL) (hl : left.Serves D TL G l)
    (hr : right.Serves D TR G r) :
    Good left right D kind TL TR TJ G (Move.Of TJ)
      (endOfRight kind (inputs left right db) matched p l r) := by
  unfold endOfRight
  split
  · exact ⟨Move.of_again, ⟨fun _ h => (nomatch h), rfl⟩, hl, hr⟩
  · split
    · next hpad => exact ⟨Move.of_again, ⟨hp.left, (Bool.and_eq_true_iff.1 hpad).2⟩, hl, hr⟩
    · split
      · next hanti => exact ⟨Move.of_again, ⟨hp.left, (Bool.and_eq_true_iff.1 hanti).2⟩, hl, hr⟩
      · exact advance_good hcalm hdb hp.phase hl hr

omit hcalm hdb in
theorem settle_fit (hp : p.Fit kind TL) : (settle p).Fit kind TL := ⟨hp.left, rfl⟩

omit hcalm hdb in
theorem meet_good (hmakes : Makes kind ls.width rs.width TL TR TJ)
    {test : Tuple → Tuple → Except QueryError Bool}
    (htest : ∀ t u : Tuple, TL t.values → TR u.values → Within (fun _ => True) G (test t u))
    {u : Tuple} (hp : p.Fit kind TL) (hu : TR u.values) :
    Within (Move.Of TJ) G (meet kind test p u).1 ∧ (meet kind test p u).2.Fit kind TL := by
  unfold meet
  dsimp only
  split
  · exact ⟨Move.of_again, hp.left, rfl⟩
  · next t ht =>
    have hleft := hp.left t ht
    have hresult := htest t u hleft hu
    rcases htu : test t u with e | _ | _ <;> rw [htu] at hresult
    · exact ⟨hresult, hp.left, hp.phase⟩
    · exact ⟨Move.of_again, hp.left, hp.phase⟩
    · cases kind with
      | inner | cross | leftOuter | fullOuter =>
        exact ⟨Move.of_row (hmakes.pair rfl _ _ hleft hu), hp.left, rfl⟩
      | semi => exact ⟨Move.of_row (hmakes.single rfl _ hleft), hp.left, rfl⟩
      | anti => exact ⟨Move.of_again, hp.left, rfl⟩
      | rightOuter => exact ⟨trivial, hp.left, hp.phase⟩

variable (hmakes : Makes kind ls.width rs.width TL TR TJ)
  (htest : ∀ t u : Tuple, TL t.values → TR u.values →
    Within (fun _ => True) G (matches? predicate ls rs t u))

include hmakes htest

theorem move_good (hp : p.Fit kind TL) (hl : left.Serves D TL G l) (hr : right.Serves D TR G r) :
    Good left right D kind TL TR TJ G (Move.Of TJ)
      (move kind predicate left right db ls rs p l r) := by
  unfold move step
  split
  case h_1 => exact ⟨Move.of_finished, hp, hl, hr⟩
  case h_2 => exact advance_good hcalm hdb hp.phase hl hr
  case h_3 =>
    split
    · exact advance_good hcalm hdb hp.phase hl hr
    · dsimp only [inputs]
      rcases hx : right.next db r with ⟨e | _ | u, r'⟩ <;> obtain ⟨hgives, hr'⟩ := hr.next hdb hx
      · exact ⟨hgives, hp, hl, hr'⟩
      · exact endOfRight_good hcalm hdb hp hl hr'
      · obtain ⟨hresult, hfit⟩ := meet_good hmakes htest hp (hgives u rfl)
        exact ⟨hresult, hfit, hl, hr'⟩
  case h_4 hphase =>
    -- The phases that give rows of one input alone tell the kind of the join.
    have hkind : kind.preservesLeft = true := by simpa [Phase.suits, hphase] using hp.phase
    split
    · next t ht =>
      exact ⟨Move.of_row (hmakes.padded hkind _ (hp.left t ht)), settle_fit hp, hl, hr⟩
    · exact ⟨Move.of_again, settle_fit hp, hl, hr⟩
  case h_5 hphase =>
    have hkind : kind = .anti := by simpa [Phase.suits, hphase] using hp.phase
    split
    · next t ht =>
      have hrow : TJ t.values := hmakes.single (by rw [hkind]; rfl) _ (hp.left t ht)
      exact ⟨Move.of_row hrow, settle_fit hp, hl, hr⟩
    · exact ⟨Move.of_again, settle_fit hp, hl, hr⟩
  case h_6 hphase =>
    have hkind : kind = .fullOuter := by simpa [Phase.suits, hphase] using hp.phase
    dsimp only [inputs]
    rcases hx : right.next db r with ⟨e | _ | u, r'⟩ <;> obtain ⟨hgives, hr'⟩ := hr.next hdb hx
    · exact ⟨hgives, hp, hl, hr'⟩
    · exact ⟨Move.of_again, ⟨hp.left, rfl⟩, hl, hr'⟩
    · dsimp only
      split
      · exact ⟨Move.of_again, ⟨hp.left, hp.phase⟩, hl, hr'⟩
      · exact ⟨Move.of_row (hmakes.unmatched hkind _ (hgives u rfl)), ⟨hp.left, hp.phase⟩, hl, hr'⟩

theorem run_good (n : Nat) (hp : p.Fit kind TL) (hl : left.Serves D TL G l)
    (hr : right.Serves D TR G r) :
    Good left right D kind TL TR TJ G (fun x => ∀ row, x = some row → TJ row)
      (run (move kind predicate left right db ls rs) n p l r) := by
  induction n generalizing p l r with
  | zero => exact ⟨fun _ h => (nomatch h), hp, hl, hr⟩
  | succ n ih =>
    have hgood := move_good hcalm hdb hmakes htest hp hl hr
    rw [run]
    rcases hx : move kind predicate left right db ls rs p l r with ⟨e | _ | y | _, p', l', r'⟩ <;>
      rw [hx] at hgood
    · exact ⟨hgood.result, hgood.progress, hgood.left, hgood.right⟩
    · exact ih hgood.progress hgood.left hgood.right
    · refine ⟨fun row hrow => ?_, hgood.progress, hgood.left, hgood.right⟩
      exact Option.some.inj hrow ▸ hgood.result y rfl
    · exact ⟨fun _ h => (nomatch h), hgood.progress, hgood.left, hgood.right⟩

end Moves

section Holding

variable {kind : JoinKind} {σ τ : Type} {s : State σ τ}

/-- The left rows that a join holds, in hand and marked, are of a kind. -/
structure State.Keeps (kind : JoinKind) (TL : Row → Prop) (s : State σ τ) : Prop where
  progress : s.progress.Fit kind TL
  mark : ∀ m, s.mark = some m → m.Fit kind TL

theorem State.Keeps.both {f : σ → Outcome Unit σ} {g : τ → Outcome Unit τ} (h : s.Keeps kind TL) :
    (Join.both f g s).2.Keeps kind TL := by
  unfold Join.both
  split <;> exact ⟨h.progress, h.mark⟩

theorem State.Keeps.call {predicate : Option Expr} {swapped : Bool} {call : Call}
    {s : State left.State right.State} (h : s.Keeps kind TL) (hcall : call ≠ .next) :
    State.Keeps kind TL ((Operator.join kind predicate swapped left right).call db call s).2 := by
  cases call with
  | next => exact absurd rfl hcall
  | rewind =>
    have hrestart : State.Keeps kind TL { s with status := s.status.restart } :=
      ⟨h.progress, h.mark⟩
    have hboth := hrestart.both (f := left.rewind) (g := right.rewind)
    change State.Keeps kind TL (Join.rewind left.rewind right.rewind s).2
    unfold Join.rewind
    split
    · exact h
    · split
      · next heq => rwa [heq] at hboth
      · next heq =>
        rw [heq] at hboth
        exact ⟨Progress.fit_fresh .., hboth.mark⟩
  | mark =>
    have hboth := h.both (f := left.mark) (g := right.mark)
    change State.Keeps kind TL (setMark (left.marks && right.marks) left.mark right.mark s).2
    unfold setMark
    split
    · split
      · next heq => rwa [heq] at hboth
      · next heq =>
        rw [heq] at hboth
        refine ⟨hboth.progress, fun m hm => ?_⟩
        exact Option.some.inj hm ▸ Progress.fit_remembered hboth.progress
    · exact h
  | reset =>
    have hboth := h.both (f := left.reset) (g := right.reset)
    change State.Keeps kind TL (reset (left.marks && right.marks) left.reset right.reset s).2
    unfold reset
    split
    · split
      · exact h
      · next m hm =>
        split
        · next heq => rwa [heq] at hboth
        · next heq =>
          rw [heq] at hboth
          exact ⟨h.mark m hm, hboth.mark⟩
    · exact h
  | cleanUp => exact ⟨⟨fun _ h => (nomatch h), h.progress.phase⟩, h.mark⟩

end Holding

section Runs

variable {kind : JoinKind} {predicate : Option Expr} {swapped : Bool} {T : Row → Prop}
  {s₀ s s' : State left.State right.State}

/-- What the calls of a run keep of a join. -/
structure Fit (kind : JoinKind) (D : Storage → Prop) (TL TR : Row → Prop) (G : EvalError → Prop)
    (s₀ s : State left.State right.State) : Prop where
  left : left.Serves D TL G s.left
  right : right.Serves D TR G s.right
  schemas : s.leftSchema = s₀.leftSchema ∧ s.rightSchema = s₀.rightSchema
  rows : s.Keeps kind TL

variable (hcalm : right.Calm)
  (hmakes : Makes kind s₀.leftSchema.width s₀.rightSchema.width TL TR TJ)
  (htest : ∀ t u : Tuple, TL t.values → TR u.values →
    Within (fun _ => True) G (matches? predicate s₀.leftSchema s₀.rightSchema t u))

include hcalm hmakes htest

/-- A call of `next` gives a row that is made of rows that were served. -/
theorem Fit.next (hdb : D db) (hfit : Fit kind D TL TR G s₀ s)
    (hdress : ∀ x, TJ x → T (dress swapped s₀.leftSchema.width x)) :
    Within (fun x => ∀ t, x = some t → T t.values) G
        (Join.next kind predicate swapped left right db s).1 ∧
      (Join.next kind predicate swapped left right db s).2.Keeps kind TL := by
  have hgood := run_good hcalm hdb hmakes htest
    (movesLeft left right db s.progress s.left s.right + 1) hfit.rows.progress hfit.left hfit.right
  unfold Join.next
  rw [hfit.schemas.1, hfit.schemas.2]
  rcases hx : run (move kind predicate left right db s₀.leftSchema s₀.rightSchema)
    (movesLeft left right db s.progress s.left s.right + 1) s.progress s.left s.right with
    ⟨e | _ | row, p, l, r⟩ <;> rw [hx] at hgood
  · exact ⟨hgood.result, hgood.progress, hfit.rows.mark⟩
  · exact ⟨fun _ h => (nomatch h), hgood.progress, hfit.rows.mark⟩
  · refine ⟨fun t ht => ?_, hgood.progress, hfit.rows.mark⟩
    exact Option.some.inj ht ▸ hdress row (hgood.result row rfl)

theorem Fit.step (hdb : D db) (hfit : Fit kind D TL TR G s₀ s)
    (hstep : (Operator.join kind predicate swapped left right).Step db .any s s') :
    Fit kind D TL TR G s₀ s' := by
  obtain ⟨⟨hleft, hright⟩, hsettled, -⟩ := step_moves hstep
  have hschemas := Prod.mk.inj (congrArg Prod.snd hsettled)
  refine ⟨hfit.left.of_reaches hdb hleft, hfit.right.of_reaches hdb hright,
    ⟨hschemas.1.trans hfit.schemas.1, hschemas.2.trans hfit.schemas.2⟩, ?_⟩
  obtain ⟨call, x, -, hcall, -⟩ := hstep
  obtain rfl := (congrArg Prod.snd hcall).symm
  by_cases hnext : call = .next
  · subst hnext
    exact (hfit.next (T := fun _ => True) hcalm hmakes htest hdb fun _ _ => trivial).2
  · exact hfit.rows.call hnext

variable (s₀) in
/-- A join serves what it makes of the rows that its inputs serve, when its predicate has a value on
them. -/
theorem serves (hdress : ∀ x, TJ x → T (dress swapped s₀.leftSchema.width x))
    (h₀ : Fit kind D TL TR G s₀ s₀) :
    (Operator.join kind predicate swapped left right).Serves D T G s₀ ∧
      ∀ {s}, (Operator.join kind predicate swapped left right).ReachesOver D s₀ s →
        State.Keeps kind TL s := by
  refine ⟨?_, fun hrun => ?_⟩
  · refine Operator.Serves.of_next (o := .join kind predicate swapped left right)
      (Fit kind D TL TR G s₀) (fun hdb hs hstep => hs.step hcalm hmakes htest hdb hstep)
      (fun {db s x s'} hdb hs hnext => ?_) h₀
    have hgives := (hs.next hcalm hmakes htest hdb hdress).1
    rwa [show Join.next kind predicate swapped left right db s = _ from hnext] at hgives
  · have hfit := hrun.keeps (I := Fit kind D TL TR G s₀)
      (fun hdb hs hstep => Fit.step hcalm hmakes htest hdb hs hstep) h₀
    exact hfit.rows

end Runs

end Join

end RelQuery
