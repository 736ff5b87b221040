import RelQuery.Proofs.ServingJoins
import RelQuery.Proofs.ServingOperators
import RelQuery.Proofs.SettledColumns

namespace RelQuery

variable {c left right : Operator} {call : Call} {T : Schema → Row → Prop}

section Calls

/-- A state of an input that a call on it leads to, if it was called at all. -/
def Operator.Called (c : Operator) (db : Storage) (call : Call) (d d' : c.State) : Prop :=
  d' = d ∨ d' = (c.call db call d).2

variable (hcall : call ≠ .next) (db : Storage)

include hcall

theorem Wrapped.called {κ : Type} {kind : OperatorKind} {label : String} {marks : Bool}
    {refusal : StateError} {orderedBy : List OrderKey} {body : Wrapped.Body κ c}
    (s : Wrapped κ c.State) : c.Called db call s.child (Wrapped.child
      ((Operator.wrapped kind label marks refusal orderedBy c body).call db call s).2) := by
  have hmarking : ∀ f : c.State → Outcome Unit c.State,
      (Wrapped.marking refusal marks f s).2.child = s.child ∨
        (Wrapped.marking refusal marks f s).2.child = (f s.child).2 := fun f => by
    unfold Wrapped.marking
    split
    · exact .inr rfl
    · exact .inl rfl
  cases call with
  | next => exact absurd rfl hcall
  | rewind =>
    change (Wrapped.rewind kind c.rewind s).2.child = _ ∨
      (Wrapped.rewind kind c.rewind s).2.child = _
    unfold Wrapped.rewind
    split
    · exact .inl rfl
    · exact .inr rfl
  | mark => exact hmarking c.mark
  | reset => exact hmarking c.reset
  | cleanUp => exact .inr rfl

theorem Buffered.called {kind : OperatorKind} {orderedBy : List OrderKey} {label : String}
    {profile : Config → Status → Except QueryError Profile} {loader : Loader c}
    (s : Buffered c.State) : c.Called db call s.child (Buffered.child
      ((Operator.buffered kind orderedBy label c profile loader).call db call s).2) := by
  cases call with
  | next => exact absurd rfl hcall
  | rewind =>
    change (Buffered.rewind kind c.rewind s).2.child = _ ∨
      (Buffered.rewind kind c.rewind s).2.child = _
    unfold Buffered.rewind
    split
    · exact .inl rfl
    · exact .inr rfl
  | mark => exact .inl rfl
  | reset =>
    obtain ⟨p, hp⟩ := reset_keeps (Prod.ext rfl rfl : Buffered.reset kind s = (_, _))
    exact .inl ((congrArg Buffered.child hp).trans rfl)
  | cleanUp => exact .inr rfl

theorem Limit.called {limit : Option Nat} {offset : Nat} (s : State c.State) :
    c.Called db call s.child
      (State.child ((Operator.limit limit offset c).call db call s).2) := by
  cases call with
  | next => exact absurd rfl hcall
  | rewind =>
    change (Limit.rewind c.rewind s).2.child = _ ∨ (Limit.rewind c.rewind s).2.child = _
    unfold Limit.rewind
    split
    · exact .inl rfl
    · exact .inr rfl
  | mark =>
    change (Limit.setMark c.marks c.mark s).2.child = _ ∨
      (Limit.setMark c.marks c.mark s).2.child = (c.mark s.child).2
    unfold Limit.setMark
    split
    · rcases c.mark s.child with ⟨e | _, d⟩ <;> exact .inr rfl
    · exact .inl rfl
  | reset =>
    change (Limit.reset c.marks c.reset s).2.child = _ ∨
      (Limit.reset c.marks c.reset s).2.child = (c.reset s.child).2
    unfold Limit.reset
    split
    · split
      · exact .inl rfl
      · rcases c.reset s.child with ⟨e | _, d⟩ <;> exact .inr rfl
    · exact .inl rfl
  | cleanUp => exact .inr rfl

namespace Join

omit hcall in
theorem called_both {σ τ : Type} {f : σ → Outcome Unit σ} {g : τ → Outcome Unit τ} (s : State σ τ) :
    (both f g s).2.left = (f s.left).2 ∧
      ((both f g s).2.right = s.right ∨ (both f g s).2.right = (g s.right).2) := by
  unfold both
  rcases f s.left with ⟨e | _, l⟩
  · exact ⟨rfl, .inl rfl⟩
  · exact ⟨rfl, .inr rfl⟩

/-- The inputs of a join are called one after the other, unless the first call fails. -/
theorem called {kind : JoinKind} {predicate : Option Expr} {swapped : Bool}
    (s : State left.State right.State) :
    let s' := ((Operator.join kind predicate swapped left right).call db call s).2
    left.Called db call s.left (State.left s') ∧ right.Called db call s.right (State.right s') := by
  have hnone : left.Called db call s.left s.left ∧ right.Called db call s.right s.right :=
    ⟨.inl rfl, .inl rfl⟩
  cases call with
  | next => exact absurd rfl hcall
  | rewind =>
    obtain ⟨hl, hr⟩ := called_both (f := left.rewind) (g := right.rewind)
      { s with status := s.status.restart }
    change left.Called db .rewind s.left (rewind left.rewind right.rewind s).2.left ∧
      right.Called db .rewind s.right (rewind left.rewind right.rewind s).2.right
    unfold rewind
    split
    · exact hnone
    · split <;> next heq =>
        rw [heq] at hl hr
        exact ⟨.inr hl, hr⟩
  | mark =>
    obtain ⟨hl, hr⟩ := called_both (f := left.mark) (g := right.mark) s
    change left.Called db .mark s.left (setMark _ left.mark right.mark s).2.left ∧
      right.Called db .mark s.right (setMark _ left.mark right.mark s).2.right
    unfold setMark
    split
    · split <;> next heq =>
        rw [heq] at hl hr
        exact ⟨.inr hl, hr⟩
    · exact hnone
  | reset =>
    obtain ⟨hl, hr⟩ := called_both (f := left.reset) (g := right.reset) s
    change left.Called db .reset s.left (reset _ left.reset right.reset s).2.left ∧
      right.Called db .reset s.right (reset _ left.reset right.reset s).2.right
    unfold reset
    split
    · split
      · exact hnone
      · split <;> next heq =>
          rw [heq] at hl hr
          exact ⟨.inr hl, hr⟩
    · exact hnone
  | cleanUp => exact ⟨.inr rfl, .inr rfl⟩

end Join

end Calls

namespace Plan

/-- The rows that the operators of a plan hold, in a buffer, in hand or under a mark, are of a kind
for the columns that preparation settles where they come from. -/
def Kept (T : Schema → Row → Prop) : (p : Plan) → p.operator.State → Prop
  | scan .., _ | values .., _ => True
  | filter _ c, s | project _ c, s | rename _ c, s | barrier c, s => c.Kept T (Wrapped.child s)
  | sort _ c, s => (∀ t ∈ Buffered.rows s, T c.schema t.values) ∧ c.Kept T (Buffered.child s)
  | group keys calls c, s =>
    (∀ t ∈ Buffered.rows s, T (Group.resultSchema keys calls c.schema) t.values) ∧
      c.Kept T (Buffered.child s)
  | limit _ _ c, s => c.Kept T (Limit.State.child s)
  | join kind _ _ l r, s => Join.State.Keeps kind (T l.schema) s ∧
      l.Kept T (Join.State.left s) ∧ r.Kept T (Join.State.right s)

theorem kept_start (p : Plan) : p.Kept T p.operator.start := by
  induction p with
  | scan | values => trivial
  | filter _ _ ih | project _ _ ih | rename _ _ ih | limit _ _ _ ih | barrier _ ih => exact ih
  | sort _ _ ih | group _ _ _ ih => exact ⟨fun _ ht => absurd ht List.not_mem_nil, ih⟩
  | join _ _ _ _ _ ihl ihr =>
    exact ⟨⟨Join.Progress.fit_fresh .., fun _ h => (nomatch h)⟩, ihl, ihr⟩

theorem kept_prepareWith (p : Plan) (k : p.Settings) {s : p.operator.State} (h : p.Kept T s) :
    p.Kept T (p.prepareWith k s).2 := by
  -- The columns that `Kept` speaks of are computed from the plan: what is settled does not matter.
  induction p with
  | scan | values => trivial
  | filter _ c ih | project _ c ih | rename _ c ih | barrier c ih =>
    exact (congrArg (c.Kept T) (Wrapped.child_prepare _ _ _)).mpr (ih k.2 h)
  | sort _ c ih | group _ _ c ih =>
    obtain ⟨hchild, hrows, -⟩ := Buffered.prepare_eq
      ((c.operator.preparedBy (c.prepareWith k.2)).prepare k.1) _ s
    refine ⟨fun t ht => h.1 t ?_, (congrArg (c.Kept T) hchild).mpr (ih k.2 h.2)⟩
    exact (congrArg (t ∈ ·) hrows).mp ht
  | limit n m c ih =>
    have hchild := (Limit.prepare_eq n m (c.operator.preparedBy (c.prepareWith k.2)) k.1 s).1
    exact (congrArg (c.Kept T) hchild).mpr (ih k.2 h)
  | join kind q swapped l r ihl ihr =>
    obtain ⟨hprogress, hmark, hleft, hright⟩ := @Join.prepare_eq
      (l.operator.preparedBy (l.prepareWith k.2.1)) (r.operator.preparedBy (r.prepareWith k.2.2))
      kind q swapped k.1 s
    obtain ⟨hkeeps, hl, hr⟩ := h
    refine ⟨⟨?_, fun m hm => hkeeps.mark m (hmark ▸ hm)⟩, ?_, ?_⟩
    · exact hprogress.symm ▸ hkeeps.progress
    · exact (congrArg (l.Kept T) hleft).mpr (ihl k.2.1 hl)
    · rcases hright with hright | hright
      · exact (congrArg (r.Kept T) hright).mpr hr
      · exact (congrArg (r.Kept T) hright).mpr (ihr k.2.2 hr)

theorem kept_call (p : Plan) (hcall : call ≠ .next) (db : Storage) {s : p.operator.State}
    (h : p.Kept T s) : p.Kept T (p.operator.call db call s).2 := by
  have passed : ∀ {c : Plan} {d d' : c.operator.State}, c.operator.Called db call d d' →
      c.Kept T d → c.Kept T (c.operator.call db call d).2 → c.Kept T d' := by
    -- An input that was not called is as it was.
    rintro c d d' (rfl | rfl) hd hd'
    · exact hd
    · exact hd'
  induction p with
  | scan | values => trivial
  | filter _ c ih | project _ c ih | rename _ c ih | barrier c ih =>
    exact passed (c := c) (Wrapped.called hcall db s) h (ih h)
  | sort _ c ih | group _ _ c ih =>
    exact ⟨Buffered.rows_call hcall db s h.1, passed (Buffered.called hcall db s) h.2 (ih h.2)⟩
  | limit _ _ c ih => exact passed (c := c) (Limit.called hcall db s) h (ih h)
  | join kind q swapped l r ihl ihr =>
    obtain ⟨hkeeps, hl, hr⟩ := h
    obtain ⟨hleft, hright⟩ := Join.called hcall db s
    exact ⟨hkeeps.call hcall, passed hleft hl (ihl hl), passed hright hr (ihr hr)⟩

end Plan

end RelQuery
