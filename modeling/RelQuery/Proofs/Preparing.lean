import RelQuery.Plan
import RelQuery.Proofs.Computations

namespace RelQuery

variable {c left right : Operator} {config : Config}

theorem Leaf.prepare_eq_ok {κ : Type} {kind : OperatorKind} {label : String}
    {profile : Config → Except QueryError Profile} {source : Leaf.Source κ} {s s' : Leaf κ} :
    (Operator.leaf kind label profile source).prepare config s = (.ok (), s') ↔
      ∃ p, profile config = .ok p ∧ s' = { s with status := s.status.settle p } := by
  change Leaf.prepare (profile config) s = _ ↔ _
  unfold Leaf.prepare
  cases profile config with
  | error e => simp
  | ok p => simp [eq_comm]

theorem Wrapped.prepare_eq_ok {κ : Type} {kind : OperatorKind} {label : String} {marks : Bool}
    {refusal : StateError} {orderedBy : List OrderKey} {body : Wrapped.Body κ c}
    {s s' : Wrapped κ c.State} :
    (Operator.wrapped kind label marks refusal orderedBy c body).prepare config s = (.ok (), s') ↔
      ∃ d p k, c.prepare config s.child = (.ok (), d) ∧
        body.settle config (c.status d) = .ok (p, k) ∧ s' = ⟨s.status.settle p, k, d⟩ := by
  change Wrapped.prepare (c.prepare config) (fun s => body.settle config (c.status s)) s = _ ↔ _
  constructor
  · intro h
    unfold Wrapped.prepare at h
    split at h
    · simp at h
    next d hd =>
    split at h
    · simp at h
    next p k hp => exact ⟨d, p, k, hd, hp, (Prod.mk.inj h).2.symm⟩
  · rintro ⟨d, p, k, hd, hp, rfl⟩
    simp only [Wrapped.prepare, hd, hp]

theorem Project.resolveItem_of_mem {s : Schema} {items : List SelectItem}
    {outputs : List (Project.Output × Column)} (item : SelectItem)
    (h : Project.resolveItems s items = .ok outputs) (hitem : item ∈ items) :
    ∃ os, Project.resolveItem s item = .ok os := by
  induction items generalizing outputs with
  | nil => exact absurd hitem List.not_mem_nil
  | cons i items ih =>
    obtain ⟨os, hi, h⟩ := Except.bind_eq_ok.1 h
    obtain ⟨_, hitems, -⟩ := Except.bind_eq_ok.1 h
    rcases List.mem_cons.1 hitem with rfl | hitem
    · exact ⟨os, hi⟩
    · exact ih hitems hitem

theorem Buffered.prepare_eq_ok {kind : OperatorKind} {orderedBy : List OrderKey} {label : String}
    {profile : Config → Status → Except QueryError Profile} {loader : Loader c}
    {s s' : Buffered c.State} :
    (Operator.buffered kind orderedBy label c profile loader).prepare config s = (.ok (), s') ↔
      ∃ d p, c.prepare config s.child = (.ok (), d) ∧ profile config (c.status d) = .ok p ∧
        s' = { s with status := s.status.settle p, child := d } := by
  change Buffered.prepare (c.prepare config) (fun s => profile config (c.status s)) s = _ ↔ _
  constructor
  · intro h
    unfold Buffered.prepare at h
    split at h
    · simp at h
    next d hd =>
    split at h
    · simp at h
    next p hp => exact ⟨d, p, hd, hp, (Prod.mk.inj h).2.symm⟩
  · rintro ⟨d, p, hd, hp, rfl⟩
    simp only [Buffered.prepare, hd, hp]

theorem Limit.prepare_eq_ok {limit : Option Nat} {offset : Nat} {s s' : State c.State} :
    (Operator.limit limit offset c).prepare config s = (.ok (), s') ↔
      ∃ d, c.prepare config s.child = (.ok (), d) ∧ s' =
        { s with status := s.status.settle (profile limit offset (c.status d)), child := d } := by
  change Limit.prepare limit offset c config s = _ ↔ _
  constructor
  · intro h
    unfold Limit.prepare at h
    split at h
    · simp at h
    next d hd => exact ⟨d, hd, (Prod.mk.inj h).2.symm⟩
  · rintro ⟨d, hd, rfl⟩
    simp only [Limit.prepare, hd]

namespace Join

variable {kind : JoinKind} {predicate : Option Expr} {swapped : Bool}

/-- The preparation of a join prepares its inputs, and looks at its kind and its predicate. -/
theorem prepare_eq_ok {s s' : State left.State right.State} :
    (Operator.join kind predicate swapped left right).prepare config s = (.ok (), s') ↔
      ∃ l r p, left.prepare config s.left = (.ok (), l) ∧
        right.prepare config s.right = (.ok (), r) ∧ checkKind kind swapped = .ok () ∧
        profile config kind predicate swapped (left.status l) (right.status r) = .ok p ∧
        s' = ⟨s.status.settle p, (left.status l).schema, (right.status r).schema, s.progress,
          s.mark, l, r⟩ := by
  change prepare kind predicate swapped left right config s = _ ↔ _
  constructor
  · intro h
    unfold prepare at h
    split at h
    · simp at h
    next l hl =>
    split at h
    · simp at h
    next r hr =>
    split at h
    · simp at h
    next hkind =>
    dsimp only at h
    split at h
    · simp at h
    next p hp => exact ⟨l, r, p, hl, hr, hkind, hp, (Prod.mk.inj h).2.symm⟩
  · rintro ⟨l, r, p, hl, hr, hkind, hp, rfl⟩
    simp only [prepare, hl, hr, hkind, hp]

end Join

section Left

variable {κ σ : Type}

theorem Leaf.mark_prepare (profile : Except QueryError Profile) (s : Leaf κ) :
    (Leaf.prepare profile s).2.mark = s.mark := by
  unfold Leaf.prepare
  split <;> rfl

theorem Wrapped.child_prepare (f : σ → Outcome Unit σ)
    (settle : σ → Except QueryError (Profile × κ)) (s : Wrapped κ σ) :
    (Wrapped.prepare f settle s).2.child = (f s.child).2 := by
  unfold Wrapped.prepare
  rcases f s.child with ⟨e | _, d⟩
  · rfl
  · dsimp only
    split <;> rfl

theorem Buffered.prepare_eq (f : σ → Outcome Unit σ) (profile : σ → Except QueryError Profile)
    (s : Buffered σ) :
    (Buffered.prepare f profile s).2.child = (f s.child).2 ∧
      (Buffered.prepare f profile s).2.rows = s.rows ∧
      (Buffered.prepare f profile s).2.mark = s.mark := by
  unfold Buffered.prepare
  rcases f s.child with ⟨e | _, d⟩
  · exact ⟨rfl, rfl, rfl⟩
  · dsimp only
    split <;> exact ⟨rfl, rfl, rfl⟩

theorem Limit.prepare_eq (limit : Option Nat) (offset : Nat) (c : Operator) (config : Config)
    (s : State c.State) :
    (Limit.prepare limit offset c config s).2.child = (c.prepare config s.child).2 ∧
      (Limit.prepare limit offset c config s).2.mark = s.mark := by
  unfold Limit.prepare
  rcases c.prepare config s.child with ⟨e | _, d⟩ <;> exact ⟨rfl, rfl⟩

theorem Join.prepare_eq (kind : JoinKind) (predicate : Option Expr) (swapped : Bool)
    (config : Config) (s : State left.State right.State) :
    let s' := (Join.prepare kind predicate swapped left right config s).2
    s'.progress = s.progress ∧ s'.mark = s.mark ∧ s'.left = (left.prepare config s.left).2 ∧
      (s'.right = s.right ∨ s'.right = (right.prepare config s.right).2) := by
  unfold Join.prepare
  rcases left.prepare config s.left with ⟨e | _, l⟩
  · exact ⟨rfl, rfl, rfl, .inl rfl⟩
  · dsimp only
    rcases right.prepare config s.right with ⟨e | _, r⟩
    · exact ⟨rfl, rfl, rfl, .inr rfl⟩
    · dsimp only
      split
      · exact ⟨rfl, rfl, rfl, .inr rfl⟩
      · split <;> exact ⟨rfl, rfl, rfl, .inr rfl⟩

end Left

end RelQuery
