import RelQuery.Proofs.Wrapped

namespace RelQuery

variable {c : Operator} {db : Storage} {π : Policy}

namespace Filter

variable {σ : Type} {test : Tuple → Except QueryError Bool} {next : σ → Outcome (Option Tuple) σ}
  {m : σ → Nat}

theorem pull_fuel (hnext : ∀ {s s' t}, next s = (.ok (some t), s') → m s' < m s) {n n' : Nat}
    {s : σ} (h : m s < n) (h' : m s < n') : pull test next n s = pull test next n' s := by
  induction n generalizing n' s with
  | zero => omega
  | succ n ih =>
    obtain ⟨n', rfl⟩ : ∃ k, n' = k + 1 := ⟨n' - 1, by omega⟩
    rw [pull, pull]
    rcases hs : next s with ⟨e | _ | t, s'⟩
    · rfl
    · rfl
    · have hlt := hnext hs
      dsimp only
      rw [ih (by omega) (show m s' < n' by omega)]

def put (s : Wrapped Unit σ) (c : σ) : Wrapped Unit σ := { s with child := c }

variable {predicate : Expr} {s s' : Wrapped Unit c.State}

theorem next_eq (predicate : Expr) (db : Storage) (s : Wrapped Unit c.State) :
    Filter.next predicate c db s =
    match c.next db s.child with
    | (.error e, d) => (.error e, put s d)
    | (.ok none, d) => (.ok none, put s d)
    | (.ok (some t), d) =>
      match Operator.accepts s.status.schema predicate t with
      | .error e => (.error e, put s d)
      | .ok true => (.ok (some t), { s with status := s.status.count, child := d })
      | .ok false => Filter.next predicate c db (put s d) := by
  rcases hs : c.next db s.child with ⟨e | _ | t, d⟩
  · simp [Filter.next, pull, hs, put]
  · simp [Filter.next, pull, hs, put]
  · have hlt := c.next_lt hs
    rcases ht : Operator.accepts s.status.schema predicate t with e | _ | _
    · simp [Filter.next, pull, hs, ht, put]
    · -- The recursive call has the fuel that is left, a call of its own has as much as it needs.
      have hfuel : pull (Operator.accepts s.status.schema predicate) (c.next db)
          (c.remaining db s.child) d =
            pull (Operator.accepts s.status.schema predicate) (c.next db)
              (c.remaining db d + 1) d :=
        pull_fuel c.next_lt hlt (Nat.lt_succ_self _)
      rw [Filter.next, pull, hs]
      simp only [ht, hfuel]
      rfl
    · simp [Filter.next, pull, hs, ht]

theorem moves {r : Except QueryError (Option Tuple)} (h : Filter.next predicate c db s = (r, s'))
    (hr : π.Tolerates r) : Wrapped.Moves c db π s s' := by
  obtain ⟨st, u, d⟩ := s
  induction d using Operator.next_induction db with
  | step d ih =>
    rw [next_eq] at h
    rcases hd : c.next db d with ⟨e | _ | t, d'⟩ <;> simp only [hd] at h
    · obtain ⟨rfl, rfl⟩ := Prod.mk.inj h
      exact ⟨.next hd hr.of_error, rfl⟩
    · obtain ⟨rfl, rfl⟩ := Prod.mk.inj h
      exact ⟨.next hd hr, rfl⟩
    · have hreach : c.Reaches db π d d' := .next hd (.inr rfl)
      split at h
      · obtain ⟨-, rfl⟩ := Prod.mk.inj h
        exact ⟨hreach, rfl⟩
      · obtain ⟨-, rfl⟩ := Prod.mk.inj h
        exact ⟨hreach, rfl⟩
      · obtain ⟨hrest, hprofile⟩ := ih t d' hd h
        exact ⟨hreach.trans hrest, hprofile⟩

def keep (s : Schema) (predicate : Expr) (t : Tuple) : Except QueryError (Option Tuple) :=
  (Operator.accepts s predicate t).map fun b => if b then some t else none

theorem trace_eq (predicate : Expr) (s : Wrapped Unit c.State) :
    (Operator.filter predicate c).trace db s =
      (c.trace db s.child).choose (keep s.status.schema predicate) := by
  obtain ⟨st, u, d⟩ := s
  induction d using Operator.next_induction db generalizing st with
  | step d ih =>
    have heq := next_eq predicate db ⟨st, u, d⟩
    rcases hd : c.next db d with ⟨e | _ | t, d'⟩ <;> simp only [hd] at heq
    · rw [Operator.trace_of_error hd]
      exact Operator.trace_of_error (o := .filter predicate c) heq
    · rw [Operator.trace_of_none hd]
      exact Operator.trace_of_none (o := .filter predicate c) heq
    · rw [Operator.trace_of_some hd, Trace.choose_cons, keep]
      rcases ht : Operator.accepts st.schema predicate t with e | _ | _ <;>
        simp only [ht, Except.map] at heq ⊢
      · exact Operator.trace_of_error (o := .filter predicate c) heq
      · exact (Operator.trace_eq_of_next_eq (o := .filter predicate c) heq).trans (ih t d' hd st)
      · exact (Operator.trace_of_some (o := .filter predicate c) heq).trans
          (congrArg (Trace.cons t) (ih t d' hd st.count))

theorem child_none (h : Filter.next predicate c db s = (.ok none, s')) :
    ∃ d, c.Reaches db .any s.child d ∧ c.next db d = (.ok none, s'.child) := by
  obtain ⟨st, u, d⟩ := s
  induction d using Operator.next_induction db with
  | step d ih =>
    rw [next_eq] at h
    rcases hd : c.next db d with ⟨e | _ | t, d'⟩ <;> simp only [hd] at h
    · simp at h
    · obtain ⟨-, rfl⟩ := Prod.mk.inj h
      exact ⟨d, .refl, hd⟩
    · split at h
      · simp at h
      · simp at h
      · obtain ⟨a, hreach, ha⟩ := ih t d' hd h
        exact ⟨a, .trans (.next hd (.inl rfl)) hreach, ha⟩

theorem ends (hc : c.Ends db) : (Operator.filter predicate c).Ends db := fun s s' h => by
  obtain ⟨d, -, hd⟩ := child_none (s := s) h
  exact (trace_eq predicate s').trans (by rw [hc hd, Trace.choose_nil])

def passes (predicate : Expr) (c : Operator) (db : Storage) :
    Passes (.filter predicate c) c db :=
  .wrapped (fun _ p _ tr => tr.choose (keep (Status.schema ⟨p, 0⟩) predicate)) moves
    (trace_eq predicate)

end Filter

namespace Rename

variable {s s' : Wrapped Unit c.State} {r : Except QueryError (Option Tuple)}

theorem next_eq (h : Rename.next c db s = (r, s')) :
    c.next db s.child = (r, s'.child) ∧
      (s'.status.profile, s'.settled) = (s.status.profile, s.settled) := by
  unfold Rename.next at h
  split at h
  · next hc =>
    obtain ⟨rfl, rfl⟩ := Prod.mk.inj h
    exact ⟨hc, rfl⟩
  · next hc =>
    obtain ⟨rfl, rfl⟩ := Prod.mk.inj h
    exact ⟨hc, rfl⟩

theorem trace_eq (table : String) (s : Wrapped Unit c.State) :
    (Operator.rename table c).trace db s = c.trace db s.child := by
  refine Operator.trace_eq_of_related (o := .rename table c)
    (R := fun (s : Wrapped Unit c.State) d => s.child = d) ?_ rfl
  rintro s _ rfl
  have hnext : c.next db s.child = ((Rename.next c db s).1, (Rename.next c db s).2.child) :=
    (next_eq rfl).1
  exact ⟨(congrArg Prod.fst hnext).symm, fun _ _ => (congrArg Prod.snd hnext).symm⟩

theorem ends {table : String} (hc : c.Ends db) : (Operator.rename table c).Ends db := fun _ s' h =>
  (trace_eq table s').trans (hc (next_eq h).1)

def passes (table : String) (c : Operator) (db : Storage) : Passes (.rename table c) c db :=
  .wrapped (fun _ _ _ tr => tr)
    (fun h hr => ⟨.next (next_eq h).1 hr, (next_eq h).2⟩) (trace_eq table)

end Rename

namespace Barrier

theorem trace_eq (s : Wrapped Unit c.State) :
    (Operator.barrier c).trace db s = c.trace db s.child := by
  refine Operator.trace_eq_of_related (o := .barrier c)
    (R := fun (s : Wrapped Unit c.State) d => s.child = d) ?_ rfl
  rintro s _ rfl
  exact ⟨rfl, fun _ _ => rfl⟩

theorem ends (hc : c.Ends db) : (Operator.barrier c).Ends db := fun _ s' h =>
  (trace_eq s').trans (hc (Wrapped.lift_ok h))

def passes (c : Operator) (db : Storage) : Passes (.barrier c) c db :=
  .wrapped (fun _ _ _ tr => tr) (fun h hr => by
    obtain ⟨hnext, rfl⟩ := Prod.mk.inj h
    exact ⟨.next (Prod.ext hnext rfl) hr, rfl⟩) trace_eq

end Barrier

namespace Project

variable {s s' : Wrapped (List Output) c.State}

def make (s : Schema) (outputs : List Output) (t : Tuple) : Except QueryError (Option Tuple) :=
  (outputRow s outputs t.values).map fun r => some (.computed r)

theorem moves {r : Except QueryError (Option Tuple)} (h : Project.next c db s = (r, s'))
    (hr : π.Tolerates r) : Wrapped.Moves c db π s s' := by
  unfold Project.next at h
  rcases hd : c.next db s.child with ⟨e | _ | t, d⟩ <;> simp only [hd] at h
  · obtain ⟨rfl, rfl⟩ := Prod.mk.inj h
    exact ⟨.next hd hr.of_error, rfl⟩
  · obtain ⟨rfl, rfl⟩ := Prod.mk.inj h
    exact ⟨.next hd hr, rfl⟩
  · have hreach : c.Reaches db π s.child d := .next hd (.inr rfl)
    split at h <;>
    · obtain ⟨-, rfl⟩ := Prod.mk.inj h
      exact ⟨hreach, rfl⟩

theorem trace_eq (hset : c.Settled db) (items : List SelectItem)
    (s : Wrapped (List Output) c.State) :
    (Operator.project items c).trace db s =
      (c.trace db s.child).choose (make (c.status s.child).schema s.settled) := by
  obtain ⟨st, outputs, d⟩ := s
  induction d using Operator.next_induction db generalizing st with
  | step d ih =>
    have heq : (Operator.project items c).next db ⟨st, outputs, d⟩ =
      Project.next c db ⟨st, outputs, d⟩ := rfl
    rcases hd : c.next db d with ⟨e | _ | t, d'⟩ <;> simp only [Project.next, hd] at heq
    · rw [Operator.trace_of_error hd]
      exact Operator.trace_of_error heq
    · rw [Operator.trace_of_none hd]
      exact Operator.trace_of_none heq
    · -- The outputs are computed over the schema that the child has after the call.
      have hschema := hset.schema (.next hd (.inr rfl))
      rw [Operator.trace_of_some hd, Trace.choose_cons, make, ← hschema]
      rcases hrow : outputRow (c.status d').schema outputs t.values with e | r <;>
        simp only [hrow, Except.map] at heq ⊢
      · exact Operator.trace_of_error heq
      · exact (Operator.trace_of_some heq).trans
          (congrArg (Trace.cons (.computed r)) (ih t d' hd st.count))

theorem child_none (h : Project.next c db s = (.ok none, s')) :
    c.next db s.child = (.ok none, s'.child) := by
  unfold Project.next at h
  rcases hd : c.next db s.child with ⟨e | _ | t, d⟩ <;> simp only [hd] at h
  · simp at h
  · obtain ⟨-, rfl⟩ := Prod.mk.inj h
    rfl
  · split at h <;> simp at h

theorem ends {items : List SelectItem} (hset : c.Settled db) (hc : c.Ends db) :
    (Operator.project items c).Ends db := fun _ s' h =>
  (trace_eq hset items s').trans (by rw [hc (child_none h), Trace.choose_nil])

def passes (hset : c.Settled db) (items : List SelectItem) : Passes (.project items c) c db :=
  .wrapped (fun outputs _ s tr => tr.choose (make s outputs)) moves (trace_eq hset items)

end Project

end RelQuery
