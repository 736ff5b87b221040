import RelQuery.Proofs.Evaluation
import RelQuery.Proofs.Rerun

namespace RelQuery

variable {c : Operator} {D : Storage → Prop} {T T' : Row → Prop} {G : EvalError → Prop}

/-- An evaluation that failed did so with an error of a kind. -/
def QueryError.Allowed (G : EvalError → Prop) : QueryError → Prop
  | evaluation e => G e
  | _ => True

theorem QueryError.allowed_any (e : QueryError) : e.Allowed fun _ => True := by
  cases e <;> trivial

/-- A result is of a kind, and so is the error of an evaluation. -/
abbrev Within {α : Type} (P : α → Prop) (G : EvalError → Prop) (x : Except QueryError α) : Prop :=
  Except.Meets P (QueryError.Allowed G) x

theorem Within.mono {α : Type} {P P' : α → Prop} {G G' : EvalError → Prop} {x : Except QueryError α}
    (h : Within P G x) (hP : ∀ a, P a → P' a) (hG : ∀ e, G e → G' e) : Within P' G' x :=
  h.imp hP fun e he => by
    cases e with
    | evaluation e => exact hG e he
    | _ => trivial

theorem within_any {α : Type} {x : Except QueryError α} :
    Within (fun _ => True) (fun _ => True) x := by
  cases x with
  | error e => exact e.allowed_any
  | ok a => trivial

/-- All rows are of a kind, and so is the error of an evaluation at the end. -/
structure Trace.Good (T : Row → Prop) (G : EvalError → Prop) (tr : Trace) : Prop where
  rows : ∀ t ∈ tr.tuples, T t.values
  ending : Within (fun _ => True) G tr.ending

namespace Trace

variable {tr : Trace} {t : Tuple} {e : QueryError}

theorem good_nil : Trace.nil.Good T G := ⟨fun _ ht => absurd ht List.not_mem_nil, trivial⟩

theorem good_failed (h : e.Allowed G) : (Trace.failed e).Good T G :=
  ⟨fun _ ht => absurd ht List.not_mem_nil, h⟩

theorem Good.cons (ht : T t.values) (h : tr.Good T G) : (tr.cons t).Good T G :=
  ⟨List.forall_mem_cons.2 ⟨ht, h.rows⟩, h.ending⟩

theorem good_cons_iff : (tr.cons t).Good T G ↔ T t.values ∧ tr.Good T G := by
  refine ⟨fun h => ?_, fun h => h.2.cons h.1⟩
  obtain ⟨ht, hrows⟩ := List.forall_mem_cons.1 h.rows
  exact ⟨ht, hrows, h.ending⟩

theorem cons_induction {motive : Trace → Prop} (nil : ∀ e, motive ⟨[], e⟩)
    (cons : ∀ t tr, motive tr → motive (tr.cons t)) (tr : Trace) : motive tr := by
  obtain ⟨ts, e⟩ := tr
  induction ts with
  | nil => exact nil e
  | cons t ts ih => exact cons t ⟨ts, e⟩ ih

theorem Good.choose {f : Tuple → Except QueryError (Option Tuple)} (htr : tr.Good T G)
    (hf : ∀ t, T t.values → Within (fun o => ∀ u, o = some u → T' u.values) G (f t)) :
    (tr.choose f).Good T' G := by
  induction tr using cons_induction with
  | nil e => exact ⟨fun _ ht => absurd ht List.not_mem_nil, htr.ending⟩
  | cons t tr ih =>
    obtain ⟨ht, hrest⟩ := good_cons_iff.1 htr
    have hmade := hf t ht
    rw [choose_cons]
    rcases h : f t with e | _ | u <;> rw [h] at hmade
    · exact good_failed hmade
    · exact ih hrest
    · exact (ih hrest).cons (hmade u rfl)

/-- What holds of a state of a fold and is kept by its steps holds at its end. -/
theorem Good.fold {β : Type} {step : β → Tuple → Except QueryError β} {I : β → Prop} {b : β}
    (htr : tr.Good T G) (hb : I b) (hstep : ∀ b t, T t.values → I b → Within I G (step b t)) :
    Within I G (tr.fold step b) := by
  induction tr using cons_induction generalizing b with
  | nil e =>
    have hend := htr.ending
    cases e with
    | error e => exact hend
    | ok _ => exact hb
  | cons t tr ih =>
    obtain ⟨ht, hrest⟩ := good_cons_iff.1 htr
    have hnext := hstep b t ht hb
    rw [fold_cons]
    rcases h : step b t with e | b' <;> rw [h] at hnext
    · exact hnext
    · exact ih hrest hnext

theorem Good.window {limit : Option Nat} {offset : Nat} {k : Limit.Counters} (htr : tr.Good T G) :
    (Limit.window limit offset k tr).Good T G := by
  have htake : ∀ (n : Option Nat) {tr : Trace}, tr.Good T G → (tr.takeUpTo n).Good T G := by
    intro n tr h
    unfold takeUpTo
    split
    · unfold Trace.take
      split
      · exact ⟨fun t ht => h.rows t (List.mem_of_mem_take ht), trivial⟩
      · exact h
    · exact h
  unfold Limit.window
  split
  · exact good_nil
  · exact htake _ ⟨fun t ht => htr.rows t (List.mem_of_mem_drop ht), htr.ending⟩

end Trace

namespace Operator

variable {o : Operator}

/-- Calls lead from a state to another, each of them over a storage of a kind. -/
def ReachesOver (o : Operator) (D : Storage → Prop) : o.State → o.State → Prop :=
  Relation.ReflTransGen fun s s' => ∃ db, D db ∧ o.Step db .any s s'

namespace ReachesOver

variable {s s' s'' : o.State} {db : Storage} {π : Policy}

theorem refl : o.ReachesOver D s s := Relation.ReflTransGen.refl

theorem trans (h : o.ReachesOver D s s') (h' : o.ReachesOver D s' s'') : o.ReachesOver D s s'' :=
  Relation.ReflTransGen.trans h h'

theorem of_reaches (hdb : D db) (h : o.Reaches db π s s') : o.ReachesOver D s s' :=
  Relation.ReflTransGen.mono (fun _ _ hstep => ⟨db, hdb, hstep⟩) _ _ h.any

/-- A sequence of calls on an operator runs a sequence of calls on a child. -/
theorem lift (f : o.State → c.State)
    (hf : ∀ {db s s'}, o.Step db .any s s' → c.Reaches db .any (f s) (f s'))
    (h : o.ReachesOver D s s') : c.ReachesOver D (f s) (f s') :=
  Relation.ReflTransGen.lift' f (fun _ _ ⟨_, hdb, hstep⟩ => of_reaches hdb (hf hstep)) _ _ h

theorem keeps {I : o.State → Prop} (hI : ∀ {db s s'}, D db → I s → o.Step db .any s s' → I s')
    (h : o.ReachesOver D s s') (hs : I s) : I s' := by
  induction h with
  | refl => exact hs
  | tail _ hstep ih =>
    obtain ⟨db, hdb, hstep⟩ := hstep
    exact hI hdb ih hstep

end ReachesOver

/-- In all runs since a state was reached, over storages of a kind, the rows are of a kind, and so
are the errors of evaluations. -/
def Serves (o : Operator) (D : Storage → Prop) (T : Row → Prop) (G : EvalError → Prop)
    (s₀ : o.State) : Prop :=
  ∀ ⦃s⦄, o.ReachesOver D s₀ s → ∀ ⦃db⦄, D db → (o.trace db s).Good T G

variable {s₀ s s' : o.State} {db : Storage}

theorem Serves.reaches (h : o.Serves D T G s) (hs : o.ReachesOver D s s') : o.Serves D T G s' :=
  fun _ hs' => h (hs.trans hs')

theorem Serves.of_reaches {π : Policy} (h : o.Serves D T G s) (hdb : D db)
    (hs : o.Reaches db π s s') : o.Serves D T G s' :=
  h.reaches (.of_reaches hdb hs)

theorem Serves.and (h : o.Serves D T G s) (h' : o.Serves D T' G s) :
    o.Serves D (fun r => T r ∧ T' r) G s := fun _ hs _ hdb =>
  ⟨fun t ht => ⟨(h hs hdb).rows t ht, (h' hs hdb).rows t ht⟩, (h hs hdb).ending⟩

theorem Serves.next (h : o.Serves D T G s) (hdb : D db) {r : Except QueryError (Option Tuple)}
    (hnext : o.next db s = (r, s')) :
    Within (fun x => ∀ t, x = some t → T t.values) G r ∧ o.Serves D T G s' := by
  refine ⟨?_, h.of_reaches hdb (.next hnext (.inl rfl) : o.Reaches db .any s s')⟩
  have hgood := h .refl hdb
  rcases r with e | _ | t
  · rw [trace_of_error hnext] at hgood
    exact hgood.ending
  · exact fun t ht => nomatch ht
  · rw [trace_of_some hnext] at hgood
    intro u hu
    obtain rfl := Option.some.inj hu
    exact (Trace.good_cons_iff.1 hgood).1

theorem Serves.next_some (h : o.Serves D T G s) (hdb : D db) {t : Tuple}
    (hnext : o.next db s = (.ok (some t), s')) : T t.values :=
  (h.next hdb hnext).1 t rfl

/-- An operator serves what its states give, when they keep to an invariant. -/
theorem Serves.of_invariant (I : o.State → Prop)
    (keeps : ∀ {db s s'}, D db → I s → o.Step db .any s s' → I s')
    (gives : ∀ {db s}, D db → I s → (o.trace db s).Good T G) (h : I s₀) : o.Serves D T G s₀ :=
  fun _ hs _ hdb => gives hdb (hs.keeps keeps h)

theorem Serves.of_next (I : o.State → Prop)
    (keeps : ∀ {db s s'}, D db → I s → o.Step db .any s s' → I s')
    (gives : ∀ {db s r s'}, D db → I s → o.next db s = (r, s') →
      Within (fun x => ∀ t, x = some t → T t.values) G r) (h : I s₀) : o.Serves D T G s₀ := by
  refine .of_invariant I keeps (fun {db s} hdb hs => ?_) h
  induction s using next_induction db with
  | step s ih =>
    rcases hnext : o.next db s with ⟨e | _ | t, s'⟩
    · rw [trace_of_error hnext]
      exact Trace.good_failed (gives hdb hs hnext)
    · rw [trace_of_none hnext]
      exact Trace.good_nil
    · rw [trace_of_some hnext]
      have hreach : o.Reaches db .any s s' := .next hnext (.inl rfl)
      have hs' := (ReachesOver.of_reaches hdb hreach).keeps keeps hs
      exact (ih t s' hnext hs').cons (gives hdb hs hnext t rfl)

/-- No call but `next` evaluates anything. -/
structure Calm (o : Operator) : Prop where
  rewind : ∀ s, Within (fun _ => True) (fun _ => False) (o.rewind s).1
  mark : ∀ s, Within (fun _ => True) (fun _ => False) (o.mark s).1
  reset : ∀ s, Within (fun _ => True) (fun _ => False) (o.reset s).1

theorem Serves.call (h : o.Serves D T G s) (hcalm : o.Calm) (hdb : D db) (call : Call) :
    Within (fun _ => True) G (o.call db call s).1 := by
  have hall : ∀ {x : Except QueryError Unit}, Within (fun _ => True) (fun _ => False) x →
      Within (fun _ => True) G x := fun hx => Within.mono hx (fun _ h => h) fun _ h => h.elim
  cases call with
  | rewind => exact hall (hcalm.rewind s)
  | mark => exact hall (hcalm.mark s)
  | reset => exact hall (hcalm.reset s)
  | cleanUp => exact trivial
  | next => exact (h.next hdb rfl).1.map fun _ _ => trivial

end Operator

end RelQuery
