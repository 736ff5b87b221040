import RelQuery.Proofs.Replay

namespace RelQuery

variable {c : Operator} {db : Storage} {π : Policy}

namespace Trace

variable {β : Type} (step : β → Tuple → Except QueryError β) (b : β)

@[simp]
theorem fold_nil : Trace.nil.fold step b = .ok b := rfl

@[simp]
theorem fold_failed (e : QueryError) : (Trace.failed e).fold step b = .error e := rfl

theorem fold_cons (t : Tuple) (tr : Trace) : (tr.cons t).fold step b =
    match step b t with
    | .error e => .error e
    | .ok b => tr.fold step b := by
  simp only [Trace.fold, cons, List.foldlM_cons, bind, Except.bind]
  cases step b t <;> rfl

end Trace

namespace Buffered

section Fold

variable {β : Type} {step : β → Tuple → Except QueryError β}

theorem fold_eq (step : β → Tuple → Except QueryError β) (b : β) (s : c.State) {n : Nat}
    (hn : c.remaining db s < n) : (fold step (c.next db) n b s).1 = (c.trace db s).fold step b := by
  induction n generalizing b s with
  | zero => omega
  | succ n ih =>
    rw [fold]
    rcases hs : c.next db s with ⟨e | _ | t, s'⟩
    · rw [Operator.trace_of_error hs, Trace.fold_failed]
    · rw [Operator.trace_of_none hs, Trace.fold_nil]
    · have hlt := c.next_lt hs
      rw [Operator.trace_of_some hs, Trace.fold_cons]
      dsimp only
      cases step b t with
      | error e => rfl
      | ok b => exact ih b s' (by omega)

theorem fold_reaches {n : Nat} {b : β} {s s' : c.State} {r : Except QueryError β}
    (h : fold step (c.next db) n b s = (r, s')) (hr : π.Tolerates r) : c.Reaches db π s s' := by
  induction n generalizing b s with
  | zero =>
    obtain ⟨-, rfl⟩ := Prod.mk.inj h
    exact .refl
  | succ n ih =>
    rw [fold] at h
    rcases hs : c.next db s with ⟨e | _ | t, s₁⟩ <;> simp only [hs] at h
    · obtain ⟨rfl, rfl⟩ := Prod.mk.inj h
      exact .next hs hr.of_error
    · obtain ⟨rfl, rfl⟩ := Prod.mk.inj h
      exact .next hs (.inr rfl)
    · have hreach : c.Reaches db π s s₁ := .next hs (.inr rfl)
      cases hb : step b t with
      | error e =>
        simp only [hb] at h
        obtain ⟨-, rfl⟩ := Prod.mk.inj h
        exact hreach
      | ok b =>
        simp only [hb] at h
        exact hreach.trans (ih h)

end Fold

/-- The rows that are loaded follow from the schema of the child and from what it gives. -/
structure Loads (c : Operator) (db : Storage) (load : c.State → Outcome (List Tuple) c.State) where
  rows : Schema → Trace → Except QueryError (List Tuple)
  result : ∀ s, (load s).1 = rows (c.status s).schema (c.trace db s)
  reaches : ∀ {π s r s'}, load s = (r, s') → π.Tolerates r → c.Reaches db π s s'

def handed (rows : Except QueryError (List Tuple)) (p : Nat) : Trace :=
  match rows with
  | .error e => .failed e
  | .ok rows => ⟨rows.drop p, .ok ()⟩

theorem handed_none {rows : List Tuple} {p : Nat} (h : rows[p]? = none) :
    handed (.ok rows) p = .nil := by
  rw [handed, List.drop_eq_nil_of_le (List.getElem?_eq_none_iff.1 h)]
  rfl

theorem handed_some {rows : List Tuple} {p : Nat} {t : Tuple} (h : rows[p]? = some t) :
    handed (.ok rows) p = (handed (.ok rows) (p + 1)).cons t := by
  obtain ⟨hlt, ht⟩ := List.getElem?_eq_some_iff.1 h
  rw [handed, List.drop_eq_getElem_cons hlt, ht]
  rfl

section Operator

variable {kind : OperatorKind} {orderedBy : List OrderKey} {label : String}
  {profile : Config → Status → Except QueryError Profile} {loader : Loader c}
  {s s' s₀ : Buffered c.State}

theorem next_of_loaded (f : c.State → Outcome (List Tuple) c.State) (h : s.loaded = true) :
    Buffered.next f s = s.hand :=
  if_pos h

theorem trace_of_loaded (h : s.loaded = true) :
    (Operator.buffered kind orderedBy label c profile loader).trace db s =
      handed (.ok s.rows) s.position := by
  refine Operator.next_induction
    (o := .buffered kind orderedBy label c profile loader) db
    (motive := fun s : Buffered c.State => s.loaded = true →
      (Operator.buffered kind orderedBy label c profile loader).trace db s =
        handed (.ok s.rows) s.position) (fun (s : Buffered c.State) ih h => ?_) s h
  have hnext : (Operator.buffered kind orderedBy label c profile loader).next db s =
      s.hand := next_of_loaded (loader.load db) h
  unfold hand at hnext
  cases hrow : s.rows[s.position]? with
  | none =>
    simp only [hrow] at hnext
    rw [handed_none hrow]
    exact Operator.trace_of_none hnext
  | some t =>
    simp only [hrow] at hnext
    rw [handed_some hrow]
    exact (Operator.trace_of_some hnext).trans (congrArg (Trace.cons t) (ih _ _ hnext h))

theorem trace_of_unloaded (L : Loads c db (loader.load db)) (h : s.loaded = false) :
    (Operator.buffered kind orderedBy label c profile loader).trace db s =
      handed (L.rows (c.status s.child).schema (c.trace db s.child)) s.position := by
  rw [← L.result]
  have hnext : (Operator.buffered kind orderedBy label c profile loader).next db s =
      Buffered.next (loader.load db) s := rfl
  rw [Buffered.next, h, if_neg (by simp)] at hnext
  rcases hload : loader.load db s.child with ⟨e | rows, d⟩ <;> simp only [hload] at hnext
  · exact Operator.trace_of_error hnext
  · -- The first call loads, and from there on goes the way of a loaded buffer.
    have hloaded := hnext.trans (next_of_loaded (loader.load db) rfl).symm
    exact (Operator.trace_eq_of_next_eq hloaded).trans
      (trace_of_loaded (s := { s with rows := rows, loaded := true, child := d }) rfl)

theorem hand_keeps {r : Except QueryError (Option Tuple)} (h : hand s = (r, s')) :
    s'.status.profile = s.status.profile ∧ s'.mark = s.mark ∧ s'.child = s.child ∧
      s'.loaded = s.loaded ∧ s'.rows = s.rows := by
  unfold hand at h
  split at h <;>
  · obtain ⟨-, rfl⟩ := Prod.mk.inj h
    exact ⟨rfl, rfl, rfl, rfl, rfl⟩

theorem next_keeps (L : Loads c db (loader.load db)) {r : Except QueryError (Option Tuple)}
    (h : Buffered.next (loader.load db) s = (r, s')) (hr : π.Tolerates r) :
    c.Reaches db π s.child s'.child ∧ s'.status.profile = s.status.profile ∧ s'.mark = s.mark := by
  unfold Buffered.next at h
  split at h
  · obtain ⟨hprofile, hmark, hchild, -⟩ := hand_keeps h
    exact ⟨hchild ▸ .refl, hprofile, hmark⟩
  · split at h
    · next hload =>
      obtain ⟨rfl, rfl⟩ := Prod.mk.inj h
      exact ⟨L.reaches hload hr.of_error, rfl, rfl⟩
    · next hload =>
      obtain ⟨hprofile, hmark, hchild, -⟩ := hand_keeps h
      exact ⟨hchild ▸ L.reaches hload (.inr rfl), hprofile, hmark⟩

theorem rewind_of_prepared (f : c.State → Outcome Unit c.State) (h : s.status.check kind = .ok ()) :
    Buffered.rewind kind f s =
      ((f s.child).1, ⟨s.status.restart, [], false, 0, s.mark, (f s.child).2⟩) := by
  rw [Buffered.rewind, h]

theorem rewind_of_unprepared (f : c.State → Outcome Unit c.State) {e : QueryError}
    (h : s.status.check kind = .error e) : Buffered.rewind kind f s = (.error e, s) := by
  rw [Buffered.rewind, h]

theorem rewind_keeps {r : Except QueryError Unit} (h : Buffered.rewind kind c.rewind s = (r, s'))
    (hr : π.Tolerates r) :
    c.Reaches db π s.child s'.child ∧ s'.status.profile = s.status.profile ∧ s'.mark = s.mark := by
  cases hcheck : s.status.check kind with
  | error e =>
    obtain ⟨-, rfl⟩ := Prod.mk.inj ((rewind_of_unprepared c.rewind hcheck).symm.trans h)
    exact ⟨.refl, rfl, rfl⟩
  | ok _ =>
    obtain ⟨rfl, rfl⟩ := Prod.mk.inj ((rewind_of_prepared c.rewind hcheck).symm.trans h)
    exact ⟨.rewind rfl hr, rfl, rfl⟩

theorem reset_of_mark {p : Nat} (h : s.mark = some p) :
    Buffered.reset kind s = (.ok (), { s with position := p }) := by
  rw [Buffered.reset, h]

theorem reset_keeps {r : Except QueryError Unit} (h : Buffered.reset kind s = (r, s')) :
    ∃ p, s' = { s with position := p } := by
  unfold Buffered.reset at h
  split at h <;>
  · obtain ⟨-, rfl⟩ := Prod.mk.inj h
    exact ⟨_, rfl⟩

theorem step_keeps (L : Loads c db (loader.load db))
    (h : (Operator.buffered kind orderedBy label c profile loader).Step db π s s') :
    c.Reaches db π s.child s'.child ∧ s'.status.profile = s.status.profile ∧
      (π.mark = false → s'.mark = s.mark) := by
  refine h.rec_calls ?rewind ?next ?mark ?reset ?cleanUp
  case rewind =>
    intro r h hr
    obtain ⟨hreach, hprofile, hmark⟩ := rewind_keeps h hr
    exact ⟨hreach, hprofile, fun _ => hmark⟩
  case next =>
    intro r h hr
    obtain ⟨hreach, hprofile, hmark⟩ := next_keeps L h hr
    exact ⟨hreach, hprofile, fun _ => hmark⟩
  case mark =>
    intro r hm h _
    obtain ⟨-, rfl⟩ := Prod.mk.inj h
    exact ⟨.refl, rfl, fun hπ => by simp [hπ] at hm⟩
  case reset =>
    intro r _ h _
    obtain ⟨p, rfl⟩ := reset_keeps h
    exact ⟨.refl, rfl, fun _ => rfl⟩
  case cleanUp =>
    rintro hm rfl
    exact ⟨.cleanUp hm, rfl, fun _ => rfl⟩

theorem hand_none (h : hand s = (.ok none, s')) : s' = s ∧ s.rows[s.position]? = none := by
  unfold hand at h
  split at h
  · next hrow => exact ⟨(Prod.mk.inj h).2.symm, hrow⟩
  · simp at h

theorem settled (L : Loads c db (loader.load db)) :
    (Operator.buffered kind orderedBy label c profile loader).Settled db :=
  fun _ _ h => h.keeps (o := .buffered kind orderedBy label c profile loader)
    (fun s : Buffered c.State => s.status.profile) fun h => (step_keeps L h).2.1

theorem reaches_child (L : Loads c db (loader.load db))
    (h : (Operator.buffered kind orderedBy label c profile loader).Reaches db π s s') :
    c.Reaches db π s.child s'.child :=
  h.lift (o := .buffered kind orderedBy label c profile loader)
    Buffered.child fun h => (step_keeps L h).1

theorem ends : (Operator.buffered kind orderedBy label c profile loader).Ends db := by
  intro s s' h
  change Buffered.next (loader.load db) s = _ at h
  unfold Buffered.next at h
  split at h
  · next hloaded =>
    obtain ⟨rfl, hrow⟩ := hand_none h
    exact (trace_of_loaded hloaded).trans (handed_none hrow)
  · split at h
    · exact absurd (Prod.mk.inj h).1 (by simp)
    · obtain ⟨rfl, hrow⟩ := hand_none h
      exact (trace_of_loaded rfl).trans (handed_none hrow)

/-- The buffer holds the given rows, or is going to load them. -/
structure Holds (L : Loads c db (loader.load db)) (rows : Except QueryError (List Tuple))
    (s : Buffered c.State) : Prop where
  loaded : s.loaded = true → rows = .ok s.rows
  unloaded : s.loaded = false → rows = L.rows (c.status s.child).schema (c.trace db s.child)

theorem Holds.trace_eq {L : Loads c db (loader.load db)} {rows : Except QueryError (List Tuple)}
    (h : Holds L rows s) :
    (Operator.buffered kind orderedBy label c profile loader).trace db s =
      handed rows s.position := by
  cases hloaded : s.loaded with
  | false => rw [trace_of_unloaded L hloaded, h.unloaded hloaded]
  | true => rw [trace_of_loaded hloaded, h.loaded hloaded]

def freshRows (L : Loads c db (loader.load db)) (s : Buffered c.State) :
    Except QueryError (List Tuple) :=
  L.rows (c.status s.child).schema (c.trace db (c.rewind s.child).2)

theorem holds_of_rewind (L : Loads c db (loader.load db)) (hset : c.Settled db)
    (hc : c.Replays db s₀.child) (hs : c.Reaches db .any s₀.child s.child)
    (h : Buffered.rewind kind c.rewind s = (.ok (), s')) :
    Holds L (freshRows L s₀) s' ∧ s'.position = 0 := by
  obtain ⟨hchild, hloaded, hposition⟩ := rewind_ok h
  have hschema := hset.schema (hs.trans (.rewind hchild (.inr rfl)))
  have htrace := hc.trace hs (by rw [hchild])
  rw [hchild] at htrace
  refine ⟨⟨fun h => by simp [hloaded] at h, fun _ => ?_⟩, hposition⟩
  rw [freshRows, hschema, htrace]

theorem alike (L : Loads c db (loader.load db)) (hset : c.Settled db)
    (hprofile : s.status.profile = s'.status.profile)
    (hschema : (c.status s.child).schema = (c.status s'.child).schema)
    (hc : c.Alike db s.child s'.child) :
    (Operator.buffered kind orderedBy label c profile loader).Alike db s s' := by
  have hcheck : s.status.check kind = s'.status.check kind := Status.check_congr hprofile
  cases h : s'.status.check kind with
  | error e =>
    have hs := rewind_of_unprepared c.rewind (hcheck.trans h)
    have hs' := rewind_of_unprepared c.rewind h
    refine ⟨(congrArg Prod.fst hs).trans (congrArg Prod.fst hs').symm, fun hok => ?_⟩
    exact absurd ((congrArg Prod.fst hs).symm.trans hok) (by simp)
  | ok _ =>
    have hs := rewind_of_prepared c.rewind (hcheck.trans h)
    have hs' := rewind_of_prepared c.rewind h
    have keptSchema : ∀ d, (c.status (c.rewind d).2).schema = (c.status d).schema := fun d =>
      hset.schema (.rewind rfl (.inl rfl))
    refine ⟨(congrArg Prod.fst hs).trans (hc.rewind.trans (congrArg Prod.fst hs').symm),
      fun hok => ?_⟩
    have hrewind : (c.rewind s.child).1 = .ok () := (congrArg Prod.fst hs).symm.trans hok
    change (Operator.buffered kind orderedBy label c profile loader).trace db
        (Buffered.rewind kind c.rewind s).2 =
      (Operator.buffered kind orderedBy label c profile loader).trace db
        (Buffered.rewind kind c.rewind s').2
    rw [hs, hs']
    refine (trace_of_unloaded L rfl).trans (Eq.trans ?_ (trace_of_unloaded L rfl).symm)
    dsimp only
    rw [keptSchema, keptSchema, hschema, hc.trace hrewind]

theorem replays (L : Loads c db (loader.load db)) (hset : c.Settled db)
    (hc : c.Replays db s₀.child) :
    (Operator.buffered kind orderedBy label c profile loader).Replays db s₀ :=
  .of_alike fun h => alike L hset (settled L h) (hset.schema (reaches_child L h))
    (hc.alike (reaches_child L h))

theorem Holds.step {L : Loads c db (loader.load db)} (hset : c.Settled db)
    (hc : c.Replays db s₀.child) (hs : c.Reaches db .any s₀.child s.child)
    (hholds : Holds L (freshRows L s₀) s)
    (h : (Operator.buffered kind orderedBy label c profile loader).Step db .smooth s s') :
    Holds L (freshRows L s₀) s' := by
  refine h.rec_calls ?rewind ?next ?mark ?reset ?cleanUp
  case rewind =>
    intro r h hr
    obtain ⟨_, rfl⟩ := hr.ok rfl
    exact (holds_of_rewind L hset hc hs h).1
  case next =>
    intro r h hr
    obtain ⟨_, rfl⟩ := hr.ok rfl
    change Buffered.next (loader.load db) s = _ at h
    unfold Buffered.next at h
    split at h
    · next hloaded =>
      obtain ⟨-, -, -, hl, hrows⟩ := hand_keeps h
      exact ⟨fun _ => hrows ▸ hholds.loaded hloaded, fun h => by simp [hl, hloaded] at h⟩
    · next hloaded =>
      have hrows := hholds.unloaded (by simpa using hloaded)
      rw [← L.result] at hrows
      split at h
      · exact absurd (Prod.mk.inj h).1 (by simp)
      · next rows d hload =>
        obtain ⟨-, -, -, hl, hrows'⟩ := hand_keeps h
        rw [hload] at hrows
        exact ⟨fun _ => hrows' ▸ hrows, fun h => by simp [hl] at h⟩
  case mark =>
    intro r _ h _
    obtain ⟨-, rfl⟩ := Prod.mk.inj h
    exact ⟨hholds.loaded, hholds.unloaded⟩
  case reset =>
    intro r _ h _
    obtain ⟨p, rfl⟩ := reset_keeps h
    exact ⟨hholds.loaded, hholds.unloaded⟩
  case cleanUp => exact fun h => absurd h (by decide)

theorem holds_of_running (L : Loads c db (loader.load db)) (hset : c.Settled db)
    (hc : c.Replays db s₀.child)
    (h : (Operator.buffered kind orderedBy label c profile loader).Running db s₀ s) :
    Holds L (freshRows L s₀) s := by
  obtain ⟨s₁, s₂, h₁, h₂, h₃⟩ := h
  -- The run starts in `s₂`; the invariant holds there and is kept by every call since.
  have hs₂ : (Operator.buffered kind orderedBy label c profile loader).Reaches db
      .any s₀ s₂ := h₁.trans (.rewind h₂ (.inr rfl))
  induction h₃ with
  | refl => exact (holds_of_rewind L hset hc (reaches_child L h₁) h₂).1
  | tail h₃ hstep ih =>
    exact ih.step hset hc (reaches_child L (hs₂.trans (Operator.Reaches.any h₃))) hstep

theorem remembers (L : Loads c db (loader.load db)) (hset : c.Settled db)
    (hc : c.Replays db s₀.child) :
    (Operator.buffered kind orderedBy label c profile loader).Remembers db s₀ := by
  refine Operator.Remembers.of_place
    (o := .buffered kind orderedBy label c profile loader)
    Buffered.position Buffered.mark (handed (freshRows L s₀))
    (fun h => (holds_of_running L hset hc h).trace_eq) (fun h => ?_)
    (fun h => (step_keeps L h).2.2 rfl) (fun h => ⟨_, reset_of_mark h, rfl⟩)
  obtain ⟨-, rfl⟩ := Prod.mk.inj h
  exact ⟨rfl, rfl⟩

theorem regular (L : Loads c db (loader.load db)) (hc : c.Regular db) :
    (Operator.buffered kind orderedBy label c profile loader).Regular db where
  settled := settled L
  ends := ends
  replays s₀ := replays L hc.settled (hc.replays (child s₀))
  remembers s₀ := remembers L hc.settled (hc.replays (child s₀))

end Operator

def Loads.ofFold {β : Type} {load : c.State → Outcome (List Tuple) c.State}
    (step : Schema → β → Tuple → Except QueryError β) (b : β)
    (finish : β → Except QueryError (List Tuple))
    (hload : ∀ s, load s =
      ((fold (step (c.status s).schema) (c.next db) (c.remaining db s + 1) b s).1.bind finish,
        (fold (step (c.status s).schema) (c.next db) (c.remaining db s + 1) b s).2)) :
    Loads c db load where
  rows s tr := (tr.fold (step s) b).bind finish
  result s := by rw [hload, fold_eq _ _ _ (Nat.lt_succ_self _)]
  reaches {π s r s'} h hr := by
    rw [hload] at h
    rcases hfold : fold (step (c.status s).schema) (c.next db) (c.remaining db s + 1) b s with
      ⟨e | b', s₁⟩ <;> simp only [hfold, Except.bind] at h <;> obtain ⟨rfl, rfl⟩ := Prod.mk.inj h
    · exact fold_reaches hfold hr.of_error
    · exact fold_reaches hfold (.inr rfl)

end Buffered

/-- The rows that a sort loads: all rows of the child, arranged by their keys. -/
def Sorting.loads (keys : List OrderKey) (c : Operator) (db : Storage) :
    Buffered.Loads c db (Sorting.load keys c db) :=
  .ofFold (collect · keys) [] (fun rows => .ok (arrange keys rows)) fun s => by
    rw [load]
    rcases Buffered.fold (collect (c.status s).schema keys) (c.next db) (c.remaining db s + 1) [] s
      with ⟨_ | _, _⟩ <;> rfl

/-- The rows that a grouping loads: the row of each class. -/
def Group.loads (groupBy calls : List Expr) (c : Operator) (db : Storage) :
    Buffered.Loads c db (Group.load groupBy calls c db) :=
  .ofFold (step · groupBy calls) [] (finish groupBy calls) fun _ => rfl

end RelQuery
