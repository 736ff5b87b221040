import RelQuery.Proofs.Calls

namespace RelQuery

theorem Status.check_congr {s s' : Status} {kind : OperatorKind} (h : s'.profile = s.profile) :
    s'.check kind = s.check kind := by
  rw [Status.check, Status.check, Status.prepared, Status.prepared, h]

namespace Operator

def Settled (o : Operator) (db : Storage) : Prop :=
  ∀ ⦃s s'⦄, o.Reaches db .any s s' → (o.status s').profile = (o.status s).profile

def Ends (o : Operator) (db : Storage) : Prop :=
  ∀ ⦃s s'⦄, o.next db s = (.ok none, s') → o.trace db s' = .nil

/-- Whatever was called since a state, a new run gives what it gives there. -/
structure Replays (o : Operator) (db : Storage) (s₀ : o.State) : Prop where
  rewind : ∀ {s}, o.Reaches db .any s₀ s → (o.rewind s).1 = (o.rewind s₀).1
  trace : ∀ {s}, o.Reaches db .any s₀ s → (o.rewind s).1 = .ok () →
    o.trace db (o.rewind s).2 = o.trace db (o.rewind s₀).2

/-- A run that is started in one of two states gives what a run gives that is started in the
other. -/
structure Alike (o : Operator) (db : Storage) (a b : o.State) : Prop where
  rewind : (o.rewind a).1 = (o.rewind b).1
  trace : (o.rewind a).1 = .ok () → o.trace db (o.rewind a).2 = o.trace db (o.rewind b).2

namespace Alike

variable {o : Operator} {db : Storage} {a b d : o.State}

theorem symm (h : o.Alike db a b) : o.Alike db b a :=
  ⟨h.rewind.symm, fun hb => (h.trace (h.rewind.trans hb)).symm⟩

theorem trans (h : o.Alike db a b) (h' : o.Alike db b d) : o.Alike db a d :=
  ⟨h.rewind.trans h'.rewind, fun ha => (h.trace ha).trans (h'.trace (h.rewind.symm.trans ha))⟩

theorem of_ok (h : o.Alike db a b) {a' : o.State} (ha : o.rewind a = (.ok (), a')) :
    ∃ b', o.rewind b = (.ok (), b') ∧ o.trace db a' = o.trace db b' := by
  have hok : (o.rewind a).1 = .ok () := by rw [ha]
  have htrace := h.trace hok
  rw [ha] at htrace
  exact ⟨_, Prod.ext (h.rewind.symm.trans hok) rfl, htrace⟩

end Alike

/-- Runs from a state are replayed when calls make no difference to the runs started after them. -/
theorem Replays.of_alike {o : Operator} {db : Storage} {s₀ : o.State}
    (h : ∀ {s}, o.Reaches db .any s₀ s → o.Alike db s s₀) : o.Replays db s₀ :=
  ⟨fun hs => (h hs).rewind, fun hs => (h hs).trace⟩

theorem Replays.alike {o : Operator} {db : Storage} {s₀ s : o.State} (h : o.Replays db s₀)
    (hs : o.Reaches db .any s₀ s) : o.Alike db s s₀ :=
  ⟨h.rewind hs, h.trace hs⟩

/-- A run was started in a state reached from the given one, and all calls since then went well. -/
def Running (o : Operator) (db : Storage) (s₀ s : o.State) : Prop :=
  ∃ s₁ s₂, o.Reaches db .any s₀ s₁ ∧ o.rewind s₁ = (.ok (), s₂) ∧ o.Reaches db .smooth s₂ s

/-- A position that is marked can be returned to, as often as one likes. -/
def Remembers (o : Operator) (db : Storage) (s₀ : o.State) : Prop :=
  ∀ ⦃s s₁ s₂⦄, o.Running db s₀ s → o.mark s = (.ok (), s₁) → o.Reaches db .unmarking s₁ s₂ →
    ∃ s₃, o.reset s₂ = (.ok (), s₃) ∧ o.trace db s₃ = o.trace db s₁

/-- What is needed of an operator for it to be the child of another. -/
structure Regular (o : Operator) (db : Storage) : Prop where
  settled : o.Settled db
  ends : o.Ends db
  replays : ∀ s₀, o.Replays db s₀
  remembers : ∀ s₀, o.Remembers db s₀

theorem Settled.schema {o : Operator} {db : Storage} (h : o.Settled db) {s s' : o.State}
    (hs : o.Reaches db .any s s') : (o.status s').schema = (o.status s).schema := by
  rw [Status.schema, Status.schema, h hs]

theorem Running.reaches {o : Operator} {db : Storage} {s₀ s : o.State} (h : o.Running db s₀ s) :
    o.Reaches db .any s₀ s := by
  obtain ⟨s₁, s₂, h₁, h₂, h₃⟩ := h
  exact h₁.trans ((Reaches.rewind h₂ (.inr rfl)).trans h₃.any)

theorem Running.trans {o : Operator} {db : Storage} {s₀ s s' : o.State} (h : o.Running db s₀ s)
    (hs : o.Reaches db .smooth s s') : o.Running db s₀ s' := by
  obtain ⟨s₁, s₂, h₁, h₂, h₃⟩ := h
  exact ⟨s₁, s₂, h₁, h₂, h₃.trans hs⟩

/-- An operator remembers its marks when what it gives follows from a place that it marks. -/
theorem Remembers.of_place {o : Operator} {db : Storage} {s₀ : o.State} {P : Type}
    (place : o.State → P) (marked : o.State → Option P) (gives : P → Trace)
    (htrace : ∀ {s}, o.Running db s₀ s → o.trace db s = gives (place s))
    (hmark : ∀ {s s'}, o.mark s = (.ok (), s') → place s' = place s ∧ marked s' = some (place s))
    (hkeep : ∀ {s s'}, o.Step db .unmarking s s' → marked s' = marked s)
    (hreset : ∀ {s p}, marked s = some p → ∃ s', o.reset s = (.ok (), s') ∧ place s' = p) :
    o.Remembers db s₀ := by
  intro s s₁ s₂ hrun hs₁ hs₂
  obtain ⟨hplace, hmarked⟩ := hmark hs₁
  -- The calls since leave the mark where it is, and so the reset goes back to its place.
  obtain ⟨s₃, hs₃, hplace₃⟩ := hreset ((hs₂.keeps marked hkeep).trans hmarked)
  have hrun₁ : o.Running db s₀ s₁ := hrun.trans (.mark hs₁ rfl (.inr rfl))
  have hrun₃ : o.Running db s₀ s₃ :=
    hrun₁.trans ((hs₂.mono Policy.unmarking_le_smooth).trans (.reset hs₃ rfl (.inr rfl)))
  exact ⟨s₃, hs₃, by rw [htrace hrun₁, htrace hrun₃, hplace, hplace₃]⟩

/-- The rows still to come are these, and then the run ends well. -/
structure Yields (o : Operator) (db : Storage) (s : o.State) (rows : List Row) : Prop where
  rows_eq : (o.trace db s).rows = rows
  ending : (o.trace db s).ending = .ok ()

/-- Every run gives these rows, whatever runs there were before. -/
def Gives (o : Operator) (db : Storage) (s₀ : o.State) (rows : List Row) : Prop :=
  ∀ ⦃s⦄, o.Reaches db .runs s₀ s → ∃ s', o.rewind s = (.ok (), s') ∧ o.Yields db s' rows

theorem Yields.next_nil {o : Operator} {db : Storage} {s : o.State} (h : o.Yields db s []) :
    ∃ s', o.next db s = (.ok none, s') :=
  next_of_trace_nil (Trace.ext (List.map_eq_nil_iff.1 h.rows_eq) h.ending)

theorem Yields.next_cons {o : Operator} {db : Storage} {s : o.State} {x : Row} {xs : List Row}
    (h : o.Yields db s (x :: xs)) :
    ∃ t s', o.next db s = (.ok (some t), s') ∧ t.values = x ∧ o.Yields db s' xs := by
  obtain ⟨t, ts, htuples, rfl, hrest⟩ := List.map_eq_cons_iff.1 h.rows_eq
  obtain ⟨s', hnext, htrace⟩ := next_of_trace_cons
    (show o.trace db s = Trace.cons t ⟨ts, .ok ()⟩ from Trace.ext htuples h.ending)
  exact ⟨t, s', hnext, rfl, by rw [htrace]; exact hrest, by rw [htrace]⟩

theorem Replays.gives {o : Operator} {db : Storage} {s₀ s₁ : o.State} {rows : List Row}
    (h : o.Replays db s₀) (hs₁ : o.rewind s₀ = (.ok (), s₁)) (hrows : o.Yields db s₁ rows) :
    o.Gives db s₀ rows := by
  intro s hs
  have hok : (o.rewind s).1 = .ok () := (h.rewind hs.any).trans (by rw [hs₁])
  have htrace := h.trace hs.any hok
  rw [hs₁] at htrace
  refine ⟨_, Prod.ext hok rfl, ?_, ?_⟩
  · rw [htrace]
    exact hrows.rows_eq
  · rw [htrace]
    exact hrows.ending

theorem trace_eq_of_next_eq {o : Operator} {db : Storage} {s s' : o.State}
    (h : o.next db s = o.next db s') : o.trace db s = o.trace db s' := by
  rcases hs : o.next db s with ⟨e | _ | t, s₁⟩
  · rw [trace_of_error hs, trace_of_error (h ▸ hs)]
  · rw [trace_of_none hs, trace_of_none (h ▸ hs)]
  · exact (trace_of_some hs).trans (trace_of_some (h ▸ hs)).symm

end Operator

/-- An operator over one child that keeps in step with it: what it gives follows from what was fixed
by preparation, from a place of its own, and from what the child gives. -/
structure Passes (o c : Operator) (db : Storage) where
  Fixed : Type
  Place : Type
  child : o.State → c.State
  fixed : o.State → Fixed
  place : o.State → Place
  /-- The place that a reset goes back to. -/
  marked : o.State → Option Place
  origin : Place
  profile : Fixed → Option Profile
  check : Fixed → Except QueryError Unit
  gives : Fixed → Schema → Place → Trace → Trace
  status_profile : ∀ s, (o.status s).profile = profile (fixed s)
  step : ∀ {π s s'}, o.Step db π s s' → c.Reaches db π (child s) (child s') ∧
    fixed s' = fixed s ∧ (π.mark = false → marked s' = marked s)
  trace_eq : ∀ s, o.trace db s =
    gives (fixed s) (c.status (child s)).schema (place s) (c.trace db (child s))
  rewind_refused : ∀ {s e}, check (fixed s) = .error e → (o.rewind s).1 = .error e
  rewind_passed : ∀ {s}, check (fixed s) = .ok () → (o.rewind s).1 = (c.rewind (child s)).1 ∧
    child (o.rewind s).2 = (c.rewind (child s)).2 ∧ place (o.rewind s).2 = origin
  mark_ok : ∀ {s s'}, o.mark s = (.ok (), s') → c.mark (child s) = (.ok (), child s') ∧
    place s' = place s ∧ marked s' = some (place s)
  reset_ok : ∀ {s p d}, marked s = some p → c.reset (child s) = (.ok (), d) →
    ∃ s', o.reset s = (.ok (), s') ∧ child s' = d ∧ place s' = p

namespace Passes

variable {o c : Operator} {db : Storage} (P : Passes o c db) {π : Policy} {s₀ s s' : o.State}

include P

theorem reaches_child (h : o.Reaches db π s s') : c.Reaches db π (P.child s) (P.child s') :=
  h.lift P.child fun h => (P.step h).1

theorem fixed_eq (h : o.Reaches db π s s') : P.fixed s' = P.fixed s :=
  h.keeps P.fixed fun h => (P.step h).2.1

theorem marked_eq (hπ : π.mark = false) (h : o.Reaches db π s s') : P.marked s' = P.marked s :=
  h.keeps P.marked fun h => (P.step h).2.2 hπ

theorem rewind_ok (h : o.rewind s = (.ok (), s')) :
    c.rewind (P.child s) = (.ok (), P.child s') ∧ P.place s' = P.origin := by
  cases hcheck : P.check (P.fixed s) with
  | error e => simpa [h] using P.rewind_refused hcheck
  | ok _ =>
    have hpass := P.rewind_passed hcheck
    simp only [h] at hpass
    exact ⟨Prod.ext hpass.1.symm hpass.2.1.symm, hpass.2.2⟩

theorem settled : o.Settled db := fun _ _ h => by
  rw [P.status_profile, P.status_profile, P.fixed_eq h]

theorem trace_congr (hset : c.Settled db) (hs : o.Reaches db .any s₀ s)
    (hs' : o.Reaches db .any s₀ s') (hplace : P.place s' = P.place s)
    (htrace : c.trace db (P.child s') = c.trace db (P.child s)) : o.trace db s' = o.trace db s := by
  rw [P.trace_eq, P.trace_eq, P.fixed_eq hs, P.fixed_eq hs', hset.schema (P.reaches_child hs),
    hset.schema (P.reaches_child hs'), hplace, htrace]

theorem alike {a b : o.State} (hset : c.Settled db) (hfixed : P.fixed a = P.fixed b)
    (hschema : (c.status (P.child a)).schema = (c.status (P.child b)).schema)
    (hc : c.Alike db (P.child a) (P.child b)) : o.Alike db a b := by
  cases hcheck : P.check (P.fixed a) with
  | error e =>
    have ha := P.rewind_refused hcheck
    have hb := P.rewind_refused (hfixed ▸ hcheck)
    exact ⟨ha.trans hb.symm, fun hok => absurd (ha.symm.trans hok) (by simp)⟩
  | ok _ =>
    obtain ⟨ha, hachild, haplace⟩ := P.rewind_passed hcheck
    obtain ⟨hb, hbchild, hbplace⟩ := P.rewind_passed (hfixed ▸ hcheck)
    have kept : ∀ s, P.fixed (o.rewind s).2 = P.fixed s := fun s =>
      P.fixed_eq (π := .any) (.rewind rfl (.inl rfl))
    have keptSchema : ∀ d, (c.status (c.rewind d).2).schema = (c.status d).schema := fun d =>
      hset.schema (.rewind rfl (.inl rfl))
    refine ⟨ha.trans (hc.rewind.trans hb.symm), fun hok => ?_⟩
    rw [P.trace_eq, P.trace_eq, kept, kept, hfixed, hachild, hbchild, keptSchema, keptSchema,
      hschema, haplace, hbplace, hc.trace (ha.symm.trans hok)]

theorem replays (hset : c.Settled db) (hc : c.Replays db (P.child s₀)) : o.Replays db s₀ :=
  .of_alike fun h => P.alike hset (P.fixed_eq h) (hset.schema (P.reaches_child h))
    (hc.alike (P.reaches_child h))

theorem running (h : o.Running db s₀ s) : c.Running db (P.child s₀) (P.child s) := by
  obtain ⟨s₁, s₂, h₁, h₂, h₃⟩ := h
  exact ⟨_, _, P.reaches_child h₁, (P.rewind_ok h₂).1, P.reaches_child h₃⟩

theorem remembers (hset : c.Settled db) (hm : c.Remembers db (P.child s₀)) :
    o.Remembers db s₀ := by
  intro s s₁ s₂ hrun hmark hreach
  obtain ⟨hcmark, hplace, hmarked⟩ := P.mark_ok hmark
  obtain ⟨d, hcreset, htrace⟩ := hm (P.running hrun) hcmark (P.reaches_child hreach)
  have hmarked₂ := (P.marked_eq rfl hreach).trans hmarked
  obtain ⟨s₃, hreset, hd, hplace₃⟩ := P.reset_ok hmarked₂ hcreset
  have hs₁ : o.Reaches db .any s₀ s₁ := hrun.reaches.trans (.mark hmark rfl (.inr rfl))
  have hs₃ : o.Reaches db .any s₀ s₃ := hs₁.trans (hreach.any.trans (.reset hreset rfl (.inr rfl)))
  exact ⟨s₃, hreset, P.trace_congr hset hs₁ hs₃ (hplace₃.trans hplace.symm) (hd ▸ htrace)⟩

theorem regular (hends : o.Ends db) (hc : c.Regular db) : o.Regular db where
  settled := P.settled
  ends := hends
  replays s₀ := P.replays hc.settled (hc.replays (P.child s₀))
  remembers s₀ := P.remembers hc.settled (hc.remembers (P.child s₀))

end Passes

end RelQuery
