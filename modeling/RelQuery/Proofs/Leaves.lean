import RelQuery.Proofs.Replay

namespace RelQuery

variable {db : Storage} {π : Policy}

section Leaf

variable {κ : Type} {kind : OperatorKind} {label : String} {first : κ}
  {profile : Config → Except QueryError Profile} {source : Leaf.Source κ} {s s' s₀ : Leaf κ}

namespace Leaf

theorem rewind_of_prepared (h : s.status.check kind = .ok ()) :
    Leaf.rewind kind first s = (.ok (), ⟨s.status.restart, first, s.mark⟩) := by
  rw [Leaf.rewind, h]

theorem rewind_of_unprepared {e : QueryError} (h : s.status.check kind = .error e) :
    Leaf.rewind kind first s = (.error e, s) := by
  rw [Leaf.rewind, h]

theorem rewind_keeps {r : Except QueryError Unit} (h : Leaf.rewind kind first s = (r, s')) :
    s'.status.profile = s.status.profile ∧ s'.mark = s.mark := by
  unfold Leaf.rewind at h
  split at h <;>
  · obtain ⟨-, rfl⟩ := Prod.mk.inj h
    exact ⟨rfl, rfl⟩

theorem reset_of_mark {p : κ} (h : s.mark = some p) :
    Leaf.reset kind s = (.ok (), { s with position := p }) := by
  rw [Leaf.reset, h]

theorem reset_keeps {r : Except QueryError Unit} (h : Leaf.reset kind s = (r, s')) :
    s'.status.profile = s.status.profile ∧ s'.mark = s.mark := by
  unfold Leaf.reset at h
  split at h <;>
  · obtain ⟨-, rfl⟩ := Prod.mk.inj h
    exact ⟨rfl, rfl⟩

/-- What a call gives follows from the profile and the position, and so does where it leads. -/
theorem next_congr (pull : Schema → κ → Outcome (Option Tuple) κ)
    (hprofile : s.status.profile = s'.status.profile) (hposition : s.position = s'.position) :
    (Leaf.next pull s).1 = (Leaf.next pull s').1 ∧
      (Leaf.next pull s).2.status.profile = (Leaf.next pull s').2.status.profile ∧
      (Leaf.next pull s).2.position = (Leaf.next pull s').2.position := by
  have hschema : s.status.schema = s'.status.schema := by
    rw [Status.schema, Status.schema, hprofile]
  rcases h : Leaf.next pull s with ⟨r, t⟩
  rcases h' : Leaf.next pull s' with ⟨r', t'⟩
  obtain ⟨hs, hsprofile, -⟩ := next_eq h
  obtain ⟨hs', hsprofile', -⟩ := next_eq h'
  rw [hschema, hposition, hs'] at hs
  obtain ⟨hresult, hafter⟩ := Prod.mk.inj hs
  exact ⟨hresult.symm, hsprofile.trans (hprofile.trans hsprofile'.symm), hafter.symm⟩

theorem step_keeps
    (h : (Operator.leaf kind label profile source).Step db π s s') :
    s'.status.profile = s.status.profile ∧ (π.mark = false → s'.mark = s.mark) := by
  refine h.rec_calls ?rewind ?next ?mark ?reset ?cleanUp
  case rewind =>
    intro r h _
    obtain ⟨hprofile, hmark⟩ := rewind_keeps h
    exact ⟨hprofile, fun _ => hmark⟩
  case next =>
    intro r h _
    obtain ⟨-, hprofile, hmark⟩ := next_eq h
    exact ⟨hprofile, fun _ => hmark⟩
  case mark =>
    intro r hm h _
    obtain ⟨-, rfl⟩ := Prod.mk.inj h
    exact ⟨rfl, fun hπ => by simp [hπ] at hm⟩
  case reset =>
    intro r _ h _
    obtain ⟨hprofile, hmark⟩ := reset_keeps h
    exact ⟨hprofile, fun _ => hmark⟩
  case cleanUp =>
    rintro - rfl
    exact ⟨rfl, fun _ => rfl⟩

/-- The trace of a position, with the given profile. -/
def gives (kind : OperatorKind) (label : String) (profile : Config → Except QueryError Profile)
    (source : Source κ) (db : Storage) (settled : Option Profile) (p : κ) : Trace :=
  (Operator.leaf kind label profile source).trace db
    (⟨⟨settled, 0⟩, p, none⟩ : Leaf κ)

theorem trace_eq (s : Leaf κ) :
    (Operator.leaf kind label profile source).trace db s =
      gives kind label profile source db s.status.profile s.position := by
  refine Operator.trace_eq_of_related
    (o := .leaf kind label profile source) (c := .leaf kind label profile source)
    (R := fun (s s' : Leaf κ) => s.status.profile = s'.status.profile ∧ s.position = s'.position)
    ?_ ⟨rfl, rfl⟩
  rintro (s : Leaf κ) (s' : Leaf κ) ⟨hprofile, hposition⟩
  obtain ⟨hresult, hafter⟩ := next_congr (source.pull db) hprofile hposition
  exact ⟨hresult, fun _ _ => hafter⟩

theorem settled : (Operator.leaf kind label profile source).Settled db :=
  fun _ _ h => h.keeps (o := .leaf kind label profile source)
    (fun s : Leaf κ => s.status.profile) fun h => (step_keeps h).1

theorem ends (hend : ∀ {s p p'}, source.pull db s p = (.ok none, p') →
      (source.pull db s p').1 = .ok none) :
    (Operator.leaf kind label profile source).Ends db := by
  intro s s' h
  obtain ⟨hpull, hprofile, -⟩ := next_eq h
  -- `hend` speaks of the schema before the call, the next call reads the one behind it.
  have hschema : Status.schema (Leaf.status s') = Status.schema (Leaf.status s) := by
    rw [Status.schema, Status.schema, hprofile]
  have hagain := hend hpull
  rw [← hschema] at hagain
  obtain ⟨hs, -, -⟩ := next_eq (show Leaf.next (source.pull db) s' = (_, _) from rfl)
  rw [hs] at hagain
  exact Operator.trace_of_none (o := .leaf kind label profile source)
    (Prod.ext hagain rfl)

/-- Whether a run can start follows from the profile, and so does what it gives. -/
theorem rewind_congr (h : s'.status.profile = s.status.profile) :
    (Leaf.rewind kind first s').1 = (Leaf.rewind kind first s).1 ∧
      ((Leaf.rewind kind first s').1 = .ok () →
        (Leaf.rewind kind first s').2.status.profile = (Leaf.rewind kind first s).2.status.profile ∧
          (Leaf.rewind kind first s').2.position = (Leaf.rewind kind first s).2.position) := by
  have hcheck : s'.status.check kind = s.status.check kind := Status.check_congr h
  cases hs : s.status.check kind with
  | error e =>
    rw [rewind_of_unprepared hs, rewind_of_unprepared (hcheck.trans hs)]
    exact ⟨rfl, fun h => by simp at h⟩
  | ok _ =>
    rw [rewind_of_prepared hs, rewind_of_prepared (hcheck.trans hs)]
    exact ⟨rfl, fun _ => ⟨h, rfl⟩⟩

theorem alike (h : s'.status.profile = s.status.profile) :
    (Operator.leaf kind label profile source).Alike db s' s where
  rewind := (rewind_congr h).1
  trace hok := by
    obtain ⟨hprofile, hposition⟩ := (rewind_congr h).2 hok
    refine (trace_eq _).trans (Eq.trans ?_ (trace_eq _).symm)
    exact congrArg₂ (gives kind label profile source db) hprofile hposition

theorem replays : (Operator.leaf kind label profile source).Replays db s₀ :=
  .of_alike fun h => alike (settled h)

theorem remembers : (Operator.leaf kind label profile source).Remembers db s₀ := by
  refine Operator.Remembers.of_place (o := .leaf kind label profile source) Leaf.position Leaf.mark
    (gives kind label profile source db (Status.profile (Leaf.status s₀)))
    (fun h => ?_) (fun {s s'} h => ?_) (fun h => (step_keeps h).2 rfl)
    (fun {s p} h => ⟨_, reset_of_mark h, rfl⟩)
  · exact (trace_eq _).trans
      (congrArg (gives kind label profile source db · _) (settled h.reaches))
  · obtain ⟨-, rfl⟩ := Prod.mk.inj h
    exact ⟨rfl, rfl⟩

theorem regular (hend : ∀ {s p p'}, source.pull db s p = (.ok none, p') →
      (source.pull db s p').1 = .ok none) :
    (Operator.leaf kind label profile source).Regular db :=
  ⟨settled, ends hend, fun _ => replays, fun _ => remembers⟩

end Leaf

end Leaf

namespace Values

theorem trace_eq (schema : Schema) (rows : List Row) (s : Leaf Nat) :
    (Operator.values schema rows).trace db s = ⟨(rows.drop s.position).map .computed, .ok ()⟩ := by
  refine Operator.next_induction (o := .values schema rows) db
    (motive := fun s : Leaf Nat => (Operator.values schema rows).trace db s =
      ⟨(rows.drop s.position).map .computed, .ok ()⟩) (fun (s : Leaf Nat) ih => ?_) s
  have hnext : (Operator.values schema rows).next db s = Leaf.next (fun _ => pull rows) s := rfl
  rw [Leaf.next, pull] at hnext
  rcases hrow : rows[s.position]? with _ | r <;> simp only [hrow] at hnext
  · rw [List.drop_eq_nil_of_le (List.getElem?_eq_none_iff.1 hrow)]
    exact Operator.trace_of_none hnext
  · obtain ⟨hlt, hr⟩ := List.getElem?_eq_some_iff.1 hrow
    rw [List.drop_eq_getElem_cons hlt, hr]
    exact (Operator.trace_of_some hnext).trans (congrArg (Trace.cons (.computed r)) (ih _ _ hnext))

end Values

theorem Values.regular (schema : Schema) (rows : List Row) (db : Storage) :
    (Operator.values schema rows).Regular db := by
  refine Leaf.regular fun {_ p p'} h => ?_
  change Values.pull rows p = _ at h
  unfold Values.pull at h
  split at h
  · next hrow =>
    obtain ⟨-, rfl⟩ := Prod.mk.inj h
    simp [Values.source, Values.pull, hrow]
  · simp at h

theorem Values.gives {schema : Schema} {rows : List Row} {s : Leaf Nat}
    (h : s.status.check .values = .ok ()) : (Operator.values schema rows).Gives db s rows := by
  refine ((Values.regular schema rows db).replays s).gives (Leaf.rewind_of_prepared h) ?_
  have htrace : (Operator.values schema rows).trace db (⟨s.status.restart, 0, s.mark⟩ : Leaf Nat) =
    ⟨(rows.drop 0).map .computed, .ok ()⟩ := Values.trace_eq schema rows _
  refine ⟨(congrArg Trace.rows htrace).trans ?_, congrArg Trace.ending htrace⟩
  rw [Trace.rows, List.map_map]
  exact List.map_id _

namespace Scan

theorem done_of_pull_none {test : Tuple → Except QueryError Bool} {table : String} {fuel : Nat}
    {p p' : Position} (hfuel : remaining db table p < fuel)
    (h : pull test db table fuel p = (.ok none, p')) : p'.done = true := by
  induction fuel generalizing p with
  | zero => omega
  | succ fuel ih =>
    rw [pull] at h
    split at h
    · next hdone =>
      obtain ⟨-, rfl⟩ := Prod.mk.inj h
      exact hdone
    · next hopen =>
      split at h
      · obtain ⟨-, rfl⟩ := Prod.mk.inj h
        rfl
      · next t ht =>
        -- A row that is refused uses up fuel, but its slot does not come again.
        obtain ⟨l, hl, hlt⟩ := Storage.slotsFrom_readFrom ht
        have hle : remaining db table (.behind l) < remaining db table p := by
          simpa [remaining, hopen, Position.behind] using hlt
        simp only [hl, Option.map_some, Option.getD_some] at h
        split at h
        · simp at h
        · simp at h
        · exact ih (by omega) h

theorem regular (table : TableInfo) (predicate : Option Expr) (db : Storage) :
    (Operator.scan table predicate).Regular db := by
  refine Leaf.regular fun {_ p p'} h => ?_
  have hdone := done_of_pull_none (Nat.lt_succ_self _) h
  simp [source, Scan.next, pull, hdone]

end Scan

end RelQuery
