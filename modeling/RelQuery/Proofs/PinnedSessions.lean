import RelQuery.Proofs.PinnedCursors
import RelQuery.Proofs.Planned

namespace RelQuery

namespace Named

variable {α : Type} {m : Named α} {name : String} {a : α}

def Distinct (m : Named α) : Prop := (m.map Prod.fst).Nodup

def pins (f : α → Multiset PageId) (m : Named α) : Multiset PageId := (m.map fun e => f e.2).sum

theorem Distinct.erase (h : m.Distinct) (name : String) : (m.erase name).Distinct :=
  h.sublist ((List.filter_sublist).map Prod.fst)

theorem Distinct.put (h : m.Distinct) (name : String) (a : α) : (m.put name a).Distinct := by
  refine List.nodup_cons.2 ⟨fun hmem => ?_, h.erase name⟩
  obtain ⟨e, he, hname⟩ := List.mem_map.1 hmem
  simpa [hname] using (List.mem_filter.1 he).2

theorem mem_of_get? (h : m.get? name = some a) : (name, a) ∈ m := by
  induction m with
  | nil => simp [get?] at h
  | cons e m ih =>
    obtain ⟨n, b⟩ := e
    rw [get?, List.lookup_cons] at h
    split at h
    · next heq =>
      obtain rfl := Option.some.inj h
      rw [eq_of_beq heq]
      exact List.mem_cons_self
    · exact List.mem_cons_of_mem _ (ih h)

theorem get?_put (m : Named α) (name : String) (a : α) : (m.put name a).get? name = some a := by
  simp [get?, put]

theorem mem_put {e : String × α} (h : e ∈ m.put name a) : e = (name, a) ∨ e ∈ m :=
  (List.mem_cons.1 h).imp_right List.mem_of_mem_filter

theorem pins_put (f : α → Multiset PageId) (m : Named α) (name : String) (a : α) :
    (m.put name a).pins f = f a + (m.erase name).pins f := by
  simp [pins, put]

theorem pins_erase (f : α → Multiset PageId) (h : m.Distinct) (name : String) :
    m.pins f = ((m.get? name).map f).getD 0 + (m.erase name).pins f := by
  induction m with
  | nil => rfl
  | cons e m ih =>
    obtain ⟨n, b⟩ := e
    obtain ⟨hnot, hrest⟩ := List.nodup_cons.1 h
    have hcons : pins f ((n, b) :: m) = f b + pins f m := by simp [pins]
    by_cases hn : n = name
    · subst hn
      have herase : erase ((n, b) :: m) n = m := by
        simp only [erase, List.filter_cons, bne_self_eq_false, Bool.false_eq_true, if_false]
        apply List.filter_eq_self.2
        intro e he
        simpa using fun heq => hnot (List.mem_map.2 ⟨e, he, heq⟩)
      rw [hcons, herase]
      simp [get?]
    · have herase : erase ((n, b) :: m) name = (n, b) :: erase m name := by
        simp [erase, hn]
      have hget : get? ((n, b) :: m) name = get? m name := by
        simp [get?, List.lookup_cons, beq_eq_false_iff_ne.2 (Ne.symm hn)]
      have hcons' : pins f ((n, b) :: erase m name) = f b + pins f (erase m name) := by simp [pins]
      rw [hcons, herase, hget, hcons', ih hrest]
      abel

end Named

namespace Session

variable {s s' : Session} {pages : PageId → Prop} {es fs : List PinEvent} {ts : List Tuple}
  {name copy : String} {c c' : Cursor} {t : Tuple}

/-- The pins of the tuples in hand and of the left rows that cursors have in hand. -/
def alive (s : Session) : Multiset PageId :=
  s.held.pins (fun t => pinsOf [t]) + s.cursors.pins fun c => pinsOf c.inHand

/-- No name stands for two things, and what marks and buffers hold pins no page. -/
structure Tidy (s : Session) : Prop where
  held : s.held.Distinct
  cursors : s.cursors.Distinct
  clean : ∀ e ∈ s.cursors, e.2.Clean

/-- A change of what a session has in hand, and its events. -/
structure Settles (pages : PageId → Prop) (s : Session) (es : List PinEvent) (ts : List Tuple)
    (s' : Session) : Prop where
  tidy : s'.Tidy
  run : PinRun pages s.alive es (pinsOf ts + s'.alive)

theorem Tidy.putCursor (h : s.Tidy) (hc : c.Clean) (name : String) : (s.putCursor name c).Tidy := by
  refine ⟨h.held, h.cursors.put name c, fun e he => ?_⟩
  rcases Named.mem_put he with rfl | he
  · exact hc
  · exact h.clean e he

theorem Tidy.putTuple (h : s.Tidy) (name : String) (t : Tuple) : (s.putTuple name t).Tidy :=
  ⟨h.held.put name t, h.cursors, h.clean⟩

namespace Settles

theorem refl (h : s.Tidy) : s.Settles pages [] [] s :=
  ⟨h, by simpa using PinRun.nil s.alive⟩

theorem putCursor (h : s.Tidy) (hc : s.cursors.get? name = some c) (hclean : c'.Clean)
    (hrun : PinRun pages (pinsOf c.inHand) es (pinsOf ts + pinsOf c'.inHand)) :
    s.Settles pages es ts (s.putCursor name c') := by
  refine ⟨h.putCursor hclean name, ?_⟩
  let others : Multiset PageId := s.held.pins (fun t => pinsOf [t]) +
    (s.cursors.erase name).pins fun c => pinsOf c.inHand
  have hbefore : s.alive = pinsOf c.inHand + others := by
    rw [alive, Named.pins_erase _ h.cursors name, hc]
    simp only [others, Option.map_some, Option.getD_some]
    abel
  have hafter : pinsOf ts + (s.putCursor name c').alive =
      pinsOf ts + pinsOf c'.inHand + others := by
    simp only [alive, Session.putCursor, Named.pins_put, others]
    abel
  rw [hbefore, hafter]
  exact hrun.frame others

theorem eraseTuple (h : s.Settles pages es ts s') (name : String) :
    s.Settles pages (es ++ s'.dropTuplePins name) ts
      { s' with held := s'.held.erase name } := by
  refine ⟨⟨h.tidy.held.erase name, h.tidy.cursors, h.tidy.clean⟩, h.run.trans ?_⟩
  let others : Multiset PageId := pinsOf ts + ((s'.held.erase name).pins (fun t => pinsOf [t]) +
    s'.cursors.pins fun c => pinsOf c.inHand)
  have hbefore : pinsOf ts + s'.alive = pinsOf (s'.held.get? name).toList + others := by
    rw [alive, Named.pins_erase _ h.tidy.held name]
    cases s'.held.get? name with
    | none => simp [others]
    | some u =>
      simp only [others, Option.map_some, Option.getD_some, Option.toList_some]
      abel
  have hrelease : PinRun pages _ (s'.dropTuplePins name) (0 + others) :=
    (PinRun.release_all _).frame others
  rw [zero_add] at hrelease
  rw [hbefore]
  exact hrelease

theorem putTuple (h : s.Settles pages es [t] s') (name : String) :
    s.Settles pages (es ++ s'.dropTuplePins name) [] (s'.putTuple name t) := by
  refine ⟨h.tidy.putTuple name t, ?_⟩
  have hput : pinsOf [] + (s'.putTuple name t).alive =
      pinsOf [t] + ({ s' with held := s'.held.erase name } : Session).alive := by
    simp only [alive, Session.putTuple, Named.pins_put, pinsOf_nil]
    abel
  rw [hput]
  exact (h.eraseTuple name).run

theorem holding (h : s.Settles pages es [t] s') (hold : Option String) :
    s.Settles pages (es ++ s'.holdingPins hold t) [] (s'.holding hold t) := by
  cases hold with
  | some name => exact h.putTuple name
  | none =>
    have hrelease : PinRun pages _ t.released _ := (PinRun.released_tuple t).frame s'.alive
    exact ⟨h.tidy, h.run.trans hrelease⟩

theorem unpinned (h : s.Settles pages es [] s') (ht : t.pin? = none) :
    s.Settles pages es [t] s' := by
  refine ⟨h.tidy, ?_⟩
  have hnone : pinsOf [t] = 0 := pinsOf_eq_zero.2 (by simpa using ht)
  rw [hnone]
  exact h.run

/-- A name is given up, and the cursor that had it is dropped with all that it holds. -/
theorem eraseCursor (h : s.Settles pages es ts s') (name : String) :
    s.Settles pages (es ++ s'.dropCursorPins name) ts
      { s' with cursors := s'.cursors.erase name } := by
  refine ⟨⟨h.tidy.held, h.tidy.cursors.erase name,
    fun e he => h.tidy.clean e (List.mem_of_mem_filter he)⟩, h.run.trans ?_⟩
  let others : Multiset PageId := pinsOf ts + (s'.held.pins (fun t => pinsOf [t]) +
    (s'.cursors.erase name).pins fun c => pinsOf c.inHand)
  have hbefore : pinsOf ts + s'.alive =
      pinsOf (((s'.cursors.get? name).map Cursor.kept).getD []) + others := by
    rw [alive, Named.pins_erase _ h.tidy.cursors name]
    cases hc : s'.cursors.get? name with
    | none => simp [others]
    | some c =>
      have hclean : c.Clean := h.tidy.clean _ (Named.mem_of_get? hc)
      simp only [others, Option.map_some, Option.getD_some, Cursor.pinsOf_kept hclean]
      abel
  have hrelease : PinRun pages _ (s'.dropCursorPins name) (0 + others) :=
    (PinRun.release_all _).frame others
  rw [zero_add] at hrelease
  rw [hbefore]
  exact hrelease

/-- A cursor that holds nothing takes a name, and the one that had it is dropped. -/
theorem newCursor (h : s.Settles pages es ts s') (name : String)
    (hc : c.inHand = [] ∧ c.setAside = []) :
    s.Settles pages (es ++ s'.dropCursorPins name) ts (s'.putCursor name c) := by
  have hclean : c.Clean := congrArg pinsOf hc.2
  refine ⟨h.tidy.putCursor hclean name, ?_⟩
  have hput : (s'.putCursor name c).alive =
      ({ s' with cursors := s'.cursors.erase name } : Session).alive := by
    simp only [alive, Session.putCursor, Named.pins_put, hc.1, pinsOf_nil, zero_add]
  rw [hput]
  exact (h.eraseCursor name).run

/-- What a session has in hand does not depend on its storage and its settings. -/
theorem congr {s'' : Session} (h : s.Settles pages es ts s') (hheld : s''.held = s'.held)
    (hcursors : s''.cursors = s'.cursors) : s.Settles pages es ts s'' := by
  obtain ⟨db, config, cursors, held, pins⟩ := s''
  obtain rfl : held = s'.held := hheld
  obtain rfl : cursors = s'.cursors := hcursors
  exact ⟨⟨h.tidy.held, h.tidy.cursors, h.tidy.clean⟩, h.run⟩

end Settles

theorem settles_withCursor (h : s.Tidy) {f : Cursor → Reply × Session} {g : Cursor → List PinEvent}
    (hf : ∀ c, s.cursors.get? name = some c → s.Settles pages (g c) [] (f c).2) :
    s.Settles pages (s.cursorPins name g) [] (s.withCursor name f).2 := by
  unfold cursorPins withCursor
  cases hc : s.cursors.get? name with
  | none => exact .refl h
  | some c => exact hf c hc

theorem settles_withTuple (h : s.Tidy) {f : Tuple → Reply × Session} {g : Tuple → List PinEvent}
    (hf : ∀ t, s.held.get? name = some t → s.Settles pages (g t) [] (f t).2) :
    s.Settles pages (s.tuplePins name g) [] (s.withTuple name f).2 := by
  unfold tuplePins withTuple
  cases ht : s.held.get? name with
  | none => exact .refl h
  | some t => exact hf t ht

theorem settles_planned (h : s.Tidy) (name : String) {r : Except QueryError Cursor}
    (hr : ∀ c, r = .ok c → c.inHand = [] ∧ c.setAside = []) :
    s.Settles pages (s.plannedPins name r) [] (s.planned name r).2 := by
  cases r with
  | error e => exact .refl h
  | ok c => exact (Settles.refl h).newCursor name (hr c rfl)

theorem settles_next (h : s.Tidy) (hold : Option String) (hc : s.cursors.get? name = some c) :
    s.Settles (· ∈ s.storage.pageIds) (s.nextPins hold c) [] (s.next name hold c).2 := by
  have hnext := Cursor.settles_next (h.clean _ (Named.mem_of_get? hc)) s.storage
  have hcursor := Settles.putCursor h hc hnext.clean hnext.run
  unfold nextPins next
  generalize c.next s.storage = x at hcursor ⊢
  rcases x with ⟨e | _ | t, c₁⟩
  · rw [List.append_nil]
    exact hcursor
  · rw [List.append_nil]
    exact hcursor
  · exact hcursor.holding hold

theorem settles_query (h : s.Tidy) (hc : c.inHand = [] ∧ c.setAside = []) :
    s.Settles (· ∈ s.storage.pageIds) (s.queryPins c) [] s := by
  have hclean : c.Clean := congrArg pinsOf hc.2
  have hcollect := Cursor.settles_collect hclean s.storage
  have hdrop : PinRun (· ∈ s.storage.pageIds) _
      (Tuple.releaseAll (c.collect s.storage).2.kept) 0 := PinRun.release_all _
  rw [Cursor.pinsOf_kept hcollect.clean] at hdrop
  have hrun := hcollect.run
  rw [hc.1, pinsOf_nil, zero_add] at hrun
  have hall := (hrun.trans hdrop).frame s.alive
  rw [zero_add] at hall
  refine ⟨h, ?_⟩
  rw [pinsOf_nil, zero_add]
  exact hall

theorem plan_empty {select : Select} {enclosing : List Select} (hdb : s.storage.Built)
    (h : select.plan s.storage s.config enclosing = .ok c) : c.inHand = [] ∧ c.setAside = [] := by
  obtain ⟨c₁, hsource, hbody⟩ := Planning.plan_ok h
  have hplanned := Planning.planned_body (Planning.planned_source hdb.sound hsource) hbody
  exact Cursor.prepared_empty hplanned.prepared

theorem settles_read (h : s.Tidy) (table : String) (page slot : Nat) (hold : Option String) :
    s.Settles (· ∈ s.storage.pageIds) (s.pinEvents (.read table page slot hold)) []
      (s.effect (.read table page slot hold)).2 := by
  have hread : ∀ {x}, s.storage.readFrom table page slot = some x →
      s.Settles (· ∈ s.storage.pageIds) x.taken [x] s := by
    intro x hx
    have htaken := PinRun.taken_tuple fun p hp => Storage.mem_pageIds_of_readFrom hx hp
    have hall := htaken.frame s.alive
    rw [zero_add] at hall
    exact ⟨h, hall⟩
  simp only [pinEvents, effect, Storage.readFrom, Storage.table] at hread ⊢
  cases htable : s.storage.find? table with
  | none => exact .refl h
  | some t =>
    simp only [htable, Option.bind_some] at hread ⊢
    cases hx : t.readFrom page slot with
    | none => exact .refl h
    | some x => exact (hread hx).holding hold

theorem mem_alive_of_held (h : s.Tidy) (ht : s.held.get? name = some t) {p : PageId}
    (hp : t.pin? = some p) : p ∈ s.alive := by
  rw [alive, Named.pins_erase _ h.held name, ht]
  have hpin : p ∈ pinsOf [t] := mem_pinsOf.2 ⟨t, List.mem_singleton_self t, hp⟩
  exact Multiset.mem_add.2 (.inl (Multiset.mem_add.2 (.inl hpin)))

theorem settles_copy (h : s.Tidy) (hwithin : ∀ p ∈ s.alive, p ∈ s.storage.pageIds)
    (ht : s.held.get? name = some t) (copy : String) :
    s.Settles (· ∈ s.storage.pageIds) (t.taken ++ s.dropTuplePins copy) []
      (s.putTuple copy t) := by
  have htaken := PinRun.taken_tuple fun p hp => hwithin p (mem_alive_of_held h ht hp)
  have hall := htaken.frame s.alive
  rw [zero_add] at hall
  have hcopied : s.Settles (· ∈ s.storage.pageIds) t.taken [t] s := ⟨h, hall⟩
  exact hcopied.putTuple copy

/-- What is done with a cursor of a name that no cursor has comes to nothing. -/
theorem settles_discard (h : s.Tidy) (name : String) :
    s.Settles pages (s.dropCursorPins name) [] (s.effect (.discard name)).2 := by
  have herase : s.Settles pages ([] ++ s.dropCursorPins name) [] _ :=
    (Settles.refl h).eraseCursor name
  simp only [effect, withCursor]
  cases hc : s.cursors.get? name with
  | none =>
    rw [dropCursorPins, hc]
    exact .refl h
  | some c => exact herase

theorem settles_held (h : s.Tidy) {f : Tuple → Reply × Session}
    (hf : ∀ t, s.held.get? name = some t → s.Settles pages (s.dropTuplePins name) [] (f t).2) :
    s.Settles pages (s.dropTuplePins name) [] (s.withTuple name f).2 := by
  unfold withTuple
  cases ht : s.held.get? name with
  | none =>
    rw [dropTuplePins, ht]
    exact .refl h
  | some t => exact hf t ht

theorem settles_effect (h : s.Tidy) (hdb : s.storage.Built)
    (hwithin : ∀ p ∈ s.alive, p ∈ s.storage.pageIds) (a : Action) :
    s.Settles (· ∈ s.storage.pageIds) (s.pinEvents a) [] (s.effect a).2 := by
  have hnone : ∀ p, noPage p → p ∈ s.storage.pageIds := fun _ hp => hp.elim
  have hclean : ∀ {name c}, s.cursors.get? name = some c → c.Clean :=
    fun hc => h.clean _ (Named.mem_of_get? hc)
  have hrefl : s.Settles (· ∈ s.storage.pageIds) [] [] s := .refl h
  cases a with
  | createTable | update | delete =>
    simp only [effect, stored]
    split <;> exact hrefl.congr rfl rfl
  | insert | analyze | openTable =>
    simp only [effect]
    split <;> exact hrefl.congr rfl rfl
  | pinned | rowsPerPage | setConfig => exact hrefl.congr rfl rfl
  | inspect name | look name =>
    simp only [effect, withCursor, withTuple]
    split <;> exact hrefl
  | configure name config =>
    simp only [effect, withCursor]
    split
    · next c hc =>
      have hsame : PinRun (· ∈ s.storage.pageIds) (pinsOf c.inHand) []
          (pinsOf [] + pinsOf (c.configure config).inHand) := by
        rw [pinsOf_nil, zero_add]
        exact .nil _
      have hconfigured : c.Clean := hclean hc
      exact .putCursor h hc hconfigured hsame
    · exact hrefl
  | read table page slot hold => exact settles_read h table page slot hold
  | query select enclosing =>
    simp only [pinEvents]
    split
    · exact hrefl
    · next c hc => exact settles_query h (plan_empty hdb hc)
  | plan name select enclosing => exact settles_planned h name fun c hc => plan_empty hdb hc
  | planScan name table predicate =>
    apply settles_planned h name
    intro c hc
    exact Cursor.prepared_empty (Planning.planned_scan hdb.sound hc).prepared
  | build name plan => exact hrefl.newCursor name (Cursor.ofPlan_empty plan .default)
  | control name operation =>
    apply settles_withCursor h
    intro c hc
    have hsettles := (Cursor.settles_control (hclean hc) operation).mono hnone
    exact .putCursor h hc hsettles.clean hsettles.run
  | next name hold => exact settles_withCursor h fun c hc => settles_next h hold hc
  | drain name =>
    apply settles_withCursor h
    intro c hc
    have hsettles := Cursor.settles_drain (hclean hc) s.storage
    exact .putCursor h hc hsettles.clean hsettles.run
  | collect name =>
    apply settles_withCursor h
    intro c hc
    have hsettles := Cursor.settles_collect (hclean hc) s.storage
    exact .putCursor h hc hsettles.clean hsettles.run
  | duplicate name copy =>
    apply settles_withCursor h
    intro c _
    exact hrefl.newCursor copy (Cursor.ofPlan_empty c.plan c.config)
  | discard name => exact settles_discard h name
  | unpin name => exact settles_held h fun t _ => (hrefl.unpinned t.pin?_unpin).putTuple name
  | drop name => exact settles_held h fun t _ => hrefl.eraseTuple name
  | copy name copy => exact settles_withTuple h fun t ht => settles_copy h hwithin ht copy
  | detach name copy =>
    exact settles_withTuple h fun t _ => (hrefl.unpinned rfl).putTuple copy
  | concat name other copy =>
    apply settles_withTuple h
    intro t _
    exact settles_withTuple h fun u _ => (hrefl.unpinned rfl).putTuple copy

theorem pageIds_effect (hdb : s.storage.Built) (a : Action) :
    s.storage.pageIds ⊆ (s.effect a).2.storage.pageIds :=
  keeps_effect (I := fun db => s.storage.pageIds ⊆ db.pageIds) (List.Subset.refl _)
    hdb.paged.pageIds_attempt a

/-- The counters tell the pins that are alive, which are on pages of the storage. -/
structure Accounted (s : Session) : Prop where
  built : s.storage.Built
  tidy : s.Tidy
  within : ∀ p ∈ s.alive, p ∈ s.storage.pageIds
  follows : s.pins.Follows s.alive

theorem accounted_start (rowsPerPage : Nat) (config : Config) :
    (start rowsPerPage config).Accounted where
  built := .create rowsPerPage
  tidy := ⟨List.nodup_nil, List.nodup_nil, by simp [start]⟩
  within := by simp [alive, start, Named.pins]
  follows _ := rfl

theorem Accounted.act (h : s.Accounted) (a : Action) :
    (s.act a).2.Accounted ∧ PinRun (fun _ => True) s.alive (s.pinEvents a) (s.act a).2.alive := by
  have hsettles := settles_effect h.tidy h.built h.within a
  have hrun := hsettles.run
  rw [pinsOf_nil, zero_add] at hrun
  refine ⟨⟨?_, ⟨?_, ?_, ?_⟩, ?_, ?_⟩, hrun.mono fun _ _ => trivial⟩
  · exact built_effect h.built a
  · exact hsettles.tidy.held
  · exact hsettles.tidy.cursors
  · exact hsettles.tidy.clean
  · intro p hp
    exact pageIds_effect h.built a ((hrun.mem_or hp).elim (h.within p) id)
  · exact hrun.count_run h.follows

theorem Accounted.run (h : s.Accounted) (actions : List Action) :
    (s.run actions).Accounted ∧
      PinRun (fun _ => True) s.alive (s.log actions) (s.run actions).alive := by
  induction actions generalizing s with
  | nil => exact ⟨h, .nil _⟩
  | cons a as ih =>
    obtain ⟨hact, hfirst⟩ := h.act a
    obtain ⟨hrest, hlast⟩ := ih hact
    exact ⟨hrest, hfirst.trans hlast⟩

theorem pins_run (s : Session) (actions : List Action) :
    (s.run actions).pins = s.pins.run (s.log actions) := by
  induction actions generalizing s with
  | nil => rfl
  | cons a as ih =>
    have hrest : ((s.act a).2.run as).pins = (s.act a).2.pins.run ((s.act a).2.log as) := ih _
    rw [log, PinCounts.run, List.foldl_append]
    exact hrest

/-- The counters tell the pins of some tuples, and of no others. -/
structure PinnedBy (s : Session) (ts : List Tuple) : Prop where
  counts : ∀ p, s.pinCount p = Tuple.pinsOn p ts
  pages : s.pinnedPages = (ts.filterMap Tuple.pin?).toFinset.card

/-- The counters of a session whose events so far are in a log. -/
structure CountersTell (s : Session) (log : List PinEvent) : Prop where
  /-- Only the tuples that the client holds and the left rows that joins have in hand have pins. -/
  inHand : s.PinnedBy (s.held.map (·.2) ++ s.cursors.flatMap (·.2.inHand))
  /-- These are all pinned tuples that are alive. -/
  alive : s.PinnedBy s.tuples
  logged : s.pins = .run [] log
  /-- No counter has been below zero at any time. -/
  nonneg : ∀ es, es <+: log → ∀ p, 0 ≤ (PinCounts.run [] es).count p
  setAside : ∀ e ∈ s.cursors, ∀ t ∈ e.2.setAside, t.isPinned = false
  cleanedUp : ∀ name c, (s.act (.control name .cleanUp)).2.cursors.get? name = some c →
    ∀ t ∈ c.kept, t.isPinned = false

theorem pinsOf_held (s : Session) :
    s.held.pins (fun t => pinsOf [t]) = pinsOf (s.held.map (·.2)) := by
  unfold Named.pins
  induction s.held with
  | nil => rfl
  | cons e held ih => rw [List.map_cons, List.sum_cons, ih, List.map_cons, pinsOf_cons]

theorem pinsOf_cursors (s : Session) (f : Cursor → List Tuple) :
    s.cursors.pins (fun c => pinsOf (f c)) = pinsOf (s.cursors.flatMap fun e => f e.2) := by
  unfold Named.pins
  induction s.cursors with
  | nil => rfl
  | cons e cursors ih => rw [List.map_cons, List.sum_cons, ih, List.flatMap_cons, pinsOf_append]

theorem Tidy.pinsOf_tuples (h : s.Tidy) : pinsOf s.tuples = s.alive := by
  have hkept : s.cursors.pins (fun c => pinsOf c.kept) =
      s.cursors.pins fun c => pinsOf c.inHand := by
    unfold Named.pins
    rw [List.map_congr_left fun e he => Cursor.pinsOf_kept (h.clean e he)]
  rw [tuples, pinsOf_append, alive, pinsOf_held, ← hkept, pinsOf_cursors]

theorem Accounted.pinnedBy (h : s.Accounted) (hts : pinsOf ts = s.alive) : s.PinnedBy ts := by
  have hcount : ∀ p, s.pinCount p = s.alive.count p := h.follows
  refine ⟨fun p => by rw [hcount, ← hts, count_pinsOf], ?_⟩
  have hnodup : s.pinned.Nodup := h.built.paged.nodup_pageIds.filter _
  rw [pinnedPages, ← List.toFinset_card_of_nodup hnodup]
  congr 1
  ext p
  have hmem : p ∈ ts.filterMap Tuple.pin? ↔ p ∈ s.alive := by
    rw [← hts]
    rfl
  rw [List.mem_toFinset, List.mem_toFinset, hmem, pinned, List.mem_filter, hcount,
    ← Multiset.count_pos]
  simp only [decide_eq_true_eq, Int.natCast_pos, and_iff_right_iff_imp]
  exact fun hpos => h.within p (Multiset.count_pos.1 hpos)

theorem alive_eq (s : Session) :
    pinsOf (s.held.map (·.2) ++ s.cursors.flatMap (·.2.inHand)) = s.alive := by
  rw [pinsOf_append, ← pinsOf_held, ← pinsOf_cursors]
  rfl

/-- In every session, after whatever actions, the counters tell the pins. -/
theorem counters_tell_pins (rowsPerPage : Nat) (config : Config) (actions : List Action) :
    ((start rowsPerPage config).run actions).CountersTell
      ((start rowsPerPage config).log actions) := by
  have hstart := accounted_start rowsPerPage config
  have hpins : ((start rowsPerPage config).run actions).pins = _ := pins_run ..
  obtain ⟨h, hrun⟩ := hstart.run actions
  generalize (start rowsPerPage config).run actions = s at h hrun hpins ⊢
  constructor
  case inHand => exact h.pinnedBy s.alive_eq
  case alive => exact h.pinnedBy h.tidy.pinsOf_tuples
  case logged => exact hpins
  case nonneg =>
    intro es hes p
    exact hrun.count_nonneg hstart.follows hes p
  case setAside =>
    intro e he
    exact isPinned_of_pinsOf_eq_zero (h.tidy.clean e he)
  case cleanedUp =>
    intro name c hc
    simp only [act, effect, withCursor] at hc
    cases hget : s.cursors.get? name with
    | none => simp [hget] at hc
    | some c₁ =>
      simp only [hget, control, putCursor, Named.get?_put, Option.some.injEq] at hc
      obtain rfl := hc
      have hclean : c₁.Clean := h.tidy.clean _ (Named.mem_of_get? hget)
      exact isPinned_of_pinsOf_eq_zero (Cursor.pinsOf_kept_cleanUp hclean)

end Session

end RelQuery
