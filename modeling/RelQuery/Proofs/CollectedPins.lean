import RelQuery.Proofs.PinnedSessions

namespace RelQuery

def Plan.joinFree : Plan → Bool
  | scan .. | values .. => true
  | filter _ c | project _ c | rename _ c | sort _ c | limit _ _ c | group _ _ c | barrier c =>
    c.joinFree
  | join .. => false

theorem Plan.inHand_of_joinFree {p : Plan} (h : p.joinFree = true) (s : p.operator.State) :
    p.pins.inHand s = [] := by
  induction p with
  | scan | values => rfl
  | filter _ c ih | project _ c ih | rename _ c ih | sort _ c ih | limit _ _ c ih
  | group _ _ c ih | barrier c ih => exact ih h s.child
  | join => simp [joinFree] at h

namespace Named

variable {α : Type}

theorem erase_put (m : Named α) (name : String) (a : α) :
    (m.put name a).erase name = m.erase name := by
  simp [put, erase]

end Named

namespace Cursor

variable {c : Cursor} {db : Storage} {ts : List Tuple}

theorem collect_ok (h : (c.collect db).1 = .ok ts) :
    pinsOf ts = 0 ∧ (c.collect db).2.inHand = [] := by
  unfold collect at h ⊢
  generalize c.rewind = x at h ⊢
  rcases x with ⟨e | _, c₁⟩
  · simp at h
  · dsimp only at h ⊢
    generalize c₁.drain db = y at h ⊢
    rcases y with ⟨us, e | _, c₂⟩
    · simp at h
    · obtain rfl := Except.ok.inj h
      refine ⟨?_, c₂.plan.pins_balanced.inHand_cleanUp c₂.state⟩
      rw [pinsOf_eq_zero]
      intro t ht
      obtain ⟨u, -, rfl⟩ := List.mem_map.1 ht
      exact u.pin?_unpin

end Cursor

namespace Session

variable {s : Session} {name : String} {c : Cursor}

/-- The tuples that are alive besides those of one cursor. -/
def others (s : Session) (name : String) : List Tuple :=
  ({ s with cursors := s.cursors.erase name } : Session).tuples

/-- What collecting a cursor of a session leaves pinned. -/
structure CollectLeaves (s : Session) (name : String) (c : Cursor) : Prop where
  returned : ∀ ts, (c.collect s.storage).1 = .ok ts → ∀ t ∈ ts, t.isPinned = false
  /-- However the run ends, the left rows in hand are all that has pins besides the others. -/
  pinned : (s.act (.collect name)).2.PinnedBy (s.others name ++ (c.collect s.storage).2.inHand)
  succeeded : ∀ ts, (c.collect s.storage).1 = .ok ts →
    (∀ t ∈ (c.collect s.storage).2.kept, t.isPinned = false) ∧
      (s.act (.collect name)).2.PinnedBy (s.others name)
  joinFree : c.plan.joinFree = true →
    (∀ t ∈ (c.collect s.storage).2.kept, t.isPinned = false) ∧
      (s.act (.collect name)).2.PinnedBy (s.others name)
  cleanedUp : (s.run [.collect name, .control name .cleanUp]).PinnedBy (s.others name)

theorem Tidy.pinsOf_others (h : s.Tidy) (name : String) : pinsOf (s.others name) =
    s.held.pins (fun t => pinsOf [t]) + (s.cursors.erase name).pins fun c => pinsOf c.inHand := by
  have herased : ({ s with cursors := s.cursors.erase name } : Session).Tidy :=
    ⟨h.held, h.cursors.erase name, fun e he => h.clean e (List.mem_of_mem_filter he)⟩
  exact herased.pinsOf_tuples

theorem Accounted.pinnedBy_putCursor (h : s.Accounted) {a : Action}
    (ha : (s.effect a).2 = s.putCursor name c) :
    (s.act a).2.PinnedBy (s.others name ++ c.inHand) := by
  apply (h.act a).1.pinnedBy
  have halive : (s.act a).2.alive = (s.putCursor name c).alive := by
    rw [← ha]
    rfl
  rw [halive, pinsOf_append, h.tidy.pinsOf_others]
  simp only [alive, putCursor, Named.pins_put]
  abel

theorem effect_collect (hc : s.cursors.get? name = some c) :
    (s.effect (.collect name)).2 = s.putCursor name (c.collect s.storage).2 := by
  simp only [effect, withCursor, hc]

theorem effect_cleanUp (hc : s.cursors.get? name = some c) :
    (s.effect (.control name .cleanUp)).2 = s.putCursor name c.cleanUp := by
  simp only [effect, withCursor, hc, control]

/-- After whatever actions, what collecting a cursor leaves pinned. -/
theorem pins_after_collect (rowsPerPage : Nat) (config : Config) (actions : List Action)
    (hc : ((start rowsPerPage config).run actions).cursors.get? name = some c) :
    ((start rowsPerPage config).run actions).CollectLeaves name c := by
  obtain ⟨h, -⟩ := (accounted_start rowsPerPage config).run actions
  generalize (start rowsPerPage config).run actions = s at h hc ⊢
  have hclean : c.Clean := h.tidy.clean _ (Named.mem_of_get? hc)
  have hcollected := Cursor.settles_collect hclean s.storage
  have hpinned := h.pinnedBy_putCursor (effect_collect hc)
  -- what holds of a cursor with nothing in hand
  have hnothing : (c.collect s.storage).2.inHand = [] →
      (∀ t ∈ (c.collect s.storage).2.kept, t.isPinned = false) ∧
        (s.act (.collect name)).2.PinnedBy (s.others name) := by
    intro hempty
    rw [hempty, List.append_nil] at hpinned
    have hkept := Cursor.pinsOf_kept hcollected.clean
    rw [hempty, pinsOf_nil] at hkept
    exact ⟨isPinned_of_pinsOf_eq_zero hkept, hpinned⟩
  constructor
  case returned =>
    intro ts hts
    exact isPinned_of_pinsOf_eq_zero (Cursor.collect_ok hts).1
  case pinned => exact hpinned
  case succeeded =>
    intro ts hts
    exact hnothing (Cursor.collect_ok hts).2
  case joinFree =>
    intro hfree
    obtain ⟨state, hstate, -⟩ := hcollected
    apply hnothing
    rw [hstate]
    exact Plan.inHand_of_joinFree hfree state
  case cleanedUp =>
    have hafter : (s.act (.collect name)).2.cursors.get? name = some (c.collect s.storage).2 := by
      simp only [act, effect_collect hc, putCursor, Named.get?_put]
    have hothers : (s.act (.collect name)).2.others name = s.others name := by
      simp only [others, tuples, act, effect_collect hc, putCursor, Named.erase_put]
    have hlast := (h.act (.collect name)).1.pinnedBy_putCursor (effect_cleanUp hafter)
    have hempty : (c.collect s.storage).2.cleanUp.inHand = [] :=
      (c.collect s.storage).2.plan.pins_balanced.inHand_cleanUp _
    rw [hothers, hempty, List.append_nil] at hlast
    exact hlast

/-- A predicate that divides by zero: the run fails while the join has the row in hand, and its page
stays pinned until the clean up. -/
theorem pins_after_collect_failed :
    let table : TableInfo := ⟨"t", ⟨[⟨"a", some "t", .integer⟩]⟩, .unknown 1⟩
    let predicate : Expr := .compare .eq (.arith .div (.literal (.int 1)) (.column ⟨none, "a"⟩))
      (.literal (.int 1))
    let s := (start 64 .default).run [.createTable "t" [("a", .integer)], .insert "t" [.int 0],
      .build "p" (.join .inner (some predicate) false (.scan table none) .singleRow),
      .control "p" .prepare]
    ∃ c, s.cursors.get? "p" = some c ∧ s.CollectLeaves "p" c ∧ s.pinnedPages = 0 ∧
      (s.act (.collect "p")).2.pinnedPages = 1 ∧
      (s.run [.collect "p", .control "p" .cleanUp]).pinnedPages = 0 := by
  intro table predicate s
  obtain ⟨c, hc⟩ : ∃ c, s.cursors.get? "p" = some c := ⟨_, rfl⟩
  have hleaves := pins_after_collect 64 .default _ hc
  refine ⟨c, hc, hleaves, ?_, ?_, ?_⟩
  · decide +kernel
  · decide +kernel
  · decide +kernel

end Session

end RelQuery
