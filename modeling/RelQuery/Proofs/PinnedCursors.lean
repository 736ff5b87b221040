import RelQuery.Proofs.PinnedJoins
import RelQuery.Proofs.Rerun
import RelQuery.Session

namespace RelQuery

namespace Cursor

variable {c c' : Cursor} {pages : PageId → Prop} {es : List PinEvent} {ts : List Tuple}

def Clean (c : Cursor) : Prop := pinsOf c.setAside = 0

/-- Events of an operation on a cursor that gives out some tuples. -/
def Settles (pages : PageId → Prop) (c : Cursor) (es : List PinEvent) (ts : List Tuple)
    (c' : Cursor) : Prop :=
  ∃ s, c' = c.setState s ∧ c.plan.pins.Settles pages c.state es ts s

theorem Settles.clean (h : c.Settles pages es ts c') : c'.Clean := by
  obtain ⟨s, rfl, hs⟩ := h
  exact hs.clean

theorem Settles.run (h : c.Settles pages es ts c') :
    PinRun pages (pinsOf c.inHand) es (pinsOf ts + pinsOf c'.inHand) := by
  obtain ⟨s, rfl, hs⟩ := h
  exact hs.run

theorem pinsOf_kept (h : c.Clean) : pinsOf c.kept = pinsOf c.inHand := by
  have hkept := c.plan.pins_balanced.kept c.state
  rw [show pinsOf (c.plan.pins.setAside c.state) = 0 from h, add_zero] at hkept
  exact hkept

theorem Settles.mono {pages' : PageId → Prop} (h : c.Settles pages es ts c')
    (hpages : ∀ p, pages p → pages' p) : c.Settles pages' es ts c' := by
  obtain ⟨s, hs, h⟩ := h
  exact ⟨s, hs, h.mono hpages⟩

theorem settles_next (h : c.Clean) (db : Storage) :
    c.Settles (· ∈ db.pageIds) (c.nextPins db) (given (c.next db).1) (c.next db).2 :=
  ⟨_, rfl, c.plan.pins_balanced.next db h⟩

theorem settles_rewind (h : c.Clean) : c.Settles noPage c.rewindPins [] c.rewind.2 :=
  ⟨_, rfl, c.plan.pins_balanced.rewind h⟩

theorem settles_cleanUp (h : c.Clean) : c.Settles noPage c.cleanUpPins [] c.cleanUp :=
  ⟨_, rfl, c.plan.pins_balanced.cleanUp h⟩

/-- Nothing that a cursor keeps has a pin after it has been cleaned up. -/
theorem pinsOf_kept_cleanUp (h : c.Clean) : pinsOf c.cleanUp.kept = 0 := by
  have hempty : c.cleanUp.inHand = [] := c.plan.pins_balanced.inHand_cleanUp c.state
  rw [pinsOf_kept (settles_cleanUp h).clean, hempty]
  rfl

theorem settles_control (h : c.Clean) (operation : Control) :
    c.Settles noPage (Session.controlPins c operation) [] (Session.control c operation).2 := by
  cases operation with
  | prepare =>
    obtain ⟨hinHand, hsetAside⟩ := c.plan.pins_balanced.prepare c.config c.state
    refine ⟨_, rfl, (congrArg pinsOf hsetAside).trans h, ?_⟩
    rw [hinHand, pinsOf_nil, zero_add]
    exact .nil _
  | rewind => exact settles_rewind h
  | cleanUp => exact settles_cleanUp h
  | mark => exact ⟨_, rfl, c.plan.pins_balanced.mark h⟩
  | reset => exact ⟨_, rfl, c.plan.pins_balanced.reset h⟩

theorem settles_drainFor (db : Storage) (fuel : Nat) (h : c.Clean) :
    c.Settles (· ∈ db.pageIds) (drainPinsFor db fuel c) [] (drainFor db fuel c).2.2 := by
  induction fuel generalizing c with
  | zero => exact ⟨c.state, rfl, .refl h⟩
  | succ fuel ih =>
    obtain ⟨s, hs, hnext⟩ := settles_next h db
    rw [drainPinsFor, drainFor]
    generalize c.next db = x at hs hnext ⊢
    rcases x with ⟨e | _ | t, c₁⟩
    · rw [List.append_nil]
      exact ⟨s, hs, hnext⟩
    · rw [List.append_nil]
      exact ⟨s, hs, hnext⟩
    · obtain rfl : c₁ = c.setState s := hs
      obtain ⟨s₂, hs₂, hrest⟩ := ih (c := c.setState s) hnext.clean
      have hall := hnext.drop.trans hrest
      rw [List.append_assoc] at hall
      exact ⟨s₂, hs₂, hall⟩

theorem settles_drain (h : c.Clean) (db : Storage) :
    c.Settles (· ∈ db.pageIds) (c.drainPins db) [] (c.drain db).2.2 := settles_drainFor db _ h

theorem settles_collect (h : c.Clean) (db : Storage) :
    c.Settles (· ∈ db.pageIds) (c.collectPins db) [] (c.collect db).2 := by
  have hnone : ∀ p, noPage p → p ∈ db.pageIds := fun _ hp => hp.elim
  obtain ⟨s, hs, hrewind⟩ := settles_rewind h
  rw [collectPins, collect]
  generalize c.rewind = x at hs ⊢
  rcases x with ⟨e | _, c₁⟩
  · rw [List.append_nil]
    exact ⟨s, hs, hrewind.mono hnone⟩
  · obtain rfl : c₁ = c.setState s := hs
    obtain ⟨s₂, hs₂, hdrain⟩ := settles_drain (c := c.setState s) hrewind.clean db
    have hsofar := (hrewind.mono hnone).trans hdrain
    dsimp only
    generalize (c.setState s).drain db = y at hs₂ ⊢
    rcases y with ⟨ts, e | _, c₂⟩
    · rw [List.append_nil]
      exact ⟨s₂, hs₂, hsofar⟩
    · obtain rfl : c₂ = c.setState s₂ := hs₂
      have hclean : (c.setState s₂).Clean := hsofar.clean
      obtain ⟨s₃, hs₃, hcleanUp⟩ := settles_cleanUp hclean
      have hall := hsofar.trans (hcleanUp.mono hnone)
      rw [List.append_assoc] at hall
      exact ⟨s₃, hs₃, hall⟩

theorem ofPlan_empty (p : Plan) (config : Config) :
    (ofPlan p config).inHand = [] ∧ (ofPlan p config).setAside = [] := p.pins_balanced.start

theorem prepared_empty {p : Plan} {config : Config} (h : prepared p config = .ok c) :
    c.inHand = [] ∧ c.setAside = [] := by
  obtain ⟨s, hs, rfl⟩ := prepared_ok h
  obtain ⟨hinHand, hsetAside⟩ := p.pins_balanced.prepare config p.operator.start
  rw [hs] at hinHand hsetAside
  exact ⟨hinHand.trans p.pins_balanced.start.1, hsetAside.trans p.pins_balanced.start.2⟩

end Cursor

end RelQuery
