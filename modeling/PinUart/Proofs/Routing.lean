import Mathlib.Logic.Relation
import PinUart.Proofs.Quiet

/-! Where interrupts lead. On a routed machine, every handler that can be entered is the
entry of a bound slot. It stays routed as long as the slot table and the handlers change
by guarded steps only. -/
namespace PinUart.Machine

/-- Every handler that can be entered for a pin leads to a capture of that pin. -/
def Routed (machine : Machine) : Prop :=
  ∀ pin handler, machine.board.Reaches pin handler →
    ∃ slot index, handler = .entry slot ∧ machine.slots.sink? slot = some (.capture index) ∧
      machine.capturePin? index = some pin

/-- No pin leads to a slot. -/
def Unheard (machine : Machine) (slot : SlotIndex) : Prop :=
  ∀ pin, ¬ machine.board.Reaches pin (.entry slot)

/-- What the owner of a capture may do, or whoever owns none. A handler goes to a slot
that is bound to the owner's capture, and only to its pin; a slot is released by its
owner, once nothing leads to it. -/
inductive Step : Option Nat → Machine → Machine → Prop
  | quiet {owner : Option Nat} {before after : Machine} (calm : before.Quiet after) :
      Step owner before after
  | claim {index : Nat} {slot : SlotIndex} {slots : Slots} {machine : Machine}
      (found : machine.slots.claim? (.capture index) = some (slot, slots)) :
      Step (some index) machine { machine with slots }
  | release {index : Nat} {slot : SlotIndex} {machine : Machine}
      (bound : machine.slots.sink? slot = some (.capture index))
      (unheard : machine.Unheard slot) :
      Step (some index) machine { machine with slots := machine.slots.release slot }
  | attach {index : Nat} {slot : SlotIndex} {pin : Pin} {machine : Machine}
      (bound : machine.slots.sink? slot = some (.capture index))
      (placed : machine.capturePin? index = some pin) :
      Step (some index) machine
        { machine with board := machine.board.attach pin (.entry slot) }
  | detach {owner : Option Nat} (machine : Machine) (pin : Pin) :
      Step owner machine (machine.detach pin)

/-- Any number of steps of one owner. -/
abbrev Steps (owner : Option Nat) : Machine → Machine → Prop :=
  Relation.ReflTransGen (Step owner)

variable {owner : Option Nat} {before after : Machine}

theorem reaches_attach {machine : Machine} {pin other : Pin} {handler entered : Handler}
    (found : (machine.board.attach pin handler).Reaches other entered) :
    (other = pin ∧ entered = handler) ∨ machine.board.Reaches other entered := by
  rcases found with attached | pending
  · unfold Board.handler? Board.attach at attached
    rw [PinMap.get_modify] at attached
    split at attached
    · rename_i same
      exact .inl ⟨same.symm, (Option.some.inj attached).symm⟩
    · exact .inr (.inl attached)
  · exact .inr (.inr pending)

/-- A pin that was detached leads nowhere, and the others as before. -/
theorem reaches_detach {machine : Machine} {pin other : Pin} {handler : Handler}
    (found : (machine.detach pin).board.Reaches other handler) :
    other ≠ pin ∧ machine.board.Reaches other handler := by
  rcases found with attached | pending
  · unfold Board.handler? detach Board.detach at attached
    rw [PinMap.get_modify] at attached
    split at attached
    · cases attached
    · rename_i different
      exact ⟨fun same => different same.symm, .inl attached⟩
  · obtain ⟨member, kept⟩ := List.mem_filter.mp pending
    exact ⟨by simpa using kept, .inr member⟩

/-- A slot that was claimed was free, and holds the sink from then on. -/
theorem sink?_claim {slots claimed : Slots} {slot : SlotIndex} {sink : Sink}
    (found : slots.claim? sink = some (slot, claimed)) :
    slots.sink? slot = none ∧
      ∀ other, claimed.sink? other = if slot = other then some sink else slots.sink? other := by
  obtain ⟨free, lowest, same⟩ := Option.map_eq_some_iff.mp found
  obtain ⟨rfl, rfl⟩ := Prod.mk.inj same
  have := (Slots.free?_eq_some lowest).1
  refine ⟨by simpa [Slots.isBound] using this, ?_⟩
  exact fun other => slots.sink?_set free other (some sink)

theorem Step.pins (step : Step owner before after) {index : Nat} {pin : Pin}
    (found : before.capturePin? index = some pin) : after.capturePin? index = some pin := by
  cases step with
  | quiet calm => exact calm.pins index pin found
  | claim | release | attach | detach => exact found

/-- Bindings to what the owner does not own stay as they are. -/
theorem Step.sink? (step : Step owner before after) {sink : Sink} (slot : SlotIndex)
    (foreign : ∀ index, owner = some index → sink ≠ .capture index) :
    after.slots.sink? slot = some sink ↔ before.slots.sink? slot = some sink := by
  cases step with
  | quiet calm => rw [calm.slots]
  | attach | detach => exact Iff.rfl
  | claim found =>
    obtain ⟨free, bound⟩ := sink?_claim found
    rw [bound]
    split
    · rename_i same
      rw [← same, free]
      simpa using fun mine => foreign _ rfl mine.symm
    · exact Iff.rfl
  | release bound unheard =>
    rw [Slots.release, Slots.sink?_set]
    split
    · rename_i same
      rw [← same, bound]
      simpa using fun mine => foreign _ rfl mine.symm
    · exact Iff.rfl

/-- Only slots that are bound to the owner's capture come to be led to. -/
theorem Step.unheard (step : Step owner before after) {sink : Sink} {slot : SlotIndex}
    (bound : before.slots.sink? slot = some sink)
    (foreign : ∀ index, owner = some index → sink ≠ .capture index)
    (unheard : before.Unheard slot) : after.Unheard slot := by
  intro pin entered
  refine unheard pin ?_
  cases step with
  | quiet calm => exact calm.calm.reaches entered
  | claim | release => exact entered
  | detach => exact (reaches_detach entered).2
  | attach mine placed =>
    rcases reaches_attach entered with ⟨-, same⟩ | old
    · cases same
      rw [mine] at bound
      exact absurd (Option.some.inj bound).symm (foreign _ rfl)
    · exact old

/-- Each step keeps a machine routed. -/
theorem Step.routed (step : Step owner before after) (routed : before.Routed) :
    after.Routed := by
  intro pin handler entered
  cases step with
  | quiet calm =>
    obtain ⟨slot, index, same, bound, placed⟩ := routed pin handler (calm.calm.reaches entered)
    exact ⟨slot, index, same, calm.slots ▸ bound, calm.pins index pin placed⟩
  | claim found =>
    obtain ⟨slot, index, same, bound, placed⟩ := routed pin handler entered
    refine ⟨slot, index, same, ?_, placed⟩
    obtain ⟨free, lookup⟩ := sink?_claim found
    rw [lookup, if_neg]
    · exact bound
    · rintro rfl
      cases free.symm.trans bound
  | release mine unheard =>
    obtain ⟨slot, index, same, bound, placed⟩ := routed pin handler entered
    refine ⟨slot, index, same, ?_, placed⟩
    rw [Slots.release, Slots.sink?_set, if_neg]
    · exact bound
    · rintro rfl
      exact unheard pin (same ▸ entered)
  | attach mine placed =>
    rcases reaches_attach entered with ⟨rfl, rfl⟩ | old
    · exact ⟨_, _, rfl, mine, placed⟩
    · exact routed pin handler old
  | detach => exact routed pin handler (reaches_detach entered).2

theorem Steps.routed (steps : Steps owner before after) (routed : before.Routed) :
    after.Routed := by
  induction steps with
  | refl => exact routed
  | tail _ step ih => exact step.routed ih

theorem Steps.pins (steps : Steps owner before after) {index : Nat} {pin : Pin}
    (found : before.capturePin? index = some pin) : after.capturePin? index = some pin := by
  induction steps with
  | refl => exact found
  | tail _ step ih => exact step.pins ih

theorem Steps.sink? (steps : Steps owner before after) {sink : Sink} (slot : SlotIndex)
    (foreign : ∀ index, owner = some index → sink ≠ .capture index) :
    after.slots.sink? slot = some sink ↔ before.slots.sink? slot = some sink := by
  induction steps with
  | refl => exact Iff.rfl
  | tail _ step ih => exact (step.sink? slot foreign).trans ih

theorem Steps.unheard (steps : Steps owner before after) {sink : Sink} {slot : SlotIndex}
    (bound : before.slots.sink? slot = some sink)
    (foreign : ∀ index, owner = some index → sink ≠ .capture index)
    (unheard : before.Unheard slot) : after.Unheard slot := by
  induction steps with
  | refl => exact unheard
  | tail earlier step ih =>
    exact step.unheard ((Steps.sink? earlier slot foreign).mpr bound) foreign ih

theorem Steps.of_quiet (calm : before.Quiet after) : Steps owner before after :=
  .single (.quiet calm)

end PinUart.Machine
