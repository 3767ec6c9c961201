import PinUart.Proofs.Rig
import PinUart.World

/-! The role of a pin on its line: which way it goes, and what is attached to it. Few operations
of a machine change it, and only for the pin that they name. -/
namespace PinUart

/-- What makes a pin a line: which way it goes, and who hears of its edges. -/
structure PinRole where
  direction : Direction
  handler : Option Handler

namespace Rig

variable {rig : Rig} {pin : Pin}

def role (rig : Rig) (pin : Pin) : PinRole :=
  ⟨(rig.pins.get pin).direction, (rig.pins.get pin).handler⟩

theorem role_of_pins {other : Rig} (pins : other.pins = rig.pins) (pin : Pin) :
    other.role pin = rig.role pin := by
  unfold role
  rw [pins]

theorem role_of_get {other : Rig} (same : other.pins.get pin = rig.pins.get pin) :
    other.role pin = rig.role pin := by
  unfold role
  rw [same]

theorem role_modify (act : PinState → PinState) :
    (rig.modify pin act).role pin =
      ⟨(act (rig.pins.get pin)).direction, (act (rig.pins.get pin)).handler⟩ := by
  have found : (rig.modify pin act).pins.get pin = act (rig.pins.get pin) :=
    PinMap.get_modify_self ..
  unfold role
  rw [found]

theorem role_modify_of_ne {other : Pin} (different : other ≠ pin) (act : PinState → PinState) :
    (rig.modify other act).role pin = rig.role pin :=
  role_of_get (PinMap.get_modify_of_ne different ..)

theorem role_modify_of_keeps (pin other : Pin) {act : PinState → PinState}
    (keeps : ∀ state, (act state).direction = state.direction ∧
      (act state).handler = state.handler) :
    (rig.modify other act).role pin = rig.role pin := by
  by_cases same : other = pin
  · subst same
    obtain ⟨direction, handler⟩ := keeps (rig.pins.get other)
    rw [role_modify, direction, handler]
    rfl
  · exact role_modify_of_ne same act

end Rig

namespace Drive

/-- The direction of a pin that is ready for sending. -/
def bearing (drive : Drive) (high : Bool) : Direction :=
  match drive with
  | .pushPull => .output
  | .pullUpRelease => if high then .input else .output

theorem rest_role (drive : Drive) (high : Bool) (state : PinState) :
    (drive.rest high state).direction = drive.bearing high ∧
      (drive.rest high state).handler = state.handler := by
  cases drive <;> exact ⟨rfl, rfl⟩

/-- A pin that is ready for sending at a level stays so at that level. -/
theorem turn_role {drive : Drive} {high : Bool} {state : PinState}
    (ready : state.direction = drive.bearing high) :
    (drive.turn high state).direction = drive.bearing high ∧
      (drive.turn high state).handler = state.handler := by
  cases drive with
  | pushPull => exact ⟨ready, rfl⟩
  | pullUpRelease => exact ⟨rfl, rfl⟩

end Drive

namespace Machine

/-- Operations that neither turn a pin nor attach or detach a handler there. -/
def Operation.sparesPin (pin : Pin) : Operation → Bool
  | .setDirection other _ | .attach other _ | .detach other | .attachSlot other _ => other != pin
  | _ => true

variable (machine : Machine)

theorem role_connect (one other pin : Pin) :
    (machine.connect one other).rig.role pin = machine.rig.role pin :=
  Rig.role_of_pins (congrArg Rig.pins (machine.rig_connect one other)) pin

theorem role_forceHolds (pin other : Pin) (holds : List Hold) :
    (machine.forceHolds other holds).rig.role pin = machine.rig.role pin := by
  induction holds generalizing machine with
  | nil => rfl
  | cons hold holds ih =>
    refine (ih _).trans ?_
    change (machine.inject other (some hold.high)).rig.role pin = _
    rw [rig_inject]
    exact Rig.role_modify_of_keeps pin other fun _ => ⟨rfl, rfl⟩

theorem role_attachAnswering {pin other : Pin} (different : other ≠ pin) (handler : Handler) :
    (machine.attachAnswering other handler).2.rig.role pin = machine.rig.role pin := by
  unfold attachAnswering
  split
  · rename_i granted
    rw [rig_attach granted]
    exact Rig.role_modify_of_ne different _
  · rename_i failed
    exact Rig.role_of_pins (rig_attach_error failed).1 pin

theorem rig_claimAnswering (sink : Sink) :
    ∃ slots, (machine.claimAnswering sink).2.rig = { machine.rig with slots } := by
  unfold claimAnswering claim
  cases machine.slots.claim? sink with
  | none => exact ⟨_, rfl⟩
  | some claimed => exact ⟨_, rfl⟩

theorem rig_release (slot : SlotIndex) :
    ∃ slots, (machine.release slot).rig = { machine.rig with slots } := by
  unfold release
  split
  · exact ⟨_, rfl⟩
  · exact ⟨_, rfl⟩

/-- Pins change their role only when they are turned, attached to or detached. -/
theorem role_perform {pin : Pin} {operation : Operation} (spares : operation.sparesPin pin) :
    (machine.perform operation).2.rig.role pin = machine.rig.role pin := by
  cases operation with
  | connect one other => exact machine.role_connect one other pin
  | inject other level =>
    change (machine.inject other level).rig.role pin = _
    rw [rig_inject]
    exact Rig.role_modify_of_keeps pin other fun _ => ⟨rfl, rfl⟩
  | forceMessage other data bitPeriod invert => exact machine.role_forceHolds pin other _
  | setDirection other direction =>
    change (machine.setDirection other direction).rig.role pin = _
    rw [rig_setDirection]
    exact Rig.role_modify_of_ne (bne_iff_ne.mp spares) _
  | setPull other pull =>
    change (machine.setPull other pull).rig.role pin = _
    rw [rig_setPull]
    exact Rig.role_modify_of_keeps pin other fun _ => ⟨rfl, rfl⟩
  | setOutput other high =>
    change (machine.setOutput other high).rig.role pin = _
    rw [rig_setOutput]
    exact Rig.role_modify_of_keeps pin other fun _ => ⟨rfl, rfl⟩
  | unmask => exact congrArg (Rig.role · pin) machine.rig_unmask
  | attach other handler => exact machine.role_attachAnswering (bne_iff_ne.mp spares) handler
  | detach other =>
    have detached : (machine.detach other).rig =
        machine.rig.modify other ({ · with handler := none }) := rfl
    change (machine.detach other).rig.role pin = _
    rw [detached]
    exact Rig.role_modify_of_ne (bne_iff_ne.mp spares) _
  | attachSlot other slot =>
    unfold perform
    dsimp only
    split
    · rfl
    · exact machine.role_attachAnswering (bne_iff_ne.mp spares) _
  | claim sink =>
    obtain ⟨slots, claimed⟩ := machine.rig_claimAnswering sink
    exact Rig.role_of_pins (congrArg Rig.pins claimed) pin
  | release slot =>
    unfold perform
    dsimp only
    split
    · rfl
    · rename_i slot _
      obtain ⟨slots, released⟩ := machine.rig_release slot
      exact Rig.role_of_pins (congrArg Rig.pins released) pin
  | dispatch slot | entry slot =>
    unfold perform
    dsimp only
    split
    · rfl
    · exact congrArg (Rig.role · pin) (machine.rig_enter (.entry _))
  | advance | level | readClock | rate | sleep | mask | isMasked | isUsable | hasHandler
  | direction | transitions | forgetTransitions | queueFault | isBound | slotTally => rfl

/-- What is done with a tap changes nothing of the rig but the slot table. -/
theorem rig_performTap (index : Nat) (operation : Tap.Operation) :
    ∃ slots, (machine.performTap index operation).2.rig = { machine.rig with slots } := by
  cases operation with
  | takeEdge => exact ⟨_, machine.rig_captureEdge index⟩
  | claim => exact machine.rig_claimAnswering _
  | pop =>
    refine ⟨machine.slots, ?_⟩
    unfold performTap popEdge
    dsimp only
    split <;> rfl
  | report =>
    refine ⟨machine.slots, ?_⟩
    unfold performTap captureReport
    dsimp only
    split
    · rfl
    · exact machine.rig_takeLost index

theorem role_performTap (pin : Pin) (index : Nat) (operation : Tap.Operation) :
    (machine.performTap index operation).2.rig.role pin = machine.rig.role pin := by
  obtain ⟨slots, performed⟩ := machine.rig_performTap index operation
  exact Rig.role_of_pins (congrArg Rig.pins performed) pin

end Machine
end PinUart
