import PinUart.Answer

/-! The operations on a machine that no port takes part in: the work of whoever
wires the board up, drives its lines and handles slots directly. -/
namespace PinUart.Machine

inductive Operation
  | connect (one other : Pin)
  | inject (pin : Pin) (level : Option Bool)
  | forceMessage (pin : Pin) (data : List UInt8) (bitPeriod : UInt32) (invert : Bool)
  | advance (cycles : UInt32)
  | setDirection (pin : Pin) (direction : Direction)
  | setPull (pin : Pin) (pull : Pull)
  | setOutput (pin : Pin) (high : Bool)
  | level (pin : Pin)
  | readClock
  | rate
  | sleep (micros : UInt32)
  | mask
  | unmask
  | isMasked
  | isUsable (pin : Pin)
  | attach (pin : Pin) (handler : Handler)
  | detach (pin : Pin)
  | hasHandler (pin : Pin)
  | direction (pin : Pin)
  | transitions (pin : Pin)
  | forgetTransitions
  | queueFault (fault : Fault)
  | claim (sink : Sink)
  | release (slot : Nat)
  | dispatch (slot : Nat)
  | entry (slot : Nat)
  | attachSlot (pin : Pin) (slot : Nat)
  | isBound (slot : Nat)
  | slotTally
  deriving DecidableEq, Repr

/-- Drives a line from outside through a plan, and leaves it at the last level. -/
def forceHolds (machine : Machine) (pin : Pin) (holds : List Hold) : Machine :=
  holds.foldl (fun machine hold => (machine.inject pin (some hold.high)).advance hold.cycles)
    machine

/-- Attaches a handler and answers how that went. -/
def attachAnswering (machine : Machine) (pin : Pin) (handler : Handler) : Answer × Machine :=
  match machine.attach pin handler with
  | (.ok (), machine) => (.done, machine)
  | (.error fault, machine) => (.failed (.hardware fault), machine)

/-- Claims a slot and answers its number. -/
def claimAnswering (machine : Machine) (sink : Sink) : Answer × Machine :=
  match machine.claim sink with
  | (.ok slot, machine) => (.count slot.val, machine)
  | (.error failure, machine) => (.failed failure, machine)

/-- Carries one operation out. Slots that the table does not have are passed over. -/
def perform (machine : Machine) : Operation → Answer × Machine
  | .connect one other => (.nothing, machine.connect one other)
  | .inject pin level => (.nothing, machine.inject pin level)
  | .forceMessage pin data bitPeriod invert =>
    (.nothing, machine.forceHolds pin (Plan.ofData data bitPeriod invert).holds)
  | .advance cycles => (.nothing, machine.advance cycles)
  | .setDirection pin direction => (.nothing, machine.setDirection pin direction)
  | .setPull pin pull => (.nothing, machine.setPull pin pull)
  | .setOutput pin high => (.nothing, machine.setOutput pin high)
  | .level pin => (.flag (machine.board.level pin), machine)
  | .readClock =>
    let (now, machine) := machine.readClock
    (.count now.toNat, machine)
  | .rate => (.count machine.rate.toNat, machine)
  | .sleep micros => (.nothing, machine.sleep micros)
  | .mask => (.nothing, machine.mask)
  | .unmask => (.nothing, machine.unmask)
  | .isMasked => (.flag machine.board.masked, machine)
  | .isUsable pin => (.flag (machine.board.isUsable pin), machine)
  | .attach pin handler => machine.attachAnswering pin handler
  | .detach pin => (.nothing, machine.detach pin)
  | .hasHandler pin => (.flag (machine.board.handler? pin).isSome, machine)
  | .direction pin => (.direction (machine.board.direction pin), machine)
  | .transitions pin => (.transitions (machine.board.transitions pin), machine)
  | .forgetTransitions =>
    (.nothing, { machine with board := machine.board.forgetTransitions })
  | .queueFault fault => (.nothing, { machine with faults := machine.faults ++ [fault] })
  | .claim sink => machine.claimAnswering sink
  | .release slot =>
    (.nothing, match slotIndex? slot with
      | none => machine
      | some slot => machine.release slot)
  | .dispatch slot =>
    (.nothing, match slotIndex? slot with
      | none => machine
      | some slot => machine.dispatch slot)
  | .entry slot =>
    match slotIndex? slot with
    | none => (.flag false, machine)
    | some slot => (.flag true, machine.enter (.entry slot))
  | .attachSlot pin slot =>
    match slotIndex? slot with
    | none => (.nothing, machine)
    | some slot => machine.attachAnswering pin (.entry slot)
  | .isBound slot => (.flag ((slotIndex? slot).any machine.slots.isBound), machine)
  | .slotTally => (.slotTally machine.slots.freeCount slotCount, machine)

end PinUart.Machine
