import PinUart.Machine.Operation

/-! A tap is a capture that no port stands behind: whoever opened it takes the edges
out by hand. -/
namespace PinUart

/-- What can be done with a tap. -/
inductive Tap.Operation
  | takeEdge
  | claim
  | pop
  | report
  deriving DecidableEq, Repr

namespace Machine

/-- Takes the oldest edge out of a capture. -/
def popEdge (machine : Machine) (index : Nat) : Option Edge × Machine :=
  match machine.captures[index]? with
  | none => (none, machine)
  | some capture => (capture.queue.pop?.1, machine.modifyQueue index (·.pop?.2))

/-- Reports on a capture, whose loss flag is lowered by that. -/
def captureReport (machine : Machine) (index : Nat) : Answer × Machine :=
  match machine.captures[index]? with
  | none => (.nothing, machine)
  | some capture =>
    let (lost, machine) := machine.takeLost index
    (.capture
      { pin := capture.pin, capacity := capture.queue.capacity
        queued := capture.queue.size, lost },
      machine)

/-- Carries out an operation on the tap that a capture serves. -/
def performTap (machine : Machine) (index : Nat) : Tap.Operation → Answer × Machine
  | .takeEdge => (.nothing, machine.captureEdge index)
  | .claim => machine.claimAnswering (.capture index)
  | .pop =>
    let (edge, machine) := machine.popEdge index
    (.found (edge.map (·.word.toNat)), machine)
  | .report => machine.captureReport index

end Machine
end PinUart
