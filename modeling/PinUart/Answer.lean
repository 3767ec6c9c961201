import PinUart.Port

/-! What the operations on a world answer. -/
namespace PinUart

/-- What can be seen of a capture from outside. -/
structure CaptureReport where
  pin : Pin
  capacity : Nat
  queued : Nat
  lost : Bool
  deriving DecidableEq, Repr

inductive Answer
  | nothing
  | flag (value : Bool)
  | count (value : Nat)
  | found (value : Option Nat)
  | bytes (data : List UInt8)
  | text (value : String)
  | direction (value : Direction)
  | transitions (items : List Transition)
  | holds (items : List Hold)
  | losses (value : Losses)
  | slotTally (free total : Nat)
  | capture (report : CaptureReport)
  | transmitter (value : Transmitter)
  | port (speed : UInt32) (enablePin : Option Pin) (config : Config)
  | done
  | refused
  | failed (error : PortError)
  deriving DecidableEq, Repr

/-- A result without a value is answered by success or by its error. -/
def Answer.ofResult : Except PortError Unit → Answer
  | .ok () => .done
  | .error failure => .failed failure

end PinUart
