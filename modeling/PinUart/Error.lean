import PinUart.Board.Pin

/-! What can go wrong with a port, apart from the loss of received data, which
is reported by flags. -/
namespace PinUart

/-- A refusal by the hardware. -/
inductive Fault
  | operation (pin : Pin)
  | attach (pin : Pin) (reason : String)
  deriving DecidableEq, Repr

def Fault.message : Fault → String
  | .operation pin => s!"GPIO operation error on pin {pin}"
  | .attach pin reason => s!"Interrupt attach failed for pin {pin}: {reason}"

inductive PortError
  | noFreeSlot (capacity : Nat)
  | bufferAllocation (requested : UInt64)
  | invalidBaud (baud : UInt32)
  | invalidPin (pin : Pin)
  | hardware (fault : Fault)
  | configuration (reason : String)
  deriving DecidableEq, Repr

def PortError.message : PortError → String
  | .noFreeSlot capacity => s!"No free interrupt slot (all {capacity} in use)"
  | .bufferAllocation requested => s!"Receive buffer allocation failed ({requested} slots)"
  | .invalidBaud baud => s!"Invalid baud rate: {baud}"
  | .invalidPin pin => s!"Invalid pin: GPIO{pin}"
  | .hardware fault => s!"HAL error: {fault.message}"
  | .configuration reason => s!"Configuration error: {reason}"

end PinUart
