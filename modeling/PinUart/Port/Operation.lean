import PinUart.Answer
import PinUart.Port.Lifecycle
import PinUart.Port.Sending

/-! The operations that the owner of a port has, as data, so that runs of a port
can be spoken of. -/
namespace PinUart.Port

inductive Operation
  | start (baud : UInt32)
  | stop
  | setSpeed (baud : UInt32)
  | read
  | peek
  | available
  | drain
  | flush
  | write (data : List UInt8)
  | anyLost
  | takeLosses
  | setCallback (tag : Nat)
  | serve
  | turnLine (on : Bool)
  | setListening (on : Bool)
  | useEnablePin (pin : Pin)
  | setInterruptible (on : Bool)
  | report
  | describe
  deriving DecidableEq, Repr

def answering (result : Except PortError Unit × Port × Machine) : Answer × Port × Machine :=
  (.ofResult result.1, result.2)

def answeringByte (result : Option UInt8 × Port × Machine) : Answer × Port × Machine :=
  (.found (result.1.map UInt8.toNat), result.2)

/-- Carries one operation out. -/
def perform (port : Port) (machine : Machine) : Operation → Answer × Port × Machine
  | .start baud => answering (port.start machine baud)
  | .stop => (.nothing, port.stop machine)
  | .setSpeed baud => answering (port.setSpeed machine baud)
  | .read => answeringByte (port.read machine)
  | .peek => answeringByte (port.peek machine)
  | .available =>
    let (count, result) := port.available machine
    (.count count, result)
  | .drain =>
    let (data, result) := port.drain machine
    (.bytes data, result)
  | .flush => (.nothing, port.flush machine)
  | .write data =>
    let (sent, result) := port.write machine data
    (.count sent, result)
  | .anyLost =>
    let (lost, result) := port.anyLost machine
    (.flag lost, result)
  | .takeLosses =>
    let (losses, result) := port.takeLosses machine
    (.losses losses, result)
  | .setCallback tag => (.nothing, port.setCallback tag, machine)
  | .serve => (.nothing, port.serve machine)
  | .turnLine on => answering (port.turnLine machine on)
  | .setListening on => answering (port.setListening machine on)
  | .useEnablePin pin => answering (port.useEnablePin machine pin)
  | .setInterruptible on => (.nothing, port.setInterruptible on, machine)
  | .report => (.port (port.speed machine) port.enablePin port.config, port, machine)
  | .describe => (.text port.describe, port, machine)

end PinUart.Port
