import PinUart.Port.Line

/-! The sending side of a port. A one-wire port turns to sending for the time of
the message, and an external driver is switched on around it. -/
namespace PinUart.Port

/-- Turns the line; a fault is only logged, since the message has gone out. -/
def turnLineOrWarn (port : Port) (machine : Machine) (transmit : Bool) : Port × Machine :=
  match port.turnLine machine transmit with
  | (.ok (), port, machine) => (port, machine)
  | (.error failure, port, machine) =>
    (port, machine.write .warn s!"Line direction switch failed: {failure.message}")

/-- Switches the external line driver, if there is one. -/
def setEnable (port : Port) (machine : Machine) (on : Bool) : Machine :=
  match port.enablePin with
  | none => machine
  | some pin => machine.setLine pin on port.transmitter.drive

/-- Sends a message with the line already turned. -/
def sendOn (port : Port) (machine : Machine) (pin : Pin) (data : List UInt8) : Nat × Machine :=
  let (sent, machine) := port.transmitter.send (port.setEnable machine true) pin data
  (sent, port.setEnable machine false)

/-- Sends a message and returns when its last stop bit is out. Answers the number
of bytes sent: all, or none from a port that is stopped or cannot send. -/
def write (port : Port) (machine : Machine) (data : List UInt8) : Nat × Port × Machine :=
  let (port, machine) := port.collect machine
  match port.txPin with
  | none => (0, port, machine)
  | some pin =>
    if !port.started || data.isEmpty then (0, port, machine)
    else if port.config.oneWire && port.mode == .receive then
      let (port, machine) := port.turnLineOrWarn machine true
      let (sent, machine) := port.sendOn machine pin data
      let (port, machine) := port.turnLineOrWarn machine false
      (sent, port, machine)
    else
      let (sent, machine) := port.sendOn machine pin data
      (sent, port, machine)

end PinUart.Port
