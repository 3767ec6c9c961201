import PinUart.Port.Reception

/-! Arming of the receive interrupt, the direction of a one-wire line, and the
pin that switches an external line driver on. A one-wire port listens on an
input with a pull-up, or sends on an output that rests at mark, unarmed. -/
namespace PinUart.Port

/-- Arms or disarms the receive interrupt. Arming drops a partial frame; disarming
first decodes what was captured. Without a slot nothing happens. -/
def setListening (port : Port) (machine : Machine) (on : Bool) :
    Except PortError Unit × Port × Machine :=
  match port.rxPin, port.slot with
  | some pin, some slot =>
    if on then
      let (now, machine) := machine.readClock
      let port := { port with decoder := port.decoder.reset now }
      match machine.attach pin (.entry slot) with
      | (.error fault, machine) => (.error (.hardware fault), port, machine)
      | (.ok (), machine) => (.ok (), { port with listening := true }, machine)
    else
      let (port, machine) := port.collect (machine.detach pin)
      (.ok (), { port with listening := false }, machine)
  | _, _ => (.ok (), port, machine)

/-- The shared pin of a one-wire port. -/
def sharedPin? (port : Port) : Option Pin := if port.config.oneWire then port.txPin else none

def noteMode (port : Port) (machine : Machine) (pin : Pin) : Machine :=
  machine.write .debug s!"One-wire pin {pin} switched to {modeText port.mode}"

/-- Turns a one-wire port to sending or back to receiving. The receive interrupt
is disarmed before the pin becomes an output. -/
def turnLine (port : Port) (machine : Machine) (on : Bool) :
    Except PortError Unit × Port × Machine :=
  match port.sharedPin? with
  | none => (.ok (), port, machine)
  | some pin =>
    if on then
      match port.setListening machine false with
      | (.error failure, port, machine) => (.error failure, port, machine)
      | (.ok (), port, machine) =>
        let machine :=
          machine.restLine pin port.transmitter.markLevel port.transmitter.drive
        let port := { port with mode := .transmit }
        (.ok (), port, port.noteMode machine pin)
    else
      let machine := (machine.setPull pin .up).setDirection pin .input
      match { port with mode := .receive }.setListening machine true with
      | (.error failure, port, machine) => (.error failure, port, machine)
      | (.ok (), port, machine) => (.ok (), port, port.noteMode machine pin)

/-- Has `pin` switch an external driver: low at once, high during each message.
A pin that cannot be used leaves the port without such a pin. -/
def useEnablePin (port : Port) (machine : Machine) (pin : Pin) :
    Except PortError Unit × Port × Machine :=
  if machine.board.isUsable pin then
    (.ok (),
      { port with
        enablePin := some pin
        config := { port.config with enablePin := some pin } },
      (machine.restLine pin false port.transmitter.drive).write .debug
        s!"Driver enable on pin {pin}")
  else
    (.error (.invalidPin pin),
      { port with
        enablePin := none
        config := { port.config with enablePin := none } },
      machine)

/-- Chooses whether interrupts stay enabled while bits are timed. -/
def setInterruptible (port : Port) (on : Bool) : Port :=
  { port with
    transmitter := { port.transmitter with interruptible := on }
    config := { port.config with interruptible := on } }

end PinUart.Port
