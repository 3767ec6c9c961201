import PinUart.Port.Line

/-! Making, starting and stopping a port. A running port with a receive pin holds
a slot of the interrupt table. -/
namespace PinUart.Port

/-- Reserves the receive buffers for a pin. A refusal is logged, and answers the
size that was refused. -/
def reserveBuffers (machine : Machine) (config : Config) (pin : Pin) :
    Except UInt64 Reception × Machine :=
  match EdgeQueue.reserve config.edgeSlots with
  | .error refusal =>
    (.error config.edgeSlots, machine.write .warn
      s!"Cannot reserve {config.edgeSlots} edge slots: {refusal.message}")
  | .ok queue =>
    match ByteRing.reserve config.byteCapacity with
    | .error refusal =>
      (.error config.byteCapacity, machine.write .warn
        s!"Cannot reserve {config.byteCapacity} byte slots: {refusal.message}")
    | .ok bytes =>
      let (capture, machine) := machine.addCapture pin queue
      (.ok { capture, bytes }, machine)

/-- The pins of a configuration that can be used: receive pin and send pin. -/
def usablePins (machine : Machine) (config : Config) : Option Pin × Option Pin :=
  (config.rxPin.filter machine.board.isUsable, config.txPin.filter machine.board.isUsable)

def noteUnusablePins (machine : Machine) (config : Config) : Machine :=
  if usablePins machine config = (config.rxPin, config.txPin) then machine
  else machine.write .warn
    s!"Ignoring invalid pin(s): rx {pinText config.rxPin}, tx {pinText config.txPin}"

/-- The receive side of a new port: its buffers, or the size that was refused. -/
def openReception (machine : Machine) (config : Config) :
    Option Reception × Option UInt64 × Machine :=
  match (usablePins machine config).1 with
  | none => (none, none, machine)
  | some pin =>
    match reserveBuffers machine config pin with
    | (.ok reception, machine) => (some reception, none, machine)
    | (.error requested, machine) => (none, some requested, machine)

/-- A stopped port. The board's pins stay as they are until it is started. -/
def create (machine : Machine) (config : Config) : Port × Machine :=
  let (rxPin, txPin) := usablePins machine config
  let (reception, refused, machine) := openReception (noteUnusablePins machine config) config
  let bitPeriod := max (machine.rate / max config.baud 1) 1
  ({ config, rxPin, txPin, reception, refused
     decoder := .create bitPeriod config.invert
     transmitter :=
      { bitPeriod
        invert := config.invert
        drive := config.drive
        interruptible := config.interruptible }
     throttle := .create warningWindow warningCap machine.uptime },
    machine)

/-- Gives the slot back, if there is one. -/
def giveSlotBack (port : Port) (machine : Machine) : Port × Machine :=
  match port.slot with
  | none => (port, machine)
  | some slot => ({ port with slot := none }, machine.release slot)

/-- Sets up the driver-enable pin of the configuration, if that is still to do. -/
def startEnablePin (port : Port) (machine : Machine) :
    Except PortError Unit × Port × Machine :=
  match port.enablePin, port.config.enablePin with
  | none, some pin => port.useEnablePin machine pin
  | _, _ => (.ok (), port, machine)

/-- Claims a slot for a port that receives and has none. -/
def startSlot (port : Port) (machine : Machine) :
    Except PortError Unit × Port × Machine :=
  match port.slot, port.reception with
  | none, some reception =>
    match machine.claim (.capture reception.capture) with
    | (.error failure, machine) => (.error failure, port, machine)
    | (.ok slot, machine) => (.ok (), { port with slot := some slot }, machine)
  | _, _ => (.ok (), port, machine)

/-- Empties the receive buffers and sets the receive pin up as an input. -/
def startReception (port : Port) (machine : Machine) : Port × Machine :=
  match port.reception, port.rxPin with
  | some reception, some pin =>
    let machine := machine.modifyQueue reception.capture fun queue => queue.discard.takeLost.2
    ({ port with
        reception := some { reception with bytes := reception.bytes.clear }
        mode := .receive },
      (machine.setPull pin .up).setDirection pin .input)
  | _, _ => (port, machine)

/-- Rests the send pin, unless it is shared with the receive pin. -/
def startSending (port : Port) (machine : Machine) : Machine :=
  match port.txPin with
  | none => machine
  | some pin =>
    if port.config.oneWire then machine
    else machine.restLine pin port.transmitter.markLevel port.transmitter.drive

/-- Arms the receive interrupt of a port that does not listen yet. A fault costs
the port its slot. -/
def startListening (port : Port) (machine : Machine) :
    Except PortError Unit × Port × Machine :=
  if port.listening then (.ok (), port, machine)
  else
    match port.setListening machine true with
    | (.ok (), port, machine) => (.ok (), port, machine)
    | (.error failure, port, machine) =>
      let (port, machine) := port.giveSlotBack machine
      (.error failure, port, machine)

def noteStarted (port : Port) (machine : Machine) : Machine :=
  machine.write .info
    (s!"Software serial started at {port.speed machine} baud (rx {pinText port.rxPin}, " ++
      s!"tx {pinText port.txPin}, slot {slotText port.slot})")

/-- Starts the port at a line speed, or starts it anew: buffers are emptied, and a
slot that it already holds stays. -/
def start (port : Port) (machine : Machine) (baud : UInt32) :
    Except PortError Unit × Port × Machine :=
  match periodFor machine baud with
  | .error failure => (.error failure, port, machine)
  | .ok bitPeriod =>
    match port.refused with
    | some requested => (.error (.bufferAllocation requested), port, machine)
    | none =>
      match port.startEnablePin machine with
      | (.error failure, port, machine) => (.error failure, port, machine)
      | (.ok (), port, machine) =>
        match port.startSlot machine with
        | (.error failure, port, machine) => (.error failure, port, machine)
        | (.ok (), port, machine) =>
          let (port, machine) := (port.withSpeed baud bitPeriod).startReception machine
          let (now, machine) := machine.readClock
          let port := { port with losses := {}, decoder := port.decoder.reset now }
          let machine := port.startSending machine
          match port.startListening machine with
          | (.error failure, port, machine) => (.error failure, port, machine)
          | (.ok (), port, machine) =>
            let port := { port with started := true }
            (.ok (), port, port.noteStarted machine)

/-- Stops the port: it no longer listens, and its slot is free. -/
def stop (port : Port) (machine : Machine) : Port × Machine :=
  if !port.started && port.slot.isNone then (port, machine)
  else
    let (_, port, machine) := port.setListening machine false
    let (port, machine) := port.giveSlotBack machine
    ({ port with started := false }, machine.write .info "Software serial stopped")

end PinUart.Port
