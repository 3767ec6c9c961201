import PinUart.Port

/-! The receiving side of a port, as seen by its owner. Every question first
takes in what the interrupt has captured. -/
namespace PinUart.Port

/-- Logs a warning of lost data, unless there were too many of late. -/
def warn (port : Port) (machine : Machine) (text : String) : Port × Machine :=
  let (throttle, lines) := port.throttle.warn machine.uptime text
  ({ port with throttle }, { machine with log := machine.log ++ lines })

/-- Notes that captured edges found no room, if the capture says so. -/
def noteLostEdges (port : Port) (machine : Machine) (capture : Nat) : Port × Machine :=
  match machine.takeLost capture with
  | (false, machine) => (port, machine)
  | (true, machine) =>
    { port with losses := { port.losses with edge := true } }.warn machine
      "Edge capture ring overflow, edges lost"

/-- Notes that decoded bytes found no room. -/
def noteDroppedBytes (port : Port) (machine : Machine) (dropped : Nat) : Port × Machine :=
  if dropped = 0 then (port, machine)
  else
    { port with losses := { port.losses with byte := true } }.warn machine
      s!"Receive buffer full, {dropped} byte(s) dropped"

/-- Decodes all captured edges, and the stop bit that owes its edge by now. -/
def collect (port : Port) (machine : Machine) : Port × Machine :=
  match port.reception with
  | none => (port, machine)
  | some reception =>
    let (port, machine) := port.noteLostEdges machine reception.capture
    let edges := machine.queued reception.capture
    let machine := machine.modifyQueue reception.capture EdgeQueue.discard
    let (refused, decoder, bytes) := port.decoder.decodeAll reception.bytes edges
    let (now, machine) := machine.readClock
    let (late, decoder, bytes) := decoder.poll now bytes
    { port with decoder, reception := some { reception with bytes } }.noteDroppedBytes machine
      (refused + late)

/-- Microseconds to let pass when nothing is there to read. -/
def patienceMicros (port : Port) (machine : Machine) : UInt32 :=
  let cycles := min (patience.toNat * port.decoder.bitPeriod.toNat) 0xffffffff
  UInt32.ofNat cycles / machine.perMicrosecond

/-- The number of bytes to read. If there are none, waits for about the time of
two frames and looks once more. -/
def available (port : Port) (machine : Machine) : Nat × Port × Machine :=
  if port.reception.isNone then (0, port, machine)
  else
    let (port, machine) := port.collect machine
    if port.buffered = 0 then
      let (port, machine) := port.collect (machine.sleep (port.patienceMicros machine))
      (port.buffered, port, machine)
    else (port.buffered, port, machine)

/-- Takes the oldest byte out of the byte ring. -/
def takeByte (port : Port) : Option UInt8 × Port :=
  match port.reception with
  | none => (none, port)
  | some reception =>
    let (byte, bytes) := reception.bytes.pop?
    (byte, { port with reception := some { reception with bytes } })

/-- Takes the oldest byte; looks for new edges only if none is buffered. -/
def read (port : Port) (machine : Machine) : Option UInt8 × Port × Machine :=
  let (port, machine) := if port.buffered = 0 then port.collect machine else (port, machine)
  let (byte, port) := port.takeByte
  (byte, port, machine)

/-- The oldest byte, which stays. -/
def peek (port : Port) (machine : Machine) : Option UInt8 × Port × Machine :=
  let (port, machine) := port.collect machine
  (port.reception.bind (·.bytes.peek?), port, machine)

/-- Reads while bytes are available, at most `fuel` times. -/
def drainWith (port : Port) (machine : Machine) : (fuel : Nat) → List UInt8 × Port × Machine
  | 0 => ([], port, machine)
  | fuel + 1 =>
    let (count, port, machine) := port.available machine
    if count = 0 then ([], port, machine)
    else
      let (byte, port, machine) := port.read machine
      let (bytes, port, machine) := port.drainWith machine fuel
      (byte.toList ++ bytes, port, machine)

/-- More polls than draining the port can take: each buffered byte, each queued
edge and an open frame stand for at most one byte, and the last poll finds none. -/
def drainBound (port : Port) (machine : Machine) : Nat :=
  match port.reception with
  | none => 1
  | some reception => reception.bytes.size + (machine.queued reception.capture).length + 2

/-- Reads until nothing is available. -/
def drain (port : Port) (machine : Machine) : List UInt8 × Port × Machine :=
  port.drainWith machine (port.drainBound machine)

/-- Drops all received data, captured edges and a partial frame. -/
def flush (port : Port) (machine : Machine) : Port × Machine :=
  let (port, machine) :=
    match port.reception with
    | none => (port, machine)
    | some reception =>
      ({ port with reception := some { reception with bytes := reception.bytes.clear } },
        machine.modifyQueue reception.capture EdgeQueue.discard)
  let (now, machine) := machine.readClock
  ({ port with decoder := port.decoder.reset now }, machine)

/-- The kinds of loss since the last question, which start over. -/
def takeLosses (port : Port) (machine : Machine) : Losses × Port × Machine :=
  let (lost, machine) :=
    match port.reception with
    | none => (false, machine)
    | some reception => machine.takeLost reception.capture
  ({ port.losses with edge := port.losses.edge || lost }, { port with losses := {} }, machine)

/-- Whether anything was lost since the last question. -/
def anyLost (port : Port) (machine : Machine) : Bool × Port × Machine :=
  let (losses, port, machine) := port.takeLosses machine
  (losses.any, port, machine)

/-- Has the receive callback told by `tag` called from `serve`. -/
def setCallback (port : Port) (tag : Nat) : Port := { port with callback := some tag }

/-- Takes in captured edges and calls the receive callback if bytes are there. -/
def serve (port : Port) (machine : Machine) : Port × Machine :=
  match port.callback, port.reception with
  | some tag, some _ =>
    let (port, machine) := port.collect machine
    (port, if port.buffered = 0 then machine else machine.note (.received tag port.buffered))
  | _, _ => (port, machine)

end PinUart.Port
