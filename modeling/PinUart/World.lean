import PinUart.Port.Operation
import PinUart.World.Tap

/-! A machine with everything that is put to work on it: ports, and taps and
transmitters that are used without a port. -/
namespace PinUart

structure World where
  machine : Machine := {}
  /-- Ports by index; a closed one leaves its place empty. -/
  ports : Array (Option Port) := #[]
  /-- The captures that serve the taps. -/
  taps : Array Nat := #[]
  transmitters : Array Transmitter := #[]

namespace World

inductive Operation
  | machine (operation : Machine.Operation)
  | openPort (config : Config)
  | closePort (index : Nat)
  | port (index : Nat) (operation : Port.Operation)
  | openTap (pin : Pin) (capacity : UInt64)
  | tap (index : Nat) (operation : Tap.Operation)
  | addTransmitter (bitPeriod : UInt32) (invert : Bool) (drive : Drive)
  | setInterruptible (index : Nat) (on : Bool)
  | setBitPeriod (index : Nat) (bitPeriod : UInt32)
  | transmitterReport (index : Nat)
  | plan (index : Nat) (data : List UInt8)
  | send (index : Nat) (pin : Pin) (data : List UInt8)
  deriving DecidableEq, Repr

def port? (world : World) (index : Nat) : Option Port := (world.ports[index]?).join

def openPort (world : World) (config : Config) : Nat × World :=
  let (port, machine) := Port.create world.machine config
  (world.ports.size, { world with machine, ports := world.ports.push (some port) })

/-- Stops a port and takes it out of the world. -/
def closePort (world : World) (index : Nat) : World :=
  match world.port? index with
  | none => world
  | some port =>
    let (_, machine) := port.stop world.machine
    { world with machine, ports := world.ports.setIfInBounds index none }

/-- Carries out an operation of one port; a closed port does nothing. -/
def performPort (world : World) (index : Nat) (operation : Port.Operation) : Answer × World :=
  match world.port? index with
  | none => (.nothing, world)
  | some port =>
    let (answer, port, machine) := port.perform world.machine operation
    (answer, { world with machine, ports := world.ports.setIfInBounds index (some port) })

/-- Opens a tap on a pin, unless its queue cannot be reserved. -/
def openTap (world : World) (pin : Pin) (capacity : UInt64) : Answer × World :=
  match EdgeQueue.reserve capacity with
  | .error _ => (.refused, world)
  | .ok queue =>
    let (capture, machine) := world.machine.addCapture pin queue
    (.count world.taps.size, { world with machine, taps := world.taps.push capture })

def performTap (world : World) (index : Nat) (operation : Tap.Operation) : Answer × World :=
  match world.taps[index]? with
  | none => (.nothing, world)
  | some capture =>
    let (answer, machine) := world.machine.performTap capture operation
    (answer, { world with machine })

def modifyTransmitter (world : World) (index : Nat) (act : Transmitter → Transmitter) : World :=
  { world with transmitters := world.transmitters.modify index act }

/-- Carries one operation out. -/
def perform (world : World) : Operation → Answer × World
  | .machine operation =>
    let (answer, machine) := world.machine.perform operation
    (answer, { world with machine })
  | .openPort config =>
    let (index, world) := world.openPort config
    (.count index, world)
  | .closePort index => (.nothing, world.closePort index)
  | .port index operation => world.performPort index operation
  | .openTap pin capacity => world.openTap pin capacity
  | .tap index operation => world.performTap index operation
  | .addTransmitter bitPeriod invert drive =>
    (.count world.transmitters.size,
      { world with transmitters := world.transmitters.push { bitPeriod, invert, drive } })
  | .setInterruptible index on =>
    (.nothing, world.modifyTransmitter index ({ · with interruptible := on }))
  | .setBitPeriod index bitPeriod =>
    (.nothing, world.modifyTransmitter index ({ · with bitPeriod }))
  | .transmitterReport index =>
    match world.transmitters[index]? with
    | none => (.nothing, world)
    | some transmitter => (.transmitter transmitter, world)
  | .plan index data =>
    match world.transmitters[index]? with
    | none => (.nothing, world)
    | some transmitter => (.holds (transmitter.plan data).holds, world)
  | .send index pin data =>
    match world.transmitters[index]? with
    | none => (.nothing, world)
    | some transmitter =>
      let (sent, machine) := transmitter.send world.machine pin data
      (.count sent, { world with machine })

/-- Carries out operations in order. -/
def run (world : World) : List Operation → List Answer × World
  | [] => ([], world)
  | operation :: operations =>
    let (answer, world) := world.perform operation
    let (answers, world) := world.run operations
    (answer :: answers, world)

/-- Closes all ports, in the order in which they were opened. -/
def closeAll (world : World) : World :=
  (List.range world.ports.size).foldl closePort world

end World
end PinUart
