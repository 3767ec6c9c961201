import PinUart.Decoder
import PinUart.Log.Throttle
import PinUart.Transmitter

/-! A serial port on plain pins. Edges of the receive pin are captured by an
interrupt and decoded when the port is polled; sending keeps the caller busy
until the last stop bit is out. -/
namespace PinUart

/-- The buffers of a port that has a usable receive pin: a capture, by its index
on the machine, and the decoded bytes. -/
structure Reception where
  capture : Nat
  bytes : ByteRing

/-- What the shared pin of a one-wire port is set up for. -/
inductive LineMode
  | receive
  | transmit
  deriving DecidableEq, Repr

/-- Received data that found no room: edges in the capture queue, or bytes in the
byte ring. -/
structure Losses where
  edge : Bool := false
  byte : Bool := false
  deriving DecidableEq, Repr

def Losses.any (losses : Losses) : Bool := losses.edge || losses.byte

structure Port where
  config : Config
  rxPin : Option Pin
  txPin : Option Pin
  enablePin : Option Pin := none
  reception : Option Reception
  /-- The size that could not be reserved, if the receive buffers were refused. -/
  refused : Option UInt64
  decoder : Decoder
  transmitter : Transmitter
  slot : Option SlotIndex := none
  started : Bool := false
  /-- The interrupt of the receive pin is armed. -/
  listening : Bool := false
  mode : LineMode := .receive
  losses : Losses := {}
  throttle : Log.Throttle
  /-- The tag that the receive callback is told by, if there is one. -/
  callback : Option Nat := none

namespace Port

/-- Warnings of lost data that reach the log in one window. -/
def warningCap : Nat := 3

/-- Length of that window in milliseconds. -/
def warningWindow : Nat := 1000

/-- Bit periods that a poll may sleep for before it finds that nothing came. -/
def patience : UInt32 := 20

/-- Bytes that wait to be read. -/
def buffered (port : Port) : Nat :=
  match port.reception with
  | none => 0
  | some reception => reception.bytes.size

def bitPeriod (port : Port) : UInt32 := port.transmitter.bitPeriod

/-- The line speed after rounding of the bit period. -/
def speed (port : Port) (machine : Machine) : UInt32 := machine.rate / port.bitPeriod

/-- The bit period for a line speed that the counter can represent. -/
def periodFor (machine : Machine) (baud : UInt32) : Except PortError UInt32 :=
  if baud = 0 ∨ machine.rate < baud then .error (.invalidBaud baud) else .ok (machine.rate / baud)

/-- Sets the bit period of both directions. -/
def withSpeed (port : Port) (baud bitPeriod : UInt32) : Port :=
  { port with
    config := { port.config with baud }
    decoder := port.decoder.withPeriod bitPeriod
    transmitter := { port.transmitter with bitPeriod } }

/-- Changes the line speed of both directions. -/
def setSpeed (port : Port) (machine : Machine) (baud : UInt32) :
    Except PortError Unit × Port × Machine :=
  match periodFor machine baud with
  | .error failure => (.error failure, port, machine)
  | .ok bitPeriod =>
    (.ok (), port.withSpeed baud bitPeriod,
      machine.write .debug s!"Bit period set to {bitPeriod} cycles for {baud} baud")

/-- The way a pin that may be missing is named in messages. -/
def pinText : Option Pin → String
  | none => "None"
  | some pin => s!"Some({pin})"

def slotText : Option SlotIndex → String
  | none => "None"
  | some slot => s!"Some({slot.val})"

def modeText : LineMode → String
  | .receive => "Receive"
  | .transmit => "Transmit"

/-- The port in one line. -/
def describe (port : Port) : String :=
  s!"SoftwareSerial \x7b rx_pin: {pinText port.rxPin}, tx_pin: {pinText port.txPin}, " ++
  s!"tx_enable_pin: {pinText port.enablePin}, bit_cycles: {port.bitPeriod}, " ++
  s!"slot: {slotText port.slot}, started: {port.started}, " ++
  s!"line_mode: {modeText port.mode}, .. \x7d"

end Port
end PinUart
