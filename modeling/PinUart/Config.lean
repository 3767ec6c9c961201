import PinUart.Board.Pin

/-! How one port is set up: its pins, polarity, line speed, buffer sizes and way
of driving the line. -/
namespace PinUart

/-- How a pin produces its high level: by driving it, or by letting go of a
line that is pulled up. -/
inductive Drive
  | pushPull
  | pullUpRelease
  deriving DecidableEq, Repr

structure Config where
  rxPin : Option Pin := none
  txPin : Option Pin := none
  enablePin : Option Pin := none
  invert : Bool := false
  baud : UInt32 := 9600
  byteCapacity : UInt64 := 64
  edgeCapacity : Option UInt64 := none
  drive : Drive := .pushPull
  interruptible : Bool := true
  deriving DecidableEq, Repr

namespace Config

/-- Slots for captured edges per slot for decoded bytes: one for each bit period
of a frame. -/
def edgesPerByte : Nat := 10

/-- Receiving and sending share a single pin. -/
def oneWire (config : Config) : Bool := config.rxPin.isSome && config.rxPin == config.txPin

/-- Slots for captured edges, ten for each byte slot unless configured. The
product stops at the largest size. -/
def edgeSlots (config : Config) : UInt64 :=
  config.edgeCapacity.getD
    (UInt64.ofNat (min (config.byteCapacity.toNat * edgesPerByte) 0xffffffffffffffff))

end Config
end PinUart
