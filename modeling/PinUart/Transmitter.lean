import PinUart.Board.Wait
import PinUart.Config
import PinUart.Hold
import PinUart.Machine

/-! Clocking a message out on a pin. Every hold ends at a deadline that is
reckoned from the first, so that the delays of single holds do not add up. -/
namespace PinUart

namespace Machine

/-- Puts a pin into its resting state for sending. -/
def restLine (machine : Machine) (pin : Pin) (high : Bool) : Drive → Machine
  | .pushPull => (machine.setOutput pin high).setDirection pin .output
  | .pullUpRelease =>
    ((machine.setOutput pin false).setPull pin .up).setDirection pin
      (if high then .input else .output)

/-- Changes the level of a prepared pin. -/
def setLine (machine : Machine) (pin : Pin) (high : Bool) : Drive → Machine
  | .pushPull => machine.setOutput pin high
  | .pullUpRelease => machine.setDirection pin (if high then .input else .output)

def spinUntil (machine : Machine) (deadline : Cycle) : Machine :=
  { machine with board := machine.board.spinUntil deadline }

end Machine

structure Transmitter where
  bitPeriod : UInt32
  invert : Bool
  drive : Drive
  /-- Interrupts stay enabled while bits are timed. -/
  interruptible : Bool := true
  deriving DecidableEq, Repr

namespace Transmitter

/-- The level of the line at mark. -/
def markLevel (transmitter : Transmitter) : Bool := !transmitter.invert

def plan (transmitter : Transmitter) (data : List UInt8) : Plan :=
  .ofData data transmitter.bitPeriod transmitter.invert

/-- Masks interrupts, if bits are to be timed without them. -/
def hush (transmitter : Transmitter) (machine : Machine) : Machine :=
  if transmitter.interruptible then machine else machine.mask

/-- Lets interrupts in again after `hush`. -/
def unhush (transmitter : Transmitter) (machine : Machine) : Machine :=
  if transmitter.interruptible then machine else machine.unmask

/-- Waits for a deadline: asleep, with interrupts let in, while it is more than a
microsecond away, and then reading the counter. -/
def awaitDeadline (transmitter : Transmitter) (machine : Machine) (deadline : Cycle) : Machine :=
  let (now, machine) := machine.readClock
  let micros := Cycle.span now deadline / (machine.perMicrosecond.toNat : Int)
  let machine :=
    if 1 < micros then
      transmitter.hush ((transmitter.unhush machine).sleep (UInt32.ofNat (micros.toNat - 1)))
    else machine
  machine.spinUntil deadline

/-- Drives the holds one after the other; `deadline` is where the next begins. -/
def sendHolds (transmitter : Transmitter) (pin : Pin) (machine : Machine) (deadline : Cycle) :
    List Hold → Machine
  | [] => machine
  | hold :: holds =>
    let machine := machine.setLine pin hold.high transmitter.drive
    let deadline := deadline + hold.cycles
    transmitter.sendHolds pin (transmitter.awaitDeadline machine deadline) deadline holds

/-- Clocks a message out. Answers the number of bytes sent, which is all. -/
def send (transmitter : Transmitter) (machine : Machine) (pin : Pin) (data : List UInt8) :
    Nat × Machine :=
  if data.isEmpty then (0, machine)
  else
    let machine := machine.setLine pin transmitter.markLevel transmitter.drive
    let (start, machine) := (transmitter.hush machine).readClock
    let machine := transmitter.sendHolds pin machine start (transmitter.plan data).holds
    (data.length, transmitter.unhush machine)

end Transmitter
end PinUart
