import PinUart.Capture
import PinUart.Error
import PinUart.Log
import PinUart.Slots

/-! A board together with what its interrupts reach: the slot table, the captures
of all receiving lines, and a record of what ran. Handlers run to the end before
the operation that raised them returns. -/
namespace PinUart

/-- Something that ran and can be told: a probe that was entered through a pin or
a slot, or a receive callback with the number of bytes it was called with. -/
inductive Event
  | handler (index : Nat)
  | sink (index : Nat)
  | received (tag count : Nat)
  deriving DecidableEq, Repr

structure Machine where
  board : Board := {}
  /-- The counter rate that ports are told, where it is not the board's own. -/
  statedRate : Option UInt32 := none
  slots : Slots := .empty
  captures : Array Capture := #[]
  /-- Faults that the next attempts to attach an interrupt will meet. -/
  faults : List Fault := []
  /-- Milliseconds of wall time, by which warnings are limited. -/
  uptime : Nat := 0
  events : Array Event := #[]
  log : Array Log.Line := #[]

namespace Machine

def note (machine : Machine) (event : Event) : Machine :=
  { machine with events := machine.events.push event }

def write (machine : Machine) (level : Log.Level) (text : String) : Machine :=
  { machine with log := machine.log.push ⟨level, text⟩ }

/-- Lets a capture take in the edge that has just happened on its pin. -/
def captureEdge (machine : Machine) (index : Nat) : Machine :=
  if known : index < machine.captures.size then
    let (capture, board) := machine.captures[index].takeEdge machine.board
    { machine with board, captures := machine.captures.set index capture known }
  else machine

def signal (machine : Machine) : Sink → Machine
  | .capture index => machine.captureEdge index
  | .probe index => machine.note (.sink index)

/-- Passes an interrupt on to the sink of its slot, if there is one. -/
def dispatch (machine : Machine) (slot : SlotIndex) : Machine :=
  match machine.slots.sink? slot with
  | none => machine
  | some sink => machine.signal sink

def enter (machine : Machine) : Handler → Machine
  | .probe index => machine.note (.handler index)
  | .entry slot => machine.dispatch slot

/-- Settles an operation of the board: its handlers run in order. -/
def settle (machine : Machine) (result : Board × List Handler) : Machine :=
  result.2.foldl enter { machine with board := result.1 }

def connect (machine : Machine) (one other : Pin) : Machine :=
  machine.settle (machine.board.connect one other)

def setDirection (machine : Machine) (pin : Pin) (direction : Direction) : Machine :=
  machine.settle (machine.board.setDirection pin direction)

def setPull (machine : Machine) (pin : Pin) (pull : Pull) : Machine :=
  machine.settle (machine.board.setPull pin pull)

def setOutput (machine : Machine) (pin : Pin) (high : Bool) : Machine :=
  machine.settle (machine.board.setOutput pin high)

def inject (machine : Machine) (pin : Pin) (level : Option Bool) : Machine :=
  machine.settle (machine.board.inject pin level)

def mask (machine : Machine) : Machine := { machine with board := machine.board.mask }

def unmask (machine : Machine) : Machine := machine.settle machine.board.unmask

def advance (machine : Machine) (cycles : UInt32) : Machine :=
  { machine with board := machine.board.advance cycles }

def sleep (machine : Machine) (micros : UInt32) : Machine :=
  { machine with board := machine.board.sleep micros }

def readClock (machine : Machine) : Cycle × Machine :=
  let (cycle, board) := machine.board.readClock
  (cycle, { machine with board })

/-- The counter rate that ports reckon with. -/
def rate (machine : Machine) : UInt32 := machine.statedRate.getD machine.board.timebase.rate

/-- Counter steps that ports reckon with for a microsecond, at least one. -/
def perMicrosecond (machine : Machine) : UInt32 := max (machine.rate / 1000000) 1

/-- Attaches a handler, unless a fault is due or the pin cannot interrupt. -/
def attach (machine : Machine) (pin : Pin) (handler : Handler) : Except Fault Unit × Machine :=
  match machine.faults with
  | fault :: faults => (.error fault, { machine with faults })
  | [] =>
    if machine.board.isUsable pin then
      (.ok (), { machine with board := machine.board.attach pin handler })
    else (.error (.attach pin "pin not interrupt capable"), machine)

def detach (machine : Machine) (pin : Pin) : Machine :=
  { machine with board := machine.board.detach pin }

/-- Binds a sink to the lowest free slot. -/
def claim (machine : Machine) (sink : Sink) : Except PortError SlotIndex × Machine :=
  match machine.slots.claim? sink with
  | none => (.error (.noFreeSlot slotCount), machine)
  | some (slot, slots) =>
    (.ok slot, { machine with slots }.write .debug s!"Claimed interrupt slot {slot.val}")

/-- Frees a slot; a free one stays free, without a word. -/
def release (machine : Machine) (slot : SlotIndex) : Machine :=
  if machine.slots.isBound slot then
    { machine with slots := machine.slots.release slot }.write .debug
      s!"Released interrupt slot {slot.val}"
  else machine

/-- Adds a capture on a pin. Answers its index. -/
def addCapture (machine : Machine) (pin : Pin) (queue : EdgeQueue) : Nat × Machine :=
  (machine.captures.size, { machine with captures := machine.captures.push ⟨pin, queue⟩ })

/-- The edges queued by a capture, oldest first. -/
def queued (machine : Machine) (index : Nat) : List Edge :=
  match machine.captures[index]? with
  | none => []
  | some capture => capture.queue.toList

/-- Changes the queue of a capture. -/
def modifyQueue (machine : Machine) (index : Nat) (act : EdgeQueue → EdgeQueue) : Machine :=
  { machine with
    captures := machine.captures.modify index fun capture =>
      { capture with queue := act capture.queue } }

/-- Reads and lowers the loss flag of a capture. -/
def takeLost (machine : Machine) (index : Nat) : Bool × Machine :=
  match machine.captures[index]? with
  | none => (false, machine)
  | some capture =>
    (capture.queue.lost, machine.modifyQueue index fun queue => queue.takeLost.2)

end Machine
end PinUart
