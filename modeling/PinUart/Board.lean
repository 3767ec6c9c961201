import PinUart.Board.Pin
import PinUart.Cycle

/-! A board of wired pins and a cycle counter. Pins that are wired together form
a net with one level: the lowest of what its drivers force, else high if a pin
pulls up, else the level it had last. A change of level is recorded for every
pin of the net and raises the handlers of those pins; while interrupts are masked, each
pin keeps at most one handler pending. -/
namespace PinUart

/-- A level that was reached, and when. -/
structure Transition where
  cycle : Cycle
  level : Bool
  deriving DecidableEq, Repr

/-- How fast the counter runs, and how far each reading of it moves it. -/
structure Timebase where
  rate : UInt32 := 80000000
  perRead : UInt32 := 4
  rate_ge : 1000000 ≤ rate := by decide
  perRead_ge : 1 ≤ perRead := by decide

instance : Inhabited Timebase := ⟨{}⟩

/-- Rates below one megahertz and free readings are raised, so that sleeping and
waiting always move the counter. -/
def Timebase.create (rate perRead : UInt32) : Timebase where
  rate := if 1000000 ≤ rate then rate else 1000000
  perRead := if 1 ≤ perRead then perRead else 1
  rate_ge := by split <;> simp_all
  perRead_ge := by split <;> simp_all

/-- Counter steps in one microsecond. -/
def Timebase.perMicrosecond (timebase : Timebase) : UInt32 := timebase.rate / 1000000

structure Board where
  timebase : Timebase := default
  clock : Cycle := 1000000
  /-- The pins that may carry a line; all of them if there is no list. -/
  usable : Option (List Pin) := none
  pins : PinMap PinState := .fill {}
  /-- Groups of wired pins; a pin in none of them is a net of its own. -/
  nets : List (List Pin) := []
  /-- The last level of each net, kept under its lowest pin. -/
  levels : PinMap (Option Bool) := .fill none
  history : PinMap (Array Transition) := .fill #[]
  masked : Bool := false
  /-- Handlers held back while interrupts are masked, in the order of their edges. -/
  pending : List (Pin × Handler) := []

namespace Board

def isUsable (board : Board) (pin : Pin) : Bool :=
  match board.usable with
  | none => true
  | some pins => pins.contains pin

/-- The pins that share a level with `pin`, itself included. -/
def net (board : Board) (pin : Pin) : List Pin :=
  (board.nets.find? (·.contains pin)).getD [pin]

/-- The pin under which a net keeps its level. -/
def keyPin (net : List Pin) : Pin := net.min?.getD 0

/-- The level of a net, from what its pins do to it. -/
def netLevel (board : Board) (net : List Pin) : Bool :=
  match net.filterMap fun pin => (board.pins.get pin).drives? with
  | [] =>
    net.any (fun pin => (board.pins.get pin).pull == .up) ||
      (board.levels.get (keyPin net)).getD false
  | driven => driven.all id

/-- The level that a pin reads. -/
def level (board : Board) (pin : Pin) : Bool := board.netLevel (board.net pin)

/-- Notes a change of level on one pin. Answers its handler if it is to run now. -/
def notePin (board : Board) (pin : Pin) (level : Bool) : Board × Option Handler :=
  let board := { board with
    history := board.history.modify pin (·.push ⟨board.clock, level⟩) }
  match (board.pins.get pin).handler with
  | none => (board, none)
  | some handler =>
    if board.masked then
      if board.pending.any (·.1 == pin) then (board, none)
      else ({ board with pending := board.pending ++ [(pin, handler)] }, none)
    else (board, some handler)

/-- Notes a change of level on the pins of a net. Answers the handlers to run. -/
def noteEdge (board : Board) (level : Bool) : List Pin → Board × List Handler
  | [] => (board, [])
  | pin :: pins =>
    let (board, first) := board.notePin pin level
    let (board, others) := board.noteEdge level pins
    (board, first.toList ++ others)

/-- Applies a change that concerns the net of `pin`. Joining nets counts as an
edge unless the joined net had that level on record. -/
def change (board : Board) (pin : Pin) (act : Board → Board) : Board × List Handler :=
  let oldNet := board.net pin
  let before := board.netLevel oldNet
  let changed := act board
  let net := changed.net pin
  let after := changed.netLevel net
  let recorded := changed.levels.get (keyPin net)
  let settled := { changed with levels := changed.levels.set (keyPin net) (some after) }
  if (oldNet.length ≠ net.length ∧ recorded ≠ some after) ∨ before ≠ after then
    settled.noteEdge after net
  else (settled, [])

/-- Joins the nets of two pins. -/
def join (board : Board) (one other : Pin) : Board :=
  let net := board.net one
  if net.contains other then board
  else
    let apart := board.nets.filter fun group => !group.contains one && !group.contains other
    { board with nets := apart ++ [net ++ board.net other] }

/-- Wires two pins together. -/
def connect (board : Board) (one other : Pin) : Board × List Handler :=
  board.change one (·.join one other)

/-- Changes the set-up of a pin, with what follows for its net. -/
def setUp (board : Board) (pin : Pin) (act : PinState → PinState) : Board × List Handler :=
  board.change pin fun board => { board with pins := board.pins.modify pin act }

def setDirection (board : Board) (pin : Pin) (direction : Direction) : Board × List Handler :=
  board.setUp pin ({ · with direction })

def setPull (board : Board) (pin : Pin) (pull : Pull) : Board × List Handler :=
  board.setUp pin ({ · with pull })

/-- Sets the level that the pin drives as an output. -/
def setOutput (board : Board) (pin : Pin) (output : Bool) : Board × List Handler :=
  board.setUp pin ({ · with output })

/-- Forces a level on a pin from outside, or stops doing so. -/
def inject (board : Board) (pin : Pin) (forced : Option Bool) : Board × List Handler :=
  board.setUp pin ({ · with forced })

def direction (board : Board) (pin : Pin) : Direction := (board.pins.get pin).direction

def handler? (board : Board) (pin : Pin) : Option Handler := (board.pins.get pin).handler

/-- The changes of level that a pin has seen. -/
def transitions (board : Board) (pin : Pin) : List Transition := (board.history.get pin).toList

def forgetTransitions (board : Board) : Board := { board with history := .fill #[] }

/-- Has `handler` entered on every edge of the pin. -/
def attach (board : Board) (pin : Pin) (handler : Handler) : Board :=
  { board with pins := board.pins.modify pin ({ · with handler := some handler }) }

/-- Takes the handler off a pin, with what it has pending. -/
def detach (board : Board) (pin : Pin) : Board :=
  { board with
    pins := board.pins.modify pin ({ · with handler := none })
    pending := board.pending.filter (·.1 != pin) }

def advance (board : Board) (cycles : UInt32) : Board :=
  { board with clock := board.clock + cycles }

/-- Reads the counter, which moves it. -/
def readClock (board : Board) : Cycle × Board :=
  let board := board.advance board.timebase.perRead
  (board.clock, board)

def sleep (board : Board) (micros : UInt32) : Board :=
  board.advance (micros * board.timebase.perMicrosecond)

def mask (board : Board) : Board := { board with masked := true }

/-- Lets interrupts in again. Answers the handlers that were pending. -/
def unmask (board : Board) : Board × List Handler :=
  ({ board with masked := false, pending := [] }, board.pending.map (·.2))

end Board
end PinUart
