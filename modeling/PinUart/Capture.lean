import PinUart.Board
import PinUart.Edge.Queue

/-! The interrupt side of one receiving line: on every edge of its pin it notes
time and level, and leaves the rest to the poll. -/
namespace PinUart

structure Capture where
  pin : Pin
  queue : EdgeQueue

/-- The edge that the interrupt reads off the board; reading the time moves it. -/
def Capture.takeEdge (capture : Capture) (board : Board) : Capture × Board :=
  let (cycle, board) := board.readClock
  let (_, queue) := capture.queue.push (Edge.ofLevel cycle (board.level capture.pin))
  ({ capture with queue }, board)

end PinUart
