import PinUart.Log

/-! A cap on how many messages of one kind reach the log in a window of time.
Refused ones are counted, and the count is logged when the next window opens. -/
namespace PinUart.Log

structure Throttle where
  /-- Length of a window in milliseconds. -/
  window : Nat
  cap : Nat
  count : Nat := 0
  heldBack : UInt32 := 0
  /-- When the current window opened. -/
  opened : Nat := 0

namespace Throttle

def create (window cap now : Nat) : Throttle := { window, cap, opened := now }

/-- Opens a new window if the current one is over. Answers how many messages the
last one held back, as far as that was not asked before. -/
def roll (throttle : Throttle) (now : Nat) : UInt32 × Throttle :=
  if throttle.window < now - throttle.opened then
    (throttle.heldBack, { throttle with opened := now, count := 0, heldBack := 0 })
  else (0, throttle)

/-- Counts one message; it passes while the window has room. -/
def accept (throttle : Throttle) : Bool × Throttle :=
  let count := throttle.count + 1
  if count ≤ throttle.cap then (true, { throttle with count })
  else
    let more := throttle.heldBack + 1
    (false, { throttle with count, heldBack := if more = 0 then throttle.heldBack else more })

/-- What becomes of one message: whether it passes, and how many were held back
before it, where that is to be told. -/
structure Verdict where
  passes : Bool
  heldBack : UInt32
  deriving DecidableEq, Repr

/-- Counts one message in the window of its time. -/
def allow (throttle : Throttle) (now : Nat) : Verdict × Throttle :=
  let (heldBack, throttle) := throttle.roll now
  let (passes, throttle) := throttle.accept
  (⟨passes, heldBack⟩, throttle)

/-- The notice of messages that were held back, if there are any. -/
def Verdict.notices (verdict : Verdict) : List Line :=
  if verdict.heldBack = 0 then []
  else [⟨.warn, s!"{verdict.heldBack} similar message(s) suppressed"⟩]

/-- Logs a warning if it may be logged now, after the notice if there is one. -/
def warn (throttle : Throttle) (now : Nat) (text : String) : Throttle × List Line :=
  let (verdict, throttle) := throttle.allow now
  (throttle, verdict.notices ++ if verdict.passes then [⟨.warn, text⟩] else [])

/-- The count of refused messages, which starts over. -/
def takeHeldBack (throttle : Throttle) : UInt32 × Throttle :=
  (throttle.heldBack, { throttle with heldBack := 0 })

/-- Opens a new window at once and forgets what was refused. -/
def reset (throttle : Throttle) (now : Nat) : Throttle :=
  { throttle with count := 0, heldBack := 0, opened := now }

end Throttle
end PinUart.Log
