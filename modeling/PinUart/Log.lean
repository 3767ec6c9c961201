/-! Log lines and the levels that decide whether they are written. -/
namespace PinUart.Log

inductive Level
  | error
  | warn
  | info
  | debug
  deriving DecidableEq, Repr

/-- Greater for what matters less. -/
def Level.verbosity : Level → Nat
  | .error => 1
  | .warn => 2
  | .info => 3
  | .debug => 4

def Level.name : Level → String
  | .error => "ERROR"
  | .warn => "WARN"
  | .info => "INFO"
  | .debug => "DEBUG"

structure Line where
  level : Level
  text : String
  deriving DecidableEq, Repr

def Line.render (line : Line) : String := line.level.name ++ " " ++ line.text

/-- How much is written: everything up to one level, or nothing. -/
inductive Limit
  | off
  | upTo (level : Level)
  deriving DecidableEq, Repr

def Limit.admits : Limit → Level → Bool
  | .off, _ => false
  | .upTo most, level => level.verbosity ≤ most.verbosity

/-- The lines that a limit lets through. -/
def Limit.select (limit : Limit) (lines : List Line) : List Line :=
  lines.filter (limit.admits ·.level)

end PinUart.Log
