import PinUart.Cli.Arguments
import PinUart.Decimal.Digits

/-! The commands that the program knows, and how they are given. -/
namespace PinUart.Cli

inductive Command
  /-- Sends a text from one port to another over a wire. -/
  | loopback (text : String) (baud : UInt32) (invert uninterrupted : Bool)
  /-- Shows how a byte is laid out in time. -/
  | timing (byte : String) (baud clock : UInt32)
  /-- Shows a configuration that is read from a file. -/
  | config (path : String)
  deriving DecidableEq, Repr

def baudOption : OptionForm := { long := "baud", short := some 'b', takesValue := true }

def clockOption : OptionForm := { long := "clock", short := some 'c', takesValue := true }

def invertOption : OptionForm := { long := "invert" }

def uninterruptedOption : OptionForm := { long := "no-int-tx" }

/-- The value of a run of decimal digits that is not empty. -/
def digits? (text : List Char) : Option Nat :=
  if text.isEmpty || !text.all Decimal.isDigit then none else some (Decimal.digitsValue text)

/-- Reads a number of 32 bits, with a sign if need be. -/
def word? (text : String) : Option UInt32 := do
  let value ← match text.toList with
    | '+' :: rest => digits? rest
    | '-' :: rest => (digits? rest).filter (· == 0)
    | digits => digits? digits
  if value < 0x100000000 then some (UInt32.ofNat value) else none

/-- The number given by an option, or `fallback` if the option is missing. -/
def wordOption? (arguments : Arguments) (form : OptionForm) (fallback : UInt32) :
    Option UInt32 :=
  match arguments.value? form with
  | none => some fallback
  | some text => word? text

namespace Command

def loopback? (arguments : Arguments) : Option Command := do
  let baud ← wordOption? arguments baudOption 9600
  match arguments.plain with
  | [text] =>
    some (.loopback text baud (arguments.has invertOption) (arguments.has uninterruptedOption))
  | _ => none

def timing? (arguments : Arguments) : Option Command := do
  let baud ← wordOption? arguments baudOption 9600
  let clock ← wordOption? arguments clockOption 80000000
  match arguments.plain with
  | [byte] => some (.timing byte baud clock)
  | _ => none

def config? (arguments : Arguments) : Option Command :=
  match arguments.plain with
  | [path] => if path.isEmpty then none else some (.config path)
  | _ => none

/-- Reads a command line; nothing is answered for one that is misused. -/
def parse? : List String → Option Command
  | "loopback" :: rest =>
    (takeApart? [baudOption, invertOption, uninterruptedOption] {} rest).bind loopback?
  | "timing" :: rest => (takeApart? [baudOption, clockOption] {} rest).bind timing?
  | "config" :: rest => (takeApart? [] {} rest).bind config?
  | _ => none

/-- The file that a command needs. -/
def path? : Command → Option String
  | .config path => some path
  | _ => none

end Command
end PinUart.Cli
