import PinUart.Cli.Byte
import PinUart.Cli.Command
import PinUart.Config.Printer
import PinUart.Config.Reader
import PinUart.Port.Lifecycle
import PinUart.Port.Sending
import PinUart.Text.Utf8

/-! What the commands do, and what they print. -/
namespace PinUart.Cli

/-- Why a command has failed. -/
inductive Failure
  | notByte (text : String) (fault : ByteFault)
  | unrepresentable (baud clock : UInt32)
  | port (error : PortError)
  | mismatch (sent got : List UInt8)
  | loading (path : String) (error : PortError)
  deriving DecidableEq, Repr

namespace Failure

def hexText (data : List UInt8) : String := String.ofList (Text.Hex.encode data)

def message : Failure → String
  | .notByte text _ => s!"not a byte value: {text}"
  | .unrepresentable baud clock => s!"baud {baud} not representable with a {clock} Hz clock"
  | .port error => error.message
  | .mismatch sent got => s!"loopback mismatch: sent {hexText sent}, got {hexText got}"
  | .loading path _ => s!"loading {path}"

/-- What lies behind the failure, where the message does not say it. -/
def cause? : Failure → Option String
  | .notByte _ fault => some fault.message
  | .loading _ error => some error.message
  | _ => none

/-- The lines that report the failure; a cause is indented. -/
def report (failure : Failure) : List String :=
  ("Error: " ++ failure.message).splitOn "\n" ++
    match failure.cause? with
    | none => []
    | some cause => "" :: "Caused by:" :: (cause.splitOn "\n").map ("    " ++ ·)

end Failure

/-- The lines that a command prints, and how it failed if it did. -/
structure Outcome where
  output : List String
  failure : Option Failure := none
  deriving DecidableEq, Repr

namespace Outcome

def ofFailure (failure : Failure) : Outcome := ⟨[], some failure⟩

/-- The text on standard output. -/
def text (outcome : Outcome) : String := String.join (outcome.output.map (· ++ "\n"))

def exitCode (outcome : Outcome) : UInt32 := if outcome.failure.isSome then 1 else 0

end Outcome

/-- The exit code of a command line that is misused. -/
def misuseCode : UInt32 := 2

/-- Pads a number to eight places. -/
def padded (value : Nat) : String :=
  let digits := (Nat.repr value).toList
  String.ofList (List.replicate (8 - digits.length) ' ' ++ digits)

def holdLine (bitPeriod : UInt32) (hold : Hold) : String :=
  let level := if hold.high then "high" else "low "
  s!"{level} {padded hold.cycles.toNat} cycles ({hold.cycles / bitPeriod} bits)"

def timing (byte : String) (baud clock : UInt32) : Outcome :=
  match readByte byte.toList with
  | .error fault => .ofFailure (.notByte byte fault)
  | .ok value =>
    if baud = 0 ∨ clock < baud then .ofFailure (.unrepresentable baud clock)
    else
      let bitPeriod := clock / baud
      let title := s!"byte 0x{Failure.hexText [value]}, {bitPeriod} cycles per bit"
      ⟨title :: (Plan.ofData [value] bitPeriod false).holds.map (holdLine bitPeriod), none⟩

/-- The pin of the sending port. -/
def sendPin : Pin := 12

/-- The pin of the receiving port. -/
def receivePin : Pin := 14

/-- Sends data over a wire between two ports. Answers what arrives. -/
def transfer (data : List UInt8) (baud : UInt32) (invert uninterrupted : Bool) :
    Except PortError (List UInt8) := do
  let machine := ({} : Machine).connect sendPin receivePin
  let (sender, machine) := Port.create machine
    { txPin := some sendPin, invert, interruptible := !uninterrupted }
  let (receiver, machine) := Port.create machine
    { rxPin := some receivePin, invert, byteCapacity := UInt64.ofNat (data.length + 1) }
  let (started, sender, machine) := sender.start machine baud
  started
  let (started, receiver, machine) := receiver.start machine baud
  started
  let (_, _, machine) := sender.write machine data
  return (receiver.drain machine).1

def loopback (text : String) (baud : UInt32) (invert uninterrupted : Bool) : Outcome :=
  let data := text.toUTF8.toList
  match transfer data baud invert uninterrupted with
  | .error failure => .ofFailure (.port failure)
  | .ok received =>
    { output :=
        ["text: " ++ String.ofList (Text.Utf8.decodeLossy received),
         "hex:  " ++ Failure.hexText received]
      failure := if received = data then none else some (.mismatch data received) }

/-- Reads a configuration out of what a file holds, or out of why it holds nothing. -/
def loadConfig (contents : Except String (List UInt8)) : Except PortError Config :=
  match contents with
  | .error reason => .error (.configuration reason)
  | .ok data =>
    match String.fromUTF8? ⟨data.toArray⟩ with
    | none => .error (.configuration "stream did not contain valid UTF-8")
    | some text => Config.ofJson text

def showConfig (path : String) (contents : Except String (List UInt8)) : Outcome :=
  match loadConfig contents with
  | .error failure => .ofFailure (.loading path failure)
  | .ok config => ⟨[config.toJson], none⟩

/-- Carries a command out, given what the file that it needs holds. -/
def Command.execute (contents : Except String (List UInt8)) : Command → Outcome
  | .loopback text baud invert uninterrupted => Cli.loopback text baud invert uninterrupted
  | .timing byte baud clock => Cli.timing byte baud clock
  | .config path => showConfig path contents

end PinUart.Cli
