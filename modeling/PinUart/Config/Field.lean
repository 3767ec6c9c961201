import PinUart.Config

/-! The fields of a configuration under the names that they are written by. -/
namespace PinUart

def Drive.name : Drive → String
  | .pushPull => "push_pull"
  | .pullUpRelease => "pull_up_release"

def Drive.ofName? (name : List Char) : Option Drive :=
  if name = Drive.pushPull.name.toList then some .pushPull
  else if name = Drive.pullUpRelease.name.toList then some .pullUpRelease
  else none

namespace Config

inductive Field
  | rxPin
  | txPin
  | enablePin
  | invert
  | baud
  | byteCapacity
  | edgeCapacity
  | drive
  | interruptible
  deriving DecidableEq, Repr

namespace Field

/-- All fields in the order in which they are written. -/
def all : List Field :=
  [rxPin, txPin, enablePin, invert, baud, byteCapacity, edgeCapacity, drive,
    interruptible]

def name : Field → String
  | rxPin => "rx_pin"
  | txPin => "tx_pin"
  | enablePin => "tx_enable_pin"
  | invert => "invert"
  | baud => "baud"
  | byteCapacity => "buffer_capacity"
  | edgeCapacity => "isr_buffer_capacity"
  | drive => "tx_drive"
  | interruptible => "interrupts_during_tx"

def ofName? (name : List Char) : Option Field := all.find? (·.name.toList == name)

theorem mem_all (field : Field) : field ∈ all := by
  cases field <;> decide

end Field
end Config
end PinUart
