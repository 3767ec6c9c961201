import PinUart.Text.Hex

/-! A byte given as a number, in decimal or after `0x` in hexadecimal. -/
namespace PinUart.Cli

/-- Why a text is not the number of a byte. -/
inductive ByteFault
  | empty
  | invalidDigit
  | tooLarge
  deriving DecidableEq, Repr

def ByteFault.message : ByteFault → String
  | .empty => "cannot parse integer from empty string"
  | .invalidDigit => "invalid digit found in string"
  | .tooLarge => "number too large to fit in target type"

/-- The value of a digit in a radix of at most sixteen. -/
def digitIn? (radix : Nat) (c : Char) : Option Nat := (Text.Hex.value? c).filter (· < radix)

/-- Takes digits in from the left; the first fault is the one that counts. -/
def readDigits (radix value : Nat) : List Char → Except ByteFault UInt8
  | [] => .ok (UInt8.ofNat value)
  | c :: rest =>
    match digitIn? radix c with
    | none => .error .invalidDigit
    | some digit =>
      if value * radix + digit < 256 then readDigits radix (value * radix + digit) rest
      else .error .tooLarge

/-- Reads digits after an optional plus sign. -/
def readNumber (radix : Nat) : List Char → Except ByteFault UInt8
  | [] => .error .empty
  | ['+'] => .error .invalidDigit
  | '+' :: digits => readDigits radix 0 digits
  | digits => readDigits radix 0 digits

def readByte : List Char → Except ByteFault UInt8
  | '0' :: 'x' :: digits => readNumber 16 digits
  | '0' :: 'X' :: digits => readNumber 16 digits
  | text => readNumber 10 text

end PinUart.Cli
