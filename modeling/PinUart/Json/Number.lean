import PinUart.Decimal.Digits
import PinUart.Decimal.Notation
import PinUart.Json.Scan

/-! Numbers of a JSON text. What is written as an integer and fits 64 bits is one;
everything else is a double, computed from the leading digits that fit 64 bits and
a power of ten. -/
namespace PinUart.Json

open Decimal (isDigit digitValue digitsValue)

/-- The parts of a number as they are written, its sign set aside. -/
structure Literal where
  whole : List Char
  /-- The digits after the point. -/
  fraction : List Char := []
  /-- The power of ten, if there is one. -/
  power : Option Int := none
  deriving DecidableEq, Repr

def takeDigits (text : List Char) : List Char := text.takeWhile isDigit

def dropDigits (text : List Char) : List Char := text.dropWhile isDigit

theorem length_dropDigits_le (text : List Char) : (dropDigits text).length ≤ text.length :=
  (List.dropWhile_sublist isDigit).length_le

/-- The digits before a point or exponent: a zero stands alone. -/
def readWhole : List Char → Result (List Char)
  | [] => .error .endInValue
  | c :: rest =>
    if isDigit c then
      if c = '0' then
        if (takeDigits rest).isEmpty then .ok ([c], rest) else .error .invalidNumber
      else .ok (c :: takeDigits rest, dropDigits rest)
    else .error .invalidNumber

/-- The digits after a point, if there is a point. -/
def readFraction : List Char → Result (List Char)
  | '.' :: rest =>
    if !(takeDigits rest).isEmpty then .ok (takeDigits rest, dropDigits rest)
    else if rest.isEmpty then .error .endInValue
    else .error .invalidNumber
  | text => .ok ([], text)

/-- The sign of an exponent, as the factor that it stands for. -/
def readSign : List Char → Int × List Char
  | '+' :: rest => (1, rest)
  | '-' :: rest => (-1, rest)
  | text => (1, text)

/-- The power of ten after the letter for it, if there is one. -/
def readPower : List Char → Result (Option Int)
  | [] => .ok (none, [])
  | c :: rest =>
    if c = 'e' ∨ c = 'E' then
      let (factor, rest) := readSign rest
      if !(takeDigits rest).isEmpty then
        .ok (some (factor * digitsValue (takeDigits rest)), dropDigits rest)
      else if rest.isEmpty then .error .endInValue
      else .error .invalidNumber
    else .ok (none, c :: rest)

def readLiteral (text : List Char) : Result Literal :=
  match readWhole text with
  | .error cause => .error cause
  | .ok (whole, rest) =>
    match readFraction rest with
    | .error cause => .error cause
    | .ok (fraction, rest) =>
      match readPower rest with
      | .error cause => .error cause
      | .ok (power, rest) => .ok ({ whole, fraction, power }, rest)

private theorem length_readWhole {text rest digits : List Char}
    (read : readWhole text = .ok (digits, rest)) : rest.length < text.length := by
  unfold readWhole at read
  split at read
  · cases read
  · rename_i c after
    have := length_dropDigits_le after
    grind

private theorem length_readFraction {text rest digits : List Char}
    (read : readFraction text = .ok (digits, rest)) : rest.length ≤ text.length := by
  unfold readFraction at read
  split at read
  · rename_i after
    have := length_dropDigits_le after
    grind
  · grind

private theorem length_readSign_le (text : List Char) : (readSign text).2.length ≤ text.length := by
  unfold readSign
  grind

private theorem length_readPower {text rest : List Char} {power : Option Int}
    (read : readPower text = .ok (power, rest)) : rest.length ≤ text.length := by
  unfold readPower at read
  split at read
  · grind
  · rename_i c after
    have := length_readSign_le after
    have := length_dropDigits_le (readSign after).2
    grind

theorem length_readLiteral {text rest : List Char} {literal : Literal}
    (read : readLiteral text = .ok (literal, rest)) : rest.length < text.length := by
  unfold readLiteral at read
  split at read
  · cases read
  · rename_i whole
    have := length_readWhole whole
    split at read
    · cases read
    · rename_i fraction
      have := length_readFraction fraction
      split at read
      · cases read
      · rename_i power
        have := length_readPower power
        grind

/-- The largest integer that fits 64 bits. -/
def wordLimit : Nat := 0xffffffffffffffff

/-- Takes in digits while they fit 64 bits. Answers the value and the digits left. -/
def fitDigits (value : Nat) : List Char → Nat × List Char
  | [] => (value, [])
  | c :: rest =>
    let next := value * 10 + digitValue c
    if next ≤ wordLimit then fitDigits next rest else (value, c :: rest)

/-- Multiplies by a power of ten, in steps that a double can hold. -/
def scaleByTen (value : Float) (power : Int) : Except Cause Float :=
  if power.natAbs ≤ 308 then
    let factor := Float.ofScientific 1 false power.natAbs
    if 0 ≤ power then
      if (value * factor).isInf then .error .numberOutOfRange else .ok (value * factor)
    else .ok (value / factor)
  else if value == 0 then .ok value
  else if 0 ≤ power then .error .numberOutOfRange
  else scaleByTen (value / Float.ofScientific 1 false 308) (power + 308)
  termination_by power.natAbs
  decreasing_by omega

/-- The size of a number as a double. -/
def Literal.double (literal : Literal) : Except Cause Float :=
  let (leading, cut) := fitDigits 0 literal.whole
  let (significand, rest) := fitDigits leading literal.fraction
  let used := literal.fraction.length - rest.length
  scaleByTen (UInt64.ofNat significand).toFloat
    (cut.length - used + literal.power.getD 0)

/-- Doubles are named with a point where it lies near the digits, and with a signed
exponent elsewhere. -/
def doubleLayout : Decimal.Layout where
  lowest := -5
  highest := 15
  whole := ['.', '0']
  plus := ['+']

/-- What a number is, given its sign. Zero has a sign as a double only. -/
def Literal.found (literal : Literal) (negative : Bool) : Except Cause Found :=
  let size := digitsValue literal.whole
  let isWhole := literal.fraction.isEmpty && literal.power.isNone
  if isWhole && !negative && size ≤ wordLimit then .ok (.integer size)
  else if isWhole && negative && 0 < size && size ≤ 0x8000000000000000 then .ok (.integer (-size))
  else
    literal.double.map fun value =>
      .floating (doubleLayout.renderDouble (if negative then -value else value))

/-- Reads a number after its minus sign, if it had one. -/
def readNumber (negative : Bool) (text : List Char) : Result Found :=
  match readLiteral text with
  | .error cause => .error cause
  | .ok (literal, rest) => (literal.found negative).map (·, rest)

/-- Passes over a number after its minus sign; only its shape matters. -/
def skipNumber (text : List Char) : Except Cause (List Char) :=
  match readLiteral text with
  | .error _ => .error .invalidNumber
  | .ok (_, rest) => .ok rest

theorem length_skipNumber {text rest : List Char} (read : skipNumber text = .ok rest) :
    rest.length < text.length := by
  unfold skipNumber at read
  split at read
  · cases read
  · rename_i literal
    cases read
    exact length_readLiteral literal

end PinUart.Json
