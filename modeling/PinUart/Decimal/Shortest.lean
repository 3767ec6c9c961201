/-! The shortest decimal that identifies a binary floating-point number. Of all
decimals that round to the number, one with the coarsest last place is taken,
and of two such the nearer one, or the even one if they are equally near. -/
namespace PinUart.Decimal

/-- A positive number `mantissa * 2 ^ exponent`, with the quarter units of its last
place that lie between it and the ends of the interval that rounds to it. -/
structure Binary where
  mantissa : Nat
  exponent : Int
  below : Nat := 2
  above : Nat := 2

/-- Splits the bits of a finite double, its sign set aside. The interval below the
first number of a binade is half as wide, since the numbers there lie closer. -/
def Binary.ofBits (bits : Nat) : Binary :=
  let fraction := bits % 0x10000000000000
  let field : Nat := bits / 0x10000000000000 % 0x800
  if field = 0 then { mantissa := fraction, exponent := -1074 }
  else
    { mantissa := fraction + 0x10000000000000
      exponent := (field : Int) - 1075
      below := if fraction = 0 ∧ 1 < field then 1 else 2 }

/-- A decimal `digits * 10 ^ exponent`. -/
structure Shortest where
  digits : Nat
  exponent : Int
  deriving DecidableEq, Repr

namespace Binary

/-- The number in quarters of its last place, over the unit `10 ^ place`: its
numerator, the units of one quarter, and the denominator. -/
def scale (number : Binary) (place : Int) : Nat × Nat :=
  let quarter := number.exponent - 2
  (Nat.pow 2 quarter.toNat * Nat.pow 10 (-place).toNat,
    Nat.pow 2 (-quarter).toNat * Nat.pow 10 place.toNat)

/-- The best multiple of `10 ^ place` that rounds to the number, if there is one. -/
def multiple? (number : Binary) (place : Int) : Option Nat :=
  let (up, down) := number.scale place
  let value := 4 * number.mantissa * up
  let low := (4 * number.mantissa - number.below) * up
  let high := (4 * number.mantissa + number.above) * up
  let closed := number.mantissa % 2 = 0
  let inside (count : Nat) : Bool :=
    if closed then low ≤ count * down && count * down ≤ high
    else low < count * down && count * down < high
  let lower := value / down
  let upper := lower + 1
  let toLower := value - lower * down
  let toUpper := upper * down - value
  match inside lower, inside upper with
  | false, false => none
  | true, false => some lower
  | false, true => some upper
  | true, true =>
    if toLower < toUpper then some lower
    else if toUpper < toLower then some upper
    else some (if lower % 2 = 0 then lower else upper)

/-- The places of a decimal that a double can need, the coarsest first. -/
def places : List Int := (List.range 633).map fun step => 308 - Int.ofNat step

/-- The shortest decimal of a number; zero has none. -/
def shortest? (number : Binary) : Option Shortest :=
  if number.mantissa = 0 then none
  else places.findSome? fun place => (number.multiple? place).map fun digits => ⟨digits, place⟩

end Binary
end PinUart.Decimal
