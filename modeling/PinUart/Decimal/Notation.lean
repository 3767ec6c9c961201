import PinUart.Decimal.Shortest

/-! Writing a decimal with a point, or with an exponent where the point would lie
too far from its digits. -/
namespace PinUart.Decimal

/-- How numbers are laid out. Leading digits from the place `lowest` up to the
place `highest` are written with a point. -/
structure Layout where
  lowest : Int
  highest : Int
  /-- Written after whole numbers. -/
  whole : List Char
  /-- Written before an exponent that is not negative. -/
  plus : List Char

def zeros (count : Nat) : List Char := List.replicate count '0'

/-- A decimal written with a point, given its digits and the place of the first. -/
def positional (layout : Layout) (digits : List Char) (leading : Int) : List Char :=
  if leading < 0 then ['0', '.'] ++ zeros (-leading - 1).toNat ++ digits
  else
    let before := leading.toNat + 1
    if digits.length ≤ before then digits ++ zeros (before - digits.length) ++ layout.whole
    else digits.take before ++ ['.'] ++ digits.drop before

/-- A decimal written with one digit before the point, and an exponent. -/
def scientific (layout : Layout) (digits : List Char) (leading : Int) : List Char :=
  let fraction := if digits.length ≤ 1 then [] else '.' :: digits.drop 1
  let sign := if leading < 0 then ['-'] else layout.plus
  digits.take 1 ++ fraction ++ ['e'] ++ sign ++ (Nat.repr leading.natAbs).toList

def Layout.render (layout : Layout) (decimal : Shortest) : List Char :=
  let digits := (Nat.repr decimal.digits).toList
  let leading := decimal.exponent + (digits.length : Int) - 1
  if layout.lowest ≤ leading ∧ leading ≤ layout.highest then positional layout digits leading
  else scientific layout digits leading

/-- A finite double in its shortest form; both zeros keep their sign. -/
def Layout.renderDouble (layout : Layout) (value : Float) : List Char :=
  let bits := value.toBits.toNat
  let sign := if 0x8000000000000000 ≤ bits then ['-'] else []
  match (Binary.ofBits (bits % 0x8000000000000000)).shortest? with
  | none => sign ++ ['0'] ++ layout.whole
  | some decimal => sign ++ layout.render decimal

end PinUart.Decimal
