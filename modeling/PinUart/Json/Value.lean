import PinUart.Json.Number
import PinUart.Json.Text

/-! Single values of a JSON text: what stands at a place, and the few kinds of value
that are wanted. -/
namespace PinUart.Json

open Decimal (isDigit)

def found (value : Found) (rest : Except Cause (List Char)) : Result Found :=
  rest.map (value, ·)

/-- Reads the value at the start of a text as far as is needed to say what it is: of
a list or an object only that it begins. -/
def readFound (text : List Char) : Result Found :=
  match skipBlank text with
  | [] => .error .endInValue
  | 'n' :: rest => found .null (expectWord ['u', 'l', 'l'] rest)
  | 't' :: rest => found (.boolean true) (expectWord ['r', 'u', 'e'] rest)
  | 'f' :: rest => found (.boolean false) (expectWord ['a', 'l', 's', 'e'] rest)
  | '-' :: rest => readNumber true rest
  | '"' :: rest => mapValue .string (readText rest)
  | '[' :: rest => .ok (.sequence, '[' :: rest)
  | '\x7b' :: rest => .ok (.map, '\x7b' :: rest)
  | c :: rest => if isDigit c then readNumber false (c :: rest) else .error .expectedValue

/-- Reads an integer up to `limit`; `kind` names what is wanted. -/
def readUnsigned (kind : String) (limit : Nat) (text : List Char) : Result Nat :=
  match readFound text with
  | .error cause => .error cause
  | .ok (.integer value, rest) =>
    if 0 ≤ value ∧ value ≤ limit then .ok (value.toNat, rest)
    else .error (.invalidValue (.integer value) kind)
  | .ok (value, _) => .error (.invalidType value kind)

def readBoolean (text : List Char) : Result Bool :=
  match readFound text with
  | .error cause => .error cause
  | .ok (.boolean value, rest) => .ok (value, rest)
  | .ok (value, _) => .error (.invalidType value "a boolean")

/-- Reads a null; `kind` names what is wanted. -/
def readNull (kind : String) (text : List Char) : Except Cause (List Char) :=
  match readFound text with
  | .error cause => .error cause
  | .ok (.null, rest) => .ok rest
  | .ok (value, _) => .error (.invalidType value kind)

/-- Reads a null as nothing, and leaves everything else to `read`. -/
def readOptional (read : List Char → Result α) (text : List Char) : Result (Option α) :=
  match skipBlank text with
  | 'n' :: rest => (expectWord ['u', 'l', 'l'] rest).map (none, ·)
  | text => mapValue some (read text)

theorem length_readNumber {negative : Bool} {text rest : List Char} {value : Found}
    (read : readNumber negative text = .ok (value, rest)) : rest.length < text.length := by
  unfold readNumber at read
  split at read
  · cases read
  · rename_i literal left scanned
    have := length_readLiteral scanned
    match size : literal.found negative with
    | .error _ => simp [size, Except.map] at read
    | .ok _ =>
      simp only [size, Except.map, Except.ok.injEq, Prod.mk.injEq] at read
      grind

private theorem length_found_le {value found : Found} {word text rest : List Char}
    (read : Json.found value (expectWord word text) = .ok (found, rest)) :
    rest.length ≤ text.length := by
  match left : expectWord word text with
  | .error _ => simp [Json.found, left, Except.map] at read
  | .ok after =>
    have := length_expectWord_le left
    simp only [Json.found, left, Except.map, Except.ok.injEq, Prod.mk.injEq] at read
    grind

theorem length_readFound_le {text rest : List Char} {value : Found}
    (read : readFound text = .ok (value, rest)) : rest.length ≤ text.length := by
  have bound := length_skipBlank_le text
  unfold readFound at read
  split at read
  · cases read
  · rename_i whole; have := length_found_le read; grind
  · rename_i whole; have := length_found_le read; grind
  · rename_i whole; have := length_found_le read; grind
  · rename_i whole; have := length_readNumber read; grind
  · rename_i whole
    obtain ⟨content, content_read, -⟩ := mapValue_eq_ok.mp read
    have := length_readText content_read
    grind
  · grind
  · grind
  · split at read
    · have := length_readNumber read; grind
    · cases read

theorem length_readUnsigned_le {kind : String} {limit value : Nat} {text rest : List Char}
    (read : readUnsigned kind limit text = .ok (value, rest)) : rest.length ≤ text.length := by
  unfold readUnsigned at read
  split at read
  · cases read
  · rename_i found
    have := length_readFound_le found
    grind
  · cases read

theorem length_readBoolean_le {value : Bool} {text rest : List Char}
    (read : readBoolean text = .ok (value, rest)) : rest.length ≤ text.length := by
  unfold readBoolean at read
  split at read
  · cases read
  · rename_i found
    have := length_readFound_le found
    grind
  · cases read

theorem length_readNull_le {kind : String} {text rest : List Char}
    (read : readNull kind text = .ok rest) : rest.length ≤ text.length := by
  unfold readNull at read
  split at read
  · cases read
  · rename_i found
    have := length_readFound_le found
    grind
  · cases read

theorem length_readOptional_le {α : Type} {reader : List Char → Result α} {value : Option α}
    {text rest : List Char}
    (bound : ∀ text value rest, reader text = .ok (value, rest) → rest.length ≤ text.length)
    (read : readOptional reader text = .ok (value, rest)) : rest.length ≤ text.length := by
  have := length_skipBlank_le text
  unfold readOptional at read
  split at read
  · rename_i after whole
    match left : expectWord ['u', 'l', 'l'] after with
    | .error _ => simp [left, Except.map] at read
    | .ok _ =>
      have := length_expectWord_le left
      simp only [left, Except.map, Except.ok.injEq, Prod.mk.injEq] at read
      grind
  · obtain ⟨inner, inner_read, -⟩ := mapValue_eq_ok.mp read
    have := bound _ _ _ inner_read
    omega

/-- Passes over the colon after a key. -/
def skipColon (text : List Char) : Except Cause (List Char) :=
  match skipBlank text with
  | [] => .error .endInObject
  | ':' :: rest => .ok rest
  | _ => .error .expectedColon

theorem length_skipColon {text rest : List Char} (read : skipColon text = .ok rest) :
    rest.length < text.length := by
  have := length_skipBlank_le text
  unfold skipColon at read
  grind

end PinUart.Json
