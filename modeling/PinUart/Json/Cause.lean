import PinUart.Text.Quoted

/-! Why a JSON text cannot be read. -/
namespace PinUart.Json

/-- What stood in a place where something else was wanted. A number that is no
integer comes as its text. -/
inductive Found
  | null
  | boolean (value : Bool)
  | integer (value : Int)
  | floating (text : List Char)
  | string (text : List Char)
  | sequence
  | map
  deriving DecidableEq, Repr

def Found.describe : Found → List Char
  | .null => "null".toList
  | .boolean value => "boolean `".toList ++ (toString value).toList ++ ['`']
  | .integer value => "integer `".toList ++ (Int.repr value).toList ++ ['`']
  | .floating text => "floating point `".toList ++ text ++ ['`']
  | .string text => "string ".toList ++ Text.Quoted.encode text
  | .sequence => "sequence".toList
  | .map => "map".toList

inductive Cause
  | endInValue
  | endInList
  | endInObject
  | endInString
  | expectedValue
  | expectedIdent
  | expectedColon
  | expectedCommaOrBracket
  | expectedCommaOrBrace
  | keyMustBeString
  | trailingComma
  | trailingCharacters
  | invalidNumber
  | numberOutOfRange
  | invalidEscape
  | controlCharacter
  | loneSurrogate
  | unfinishedSurrogate
  | invalidType (found : Found) (expected : String)
  | invalidValue (found : Found) (expected : String)
  | unknownVariant (name : List Char) (first second : String)
  | duplicateField (name : String)
  deriving DecidableEq, Repr

def Cause.message : Cause → String
  | .endInValue => "EOF while parsing a value"
  | .endInList => "EOF while parsing a list"
  | .endInObject => "EOF while parsing an object"
  | .endInString => "EOF while parsing a string"
  | .expectedValue => "expected value"
  | .expectedIdent => "expected ident"
  | .expectedColon => "expected `:`"
  | .expectedCommaOrBracket => "expected `,` or `]`"
  | .expectedCommaOrBrace => "expected `,` or `\x7d`"
  | .keyMustBeString => "key must be a string"
  | .trailingComma => "trailing comma"
  | .trailingCharacters => "trailing characters"
  | .invalidNumber => "invalid number"
  | .numberOutOfRange => "number out of range"
  | .invalidEscape => "invalid escape"
  | .controlCharacter => "control character (\\u0000-\\u001F) found while parsing a string"
  | .loneSurrogate => "lone leading surrogate in hex escape"
  | .unfinishedSurrogate => "unexpected end of hex escape"
  | .invalidType found expected =>
    "invalid type: " ++ String.ofList found.describe ++ ", expected " ++ expected
  | .invalidValue found expected =>
    "invalid value: " ++ String.ofList found.describe ++ ", expected " ++ expected
  | .unknownVariant name first second =>
    "unknown variant `" ++ String.ofList name ++ "`, expected `" ++ first ++ "` or `" ++ second ++
      "`"
  | .duplicateField name => "duplicate field `" ++ name ++ "`"

/-- What a reader answers: a value and the text after it, or why there is none. -/
abbrev Result (α : Type) := Except Cause (α × List Char)

/-- Changes the value that was read, and leaves the rest of the text. -/
def mapValue (act : α → β) : Result α → Result β
  | .error cause => .error cause
  | .ok (value, rest) => .ok (act value, rest)

theorem mapValue_eq_ok {act : α → β} {read : Result α} {answer : β} {rest : List Char} :
    mapValue act read = .ok (answer, rest) ↔
      ∃ value, read = .ok (value, rest) ∧ act value = answer := by
  match read with
  | .error _ => simp [mapValue]
  | .ok (value, left) =>
    simp only [mapValue, Except.ok.injEq, Prod.mk.injEq]
    constructor
    · rintro ⟨rfl, rfl⟩
      exact ⟨value, ⟨rfl, rfl⟩, rfl⟩
    · rintro ⟨_, ⟨rfl, rfl⟩, rfl⟩
      exact ⟨rfl, rfl⟩

end PinUart.Json
