import PinUart.Config.Reader
import PinUart.Proofs.Nesting

/-! The fields of a configuration by themselves: what each holds, how its value may be
written, and that the value is read from there. -/
namespace PinUart

open Decimal (digitsValue)

namespace Json

/-- How a number is written where an integer is wanted: without sign, point and exponent. -/
structure Counts (number : Nat) (text : List Char) : Prop where
  whole : Whole text
  value : digitsValue text = number

/-- How a number is written that need not be there. -/
inductive CountsOrNull {α : Type} (toNat : α → Nat) : Option α → List Char → Prop where
  | null : CountsOrNull toNat none "null".toList
  | count {value : α} {text : List Char} (counts : Counts (toNat value) text) :
      CountsOrNull toNat (some value) text

variable {before text rest : List Char}

theorem found_integer {literal : Literal} (pointless : literal.fraction = [])
    (powerless : literal.power = none) (small : digitsValue literal.whole ≤ wordLimit) :
    literal.found false = .ok (.integer (digitsValue literal.whole)) := by
  simp [Literal.found, pointless, powerless, small]

theorem readFound_integer {number : Nat} (leading : Blanks before) (counts : Counts number text)
    (small : number ≤ wordLimit) (ends : Delimited rest) :
    readFound (before ++ (text ++ rest)) = .ok (.integer number, rest) := by
  obtain ⟨literal, read, whole, pointless, powerless⟩ :=
    readLiteral_append counts.whole .none .none ends
  have value : literal.found false = .ok (.integer number) := by
    rw [found_integer (pointless rfl) (powerless rfl), whole, counts.value]
    rwa [whole, counts.value]
  obtain ⟨c, later, rfl, digit⟩ := counts.whole.head
  have other := digit_ne digit
  rw [readFound, skipBlank_append leading, List.cons_append,
    skipBlank_cons fun blank => other (List.mem_append_left _ blank)]
  split
  case h_9 same =>
    cases same
    simp only [List.nil_append, List.cons_append] at read
    rw [isDigit_eq, if_pos digit, readNumber, read]
    simp only [value]
    rfl
  all_goals
    rename_i same
    cases same
    try simp at other

theorem readFound_boolean (leading : Blanks before) (value : Bool) (rest : List Char) :
    readFound (before ++ ((toString value).toList ++ rest)) = .ok (.boolean value, rest) := by
  rw [readFound, skipBlank_append leading]
  cases value with
  | false =>
    have start : skipBlank ((toString false).toList ++ rest) =
        'f' :: (['a', 'l', 's', 'e'] ++ rest) :=
      skipBlank_cons (by decide) _
    simp only [start, found, expectWord_append, Except.map]
  | true =>
    have start : skipBlank ((toString true).toList ++ rest) = 't' :: (['r', 'u', 'e'] ++ rest) :=
      skipBlank_cons (by decide) _
    simp only [start, found, expectWord_append, Except.map]

theorem skipBlank_null (leading : Blanks before) (rest : List Char) :
    skipBlank (before ++ ("null".toList ++ rest)) = 'n' :: (['u', 'l', 'l'] ++ rest) :=
  (skipBlank_append leading _).trans (skipBlank_cons (by decide) _)

theorem readNull_append (kind : String) (leading : Blanks before) (rest : List Char) :
    readNull kind (before ++ ("null".toList ++ rest)) = .ok rest := by
  rw [readNull, readFound, skipBlank_null leading]
  simp only [found, expectWord_append, Except.map]

theorem readUnsigned_append {kind : String} {limit number : Nat} (leading : Blanks before)
    (counts : Counts number text) (bound : number ≤ limit) (small : limit ≤ wordLimit)
    (ends : Delimited rest) :
    readUnsigned kind limit (before ++ (text ++ rest)) = .ok (number, rest) := by
  rw [readUnsigned, readFound_integer leading counts (Nat.le_trans bound small) ends]
  simp only
  rw [if_pos ⟨Int.natCast_nonneg number, Int.ofNat_le.mpr bound⟩, Int.toNat_natCast]

theorem readBoolean_append (leading : Blanks before) (value : Bool) (rest : List Char) :
    readBoolean (before ++ ((toString value).toList ++ rest)) = .ok (value, rest) := by
  rw [readBoolean, readFound_boolean leading]

/-- What reads a number reads one that need not be there, too. -/
theorem readOptional_append {α β : Type} {toNat : α → Nat} {act : α → β} {value : Option α}
    {reader : List Char → Result β} (leading : Blanks before)
    (written : CountsOrNull toNat value text)
    (reads : ∀ value, Counts (toNat value) text → reader (text ++ rest) = .ok (act value, rest)) :
    readOptional reader (before ++ (text ++ rest)) = .ok (value.map act, rest) := by
  cases written with
  | null =>
    rw [readOptional, skipBlank_null leading]
    simp only [expectWord_append, Except.map, Option.map_none]
  | @count value text counts =>
    have read := reads value counts
    obtain ⟨c, later, rfl, digit⟩ := counts.whole.head
    have other := digit_ne digit
    have start := skipBlank_cons (fun blank => other (List.mem_append_left _ blank)) (later ++ rest)
    rw [readOptional, skipBlank_append leading, List.cons_append, start]
    split
    case h_1 same =>
      cases same
      simp at other
    case h_2 =>
      rw [List.cons_append] at read
      simp only [read, mapValue, Option.map_some]

end Json

namespace Config

open Json

/-- What a field holds. -/
def Field.Value : Field → Type
  | .rxPin => Option Pin
  | .txPin => Option Pin
  | .enablePin => Option Pin
  | .invert => Bool
  | .baud => UInt32
  | .byteCapacity => UInt64
  | .edgeCapacity => Option UInt64
  | .drive => Drive
  | .interruptible => Bool

def get (config : Config) : (field : Field) → field.Value
  | .rxPin => config.rxPin
  | .txPin => config.txPin
  | .enablePin => config.enablePin
  | .invert => config.invert
  | .baud => config.baud
  | .byteCapacity => config.byteCapacity
  | .edgeCapacity => config.edgeCapacity
  | .drive => config.drive
  | .interruptible => config.interruptible

def set (config : Config) : (field : Field) → field.Value → Config
  | .rxPin, pin => { config with rxPin := pin }
  | .txPin, pin => { config with txPin := pin }
  | .enablePin, pin => { config with enablePin := pin }
  | .invert, invert => { config with invert := invert }
  | .baud, baud => { config with baud := baud }
  | .byteCapacity, size => { config with byteCapacity := size }
  | .edgeCapacity, size => { config with edgeCapacity := size }
  | .drive, drive => { config with drive := drive }
  | .interruptible, allowed => { config with interruptible := allowed }

@[simp] theorem get_set_self (config : Config) (field : Field) (value : field.Value) :
    (config.set field value).get field = value := by
  cases field <;> rfl

theorem get_set_of_ne (config : Config) {field other : Field} (value : field.Value)
    (differ : other ≠ field) : (config.set field value).get other = config.get other := by
  cases field <;> cases other <;> first | rfl | exact absurd rfl differ

theorem ext_get {config other : Config} (same : ∀ field, config.get field = other.get field) :
    config = other := by
  obtain ⟨_, _, _, _, _, _, _, _, _⟩ := config
  obtain ⟨_, _, _, _, _, _, _, _, _⟩ := other
  rw [mk.injEq]
  exact ⟨same .rxPin, same .txPin, same .enablePin, same .invert, same .baud,
    same .byteCapacity, same .edgeCapacity, same .drive, same .interruptible⟩

/-- A drive is given by its name, or by an object that has the name as its key. -/
inductive Driven (drive : Drive) : List Char → Prop where
  | name {name : List Char} (named : Spelled drive.name.toList name) :
      Driven drive ('"' :: (name ++ ['"']))
  | object {first name second third fourth : List Char} (leading : Blanks first)
      (named : Spelled drive.name.toList name) (middle : Blanks second) (gap : Blanks third)
      (trailing : Blanks fourth) :
      Driven drive ('\x7b' :: (first ++ '"' :: (name ++ '"' :: (second ++ ':' ::
        (third ++ ("null".toList ++ (fourth ++ ['\x7d'])))))))

/-- The ways to write the value of a field. -/
def Written : (field : Field) → field.Value → List Char → Prop
  | .rxPin, (pin : Option Pin) => CountsOrNull UInt8.toNat pin
  | .txPin, (pin : Option Pin) => CountsOrNull UInt8.toNat pin
  | .enablePin, (pin : Option Pin) => CountsOrNull UInt8.toNat pin
  | .invert, (invert : Bool) => (· = (toString invert).toList)
  | .baud, (baud : UInt32) => Counts baud.toNat
  | .byteCapacity, (size : UInt64) => Counts size.toNat
  | .edgeCapacity, (size : Option UInt64) => CountsOrNull UInt64.toNat size
  | .drive, drive => Driven drive
  | .interruptible, (allowed : Bool) => (· = (toString allowed).toList)

variable {before text rest : List Char}

theorem driveOf_name (drive : Drive) : driveOf drive.name.toList = .ok drive := by
  cases drive <;> rfl

theorem readDrive_append {drive : Drive} (leading : Blanks before) (driven : Driven drive text)
    (rest : List Char) : readDrive (before ++ (text ++ rest)) = .ok (drive, rest) := by
  rw [readDrive, skipBlank_append leading]
  cases driven with
  | @name name named =>
    rw [List.cons_append, List.append_assoc, List.singleton_append, skipBlank_cons (by decide)]
    simp only [readText_append named, driveOf_name, Except.map]
  | @object first name second third fourth leading named middle gap trailing =>
    have key (rest : List Char) : readDriveKey (first ++ '"' :: (name ++ '"' :: rest)) =
        .ok (drive.name.toList, rest) := by
      rw [readDriveKey, skipBlank_append leading, skipBlank_cons (by decide)]
      exact readText_append named rest
    have closed : closeDrive drive (fourth ++ '\x7d' :: rest) = .ok (drive, rest) := by
      rw [closeDrive, skipBlank_append trailing, skipBlank_cons (by decide)]
      rfl
    simp only [List.cons_append, List.append_assoc, List.nil_append]
    rw [skipBlank_cons (by decide)]
    change readDriveObject _ = _
    rw [readDriveObject, key]
    simp only [driveOf_name, skipColon_append middle, Except.bind, readNull_append _ gap]
    exact closed

theorem readPin_append {pin : Option Pin} (leading : Blanks before)
    (written : CountsOrNull UInt8.toNat pin text) (ends : Delimited rest) :
    readPin (before ++ (text ++ rest)) = .ok (pin, rest) := by
  have number (pin : Pin) (counts : Counts pin.toNat text) :
      readUnsigned "u8" 0xff (text ++ rest) = .ok (pin.toNat, rest) :=
    readUnsigned_append Blanks.nil counts (Nat.le_of_lt_succ pin.toNat_lt) (by decide) ends
  rw [readPin, readOptional_append leading written number]
  cases pin <;> simp [mapValue]

theorem readSize_append {size : UInt64} (leading : Blanks before)
    (counts : Counts size.toNat text) (ends : Delimited rest) :
    readSize (before ++ (text ++ rest)) = .ok (size, rest) := by
  have bound : size.toNat ≤ 0xffffffffffffffff := Nat.le_of_lt_succ size.toNat_lt
  rw [readSize, readUnsigned_append leading counts bound (by decide) ends]
  simp [mapValue]

theorem readBaud_append {baud : UInt32} (leading : Blanks before)
    (counts : Counts baud.toNat text) (ends : Delimited rest) :
    readBaud (before ++ (text ++ rest)) = .ok (baud, rest) := by
  have bound : baud.toNat ≤ 0xffffffff := Nat.le_of_lt_succ baud.toNat_lt
  rw [readBaud, readUnsigned_append leading counts bound (by decide) ends]
  simp [mapValue]

theorem readField_append {field : Field} {value : field.Value} (config : Config)
    (leading : Blanks before) (written : Written field value text) (ends : Delimited rest) :
    readField config (before ++ (text ++ rest)) field = .ok (config.set field value, rest) := by
  cases field with
  | rxPin => exact congrArg (mapValue (config.set .rxPin)) (readPin_append leading written ends)
  | txPin => exact congrArg (mapValue (config.set .txPin)) (readPin_append leading written ends)
  | enablePin =>
    exact congrArg (mapValue (config.set .enablePin)) (readPin_append leading written ends)
  | invert =>
    cases written
    exact congrArg (mapValue (config.set .invert)) (readBoolean_append leading value rest)
  | baud => exact congrArg (mapValue (config.set .baud)) (readBaud_append leading written ends)
  | byteCapacity =>
    exact congrArg (mapValue (config.set .byteCapacity)) (readSize_append leading written ends)
  | edgeCapacity =>
    have read := readOptional_append leading written fun size counts =>
      readSize_append Blanks.nil counts ends
    rw [Option.map_id_fun'] at read
    exact congrArg (mapValue (config.set .edgeCapacity)) read
  | drive => exact congrArg (mapValue (config.set .drive)) (readDrive_append leading written rest)
  | interruptible =>
    cases written
    exact congrArg (mapValue (config.set .interruptible)) (readBoolean_append leading value rest)

end Config
end PinUart
