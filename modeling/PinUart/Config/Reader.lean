import PinUart.Config.Field
import PinUart.Error
import PinUart.Json.Skip

/-! Reading a configuration from a JSON object, or from a list that holds the fields
in order. Fields that are missing keep their defaults, and unknown ones are passed
over; of two faults the one that comes first in the text is told. -/
namespace PinUart.Config

open Json

/-- Names the variant of a drive that was read. -/
def driveOf (name : List Char) : Except Cause Drive :=
  match Drive.ofName? name with
  | some drive => .ok drive
  | none => .error (.unknownVariant name Drive.pushPull.name Drive.pullUpRelease.name)

/-- The end of an object that holds a drive. -/
def closeDrive (drive : Drive) (text : List Char) : Result Drive :=
  match skipBlank text with
  | [] => .error .endInObject
  | c :: rest => if c = '\x7d' then .ok (drive, rest) else .error .expectedValue

/-- The only key of an object that holds a drive. -/
def readDriveKey (text : List Char) : Result (List Char) :=
  match skipBlank text with
  | [] => .error .endInObject
  | '"' :: rest => readText rest
  | c :: _ => .error (if c = '\x7d' then .expectedValue else .keyMustBeString)

/-- Reads a drive given as an object that has its name as the only key, with null. -/
def readDriveObject (text : List Char) : Result Drive :=
  match readDriveKey text with
  | .error cause => .error cause
  | .ok (name, rest) =>
    match driveOf name with
    | .error cause => .error cause
    | .ok drive =>
      match (skipColon rest).bind (readNull "unit") with
      | .error cause => .error cause
      | .ok rest => closeDrive drive rest

def readDrive (text : List Char) : Result Drive :=
  match skipBlank text with
  | [] => .error .endInValue
  | '"' :: rest =>
    match readText rest with
    | .error cause => .error cause
    | .ok (name, rest) => (driveOf name).map (·, rest)
  | c :: rest => if c = '\x7b' then readDriveObject rest else .error .expectedValue

def readPin (text : List Char) : Result (Option Pin) :=
  mapValue (·.map UInt8.ofNat) (readOptional (readUnsigned "u8" 0xff) text)

def readSize (text : List Char) : Result UInt64 :=
  mapValue UInt64.ofNat (readUnsigned "usize" 0xffffffffffffffff text)

def readBaud (text : List Char) : Result UInt32 :=
  mapValue UInt32.ofNat (readUnsigned "u32" 0xffffffff text)

/-- Reads the value of a field into a configuration. -/
def readField (config : Config) (text : List Char) : Field → Result Config
  | .rxPin => mapValue ({ config with rxPin := · }) (readPin text)
  | .txPin => mapValue ({ config with txPin := · }) (readPin text)
  | .enablePin => mapValue ({ config with enablePin := · }) (readPin text)
  | .invert => mapValue ({ config with invert := · }) (readBoolean text)
  | .baud => mapValue ({ config with baud := · }) (readBaud text)
  | .byteCapacity => mapValue ({ config with byteCapacity := · }) (readSize text)
  | .edgeCapacity =>
    mapValue ({ config with edgeCapacity := · }) (readOptional readSize text)
  | .drive => mapValue ({ config with drive := · }) (readDrive text)
  | .interruptible => mapValue ({ config with interruptible := · }) (readBoolean text)

private theorem length_readDriveKey {text name rest : List Char}
    (read : readDriveKey text = .ok (name, rest)) : rest.length < text.length := by
  have := length_skipBlank_le text
  unfold readDriveKey at read
  split at read
  · cases read
  · have := length_readText read
    grind
  · cases read

private theorem length_readDrive_le {text rest : List Char} {drive : Drive}
    (read : readDrive text = .ok (drive, rest)) : rest.length ≤ text.length := by
  have := length_skipBlank_le text
  unfold readDrive at read
  split at read
  · cases read
  · split at read
    · cases read
    · rename_i name left content
      have := length_readText content
      cases known : driveOf name with
      | error _ => simp [known, Except.map] at read
      | ok _ =>
        simp only [known, Except.map, Except.ok.injEq, Prod.mk.injEq] at read
        grind
  · split at read
    · unfold readDriveObject at read
      split at read
      · cases read
      · rename_i name left content
        have := length_readDriveKey content
        split at read
        · cases read
        · split at read
          · cases read
          · rename_i ending inner
            cases colon : skipColon left with
            | error _ => simp [colon, Except.bind] at inner
            | ok after =>
              have := length_skipColon colon
              simp only [colon, Except.bind] at inner
              have := length_readNull_le inner
              have := length_skipBlank_le ending
              unfold closeDrive at read
              grind
    · cases read

private theorem length_mapValue_le {α β : Type} {act : α → β} {read : Result α} {answer : β}
    {text rest : List Char}
    (bound : ∀ value rest, read = .ok (value, rest) → rest.length ≤ text.length)
    (mapped : mapValue act read = .ok (answer, rest)) : rest.length ≤ text.length := by
  obtain ⟨value, found, -⟩ := mapValue_eq_ok.mp mapped
  exact bound value rest found

private theorem length_readPin_le {text rest : List Char} {pin : Option Pin}
    (read : readPin text = .ok (pin, rest)) : rest.length ≤ text.length :=
  length_mapValue_le
    (fun _ _ => length_readOptional_le fun _ _ _ => length_readUnsigned_le) read

private theorem length_readSize_le {text rest : List Char} {size : UInt64}
    (read : readSize text = .ok (size, rest)) : rest.length ≤ text.length :=
  length_mapValue_le (fun _ _ => length_readUnsigned_le) read

theorem length_readField_le {config answer : Config} {field : Field} {text rest : List Char}
    (read : readField config text field = .ok (answer, rest)) : rest.length ≤ text.length := by
  cases field with
  | rxPin => exact length_mapValue_le (fun _ _ => length_readPin_le) read
  | txPin => exact length_mapValue_le (fun _ _ => length_readPin_le) read
  | enablePin => exact length_mapValue_le (fun _ _ => length_readPin_le) read
  | invert => exact length_mapValue_le (fun _ _ => length_readBoolean_le) read
  | baud =>
    exact length_mapValue_le
      (fun _ _ => length_mapValue_le fun _ _ => length_readUnsigned_le) read
  | byteCapacity => exact length_mapValue_le (fun _ _ => length_readSize_le) read
  | edgeCapacity =>
    exact length_mapValue_le
      (fun _ _ => length_readOptional_le fun _ _ _ => length_readSize_le) read
  | drive => exact length_mapValue_le (fun _ _ => length_readDrive_le) read
  | interruptible => exact length_mapValue_le (fun _ _ => length_readBoolean_le) read

/-- Goes to the next key of an object, behind its opening quote. -/
def nextKey (first : Bool) : List Char → Except Cause (List Char)
  | [] => .error .endInObject
  | c :: rest =>
    if first then if c = '"' then .ok rest else .error .keyMustBeString
    else if c = ',' then
      match skipBlank rest with
      | [] => .error .endInValue
      | '"' :: rest => .ok rest
      | d :: _ => .error (if d = '\x7d' then .trailingComma else .keyMustBeString)
    else .error .expectedCommaOrBrace

/-- Reads a member of an object, behind the opening quote of its key. Answers with
the fields that have been seen so far. -/
def readMember (seen : List Field) (config : Config) (text : List Char) :
    Result (List Field × Config) :=
  match readText text with
  | .error cause => .error cause
  | .ok (key, rest) =>
    match Field.ofName? key with
    | none => ((skipColon rest).bind skipValue).map ((seen, config), ·)
    | some field =>
      if field ∈ seen then .error (.duplicateField field.name)
      else
        match skipColon rest with
        | .error cause => .error cause
        | .ok rest => mapValue (field :: seen, ·) (readField config rest field)

private theorem length_nextKey {first : Bool} {text rest : List Char}
    (read : nextKey first text = .ok rest) : rest.length < text.length := by
  unfold nextKey at read
  split at read
  · cases read
  · rename_i c after
    have := length_skipBlank_le after
    grind

private theorem length_readMember_le {seen later : List Field} {config answer : Config}
    {text rest : List Char}
    (read : readMember seen config text = .ok ((later, answer), rest)) :
    rest.length ≤ text.length := by
  unfold readMember at read
  split at read
  · cases read
  · rename_i key after content
    have := length_readText content
    split at read
    · cases colon : skipColon after with
      | error _ => simp [colon, Except.bind, Except.map] at read
      | ok left =>
        have := length_skipColon colon
        cases skipped : skipValue left with
        | error _ => simp [colon, skipped, Except.bind, Except.map] at read
        | ok _ =>
          have := length_skipValue_le skipped
          simp only [colon, skipped, Except.bind, Except.map, Except.ok.injEq,
            Prod.mk.injEq] at read
          grind
    · split at read
      · cases read
      · split at read
        · cases read
        · rename_i colon
          have := length_skipColon colon
          obtain ⟨_, value, -⟩ := mapValue_eq_ok.mp read
          have := length_readField_le value
          omega

/-- Reads the members of an object, behind its opening brace. -/
def readMembers (seen : List Field) (config : Config) (first : Bool) (text : List Char) :
    Result Config :=
  match _found : skipBlank text with
  | [] => .error .endInObject
  | c :: rest =>
    if c = '\x7d' then .ok (config, rest)
    else
      match _key : nextKey first (c :: rest) with
      | .error cause => .error cause
      | .ok inner =>
        match _member : readMember seen config inner with
        | .error cause => .error cause
        | .ok ((seen, config), rest) => readMembers seen config false rest
  termination_by text.length
  decreasing_by
    have := length_of_skipBlank _found
    have := length_nextKey _key
    have := length_readMember_le _member
    grind

/-- The end of a list that holds all fields. -/
def closeList (config : Config) (text : List Char) : Result Config :=
  match skipBlank text with
  | [] => .error .endInList
  | ']' :: rest => .ok (config, rest)
  | c :: rest =>
    if c = ',' ∧ (skipBlank rest).head? = some ']' then .error .trailingComma
    else .error .trailingCharacters

/-- Goes to the next element of a list, given the text at the end of the last. -/
def nextElement (first : Bool) (text : List Char) : Except Cause (List Char) :=
  if first then .ok text
  else
    match text with
    | ',' :: rest =>
      match skipBlank rest with
      | [] => .error .endInValue
      | c :: rest => if c = ']' then .error .trailingComma else .ok (c :: rest)
    | _ => .error .expectedCommaOrBracket

/-- Reads the fields from a list that may end early, behind its opening bracket. -/
def readElements (config : Config) (first : Bool) (text : List Char) : List Field → Result Config
  | [] => closeList config text
  | field :: fields =>
    match skipBlank text with
    | [] => .error .endInList
    | ']' :: rest => .ok (config, rest)
    | c :: rest =>
      match nextElement first (c :: rest) with
      | .error cause => .error cause
      | .ok element =>
        match readField config element field with
        | .error cause => .error cause
        | .ok (config, rest) => readElements config false rest fields

/-- Reads the object or list at the start of a text. -/
def readConfig (text : List Char) : Result Config :=
  match skipBlank text with
  | '\x7b' :: rest => readMembers [] {} true rest
  | '[' :: rest => readElements {} true rest Field.all
  | text =>
    match readFound text with
    | .error cause => .error cause
    | .ok (found, _) => .error (.invalidType found "struct SerialConfig")

/-- Reads a text that holds one configuration and nothing else. -/
def parse (text : List Char) : Except Cause Config :=
  match readConfig text with
  | .error cause => .error cause
  | .ok (config, rest) =>
    if (skipBlank rest).isEmpty then .ok config else .error .trailingCharacters

/-- Reads a configuration from JSON. -/
def ofJson (text : String) : Except PortError Config :=
  (parse text.toList).mapError fun cause => .configuration cause.message

end PinUart.Config
