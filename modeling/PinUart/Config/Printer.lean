import PinUart.Config.Field

/-! A configuration as a JSON object, one field on a line. -/
namespace PinUart.Config

def optionText (render : α → String) : Option α → String
  | none => "null"
  | some value => render value

/-- The value of a field, as it is written. -/
def fieldText (config : Config) : Field → String
  | .rxPin => optionText (Nat.repr ·.toNat) config.rxPin
  | .txPin => optionText (Nat.repr ·.toNat) config.txPin
  | .enablePin => optionText (Nat.repr ·.toNat) config.enablePin
  | .invert => toString config.invert
  | .baud => Nat.repr config.baud.toNat
  | .byteCapacity => Nat.repr config.byteCapacity.toNat
  | .edgeCapacity => optionText (Nat.repr ·.toNat) config.edgeCapacity
  | .drive => "\"" ++ config.drive.name ++ "\""
  | .interruptible => toString config.interruptible

def fieldLine (config : Config) (field : Field) : String :=
  "  \"" ++ field.name ++ "\": " ++ config.fieldText field

/-- The object with its fields in order, indented by two blanks. -/
def toJson (config : Config) : String :=
  "\x7b\n" ++ String.intercalate ",\n" (Field.all.map config.fieldLine) ++ "\n\x7d"

end PinUart.Config
