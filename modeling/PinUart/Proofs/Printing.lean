import PinUart.Config.Printer
import PinUart.Proofs.Objects

/-! A configuration that was written is read back as it was. -/
namespace PinUart

open Decimal (digitsValue)

namespace Json

theorem toDigits_head {number : Nat} (positive : 0 < number) :
    ∃ first later, Nat.toDigits 10 number = first :: later ∧ first ≠ '0' := by
  induction number using Nat.strongRecOn with
  | ind number ih =>
    by_cases small : number < 10
    · have nonzero : ∀ digit < 10, 0 < digit → Nat.digitChar digit ≠ '0' := by decide
      exact ⟨_, [], Nat.toDigits_of_lt_base small, nonzero number small positive⟩
    · obtain ⟨first, later, digits, nonzero⟩ := ih (number / 10) (by omega) (by omega)
      rw [Nat.toDigits_of_base_le (by decide) (by omega), digits]
      exact ⟨first, _, rfl, nonzero⟩

theorem digitsValue_toDigits (number : Nat) : digitsValue (Nat.toDigits 10 number) = number := by
  have value := Nat.ofDigitChars_toDigits (b := 10) (n := number) (by decide) (by decide)
  rw [Nat.ofDigitChars_eq_foldl] at value
  simpa only [digitsValue, Decimal.digitValue, Nat.mul_comm] using value

/-- A number is written with its decimal digits. -/
theorem counts_repr (number : Nat) : Counts number number.repr.toList := by
  rw [Nat.toList_repr]
  refine ⟨?_, digitsValue_toDigits number⟩
  rcases Nat.eq_zero_or_pos number with rfl | positive
  · exact .zero
  · have digits : Digits (Nat.toDigits 10 number) := fun c member =>
      Nat.isDigit_of_mem_toDigits (by decide) (by decide) member
    obtain ⟨first, later, split, nonzero⟩ := toDigits_head positive
    rw [split] at digits ⊢
    exact .digits (digits first (List.mem_cons_self ..)) nonzero fun c member =>
      digits c (List.mem_cons_of_mem _ member)

end Json

namespace Config

open Json

theorem optionText_written {α : Type} (toNat : α → Nat) (value : Option α) :
    CountsOrNull toNat value (optionText (Nat.repr <| toNat ·) value).toList := by
  cases value with
  | none => exact .null
  | some value => exact .count (counts_repr (toNat value))

theorem drive_written (drive : Drive) :
    Driven drive ("\"" ++ drive.name ++ "\"").toList := by
  rw [String.toList_append, String.toList_append]
  refine .name (spelled_self ?_)
  cases drive <;> decide

/-- The value of a field is written in one of the ways that can be read. -/
theorem fieldText_written (config : Config) (field : Field) :
    Written field (config.get field) (config.fieldText field).toList := by
  cases field with
  | rxPin => exact optionText_written UInt8.toNat config.rxPin
  | txPin => exact optionText_written UInt8.toNat config.txPin
  | enablePin => exact optionText_written UInt8.toNat config.enablePin
  | invert => rfl
  | baud => exact counts_repr config.baud.toNat
  | byteCapacity => exact counts_repr config.byteCapacity.toNat
  | edgeCapacity => exact optionText_written UInt64.toNat config.edgeCapacity
  | drive => exact drive_written config.drive
  | interruptible => rfl

/-- The members that are written. -/
def settings (config : Config) (fields : List Field) : List Entry :=
  fields.map fun field => .setting field (config.get field)

theorem fields_settings (config : Config) (fields : List Field) :
    Config.fields (config.settings fields) = fields := by
  induction fields with
  | nil => rfl
  | cons field fields ih => exact congrArg (field :: ·) ih

/-- A line is a member, the end of the line before it included. -/
theorem fieldLine_member (config : Config) (field : Field) {after : List Char}
    (trailing : Blanks after) :
    Member (.setting field (config.get field))
      ('\n' :: ((config.fieldLine field).toList ++ after)) := by
  have plain : Unescaped field.name.toList := by cases field <;> decide
  have member := @Member.spelled (.setting field (config.get field)) ['\n', ' ', ' ']
    field.name.toList [] [' '] _ after (by decide) (spelled_self plain) Blanks.nil (by decide)
    (config.fieldText_written field) trailing
  simpa [fieldLine, String.toList_append] using member

/-- Lines are members; commas end all but the last. -/
theorem lines_members (config : Config) (field : Field) (fields : List Field) :
    Members (config.settings (field :: fields))
      ('\n' :: ((String.intercalate ",\n" ((field :: fields).map config.fieldLine)).toList ++
        ['\n'])) := by
  induction fields generalizing field with
  | nil =>
    have trailing : Blanks ['\n'] := by decide
    have text := Members.last (config.fieldLine_member field trailing)
    simpa [settings, String.toList_intercalate] using text
  | cons next fields ih =>
    have line := config.fieldLine_member field Blanks.nil
    have text := Members.cons line (ih next)
    simpa [settings, String.toList_intercalate, List.intercalate_cons_cons] using text

theorem toJson_text (config : Config) :
    ObjectText (config.settings Field.all) config.toJson.toList := by
  have all : .rxPin :: Field.all.tail = Field.all := rfl
  have members := config.lines_members .rxPin Field.all.tail
  rw [all] at members
  have text := ObjectText.filled Blanks.nil members Blanks.nil
  simpa [toJson, String.toList_append] using text

/-- What was written is read as it was. -/
theorem ofJson_toJson (config : Config) : ofJson config.toJson = .ok config := by
  have distinct : (fields (config.settings Field.all)).Nodup := by
    rw [fields_settings]
    decide
  obtain ⟨answer, settled, read⟩ := config.toJson_text.ofJson_distinct distinct
  have same : answer = config := ext_get fun field =>
    settled.given field (config.get field) (List.mem_map.mpr ⟨field, Field.mem_all field, rfl⟩)
  rw [read, same]

end Config
end PinUart
