/-! Text from bytes that may not be valid UTF-8. Each longest beginning of a character
that is broken off counts as one replacement character. -/
namespace PinUart.Text.Utf8

/-- What the first byte of a character announces: its own bits, the range of the
second byte, and how many bytes follow. -/
structure Lead where
  bits : Nat
  low : Nat
  high : Nat
  count : Nat

def lead? (byte : Nat) : Option Lead :=
  if byte < 0x80 then some ⟨byte, 0x80, 0xBF, 0⟩
  else if byte < 0xC2 then none
  else if byte < 0xE0 then some ⟨byte - 0xC0, 0x80, 0xBF, 1⟩
  else if byte = 0xE0 then some ⟨0, 0xA0, 0xBF, 2⟩
  else if byte = 0xED then some ⟨13, 0x80, 0x9F, 2⟩
  else if byte < 0xF0 then some ⟨byte - 0xE0, 0x80, 0xBF, 2⟩
  else if byte = 0xF0 then some ⟨0, 0x90, 0xBF, 3⟩
  else if byte < 0xF4 then some ⟨byte - 0xF0, 0x80, 0xBF, 3⟩
  else if byte = 0xF4 then some ⟨4, 0x80, 0x8F, 3⟩
  else none

def replacement : Char := '\ufffd'

/-- Reads the bytes after the first; the next one lies in the given range. -/
def follow (value low high : Nat) : (count : Nat) → List UInt8 → Char × List UInt8
  | 0, data => (Char.ofNat value, data)
  | _ + 1, [] => (replacement, [])
  | count + 1, byte :: rest =>
    if low ≤ byte.toNat ∧ byte.toNat ≤ high then
      follow (value * 64 + byte.toNat % 64) 0x80 0xBF count rest
    else (replacement, byte :: rest)

theorem length_follow_le (value low high count : Nat) (data : List UInt8) :
    (follow value low high count data).2.length ≤ data.length := by
  fun_induction follow value low high count data with
  | case1 => exact Nat.le_refl _
  | case2 => exact Nat.le_refl _
  | case3 _ _ _ _ byte rest _ ih => exact Nat.le_succ_of_le ih
  | case4 => exact Nat.le_refl _

/-- The text of the bytes, with a replacement for whatever is no character. -/
def decodeLossy : List UInt8 → List Char
  | [] => []
  | byte :: rest =>
    match lead? byte.toNat with
    | none => replacement :: decodeLossy rest
    | some lead =>
      let found := follow lead.bits lead.low lead.high lead.count rest
      found.1 :: decodeLossy found.2
  termination_by data => data.length
  decreasing_by
    · simp
    · exact Nat.lt_succ_of_le (length_follow_le _ _ _ _ _)

end PinUart.Text.Utf8
