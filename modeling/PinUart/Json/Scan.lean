import PinUart.Json.Cause

/-! The first steps into a JSON text: blanks between tokens, and fixed words. -/
namespace PinUart.Json

/-- The characters that may stand between tokens. -/
def isBlank (c : Char) : Bool := c == ' ' || c == '\t' || c == '\n' || c == '\r'

def skipBlank (text : List Char) : List Char := text.dropWhile isBlank

theorem length_skipBlank_le (text : List Char) : (skipBlank text).length ≤ text.length :=
  (List.dropWhile_sublist isBlank).length_le

theorem length_of_skipBlank {text rest : List Char} {c : Char} (found : skipBlank text = c :: rest) :
    rest.length < text.length := by
  have := length_skipBlank_le text
  rw [found, List.length_cons] at this
  omega

/-- Reads the rest of a word of which the first letter is known. -/
def expectWord : (word text : List Char) → Except Cause (List Char)
  | [], text => .ok text
  | _ :: _, [] => .error .endInValue
  | letter :: word, c :: text =>
    if c = letter then expectWord word text else .error .expectedIdent

theorem expectWord_append (word text : List Char) : expectWord word (word ++ text) = .ok text := by
  induction word with
  | nil => cases text <;> rfl
  | cons letter word ih => simp [expectWord, ih]

theorem length_expectWord_le {word text rest : List Char} (read : expectWord word text = .ok rest) :
    rest.length ≤ text.length := by
  fun_induction expectWord word text with
  | case1 text => cases read; exact Nat.le_refl _
  | case2 => cases read
  | case3 letter word text ih => exact Nat.le_succ_of_le (ih read)
  | case4 => cases read

end PinUart.Json
