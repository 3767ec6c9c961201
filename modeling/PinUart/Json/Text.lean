import PinUart.Json.Scan
import PinUart.Text.Hex

/-! Strings of a JSON text, after their opening quote. A string that is wanted must
make sense as text; of one that is passed over only the shape is looked at. -/
namespace PinUart.Json

/-- The value of four hexadecimal digits. -/
def hexValue? : List Char → Option (Nat × List Char)
  | a :: b :: c :: d :: rest =>
    match Text.Hex.value? a, Text.Hex.value? b, Text.Hex.value? c, Text.Hex.value? d with
    | some a, some b, some c, some d => some (((a * 16 + b) * 16 + c) * 16 + d, rest)
    | _, _, _, _ => none
  | _ => none

/-- Reads four hexadecimal digits. The text has ended if fewer than four bytes are
left of it. -/
def readHex (text : List Char) : Result Nat :=
  match hexValue? text with
  | some found => .ok found
  | none =>
    if (text.take 4).foldl (fun size c => size + c.utf8Size) 0 < 4 then .error .endInString
    else .error .invalidEscape

theorem length_readHex {text rest : List Char} {value : Nat}
    (read : readHex text = .ok (value, rest)) : rest.length < text.length := by
  unfold readHex hexValue? at read
  grind

/-- What a backslash and one letter stand for. -/
def simpleEscape? (c : Char) : Option Char :=
  if c = '"' ∨ c = '\\' ∨ c = '/' then some c
  else if c = 'b' then some '\x08'
  else if c = 'f' then some '\x0c'
  else if c = 'n' then some '\n'
  else if c = 'r' then some '\r'
  else if c = 't' then some '\t'
  else none

def isLeading (unit : Nat) : Bool := 0xD800 ≤ unit && unit ≤ 0xDBFF

def isTrailing (unit : Nat) : Bool := 0xDC00 ≤ unit && unit ≤ 0xDFFF

/-- The character of a pair of surrogates. -/
def joinSurrogates (leading trailing : Nat) : Char :=
  Char.ofNat ((leading - 0xD800) * 0x400 + (trailing - 0xDC00) + 0x10000)

/-- Reads the second half of a character whose first half was a leading surrogate. -/
def readTrailing (leading : Nat) : List Char → Result Char
  | [] => .error .endInString
  | ['\\'] => .error .endInString
  | '\\' :: 'u' :: rest =>
    match readHex rest with
    | .error cause => .error cause
    | .ok (unit, rest) =>
      if isTrailing unit then .ok (joinSurrogates leading unit, rest) else .error .loneSurrogate
  | _ => .error .unfinishedSurrogate

/-- Reads what follows a backslash. -/
def readEscape : List Char → Result Char
  | [] => .error .endInString
  | 'u' :: rest =>
    match readHex rest with
    | .error cause => .error cause
    | .ok (unit, rest) =>
      if isTrailing unit then .error .loneSurrogate
      else if isLeading unit then readTrailing unit rest
      else .ok (Char.ofNat unit, rest)
  | c :: rest =>
    match simpleEscape? c with
    | none => .error .invalidEscape
    | some c => .ok (c, rest)

/-- Passes over what follows a backslash. -/
def skipEscape : List Char → Except Cause (List Char)
  | [] => .error .endInString
  | 'u' :: rest => (readHex rest).map (·.2)
  | c :: rest => if (simpleEscape? c).isSome then .ok rest else .error .invalidEscape

private theorem length_readTrailing {leading : Nat} {text rest : List Char} {c : Char}
    (read : readTrailing leading text = .ok (c, rest)) : rest.length < text.length := by
  unfold readTrailing at read
  split at read
  · cases read
  · cases read
  · rename_i after
    split at read
    · cases read
    · rename_i found
      have := length_readHex found
      split at read
      · simp only [Except.ok.injEq, Prod.mk.injEq] at read
        obtain ⟨-, rfl⟩ := read
        simp
        omega
      · cases read
  · cases read

theorem length_readEscape {text rest : List Char} {c : Char}
    (read : readEscape text = .ok (c, rest)) : rest.length < text.length := by
  unfold readEscape at read
  split at read
  · cases read
  · rename_i after
    split at read
    · cases read
    · rename_i found
      have := length_readHex found
      split at read
      · cases read
      · split at read
        · have := length_readTrailing read
          simp
          omega
        · simp only [Except.ok.injEq, Prod.mk.injEq] at read
          obtain ⟨-, rfl⟩ := read
          simp
          omega
  · split at read
    · cases read
    · simp only [Except.ok.injEq, Prod.mk.injEq] at read
      obtain ⟨-, rfl⟩ := read
      simp

theorem length_skipEscape {text rest : List Char} (read : skipEscape text = .ok rest) :
    rest.length < text.length := by
  unfold skipEscape at read
  split at read
  · cases read
  · rename_i after
    match found : readHex after with
    | .error _ => simp [found, Except.map] at read
    | .ok (value, left) =>
      have := length_readHex found
      simp only [found, Except.map, Except.ok.injEq] at read
      simp [← read]
      omega
  · split at read
    · cases read
      simp
    · cases read

/-- Reads a string up to its closing quote. -/
def readText (text : List Char) : Result (List Char) :=
  match text with
  | [] => .error .endInString
  | '"' :: rest => .ok ([], rest)
  | '\\' :: rest =>
    match _escaped : readEscape rest with
    | .error cause => .error cause
    | .ok (c, after) =>
      match readText after with
      | .error cause => .error cause
      | .ok (content, after) => .ok (c :: content, after)
  | c :: rest =>
    if c < ' ' then .error .controlCharacter
    else
      match readText rest with
      | .error cause => .error cause
      | .ok (content, after) => .ok (c :: content, after)
  termination_by text.length
  decreasing_by
    · have := length_readEscape _escaped
      simp
      omega
    · simp

theorem length_readText {text content rest : List Char} (read : readText text = .ok (content, rest)) :
    rest.length < text.length := by
  fun_induction readText text generalizing content rest with
  | case1 => cases read
  | case2 => cases read; simp
  | case3 => cases read
  | case4 => cases read
  | case5 before c after escaped inner left found ih =>
    have := length_readEscape escaped
    have := ih found
    cases read
    simp
    omega
  | case6 => cases read
  | case7 => cases read
  | case8 c before _ _ _ inner left found ih =>
    have := ih found
    cases read
    simp
    omega

/-- Passes over a string up to its closing quote. -/
def skipText (text : List Char) : Except Cause (List Char) :=
  match text with
  | [] => .error .endInString
  | '"' :: rest => .ok rest
  | '\\' :: rest =>
    match _escaped : skipEscape rest with
    | .error cause => .error cause
    | .ok after => skipText after
  | c :: rest => if c < ' ' then .error .controlCharacter else skipText rest
  termination_by text.length
  decreasing_by
    · have := length_skipEscape _escaped
      simp
      omega
    · simp

theorem length_skipText {text rest : List Char} (read : skipText text = .ok rest) :
    rest.length < text.length := by
  fun_induction skipText text with
  | case1 => cases read
  | case2 => cases read; simp
  | case3 => cases read
  | case4 before after escaped ih =>
    have := length_skipEscape escaped
    have := ih read
    simp
    omega
  | case5 => cases read
  | case6 c before _ _ _ ih =>
    have := ih read
    simp
    omega

end PinUart.Json
