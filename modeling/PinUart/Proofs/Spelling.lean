import PinUart.Json.Value

/-! How blanks, numbers and strings of a JSON text are spelled, and that the readers take
in what is spelled so and leave the text behind it. -/
namespace PinUart.Json

open Decimal (isDigit digitsValue)

/-- Blanks between tokens. -/
def Blanks (text : List Char) : Prop := ∀ c ∈ text, c ∈ [' ', '\t', '\n', '\r']

instance : DecidablePred Blanks := fun text => List.decidableBAll _ text

/-- What may stand right behind a value. -/
def Delimited (text : List Char) : Prop :=
  ∀ c ∈ text.head?, c ∈ [' ', '\t', '\n', '\r', ',', ']', '\x7d']

theorem Blanks.nil : Blanks [] := fun _ member => by cases member

theorem isBlank_iff (c : Char) : isBlank c = true ↔ c ∈ [' ', '\t', '\n', '\r'] := by
  simp [isBlank, or_assoc]

theorem skipBlank_append {blanks : List Char} (spelled : Blanks blanks) (text : List Char) :
    skipBlank (blanks ++ text) = skipBlank text :=
  List.dropWhile_append_of_pos fun c member => (isBlank_iff c).mpr (spelled c member)

theorem skipBlank_cons {c : Char} (visible : c ∉ [' ', '\t', '\n', '\r']) (text : List Char) :
    skipBlank (c :: text) = c :: text := by
  rw [skipBlank, List.dropWhile_cons_of_neg fun blank => visible ((isBlank_iff c).mp blank)]

theorem delimited_cons {c : Char} (known : c ∈ [' ', '\t', '\n', '\r', ',', ']', '\x7d'])
    (rest : List Char) : Delimited (c :: rest) := by
  intro head first
  cases first
  exact known

theorem delimited_comma (rest : List Char) : Delimited (',' :: rest) :=
  delimited_cons (by decide) rest

/-- Blanks behind a value end it as well as what comes after them. -/
theorem Delimited.blanks {blanks : List Char} (spelled : Blanks blanks) {text : List Char}
    (ends : Delimited text) : Delimited (blanks ++ text) := by
  cases blanks with
  | nil => exact ends
  | cons first blanks =>
    intro c head
    cases head
    exact List.mem_append_left [',', ']', '\x7d'] (spelled first (List.mem_cons_self ..))

/-! Numbers -/

theorem isDigit_eq (c : Char) : isDigit c = c.isDigit := by
  simp [isDigit, Char.isDigit, Char.le_def]

def Digits (text : List Char) : Prop := ∀ c ∈ text, c.isDigit

instance : DecidablePred Digits := fun text => List.decidableBAll _ text

/-- The digits before a point. Zero leads no others. -/
inductive Whole : List Char → Prop where
  | zero : Whole ['0']
  | digits {first : Char} {later : List Char} (digit : first.isDigit) (nonzero : first ≠ '0')
      (more : Digits later) : Whole (first :: later)

/-- The point and the digits behind it, if there are any. -/
inductive Fraction : List Char → Prop where
  | none : Fraction []
  | digits {text : List Char} (filled : text ≠ []) (digits : Digits text) : Fraction ('.' :: text)

/-- The exponent, if there is one. -/
inductive Power : List Char → Prop where
  | none : Power []
  | digits {letter : Char} {sign text : List Char} (known : letter ∈ ['e', 'E'])
      (signed : sign ∈ [[], ['+'], ['-']]) (filled : text ≠ []) (digits : Digits text) :
      Power (letter :: (sign ++ text))

/-- A number without its sign. -/
inductive Magnitude : List Char → Prop where
  | spelled {whole fraction power : List Char} (whole_spelled : Whole whole)
      (fraction_spelled : Fraction fraction) (power_spelled : Power power) :
      Magnitude (whole ++ (fraction ++ power))

theorem Whole.head {text : List Char} (spelled : Whole text) :
    ∃ c rest, text = c :: rest ∧ c.isDigit := by
  cases spelled with
  | zero => exact ⟨'0', [], rfl, rfl⟩
  | digits digit => exact ⟨_, _, rfl, digit⟩

theorem Magnitude.head {text : List Char} (spelled : Magnitude text) :
    ∃ c rest, text = c :: rest ∧ c.isDigit := by
  cases spelled with
  | spelled whole =>
    obtain ⟨c, rest, rfl, digit⟩ := whole.head
    exact ⟨c, _, rfl, digit⟩

/-- A digit is none of the other characters that decide how a text goes on. -/
theorem digit_ne {c : Char} (digit : c.isDigit) :
    c ∉ [' ', '\t', '\n', '\r', ',', ']', '\x7d', '[', '\x7b', '"', '-', 'n', 't', 'f'] := by
  intro other
  simp only [List.mem_cons, List.not_mem_nil, or_false] at other
  rcases other with rfl | rfl | rfl | rfl | rfl | rfl | rfl | rfl | rfl | rfl | rfl | rfl | rfl |
    rfl <;> exact absurd digit (by decide)

/-- No digit comes next. -/
def Broken (text : List Char) : Prop := ∀ c ∈ text.head?, ¬ c.isDigit

theorem Delimited.broken {text : List Char} (ends : Delimited text) : Broken text := by
  intro c head
  have delimiter := ends c head
  revert delimiter
  simp only [List.mem_cons, List.not_mem_nil, or_false]
  rintro (rfl | rfl | rfl | rfl | rfl | rfl | rfl) <;> decide

theorem takeDigits_append {digits rest : List Char} (spelled : Digits digits)
    (broken : Broken rest) : takeDigits (digits ++ rest) = digits := by
  have all : ∀ c ∈ digits, isDigit c = true := fun c member => isDigit_eq c ▸ spelled c member
  rw [takeDigits, List.takeWhile_append_of_pos all]
  cases rest with
  | nil => simp
  | cons c rest =>
    have other : ¬ isDigit c = true := isDigit_eq c ▸ broken c rfl
    rw [List.takeWhile_cons_of_neg other, List.append_nil]

theorem dropDigits_append {digits rest : List Char} (spelled : Digits digits)
    (broken : Broken rest) : dropDigits (digits ++ rest) = rest := by
  have all : ∀ c ∈ digits, isDigit c = true := fun c member => isDigit_eq c ▸ spelled c member
  rw [dropDigits, List.dropWhile_append_of_pos all]
  cases rest with
  | nil => rfl
  | cons c rest =>
    have other : ¬ isDigit c = true := isDigit_eq c ▸ broken c rfl
    rw [List.dropWhile_cons_of_neg other]

theorem readWhole_append {digits rest : List Char} (spelled : Whole digits)
    (broken : Broken rest) : readWhole (digits ++ rest) = .ok (digits, rest) := by
  cases spelled with
  | zero =>
    have nothing : Digits [] := fun _ member => by cases member
    have none := takeDigits_append nothing broken
    rw [List.nil_append] at none
    simp [readWhole, none, show isDigit '0' = true from rfl]
  | @digits first later digit nonzero more =>
    rw [List.cons_append, readWhole, isDigit_eq, if_pos digit, if_neg nonzero,
      takeDigits_append more broken, dropDigits_append more broken]

theorem readFraction_append {spelling rest : List Char} (spelled : Fraction spelling)
    (broken : Broken rest) (pointless : ∀ c ∈ rest.head?, c ≠ '.') :
    ∃ digits, readFraction (spelling ++ rest) = .ok (digits, rest) ∧
      (spelling = [] → digits = []) := by
  cases spelled with
  | none =>
    refine ⟨[], ?_, fun _ => rfl⟩
    rw [List.nil_append, readFraction]
    intro after whole
    exact pointless '.' (by rw [whole]; rfl) rfl
  | @digits text filled digits =>
    refine ⟨text, ?_, fun none => by cases none⟩
    rw [List.cons_append, readFraction, takeDigits_append digits broken,
      dropDigits_append digits broken]
    simp [filled]

theorem readSign_append {sign text : List Char} (signed : sign ∈ [[], ['+'], ['-']])
    (filled : text ≠ []) (digits : Digits text) (rest : List Char) :
    ∃ factor, readSign (sign ++ (text ++ rest)) = (factor, text ++ rest) := by
  simp only [List.mem_cons, List.not_mem_nil, or_false] at signed
  rcases signed with rfl | rfl | rfl
  · obtain ⟨first, later, rfl⟩ := List.exists_cons_of_ne_nil filled
    have digit := digits first (List.mem_cons_self ..)
    refine ⟨1, ?_⟩
    rw [List.nil_append, List.cons_append, readSign]
    · rintro after whole
      cases whole
      exact absurd digit (by decide)
    · rintro after whole
      cases whole
      exact absurd digit (by decide)
  · exact ⟨1, rfl⟩
  · exact ⟨-1, rfl⟩

theorem readPower_append {spelling rest : List Char} (spelled : Power spelling)
    (broken : Broken rest) (letterless : ∀ c ∈ rest.head?, c ≠ 'e' ∧ c ≠ 'E') :
    ∃ power, readPower (spelling ++ rest) = .ok (power, rest) ∧
      (spelling = [] → power = none) := by
  cases spelled with
  | none =>
    refine ⟨none, ?_, fun _ => rfl⟩
    cases rest with
    | nil => rfl
    | cons c rest =>
      have other := letterless c rfl
      rw [List.nil_append, readPower, if_neg (by simpa using other)]
  | @digits letter sign text known signed filled digits =>
    obtain ⟨factor, sign_read⟩ := readSign_append signed filled digits rest
    have letter_known : letter = 'e' ∨ letter = 'E' := by simpa using known
    refine ⟨some (factor * digitsValue text), ?_, fun none => by cases none⟩
    rw [List.cons_append, List.append_assoc, readPower, if_pos letter_known]
    simp only [sign_read, takeDigits_append digits broken, dropDigits_append digits broken]
    rw [if_pos (by simpa using filled)]

theorem Fraction.broken {spelling rest : List Char} (spelled : Fraction spelling)
    (broken : Broken rest) : Broken (spelling ++ rest) := by
  cases spelled with
  | none => exact broken
  | digits => rintro c head; cases head; decide

theorem Power.broken {spelling rest : List Char} (spelled : Power spelling)
    (broken : Broken rest) : Broken (spelling ++ rest) := by
  cases spelled with
  | none => exact broken
  | digits known =>
    rintro c head
    cases head
    simp only [List.mem_cons, List.not_mem_nil, or_false] at known
    rcases known with rfl | rfl <;> decide

theorem Power.pointless {spelling rest : List Char} (spelled : Power spelling)
    (pointless : ∀ c ∈ rest.head?, c ≠ '.') : ∀ c ∈ (spelling ++ rest).head?, c ≠ '.' := by
  cases spelled with
  | none => exact pointless
  | digits known =>
    rintro c head
    cases head
    rintro rfl
    simp at known

theorem Delimited.unextended {text : List Char} (ends : Delimited text) :
    ∀ c ∈ text.head?, c ≠ '.' ∧ c ≠ 'e' ∧ c ≠ 'E' := by
  intro c head
  have delimiter := ends c head
  refine ⟨?_, ?_, ?_⟩ <;> rintro rfl <;> simp at delimiter

/-- A number is read to its end, whatever digits it has; without point and exponent it is
its digits. -/
theorem readLiteral_append {whole fraction power rest : List Char} (spelled : Whole whole)
    (fraction_spelled : Fraction fraction) (power_spelled : Power power) (ends : Delimited rest) :
    ∃ literal, readLiteral (whole ++ (fraction ++ (power ++ rest))) = .ok (literal, rest) ∧
      literal.whole = whole ∧ (fraction = [] → literal.fraction = []) ∧
      (power = [] → literal.power = none) := by
  have broken := power_spelled.broken ends.broken
  obtain ⟨digits, fraction_read, alone⟩ := readFraction_append fraction_spelled broken
    (power_spelled.pointless fun c head => (ends.unextended c head).1)
  obtain ⟨exponent, power_read, absent⟩ := readPower_append power_spelled ends.broken
    fun c head => (ends.unextended c head).2
  refine ⟨⟨whole, digits, exponent⟩, ?_, rfl, alone, absent⟩
  rw [readLiteral, readWhole_append spelled (fraction_spelled.broken broken)]
  simp only [fraction_read, power_read]

/-! Strings -/

inductive HexDigit : Char → Nat → Prop where
  | lower {c : Char} {value : Nat} (found : ['0', '1', '2', '3', '4', '5', '6', '7', '8', '9',
      'a', 'b', 'c', 'd', 'e', 'f'][value]? = some c) : HexDigit c value
  | upper {c : Char} {value : Nat} (found : ['0', '1', '2', '3', '4', '5', '6', '7', '8', '9',
      'A', 'B', 'C', 'D', 'E', 'F'][value]? = some c) : HexDigit c value

/-- Four hexadecimal digits, the unit of text that they name. -/
inductive CodeUnit : List Char → Nat → Prop where
  | digits {a b c d : Char} {i j k l : Nat} (first : HexDigit a i) (second : HexDigit b j)
      (third : HexDigit c k) (fourth : HexDigit d l) :
      CodeUnit [a, b, c, d] (0x1000 * i + 0x100 * j + 0x10 * k + l)

/-- The letters behind a backslash, with the characters that they stand for. -/
def escapes : List (Char × Char) :=
  [('"', '"'), ('\\', '\\'), ('/', '/'), ('b', '\x08'), ('f', '\x0c'), ('n', '\n'), ('r', '\r'),
    ('t', '\t')]

/-- A character that stands for itself. -/
def Plain (c : Char) : Prop := ' ' ≤ c ∧ c ≠ '"' ∧ c ≠ '\\'

instance : DecidablePred Plain := fun c =>
  inferInstanceAs (Decidable (' ' ≤ c ∧ c ≠ '"' ∧ c ≠ '\\'))

/-- A text that stands for itself. -/
def Unescaped (text : List Char) : Prop := ∀ c ∈ text, Plain c

instance : DecidablePred Unescaped := fun text => List.decidableBAll _ text

/-- The ways to write a character in a string. What does not fit one unit takes two. -/
inductive Spells : Char → List Char → Prop where
  | plain {c : Char} (plain : Plain c) : Spells c [c]
  | escape {c letter : Char} (known : (letter, c) ∈ escapes) : Spells c ['\\', letter]
  | unit {c : Char} {digits : List Char} (spelled : CodeUnit digits c.toNat) :
      Spells c ('\\' :: 'u' :: digits)
  | pair {c : Char} {leading trailing : List Char} (beyond : 0x10000 ≤ c.toNat)
      (high : CodeUnit leading (0xD800 + (c.toNat - 0x10000) / 0x400))
      (low : CodeUnit trailing (0xDC00 + (c.toNat - 0x10000) % 0x400)) :
      Spells c ('\\' :: 'u' :: (leading ++ '\\' :: 'u' :: trailing))

/-- A string with its content, between the quotes. -/
inductive Spelled : List Char → List Char → Prop where
  | nil : Spelled [] []
  | cons {c : Char} {content spelling text : List Char} (first : Spells c spelling)
      (later : Spelled content text) : Spelled (c :: content) (spelling ++ text)

theorem spelled_self {text : List Char} (plain : Unescaped text) : Spelled text text := by
  induction text with
  | nil => exact .nil
  | cons c text ih =>
    exact .cons (.plain (plain c (List.mem_cons_self ..)))
      (ih fun c member => plain c (List.mem_cons_of_mem _ member))

/-- A piece of a string of which no more is asked than its shape. -/
inductive Piece : List Char → Prop where
  | plain {c : Char} (plain : Plain c) : Piece [c]
  | escape {c letter : Char} (known : (letter, c) ∈ escapes) : Piece ['\\', letter]
  | unit {digits : List Char} {value : Nat} (spelled : CodeUnit digits value) :
      Piece ('\\' :: 'u' :: digits)

/-- A string of the right shape, between the quotes. -/
inductive Shaped : List Char → Prop where
  | nil : Shaped []
  | cons {piece text : List Char} (first : Piece piece) (later : Shaped text) :
      Shaped (piece ++ text)

theorem HexDigit.value?_eq {c : Char} {value : Nat} (digit : HexDigit c value) :
    value < 16 ∧ Text.Hex.value? c = some value := by
  cases digit with
  | lower found =>
    obtain ⟨bound, rfl⟩ := List.getElem?_eq_some_iff.mp found
    have all : ∀ value : Fin 16, Text.Hex.value? (['0', '1', '2', '3', '4', '5', '6', '7', '8',
      '9', 'a', 'b', 'c', 'd', 'e', 'f'][value]) = some value.val := by decide
    exact ⟨bound, all ⟨value, bound⟩⟩
  | upper found =>
    obtain ⟨bound, rfl⟩ := List.getElem?_eq_some_iff.mp found
    have all : ∀ value : Fin 16, Text.Hex.value? (['0', '1', '2', '3', '4', '5', '6', '7', '8',
      '9', 'A', 'B', 'C', 'D', 'E', 'F'][value]) = some value.val := by decide
    exact ⟨bound, all ⟨value, bound⟩⟩

theorem readHex_append {digits : List Char} {value : Nat} (spelled : CodeUnit digits value)
    (rest : List Char) : readHex (digits ++ rest) = .ok (value, rest) := by
  cases spelled with
  | @digits a b c d i j k l first second third fourth =>
    have sum : ((i * 16 + j) * 16 + k) * 16 + l = 0x1000 * i + 0x100 * j + 0x10 * k + l := by omega
    simp [readHex, hexValue?, first.value?_eq.2, second.value?_eq.2, third.value?_eq.2,
      fourth.value?_eq.2, sum]

theorem simpleEscape?_eq {c letter : Char} (known : (letter, c) ∈ escapes) :
    letter ≠ 'u' ∧ simpleEscape? letter = some c := by
  simp only [escapes, List.mem_cons, Prod.mk.injEq, List.not_mem_nil, or_false] at known
  rcases known with ⟨rfl, rfl⟩ | ⟨rfl, rfl⟩ | ⟨rfl, rfl⟩ | ⟨rfl, rfl⟩ | ⟨rfl, rfl⟩ | ⟨rfl, rfl⟩ |
    ⟨rfl, rfl⟩ | ⟨rfl, rfl⟩ <;> decide

theorem readEscape_letter {c letter : Char} (known : (letter, c) ∈ escapes) (rest : List Char) :
    readEscape (letter :: rest) = .ok (c, rest) := by
  obtain ⟨other, stands⟩ := simpleEscape?_eq known
  rw [readEscape]
  · rw [stands]
  · intro same
    exact absurd same other

theorem readEscape_unit {c : Char} {digits : List Char} (spelled : CodeUnit digits c.toNat)
    (rest : List Char) : readEscape ('u' :: (digits ++ rest)) = .ok (c, rest) := by
  have valid : c.toNat < 0xD800 ∨ 0xDFFF < c.toNat ∧ c.toNat < 0x110000 := c.valid
  have trailing : isTrailing c.toNat = false := by simp [isTrailing]; omega
  have leading : isLeading c.toNat = false := by simp [isLeading]; omega
  simp [readEscape, readHex_append spelled, trailing, leading]

theorem readEscape_pair {c : Char} {leading trailing : List Char} (beyond : 0x10000 ≤ c.toNat)
    (high : CodeUnit leading (0xD800 + (c.toNat - 0x10000) / 0x400))
    (low : CodeUnit trailing (0xDC00 + (c.toNat - 0x10000) % 0x400)) (rest : List Char) :
    readEscape ('u' :: (leading ++ '\\' :: 'u' :: (trailing ++ rest))) = .ok (c, rest) := by
  have valid : c.toNat < 0xD800 ∨ 0xDFFF < c.toNat ∧ c.toNat < 0x110000 := c.valid
  have first : isLeading (0xD800 + (c.toNat - 0x10000) / 0x400) = true := by
    simp [isLeading]; omega
  have other : isTrailing (0xD800 + (c.toNat - 0x10000) / 0x400) = false := by
    simp [isTrailing]; omega
  have second : isTrailing (0xDC00 + (c.toNat - 0x10000) % 0x400) = true := by
    simp [isTrailing]; omega
  have joined : joinSurrogates (0xD800 + (c.toNat - 0x10000) / 0x400)
      (0xDC00 + (c.toNat - 0x10000) % 0x400) = c := by
    rw [joinSurrogates, show (0xD800 + (c.toNat - 0x10000) / 0x400 - 0xD800) * 0x400 +
      (0xDC00 + (c.toNat - 0x10000) % 0x400 - 0xDC00) + 0x10000 = c.toNat by omega,
      Char.ofNat_toNat]
  simp only [readEscape, readHex_append high, readHex_append low, readTrailing, first, other,
    second, joined, if_true, Bool.false_eq_true, if_false]

/-- What stands for itself is read as it is. -/
theorem readText_plain {c : Char} (plain : Plain c) (text : List Char) :
    readText (c :: text) = (readText text).map fun (content, rest) => (c :: content, rest) := by
  obtain ⟨shown, quote, slash⟩ := plain
  rw [readText.eq_4 _ _ (fun same => absurd same quote) (fun same => absurd same slash),
    if_neg (Char.not_lt.mpr shown)]
  cases readText text <;> rfl

theorem readText_escape {c : Char} {escaped text : List Char}
    (read : readEscape escaped = .ok (c, text)) :
    readText ('\\' :: escaped) =
      (readText text).map fun (content, rest) => (c :: content, rest) := by
  rw [readText]
  split
  · rename_i failed
    rw [read] at failed
    cases failed
  · rename_i found
    rw [read] at found
    cases found
    cases readText text <;> rfl

theorem readText_spells {c : Char} {spelling : List Char} (spells : Spells c spelling)
    (text : List Char) :
    readText (spelling ++ text) =
      (readText text).map fun (content, rest) => (c :: content, rest) := by
  cases spells with
  | plain plain => exact readText_plain plain text
  | escape known => exact readText_escape (readEscape_letter known text)
  | unit spelled => exact readText_escape (readEscape_unit spelled text)
  | pair beyond high low =>
    rw [List.cons_append, List.cons_append, List.append_assoc]
    exact readText_escape (readEscape_pair beyond high low text)

/-- A string is read up to its quote, however its characters are written. -/
theorem readText_append {content spelling : List Char} (spelled : Spelled content spelling)
    (rest : List Char) : readText (spelling ++ '"' :: rest) = .ok (content, rest) := by
  induction spelled with
  | nil => rw [List.nil_append, readText]
  | cons first later ih => rw [List.append_assoc, readText_spells first, ih]; rfl

theorem skipEscape_letter {c letter : Char} (known : (letter, c) ∈ escapes) (rest : List Char) :
    skipEscape (letter :: rest) = .ok rest := by
  obtain ⟨other, stands⟩ := simpleEscape?_eq known
  rw [skipEscape]
  · rw [stands]
    rfl
  · intro same
    exact absurd same other

theorem skipText_piece {piece : List Char} (spelled : Piece piece) (text : List Char) :
    skipText (piece ++ text) = skipText text := by
  have escaped {escape : List Char} (skipped : skipEscape escape = .ok text) :
      skipText ('\\' :: escape) = skipText text := by
    rw [skipText]
    split
    · rename_i failed
      rw [skipped] at failed
      cases failed
    · rename_i found
      rw [skipped] at found
      cases found
      rfl
  cases spelled with
  | plain plain =>
    obtain ⟨shown, quote, slash⟩ := plain
    rw [List.cons_append, List.nil_append,
      skipText.eq_4 _ _ (fun same => absurd same quote) (fun same => absurd same slash),
      if_neg (Char.not_lt.mpr shown)]
  | escape known => exact escaped (skipEscape_letter known text)
  | @unit digits value spelled =>
    have skipped : skipEscape ('u' :: (digits ++ text)) = .ok text := by
      rw [skipEscape, readHex_append spelled]
      rfl
    exact escaped skipped

/-- A string is passed over up to its quote. -/
theorem skipText_append {spelling : List Char} (shaped : Shaped spelling) (rest : List Char) :
    skipText (spelling ++ '"' :: rest) = .ok rest := by
  induction shaped with
  | nil => rw [List.nil_append, skipText]
  | cons first later ih => rw [List.append_assoc, skipText_piece first, ih]

end PinUart.Json
