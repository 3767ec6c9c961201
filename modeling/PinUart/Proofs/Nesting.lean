import PinUart.Json.Skip
import PinUart.Proofs.Spelling

/-! Values of a JSON text, nested to any depth. A value that nobody asked for is passed
over to its end, and the text behind it stays as it was. -/
namespace PinUart.Json

open Decimal (isDigit)

/-- The parts that a value is made of. -/
inductive Part
  | value
  | element
  | elements
  | member
  | members

/-- The grammar of values. An element is a value with blanks around it, a member an element
behind its key, and commas stand between several of them. -/
inductive Fits : Part → List Char → Prop where
  | word {text : List Char} (known : text ∈ ["null".toList, "true".toList, "false".toList]) :
      Fits .value text
  | number {sign text : List Char} (signed : sign ∈ [[], ['-']]) (spelled : Magnitude text) :
      Fits .value (sign ++ text)
  | string {text : List Char} (shaped : Shaped text) : Fits .value ('"' :: (text ++ ['"']))
  | emptyList {blanks : List Char} (spelled : Blanks blanks) :
      Fits .value ('[' :: (blanks ++ [']']))
  | list {text : List Char} (inner : Fits .elements text) : Fits .value ('[' :: (text ++ [']']))
  | emptyObject {blanks : List Char} (spelled : Blanks blanks) :
      Fits .value ('\x7b' :: (blanks ++ ['\x7d']))
  | object {text : List Char} (inner : Fits .members text) :
      Fits .value ('\x7b' :: (text ++ ['\x7d']))
  | element {before text after : List Char} (leading : Blanks before) (value : Fits .value text)
      (trailing : Blanks after) : Fits .element (before ++ (text ++ after))
  | lastElement {text : List Char} (element : Fits .element text) : Fits .elements text
  | elements {text rest : List Char} (first : Fits .element text) (later : Fits .elements rest) :
      Fits .elements (text ++ ',' :: rest)
  | member {before key between text : List Char} (leading : Blanks before) (shaped : Shaped key)
      (middle : Blanks between) (element : Fits .element text) :
      Fits .member (before ++ '"' :: (key ++ '"' :: (between ++ ':' :: text)))
  | lastMember {text : List Char} (member : Fits .member text) : Fits .members text
  | members {text rest : List Char} (first : Fits .member text) (later : Fits .members rest) :
      Fits .members (text ++ ',' :: rest)

variable {brackets outer : List Bracket}

/-- Blanks in front change nothing. -/
theorem skipFrom_value_congr {text other : List Char} (same : skipBlank text = skipBlank other)
    (brackets : List Bracket) : skipFrom .value brackets text = skipFrom .value brackets other := by
  conv => lhs; rw [skipFrom, same]
  conv => rhs; rw [skipFrom]

theorem skipFrom_afterValue_congr {text other : List Char} (same : skipBlank text = skipBlank other)
    (bracket : Bracket) (outer : List Bracket) :
    skipFrom .afterValue (bracket :: outer) text =
      skipFrom .afterValue (bracket :: outer) other := by
  conv => lhs; rw [skipFrom, same]
  conv => rhs; rw [skipFrom]

theorem skipFrom_scalar {c : Char} {text after : List Char} (visible : c ∉ [' ', '\t', '\n', '\r'])
    (plain : opened? c = none) (skipped : skipScalar (c :: text) = .ok after) :
    skipFrom .value brackets (c :: text) = skipFrom .afterValue brackets after := by
  rw [skipFrom, skipBlank_cons visible]
  simp only [plain]
  rw [skipped]

theorem Bracket.closer_visible (bracket : Bracket) :
    bracket.closer ∉ [' ', '\t', '\n', '\r'] := by
  cases bracket <;> decide

theorem skipFrom_empty (bracket : Bracket) {c : Char} {blanks : List Char}
    (visible : c ∉ [' ', '\t', '\n', '\r']) (opens : opened? c = some bracket)
    (spelled : Blanks blanks) (rest : List Char) :
    skipFrom .value brackets (c :: (blanks ++ bracket.closer :: rest)) =
      skipFrom .afterValue brackets rest := by
  rw [skipFrom, skipBlank_cons visible]
  simp only [opens]
  rw [skipBlank_append spelled, skipBlank_cons bracket.closer_visible]
  simp only [if_true]

theorem skipFrom_open (bracket : Bracket) {c d : Char} {text after inner : List Char}
    (visible : c ∉ [' ', '\t', '\n', '\r']) (opens : opened? c = some bracket)
    (first : skipBlank text = d :: inner) (filled : d ≠ bracket.closer)
    (next : skipToValue bracket (d :: inner) = .ok after) :
    skipFrom .value brackets (c :: text) = skipFrom .value (bracket :: brackets) after := by
  rw [skipFrom, skipBlank_cons visible]
  simp only [opens]
  rw [first]
  simp only [if_neg filled]
  rw [next]

theorem skipFrom_comma (bracket : Bracket) {text after : List Char}
    (next : skipToValue bracket text = .ok after) :
    skipFrom .afterValue (bracket :: outer) (',' :: text) =
      skipFrom .value (bracket :: outer) after := by
  conv => lhs; rw [skipFrom, skipBlank_cons (by decide)]
  simp only [if_true]
  rw [next]

theorem skipFrom_close (bracket : Bracket) (text : List Char) :
    skipFrom .afterValue (bracket :: outer) (bracket.closer :: text) =
      skipFrom .afterValue outer text := by
  have other : bracket.closer ≠ ',' := by cases bracket <;> decide
  rw [skipFrom, skipBlank_cons bracket.closer_visible]
  simp only [if_neg other, if_true]

/-- A value begins with a character of its own, which ends no other value. -/
theorem Fits.head {text : List Char} (fits : Fits .value text) :
    ∃ c rest, text = c :: rest ∧ c ∉ [' ', '\t', '\n', '\r', ',', ']', '\x7d'] := by
  cases fits with
  | word known =>
    simp only [List.mem_cons, List.not_mem_nil, or_false] at known
    rcases known with rfl | rfl | rfl
    · exact ⟨'n', _, rfl, by decide⟩
    · exact ⟨'t', _, rfl, by decide⟩
    · exact ⟨'f', _, rfl, by decide⟩
  | number signed spelled =>
    obtain ⟨c, rest, rfl, digit⟩ := spelled.head
    simp only [List.mem_cons, List.not_mem_nil, or_false] at signed
    rcases signed with rfl | rfl
    · exact ⟨c, rest, rfl, fun member => digit_ne digit (List.mem_append_left _ member)⟩
    · exact ⟨'-', _, rfl, by decide⟩
  | string => exact ⟨'"', _, rfl, by decide⟩
  | emptyList => exact ⟨'[', _, rfl, by decide⟩
  | list => exact ⟨'[', _, rfl, by decide⟩
  | emptyObject => exact ⟨'\x7b', _, rfl, by decide⟩
  | object => exact ⟨'\x7b', _, rfl, by decide⟩

/-- What passing over each part amounts to. The brackets that are open around a part
stay open, whichever they are. -/
def Passes : Part → List Char → Prop
  | .value, text => ∀ brackets rest, Delimited rest →
      skipFrom .value brackets (text ++ rest) = skipFrom .afterValue brackets rest
  | .element, text => ∀ bracket outer rest, Delimited rest →
      skipFrom .value (bracket :: outer) (text ++ rest) =
        skipFrom .afterValue (bracket :: outer) rest
  | .elements, text => ∀ outer rest,
      skipFrom .value (.list :: outer) (text ++ ']' :: rest) = skipFrom .afterValue outer rest
  | .member, text => ∀ outer rest, Delimited rest → ∃ after, skipKey (text ++ rest) = .ok after ∧
      skipFrom .value (.object :: outer) after = skipFrom .afterValue (.object :: outer) rest
  | .members, text => ∀ outer rest, ∃ after, skipKey (text ++ '\x7d' :: rest) = .ok after ∧
      skipFrom .value (.object :: outer) after = skipFrom .afterValue outer rest

theorem skipScalar_word {text : List Char}
    (known : text ∈ ["null".toList, "true".toList, "false".toList]) (rest : List Char) :
    skipScalar (text ++ rest) = .ok rest := by
  simp only [List.mem_cons, List.not_mem_nil, or_false] at known
  rcases known with rfl | rfl | rfl
  · exact expectWord_append ['u', 'l', 'l'] rest
  · exact expectWord_append ['r', 'u', 'e'] rest
  · exact expectWord_append ['a', 'l', 's', 'e'] rest

theorem skipNumber_append {text rest : List Char} (spelled : Magnitude text)
    (ends : Delimited rest) : skipNumber (text ++ rest) = .ok rest := by
  cases spelled with
  | spelled whole fraction power =>
    obtain ⟨literal, read, -⟩ := readLiteral_append whole fraction power ends
    rw [List.append_assoc, List.append_assoc, skipNumber, read]

theorem skipScalar_number {sign text rest : List Char} (signed : sign ∈ [[], ['-']])
    (spelled : Magnitude text) (ends : Delimited rest) :
    skipScalar (sign ++ (text ++ rest)) = .ok rest := by
  simp only [List.mem_cons, List.not_mem_nil, or_false] at signed
  rcases signed with rfl | rfl
  · obtain ⟨c, later, whole, digit⟩ := spelled.head
    have plain := digit_ne digit
    have skipped := skipNumber_append spelled ends
    rw [whole] at skipped
    rw [whole, List.nil_append, List.cons_append, skipScalar, isDigit_eq, if_pos digit]
    · exact skipped
    all_goals
      rintro rfl
      simp at plain
  · exact skipNumber_append spelled ends

theorem Fits.element_head {text : List Char} (fits : Fits .element text) (rest : List Char) :
    ∃ c later, skipBlank (text ++ rest) = c :: later ∧
      c ∉ [' ', '\t', '\n', '\r', ',', ']', '\x7d'] := by
  cases fits with
  | @element before text after leading value trailing =>
    obtain ⟨c, later, rfl, visible⟩ := value.head
    refine ⟨c, later ++ after ++ rest, ?_, visible⟩
    rw [List.append_assoc, skipBlank_append leading]
    exact skipBlank_cons (fun member => visible (List.mem_append_left _ member)) _

theorem Fits.elements_head {text : List Char} (fits : Fits .elements text) (rest : List Char) :
    ∃ c later, skipBlank (text ++ rest) = c :: later ∧
      c ∉ [' ', '\t', '\n', '\r', ',', ']', '\x7d'] := by
  cases fits with
  | lastElement element => exact element.element_head rest
  | elements first later =>
    rw [List.append_assoc]
    exact first.element_head _

theorem Fits.member_head {text : List Char} (fits : Fits .member text) (rest : List Char) :
    ∃ later, skipBlank (text ++ rest) = '"' :: later := by
  cases fits with
  | member leading shaped middle element =>
    rw [List.append_assoc, skipBlank_append leading]
    exact ⟨_, skipBlank_cons (by decide) _⟩

theorem Fits.members_head {text : List Char} (fits : Fits .members text) (rest : List Char) :
    ∃ later, skipBlank (text ++ rest) = '"' :: later := by
  cases fits with
  | lastMember member => exact member.member_head rest
  | members first later =>
    rw [List.append_assoc]
    exact first.member_head _

theorem skipKey_congr {text other : List Char} (same : skipBlank text = skipBlank other) :
    skipKey text = skipKey other := by
  rw [skipKey, skipKey, same]

theorem skipColon_append {between : List Char} (spelled : Blanks between) (rest : List Char) :
    skipColon (between ++ ':' :: rest) = .ok rest := by
  rw [skipColon, skipBlank_append spelled, skipBlank_cons (by decide)]
  rfl

theorem skipKey_append {before key between : List Char} (leading : Blanks before)
    (shaped : Shaped key) (middle : Blanks between) (rest : List Char) :
    skipKey (before ++ '"' :: (key ++ '"' :: (between ++ ':' :: rest))) = .ok rest := by
  rw [skipKey, skipBlank_append leading, skipBlank_cons (by decide)]
  simp only [skipText_append shaped]
  exact skipColon_append middle rest

/-- Every part of a value is passed over to its end. -/
theorem Fits.passes {part : Part} {text : List Char} (fits : Fits part text) :
    Passes part text := by
  induction fits with
  | word known =>
    intro brackets rest _
    have skipped := skipScalar_word known rest
    simp only [List.mem_cons, List.not_mem_nil, or_false] at known
    rcases known with rfl | rfl | rfl <;> exact skipFrom_scalar (by decide) rfl skipped
  | @number sign text signed spelled =>
    intro brackets rest ends
    have skipped := skipScalar_number signed spelled ends
    obtain ⟨c, later, rfl, digit⟩ := spelled.head
    have other := digit_ne digit
    simp only [List.mem_cons, List.not_mem_nil, or_false] at signed
    rcases signed with rfl | rfl
    · have plain : opened? c = none := by
        rw [opened?, if_neg, if_neg]
        all_goals
          rintro rfl
          simp at other
      exact skipFrom_scalar (fun member => other (List.mem_append_left _ member)) plain skipped
    · exact skipFrom_scalar (by decide) rfl skipped
  | string shaped =>
    intro brackets rest _
    rw [List.cons_append, List.append_assoc]
    exact skipFrom_scalar (by decide) rfl (skipText_append shaped rest)
  | emptyList spelled =>
    intro brackets rest _
    rw [List.cons_append, List.append_assoc]
    exact skipFrom_empty .list (by decide) rfl spelled rest
  | @list text inner ih =>
    intro brackets rest _
    rw [List.cons_append, List.append_assoc, List.singleton_append]
    obtain ⟨c, later, first, visible⟩ := inner.elements_head (']' :: rest)
    have same : skipBlank (c :: later) = skipBlank (text ++ ']' :: rest) := by
      rw [first, skipBlank_cons fun member => visible (List.mem_append_left _ member)]
    rw [skipFrom_open .list (by decide) rfl first ?_ rfl,
      skipFrom_value_congr same, ih brackets rest]
    rintro rfl
    exact visible (by decide)
  | emptyObject spelled =>
    intro brackets rest _
    rw [List.cons_append, List.append_assoc]
    exact skipFrom_empty .object (by decide) rfl spelled rest
  | @object text inner ih =>
    intro brackets rest _
    rw [List.cons_append, List.append_assoc, List.singleton_append]
    obtain ⟨later, first⟩ := inner.members_head ('\x7d' :: rest)
    obtain ⟨after, key, passed⟩ := ih brackets rest
    have same : skipBlank ('"' :: later) = skipBlank (text ++ '\x7d' :: rest) := by
      rw [first, skipBlank_cons (by decide)]
    rw [skipFrom_open .object (by decide) rfl first (by decide)
      ((skipKey_congr same).trans key), passed]
  | element leading value trailing ih =>
    intro bracket outer rest ends
    rw [List.append_assoc, List.append_assoc, skipFrom_value_congr (skipBlank_append leading _),
      ih (bracket :: outer) _ (ends.blanks trailing),
      skipFrom_afterValue_congr (skipBlank_append trailing _)]
  | lastElement element ih =>
    intro outer rest
    exact (ih .list outer _ (delimited_cons (by decide) rest)).trans (skipFrom_close _ rest)
  | elements first later first_ih later_ih =>
    intro outer rest
    rw [List.append_assoc, List.cons_append,
      first_ih .list outer _ (delimited_comma _)]
    exact (skipFrom_comma .list rfl).trans (later_ih outer rest)
  | member leading shaped middle element ih =>
    intro outer rest ends
    refine ⟨_, ?_, ih .object outer rest ends⟩
    simp only [List.append_assoc, List.cons_append]
    exact skipKey_append leading shaped middle _
  | lastMember member ih =>
    intro outer rest
    obtain ⟨after, key, passed⟩ := ih outer ('\x7d' :: rest) (delimited_cons (by decide) rest)
    exact ⟨after, key, passed.trans (skipFrom_close _ rest)⟩
  | members first later first_ih later_ih =>
    intro outer rest
    obtain ⟨second, later_key, later_passed⟩ := later_ih outer rest
    obtain ⟨after, key, passed⟩ := first_ih outer _ (delimited_comma _)
    refine ⟨after, ?_, passed.trans ((skipFrom_comma .object later_key).trans later_passed)⟩
    rw [List.append_assoc]
    exact key

/-- A value is passed over, however deep it is nested. -/
theorem skipValue_append {before text rest : List Char} (leading : Blanks before)
    (fits : Fits .value text) (ends : Delimited rest) :
    skipValue (before ++ (text ++ rest)) = .ok rest := by
  rw [skipValue, skipFrom_value_congr (skipBlank_append leading _)]
  exact (fits.passes [] rest ends).trans (by rw [skipFrom])

end PinUart.Json
