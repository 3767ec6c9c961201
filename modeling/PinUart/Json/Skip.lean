import PinUart.Json.Value

/-! Passing over a value that nobody asked for. Nesting is kept as a list of open
brackets, so that there is no limit to its depth. -/
namespace PinUart.Json

open Decimal (isDigit)

/-- What a bracket has opened. -/
inductive Bracket
  | list
  | object
  deriving DecidableEq, Repr

namespace Bracket

def closer : Bracket → Char
  | .list => ']'
  | .object => '\x7d'

def unfinished : Bracket → Cause
  | .list => .endInList
  | .object => .endInObject

def expectedComma : Bracket → Cause
  | .list => .expectedCommaOrBracket
  | .object => .expectedCommaOrBrace

end Bracket

/-- What a text continues with: a value, or whatever may follow one. -/
inductive Place
  | value
  | afterValue
  deriving DecidableEq, Repr

/-- Passes over a key and its colon. -/
def skipKey (text : List Char) : Except Cause (List Char) :=
  match skipBlank text with
  | [] => .error .endInObject
  | '"' :: rest => (skipText rest).bind skipColon
  | _ => .error .keyMustBeString

/-- Passes over what comes before a value inside of a bracket. -/
def skipToValue : Bracket → List Char → Except Cause (List Char)
  | .list, text => .ok text
  | .object, text => skipKey text

/-- Passes over a value that holds no others. -/
def skipScalar : List Char → Except Cause (List Char)
  | 'n' :: rest => expectWord ['u', 'l', 'l'] rest
  | 't' :: rest => expectWord ['r', 'u', 'e'] rest
  | 'f' :: rest => expectWord ['a', 'l', 's', 'e'] rest
  | '-' :: rest => skipNumber rest
  | '"' :: rest => skipText rest
  | [] => .error .endInValue
  | c :: rest => if isDigit c then skipNumber (c :: rest) else .error .expectedValue

/-- The bracket that a character opens. -/
def opened? (c : Char) : Option Bracket :=
  if c = '[' then some .list else if c = '\x7b' then some .object else none

theorem length_skipKey {text rest : List Char} (read : skipKey text = .ok rest) :
    rest.length < text.length := by
  have := length_skipBlank_le text
  unfold skipKey at read
  split at read
  · cases read
  · rename_i after whole
    match content : skipText after with
    | .error _ => simp [content, Except.bind] at read
    | .ok left =>
      have := length_skipText content
      simp only [content, Except.bind] at read
      have := length_skipColon read
      grind
  · cases read

theorem length_skipToValue {bracket : Bracket} {text rest : List Char}
    (read : skipToValue bracket text = .ok rest) : rest.length ≤ text.length := by
  cases bracket with
  | list => cases read; exact Nat.le_refl _
  | object => exact Nat.le_of_lt (length_skipKey read)

theorem length_skipScalar {text rest : List Char} (read : skipScalar text = .ok rest) :
    rest.length < text.length := by
  unfold skipScalar at read
  split at read
  · have := length_expectWord_le read; simp; omega
  · have := length_expectWord_le read; simp; omega
  · have := length_expectWord_le read; simp; omega
  · have := length_skipNumber read; simp; omega
  · have := length_skipText read; simp; omega
  · cases read
  · split at read
    · exact length_skipNumber read
    · cases read

/-- Goes on from a place inside of open brackets, the innermost first, until the
outermost value is over. -/
def skipFrom (place : Place) (brackets : List Bracket) (text : List Char) :
    Except Cause (List Char) :=
  match place, brackets with
  | .value, brackets =>
    match _found : skipBlank text with
    | [] => .error .endInValue
    | c :: rest =>
      match opened? c with
      | some bracket =>
        match _inner : skipBlank rest with
        | [] => .error bracket.unfinished
        | d :: after =>
          if d = bracket.closer then skipFrom .afterValue brackets after
          else
            match _next : skipToValue bracket (d :: after) with
            | .error cause => .error cause
            | .ok after => skipFrom .value (bracket :: brackets) after
      | none =>
        match _scalar : skipScalar (c :: rest) with
        | .error cause => .error cause
        | .ok after => skipFrom .afterValue brackets after
  | .afterValue, [] => .ok text
  | .afterValue, bracket :: outer =>
    match _found : skipBlank text with
    | [] => .error bracket.unfinished
    | c :: rest =>
      if c = ',' then
        match _next : skipToValue bracket rest with
        | .error cause => .error cause
        | .ok after => skipFrom .value (bracket :: outer) after
      else if c = bracket.closer then skipFrom .afterValue outer rest
      else .error bracket.expectedComma
  termination_by text.length
  decreasing_by
    · have := length_of_skipBlank _found
      have := length_of_skipBlank _inner
      omega
    · have := length_of_skipBlank _found
      have := length_of_skipBlank _inner
      have := length_skipToValue _next
      grind
    · have := length_of_skipBlank _found
      have := length_skipScalar _scalar
      grind
    · have := length_of_skipBlank _found
      have := length_skipToValue _next
      omega
    · exact length_of_skipBlank _found

theorem length_skipFrom_le {place : Place} {brackets : List Bracket} {text rest : List Char}
    (read : skipFrom place brackets text = .ok rest) : rest.length ≤ text.length := by
  fun_induction skipFrom place brackets text with
  | case1 | case2 | case4 | case6 | case9 | case10 | case13 => cases read
  | case3 text brackets c before opening bracket opens after inner ih =>
    have := length_of_skipBlank opening
    have := length_of_skipBlank inner
    have := ih read
    omega
  | case5 text brackets c before opening bracket opens d inner start differs after next ih =>
    have := length_of_skipBlank opening
    have := length_of_skipBlank start
    have := length_skipToValue next
    have := ih read
    grind
  | case7 text brackets c before opening opens after scalar ih =>
    have := length_of_skipBlank opening
    have := length_skipScalar scalar
    have := ih read
    grind
  | case8 => cases read; exact Nat.le_refl _
  | case11 text bracket outer before after next opening ih =>
    have := length_of_skipBlank opening
    have := length_skipToValue next
    have := ih read
    omega
  | case12 text bracket outer after opening differs ih =>
    have := length_of_skipBlank opening
    have := ih read
    omega

/-- Passes over one value. -/
def skipValue (text : List Char) : Except Cause (List Char) := skipFrom .value [] text

theorem length_skipValue_le {text rest : List Char} (read : skipValue text = .ok rest) :
    rest.length ≤ text.length := length_skipFrom_le read

end PinUart.Json
