import PinUart.Proofs.Settings

/-! Reading a configuration from an object: its members may come in any order, some may
miss, and others that mean nothing here may stand between them. -/
namespace PinUart.Config

open Json

/-- A member of an object: the value of a field, or one under a key that no field has. -/
inductive Entry
  | setting (field : Field) (value : field.Value)
  | other (key : List Char) (foreign : ∀ field : Field, key ≠ field.name.toList)

namespace Entry

def key : Entry → List Char
  | setting field _ => field.name.toList
  | other key _ => key

def field? : Entry → Option Field
  | setting field _ => some field
  | other _ _ => none

/-- The ways to write the value of a member. -/
def Holds : Entry → List Char → Prop
  | setting _ value => Written _ value
  | other _ _ => Fits .value

end Entry

/-- The fields that members set, in order. -/
def fields (entries : List Entry) : List Field := entries.filterMap Entry.field?

/-- A member with blanks between its parts. -/
inductive Member (entry : Entry) : List Char → Prop where
  | spelled {before name between gap text after : List Char} (leading : Blanks before)
      (named : Spelled entry.key name) (middle : Blanks between) (spaced : Blanks gap)
      (held : entry.Holds text) (trailing : Blanks after) :
      Member entry
        (before ++ '"' :: (name ++ '"' :: (between ++ ':' :: (gap ++ (text ++ after)))))

/-- Members with commas between them. -/
inductive Members : List Entry → List Char → Prop where
  | last {entry : Entry} {text : List Char} (member : Member entry text) : Members [entry] text
  | cons {entry : Entry} {entries : List Entry} {text rest : List Char}
      (member : Member entry text) (later : Members entries rest) :
      Members (entry :: entries) (text ++ ',' :: rest)

/-- The text of an object with the given members. -/
inductive ObjectText : List Entry → List Char → Prop where
  | empty {before inner after : List Char} (leading : Blanks before) (spaced : Blanks inner)
      (trailing : Blanks after) :
      ObjectText [] (before ++ '\x7b' :: (inner ++ '\x7d' :: after))
  | filled {entries : List Entry} {before text after : List Char} (leading : Blanks before)
      (members : Members entries text) (trailing : Blanks after) :
      ObjectText entries (before ++ '\x7b' :: (text ++ '\x7d' :: after))

/-- What a member does to the fields seen so far and to the configuration. -/
def Entry.settle (seen : List Field) (config : Config) :
    Entry → Except Cause (List Field × Config)
  | .setting field value =>
    if field ∈ seen then .error (.duplicateField field.name)
    else .ok (field :: seen, config.set field value)
  | .other _ _ => .ok (seen, config)

def settle (seen : List Field) (config : Config) : List Entry → Except Cause Config
  | [] => .ok config
  | entry :: entries =>
    match entry.settle seen config with
    | .error cause => .error cause
    | .ok (seen, config) => settle seen config entries

/-! The steps of the reader -/

variable {seen : List Field} {config : Config} {first : Bool}

theorem ofName?_name (field : Field) : Field.ofName? field.name.toList = some field := by
  cases field <;> rfl

theorem ofName?_foreign {key : List Char} (foreign : ∀ field : Field, key ≠ field.name.toList) :
    Field.ofName? key = none := by
  rw [Field.ofName?, List.find?_eq_none]
  intro field _ same
  exact foreign field (eq_of_beq same).symm

theorem readMember_append {entry : Entry} {name between gap text rest : List Char}
    (named : Spelled entry.key name) (middle : Blanks between) (spaced : Blanks gap)
    (held : entry.Holds text) (ends : Delimited rest) :
    readMember seen config (name ++ '"' :: (between ++ ':' :: (gap ++ (text ++ rest)))) =
      (entry.settle seen config).map (·, rest) := by
  rw [readMember, readText_append named]
  cases entry with
  | setting field value =>
    simp only [Entry.key, ofName?_name, Entry.settle]
    split
    · rfl
    · rw [skipColon_append middle]
      simp only [readField_append config spaced held ends]
      rfl
  | other key foreign =>
    simp only [Entry.key, ofName?_foreign foreign, skipColon_append middle, Except.bind,
      skipValue_append spaced held ends]
    rfl

theorem readMembers_congr {text other : List Char} (same : skipBlank text = skipBlank other)
    (seen : List Field) (config : Config) (first : Bool) :
    readMembers seen config first text = readMembers seen config first other := by
  conv => lhs; rw [readMembers, same]
  conv => rhs; rw [readMembers]

theorem readMembers_close (seen : List Field) (config : Config) (first : Bool) {blanks : List Char}
    (spelled : Blanks blanks) (rest : List Char) :
    readMembers seen config first (blanks ++ '\x7d' :: rest) = .ok (config, rest) := by
  rw [readMembers_congr (skipBlank_append spelled _), readMembers, skipBlank_cons (by decide)]
  simp only [if_true]

/-- What stands in front of a member. -/
def lead (first : Bool) : List Char := if first then [] else [',']

theorem readMembers_next {text inner : List Char}
    (key : nextKey first (skipBlank text) = .ok inner) :
    readMembers seen config first text =
      match readMember seen config inner with
      | .error cause => .error cause
      | .ok ((seen, config), rest) => readMembers seen config false rest := by
  conv => lhs; rw [readMembers]
  cases found : skipBlank text with
  | nil =>
    rw [found] at key
    cases key
  | cons c rest =>
    rw [found] at key
    have filled : c ≠ '\x7d' := by
      rintro rfl
      cases first <;> cases key
    simp only [if_neg filled]
    rw [key]
    dsimp only
    cases readMember seen config inner <;> rfl

theorem nextKey_append (first : Bool) {before : List Char} (leading : Blanks before)
    (rest : List Char) :
    nextKey first (skipBlank (lead first ++ (before ++ '"' :: rest))) = .ok rest := by
  have start : skipBlank (before ++ '"' :: rest) = '"' :: rest :=
    (skipBlank_append leading _).trans (skipBlank_cons (by decide) rest)
  cases first with
  | true => exact congrArg (nextKey true) start
  | false =>
    rw [lead, if_neg Bool.false_ne_true, List.singleton_append, skipBlank_cons (by decide), nextKey,
      if_neg Bool.false_ne_true, if_pos rfl, start]
    rfl

/-- A member is read to its end, whatever came before it. -/
theorem Member.read {entry : Entry} {text rest : List Char} (member : Member entry text)
    (ends : Delimited rest) :
    readMembers seen config first (lead first ++ (text ++ rest)) =
      match entry.settle seen config with
      | .error cause => .error cause
      | .ok (seen, config) => readMembers seen config false rest := by
  cases member with
  | @spelled before name between gap text after leading named middle spaced held trailing =>
    simp only [List.append_assoc, List.cons_append]
    rw [readMembers_next (nextKey_append first leading _),
      readMember_append named middle spaced held (ends.blanks trailing)]
    cases entry.settle seen config with
    | error cause => rfl
    | ok after => exact readMembers_congr (skipBlank_append trailing rest) _ _ false

/-- The members of an object are settled one after the other. -/
theorem Members.read {entries : List Entry} {text : List Char} (members : Members entries text)
    (seen : List Field) (config : Config) (first : Bool) (rest : List Char) :
    readMembers seen config first (lead first ++ (text ++ '\x7d' :: rest)) =
      (settle seen config entries).map (·, rest) := by
  induction members generalizing seen config first with
  | @last entry text member =>
    rw [member.read (delimited_cons (by decide) rest), settle]
    cases entry.settle seen config with
    | error cause => rfl
    | ok after => exact readMembers_close _ _ false Blanks.nil rest
  | @cons entry entries text later member members ih =>
    rw [List.append_assoc, List.cons_append, member.read (delimited_comma _), settle]
    cases entry.settle seen config with
    | error cause => rfl
    | ok after => exact ih after.1 after.2 false

theorem parse_object {before inner after : List Char} {answer : Except Cause Config}
    (leading : Blanks before) (trailing : Blanks after)
    (read : readMembers [] {} true inner = answer.map (·, after)) :
    parse (before ++ '\x7b' :: inner) = answer := by
  have nothing : skipBlank after = [] := by simpa [skipBlank] using skipBlank_append trailing []
  rw [parse, readConfig, skipBlank_append leading, skipBlank_cons (by decide)]
  simp only [read]
  cases answer with
  | error cause => rfl
  | ok config => simp [Except.map, nothing]

/-- Reading an object is settling its members. -/
theorem ObjectText.parse_eq {entries : List Entry} {text : List Char}
    (object : ObjectText entries text) : parse text = settle [] {} entries := by
  cases object with
  | empty leading spaced trailing =>
    exact parse_object leading trailing (readMembers_close [] {} true spaced _)
  | filled leading members trailing =>
    exact parse_object leading trailing (members.read [] {} true _)

/-! What settling comes to -/

theorem mem_fields {entries : List Entry} {field : Field} :
    field ∈ fields entries ↔ ∃ value, .setting field value ∈ entries := by
  rw [fields, List.mem_filterMap]
  constructor
  · rintro ⟨entry, member, sets⟩
    cases entry with
    | setting other value =>
      cases sets
      exact ⟨value, member⟩
    | other => cases sets
  · rintro ⟨value, member⟩
    exact ⟨_, member, rfl⟩

/-- What members make of a configuration: each field that one sets has that value, and the
others are as before. -/
structure Settled (entries : List Entry) (config answer : Config) : Prop where
  given : ∀ field value, .setting field value ∈ entries → answer.get field = value
  kept : ∀ field ∉ fields entries, answer.get field = config.get field

/-- Only what members set decides, and not in which order. -/
theorem Settled.eq_of_same {entries others : List Entry} {answer other : Config}
    (settled : Settled entries config answer) (settled_too : Settled others config other)
    (same : ∀ field value, .setting field value ∈ others ↔ .setting field value ∈ entries) :
    other = answer := by
  refine ext_get fun field => ?_
  by_cases set : field ∈ fields entries
  · obtain ⟨value, member⟩ := mem_fields.mp set
    rw [settled.given field value member,
      settled_too.given field value ((same field value).mpr member)]
  · have unset : field ∉ fields others := by
      intro set_too
      obtain ⟨value, member⟩ := mem_fields.mp set_too
      exact set (mem_fields.mpr ⟨value, (same field value).mp member⟩)
    rw [settled.kept field set, settled_too.kept field unset]

/-- Members that set no field twice are all taken over. -/
theorem settle_distinct {entries : List Entry} (seen : List Field) (config : Config)
    (distinct : (fields entries).Nodup) (fresh : ∀ field ∈ fields entries, field ∉ seen) :
    ∃ answer, settle seen config entries = .ok answer ∧ Settled entries config answer := by
  induction entries generalizing seen config with
  | nil =>
    exact ⟨config, rfl, fun _ _ member => absurd member List.not_mem_nil, fun _ _ => rfl⟩
  | cons entry entries ih =>
    cases entry with
    | other key foreign =>
      obtain ⟨answer, settled, given, kept⟩ := ih seen config distinct fresh
      refine ⟨answer, settled, fun field value member => ?_, kept⟩
      cases member with
      | tail _ member => exact given field value member
    | setting field value =>
      obtain ⟨alone, distinct⟩ := List.nodup_cons.mp distinct
      have unseen : field ∉ seen := fresh field (List.mem_cons_self ..)
      have still_fresh : ∀ other ∈ fields entries, other ∉ field :: seen := by
        intro other member known
        rcases List.mem_cons.mp known with rfl | known
        · exact alone member
        · exact fresh other (List.mem_cons_of_mem _ member) known
      obtain ⟨answer, settled, given, kept⟩ :=
        ih (field :: seen) (config.set field value) distinct still_fresh
      refine ⟨answer, ?_, fun other content member => ?_, fun other absent => ?_⟩
      · rw [settle, Entry.settle, if_neg unseen]
        exact settled
      · cases member with
        | head => rw [kept field alone, get_set_self]
        | tail _ member => exact given other content member
      · obtain ⟨differ, absent⟩ := not_or.mp (mt List.mem_cons.mpr absent)
        rw [kept other absent, get_set_of_ne config value differ]

/-- The first field that is set again is a fault. -/
theorem settle_repeated {entries : List Entry} (seen : List Field) (config : Config)
    (distinct : seen.Nodup) (again : ¬ (fields entries ++ seen).Nodup) :
    ∃ front field value back, entries = front ++ .setting field value :: back ∧
      (fields front ++ seen).Nodup ∧ field ∈ fields front ++ seen ∧
      settle seen config entries = .error (.duplicateField field.name) := by
  induction entries generalizing seen config with
  | nil => exact absurd distinct again
  | cons entry entries ih =>
    cases entry with
    | other key foreign =>
      obtain ⟨front, field, value, back, rfl, unique, known, settled⟩ :=
        ih seen config distinct again
      exact ⟨.other key foreign :: front, field, value, back, rfl, unique, known, settled⟩
    | setting field value =>
      by_cases known : field ∈ seen
      · refine ⟨[], field, value, entries, rfl, distinct, known, ?_⟩
        rw [settle, Entry.settle, if_pos known]
      · have later : ¬ (fields entries ++ field :: seen).Nodup :=
          mt List.perm_middle.nodup_iff.mp again
        obtain ⟨front, other, content, back, rfl, unique, met, settled⟩ :=
          ih (field :: seen) (config.set field value) (List.nodup_cons.mpr ⟨known, distinct⟩) later
        refine ⟨.setting field value :: front, other, content, back, rfl,
          List.perm_middle.nodup_iff.mp unique, List.perm_middle.mem_iff.mp met, ?_⟩
        rw [settle, Entry.settle, if_neg known]
        exact settled

theorem ObjectText.ofJson_distinct {entries : List Entry} {text : String}
    (object : ObjectText entries text.toList) (distinct : (fields entries).Nodup) :
    ∃ config, Settled entries {} config ∧ ofJson text = .ok config := by
  obtain ⟨config, settled, content⟩ :=
    settle_distinct [] {} distinct fun _ _ => List.not_mem_nil
  exact ⟨config, content, by rw [ofJson, object.parse_eq, settled]; rfl⟩

/-- An object gives a configuration the fields that its members set, and the defaults of the
others. The order of the members is of no account, nor what stands under other keys. The first
field that is set again is told as a fault. -/
theorem ofJson_object {entries : List Entry} {text : String}
    (object : ObjectText entries text.toList) :
    ((fields entries).Nodup → ∃ config, Settled entries {} config ∧ ofJson text = .ok config ∧
      ∀ others other, ObjectText others other.toList → (fields others).Nodup →
        (∀ field value, .setting field value ∈ others ↔ .setting field value ∈ entries) →
        ofJson other = .ok config) ∧
    (¬ (fields entries).Nodup → ∃ front field value back,
      entries = front ++ .setting field value :: back ∧ (fields front).Nodup ∧
      field ∈ fields front ∧
      ofJson text = .error (.configuration (Cause.duplicateField field.name).message)) := by
  constructor
  · intro distinct
    obtain ⟨config, settled, read⟩ := object.ofJson_distinct distinct
    refine ⟨config, settled, read, fun others other object_too distinct_too same => ?_⟩
    obtain ⟨answer, settled_too, read_too⟩ := object_too.ofJson_distinct distinct_too
    rw [read_too, settled.eq_of_same settled_too same]
  · intro again
    obtain ⟨front, field, value, back, split, unique, known, settled⟩ :=
      settle_repeated [] {} List.nodup_nil (by rwa [List.append_nil])
    rw [List.append_nil] at unique known
    refine ⟨front, field, value, back, split, unique, known, ?_⟩
    rw [ofJson, object.parse_eq, settled]
    rfl

/-- A note that means nothing here, a line speed and a pin that is not there. -/
def annotated : List Entry :=
  [.other "note".toList (by intro field; cases field <;> decide), .setting .baud (115200 : UInt32),
    .setting .rxPin (none : Option Pin)]

def annotatedText : String :=
  "\x7b\"note\":\x7b\"x\":[]\x7d, \"baud\" : 115200,\"rx_pin\":null\x7d\n"

theorem annotated_text : ObjectText annotated annotatedText.toList := by
  have inner : Fits .value "\x7b\"x\":[]\x7d".toList :=
    .object (.lastMember (@Fits.member [] ['x'] [] ['[', ']'] Blanks.nil
      (.cons (.plain (by decide)) .nil) Blanks.nil
      (@Fits.element [] ['[', ']'] [] Blanks.nil (.emptyList Blanks.nil) Blanks.nil)))
  have note : Member annotated[0] "\"note\":\x7b\"x\":[]\x7d".toList :=
    @Member.spelled annotated[0] [] "note".toList [] [] "\x7b\"x\":[]\x7d".toList [] Blanks.nil
      (spelled_self (by decide)) Blanks.nil Blanks.nil inner Blanks.nil
  have speed : Member annotated[1] " \"baud\" : 115200".toList :=
    @Member.spelled annotated[1] [' '] "baud".toList [' '] [' '] ['1', '1', '5', '2', '0', '0'] []
      (by decide) (spelled_self (by decide)) (by decide) (by decide)
      ⟨.digits (by decide) (by decide) (by decide), rfl⟩ Blanks.nil
  have pin : Member annotated[2] "\"rx_pin\":null".toList :=
    @Member.spelled annotated[2] [] "rx_pin".toList [] [] "null".toList [] Blanks.nil
      (spelled_self (by decide)) Blanks.nil Blanks.nil .null Blanks.nil
  exact @ObjectText.filled annotated [] _ ['\n'] Blanks.nil (.cons note (.cons speed (.last pin)))
    (by decide)

/-- One setting given twice. -/
def contrary : List Entry := [.setting .invert true, .setting .invert false]

def contraryText : String := "\x7b\"invert\":true,\"invert\":false\x7d"

theorem contrary_text : ObjectText contrary contraryText.toList := by
  have yes : Member contrary[0] "\"invert\":true".toList :=
    @Member.spelled contrary[0] [] "invert".toList [] [] "true".toList [] Blanks.nil
      (spelled_self (by decide)) Blanks.nil Blanks.nil rfl Blanks.nil
  have no : Member contrary[1] "\"invert\":false".toList :=
    @Member.spelled contrary[1] [] "invert".toList [] [] "false".toList [] Blanks.nil
      (spelled_self (by decide)) Blanks.nil Blanks.nil rfl Blanks.nil
  exact @ObjectText.filled contrary [] _ [] Blanks.nil (.cons yes (.last no)) Blanks.nil

theorem ofJson_object_annotated :
    (∃ config, ofJson annotatedText = .ok config ∧ config.baud = 115200 ∧
      config.byteCapacity = 64) ∧
    ofJson contraryText =
      .error (.configuration (Cause.duplicateField Field.invert.name).message) := by
  constructor
  · obtain ⟨config, settled, read, -⟩ := (ofJson_object annotated_text).1 (by decide)
    have speed := settled.given .baud (115200 : UInt32) (.tail _ (.head _))
    have size := settled.kept .byteCapacity (by decide)
    exact ⟨config, read, speed, size⟩
  · obtain ⟨front, field, value, back, split, -, known, read⟩ :=
      (ofJson_object contrary_text).2 (by decide)
    have member : field ∈ fields contrary := by
      rw [split, fields, List.filterMap_append]
      exact List.mem_append_left _ known
    have only : field = .invert := by
      revert member
      cases field <;> decide
    rw [read, only]

end PinUart.Config
