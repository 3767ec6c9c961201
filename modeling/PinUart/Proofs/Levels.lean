import Mathlib.Algebra.Group.Int.Defs
import Mathlib.Algebra.Group.Nat.Defs
import PinUart.Hold

/-! The level of the line at each bit period of a frame, and the holds of a message
as runs of equal levels. A hold never reaches from one frame into the next, since
a frame ends at mark and the next begins at space. -/
namespace PinUart

namespace Frame

/-- The level of the line in one bit period of a frame; after the frame it rests at mark. -/
def level (byte : UInt8) (place : Nat) : Bool := (levels byte)[place]?.getD true

theorem level_start (byte : UInt8) : level byte 0 = false := rfl

theorem level_data (byte : UInt8) {place : Nat} (inside : place < 8) :
    level byte (place + 1) = byte.toBitVec.getLsbD place := by
  have within : place < (bits byte).length := by rw [length_bits]; exact inside
  rw [level, levels, List.getElem?_cons_succ, List.getElem?_append_left within,
    List.getElem?_eq_getElem within]
  simp [bits, BitVec.getLsbD]

theorem level_stop (byte : UInt8) {place : Nat} (outside : 9 ≤ place) : level byte place = true := by
  obtain ⟨after, rfl⟩ := Nat.exists_eq_add_of_le outside
  rw [level, levels, show 9 + after = (8 + after) + 1 by omega, List.getElem?_cons_succ,
    List.getElem?_append_right (by simp [dataBits])]
  cases after <;> simp [dataBits]

end Frame

/-- The cycles of some bit periods, as long as they fit the counter. -/
theorem toNat_periods {count : Nat} {bitPeriod : UInt32} (few : count < 2 ^ 32)
    (fits : count * bitPeriod.toNat < 2 ^ 32) :
    (UInt32.ofNat count * bitPeriod).toNat = count * bitPeriod.toNat := by
  rw [UInt32.toNat_mul, UInt32.toNat_ofNat', Nat.mod_eq_of_lt few, Nat.mod_eq_of_lt fits]

namespace Plan

/-- The levels that are left of a frame from `place` on, and of the frames after it. -/
def levelsFrom (byte : UInt8) (place : Nat) (rest : List UInt8) : List Bool :=
  (Frame.levels byte).drop place ++ messageLevels rest

/-- The plan for what is left of a message at a place of one of its frames. -/
def ofPlace (byte : UInt8) (place : Nat) (rest : List UInt8) (bitPeriod : UInt32)
    (invert : Bool) : Plan where
  levels := (levelsFrom byte place rest).map (· ^^ invert)
  bitPeriod := bitPeriod

theorem ofData_cons (byte : UInt8) (rest : List UInt8) (bitPeriod : UInt32) (invert : Bool) :
    ofData (byte :: rest) bitPeriod invert = ofPlace byte 0 rest bitPeriod invert := rfl

variable {byte : UInt8} {place : Nat} {rest : List UInt8} {bitPeriod : UInt32} {invert : Bool}

private theorem getElem?_levelsFrom (inside : place ≤ 9) (offset : Nat) :
    (levelsFrom byte place rest)[offset]? =
      if place + offset < 10 then some (Frame.level byte (place + offset))
      else (messageLevels rest)[place + offset - 10]? := by
  have size : ((Frame.levels byte).drop place).length = 10 - place := by
    simp [frameBits, dataBits]
  rw [levelsFrom]
  split
  · rename_i within
    have bound : place + offset < (Frame.levels byte).length := by
      simp [frameBits, dataBits]
      exact within
    rw [List.getElem?_append_left (by omega), List.getElem?_drop, Frame.level,
      List.getElem?_eq_getElem bound, Option.getD_some]
  · rw [List.getElem?_append_right (by omega), size,
      show offset - (10 - place) = place + offset - 10 by omega]

private theorem drop_levelsFrom {run : Nat} (within : place + run ≤ 10) :
    (levelsFrom byte place rest).drop run = levelsFrom byte (place + run) rest := by
  have size : ((Frame.levels byte).drop place).length = 10 - place := by
    simp [frameBits, dataBits]
  rw [levelsFrom, List.drop_append_of_le_length (by omega), List.drop_drop, levelsFrom]

theorem levelsFrom_ended : levelsFrom byte 10 rest = messageLevels rest := by
  rw [levelsFrom, List.drop_of_length_le (by simp [frameBits, dataBits]), List.nil_append]

private theorem levels_of_map {levels later : List Bool} {run : Nat} {high : Bool}
    (split : levels.map (· ^^ invert) = List.replicate run high ++ later) :
    levels = List.replicate run (high ^^ invert) ++ later.map (· ^^ invert) := by
  have twice : (levels.map (· ^^ invert)).map (· ^^ invert) = levels := by
    simp [Function.comp_def]
  rw [← twice, split]
  simp

/-- A run of equal levels inside a frame has the level of its first place. -/
private theorem level_of_held {run later : Nat} {level : Bool} (inside : place ≤ 9)
    (held : ∀ offset < run, (levelsFrom byte place rest)[offset]? = some level)
    (after : place ≤ later) (before : later < place + run) (frame : later < 10) :
    Frame.level byte later = level := by
  have same := held (later - place) (by omega)
  rw [getElem?_levelsFrom inside, if_pos (by omega),
    show place + (later - place) = later by omega] at same
  exact Option.some.inj same

/-- A run of equal levels ends with its frame, since the next frame begins at space. -/
private theorem within_of_held {run : Nat} {level : Bool} (inside : place ≤ 9)
    (held : ∀ offset < run, (levelsFrom byte place rest)[offset]? = some level) :
    place + run ≤ 10 := by
  apply Nat.le_of_not_lt
  intro beyond
  have stop := level_of_held inside held inside (by omega) (by omega)
  have start := held (10 - place) (by omega)
  rw [getElem?_levelsFrom inside, if_neg (by omega),
    show place + (10 - place) - 10 = 0 by omega, ← stop, Frame.level_stop byte (by omega)] at start
  cases rest with
  | nil => cases start
  | cons next others =>
    rw [messageLevels_cons, Frame.levels] at start
    cases start

/-- The hold that starts at a place of a frame lasts until the level changes, which
is at the end of the frame at the latest. -/
theorem holds_ofPlace {hold : Hold} {holds : List Hold} (inside : place ≤ 9)
    (fits : 10 * bitPeriod.toNat < 2 ^ 32)
    (shape : (ofPlace byte place rest bitPeriod invert).holds = hold :: holds) :
    ∃ run, 0 < run ∧ place + run ≤ 10 ∧ hold.cycles.toNat = run * bitPeriod.toNat ∧
      hold.high = (Frame.level byte place ^^ invert) ∧
      (∀ later, place ≤ later → later < place + run →
        Frame.level byte later = Frame.level byte place) ∧
      (place + run ≤ 9 → Frame.level byte (place + run) ≠ Frame.level byte place) ∧
      holds = (ofPlace byte (place + run) rest bitPeriod invert).holds := by
  match found : (ofPlace byte place rest bitPeriod invert).next? with
  | none =>
    rw [Plan.holds] at shape
    split at shape
    · cases shape
    · rename_i whole
      rw [found] at whole
      cases whole
  | some (first, left) =>
    rw [holds_of_next? found] at shape
    obtain ⟨rfl, rfl⟩ := List.cons.inj shape
    obtain ⟨run, positive, lasting, whole, changed, same⟩ := levels_of_next? found
    have split : levelsFrom byte place rest =
        List.replicate run (first.high ^^ invert) ++ left.levels.map (· ^^ invert) :=
      levels_of_map whole
    have held : ∀ offset < run, (levelsFrom byte place rest)[offset]? =
        some (first.high ^^ invert) := by
      intro offset before
      rw [split, List.getElem?_append_left (by simpa using before)]
      simp [before]
    have within := within_of_held inside held
    have start := level_of_held inside held (Nat.le_refl _) (by omega) (by omega)
    have high : first.high = (Frame.level byte place ^^ invert) := by
      rw [start, Bool.xor_assoc, Bool.xor_self, Bool.xor_false]
    have rests : left.levels = (levelsFrom byte (place + run) rest).map (· ^^ invert) := by
      rw [← drop_levelsFrom within, split, List.drop_left' (by simp)]
      simp [Function.comp_def]
    refine ⟨run, positive, within, ?_, high, ?_, ?_, ?_⟩
    · have small : run * bitPeriod.toNat ≤ 10 * bitPeriod.toNat :=
        Nat.mul_le_mul_right _ (by omega)
      change first.cycles = UInt32.ofNat run * bitPeriod at lasting
      rw [lasting, toNat_periods (by omega) (by omega)]
    · intro later after before
      rw [start]
      exact level_of_held inside held after before (by omega)
    · intro more steady
      rw [rests, List.head?_eq_getElem?, List.getElem?_map, getElem?_levelsFrom more,
        if_pos (by omega), Nat.add_zero, steady, Option.map_some, ← high] at changed
      exact changed rfl
    · cases left
      rw [ofPlace, ← rests, ← show _ = bitPeriod from same]

theorem holds_ofPlace_ne_nil (inside : place ≤ 9) :
    (ofPlace byte place rest bitPeriod invert).holds ≠ [] := by
  intro nothing
  rw [Plan.holds] at nothing
  split at nothing
  · rename_i none
    have first : (ofPlace byte place rest bitPeriod invert).levels[0]? =
        some (Frame.level byte place ^^ invert) := by
      rw [ofPlace, List.getElem?_map, getElem?_levelsFrom inside, if_pos (by omega)]
      rfl
    rw [next?] at none
    split at none
    · rename_i empty
      rw [empty] at first
      cases first
    · cases none
  · cases nothing

theorem ofPlace_ended_cons (next : UInt8) :
    ofPlace byte 10 (next :: rest) bitPeriod invert = ofPlace next 0 rest bitPeriod invert := by
  rw [ofPlace, levelsFrom_ended]
  rfl

theorem holds_ofPlace_ended : (ofPlace byte 10 [] bitPeriod invert).holds = [] :=
  holds_of_levels_nil (by rw [ofPlace, levelsFrom_ended]; rfl)

/-- The last hold of a message has the rest of its last frame, and the line at mark. -/
theorem holds_ofPlace_singleton {hold : Hold} (inside : place ≤ 9)
    (fits : 10 * bitPeriod.toNat < 2 ^ 32)
    (last : (ofPlace byte place rest bitPeriod invert).holds = [hold]) :
    rest = [] ∧ hold.high = (Frame.level byte place ^^ invert) ∧
      ∀ later, place ≤ later → later < place + (10 - place) →
        Frame.level byte later = Frame.level byte place := by
  obtain ⟨run, -, within, -, high, steady, -, ended⟩ := holds_ofPlace inside fits last
  have past : place + run = 10 := by
    apply Nat.le_antisymm within
    apply Nat.le_of_not_lt
    intro more
    exact holds_ofPlace_ne_nil (by omega) ended.symm
  refine ⟨?_, high, fun later after before => steady later after (by omega)⟩
  cases rest with
  | nil => rfl
  | cons next others =>
    rw [past, ofPlace_ended_cons] at ended
    exact absurd ended.symm (holds_ofPlace_ne_nil (by omega))

/-- A hold takes up at least one level. -/
theorem length_holds_le (plan : Plan) : plan.holds.length ≤ plan.levels.length := by
  fun_induction Plan.holds plan with
  | case1 plan none => exact Nat.zero_le _
  | case2 plan hold rest found ih =>
    have := length_next? found
    rw [List.length_cons]
    omega

/-- Every hold changes the level, and lasts from one bit period to ten. -/
inductive Alternating (bitPeriod : Nat) : Bool → List Hold → Prop where
  | nil (high : Bool) : Alternating bitPeriod high []
  | cons {high : Bool} {hold : Hold} {holds : List Hold} (changes : hold.high ≠ high)
      (least : bitPeriod ≤ hold.cycles.toNat) (most : hold.cycles.toNat ≤ 10 * bitPeriod)
      (later : Alternating bitPeriod hold.high holds) :
      Alternating bitPeriod high (hold :: holds)

theorem alternating_ofPlace {before : Bool} (inside : place ≤ 9)
    (fits : 10 * bitPeriod.toNat < 2 ^ 32) (changes : (Frame.level byte place ^^ invert) ≠ before) :
    Alternating bitPeriod.toNat before (ofPlace byte place rest bitPeriod invert).holds := by
  generalize shape : (ofPlace byte place rest bitPeriod invert).holds = holds
  induction holds generalizing byte place rest before with
  | nil => exact .nil before
  | cons hold holds ih =>
    obtain ⟨run, positive, within, cycles, high, steady, changed, left⟩ :=
      holds_ofPlace inside fits shape
    have least : 1 * bitPeriod.toNat ≤ run * bitPeriod.toNat := Nat.mul_le_mul_right _ positive
    have most : run * bitPeriod.toNat ≤ 10 * bitPeriod.toNat := Nat.mul_le_mul_right _ (by omega)
    refine .cons (high ▸ changes) (by omega) (by omega) ?_
    by_cases more : place + run ≤ 9
    · refine ih more ?_ left.symm
      rw [high]
      intro same
      exact changed more (Bool.xor_left_inj.mp same)
    · have ended : place + run = 10 := by omega
      rw [ended] at left
      cases rest with
      | nil =>
        rw [left, holds_ofPlace_ended]
        exact .nil _
      | cons next rest =>
        rw [ofPlace_ended_cons] at left
        refine ih (Nat.zero_le _) ?_ left.symm
        have stop := steady 9 inside (by omega)
        rw [high, ← stop, Frame.level_stop byte (Nat.le_refl 9), Frame.level_start]
        cases invert <;> decide

/-- A message leaves the line at rest with its first hold. -/
theorem alternating_ofData (data : List UInt8) (fits : 10 * bitPeriod.toNat < 2 ^ 32) :
    Alternating bitPeriod.toNat (!invert) (ofData data bitPeriod invert).holds := by
  cases data with
  | nil =>
    rw [holds_of_levels_nil rfl]
    exact .nil _
  | cons byte rest =>
    rw [ofData_cons]
    refine alternating_ofPlace (Nat.zero_le _) fits ?_
    rw [Frame.level_start]
    cases invert <;> decide

theorem length_holds_ofData_le (data : List UInt8) :
    (ofData data bitPeriod invert).holds.length ≤ 10 * data.length := by
  have bound := length_holds_le (ofData data bitPeriod invert)
  have size : (ofData data bitPeriod invert).levels.length = 10 * data.length := by
    rw [ofData, List.length_map, length_messageLevels]
    rfl
  omega

theorem levels_of_next?_none {plan : Plan} (ended : plan.next? = none) : plan.levels = [] := by
  unfold next? at ended
  split at ended
  · assumption
  · cases ended

/-- The last hold of a plan is at its last level. -/
theorem getLast?_holds (plan : Plan) :
    plan.holds.getLast?.map (·.high) = plan.levels.getLast? := by
  cases found : plan.next? with
  | none =>
    have ended := levels_of_next?_none found
    rw [holds_of_levels_nil ended, ended]
    rfl
  | some result =>
    obtain ⟨hold, rest⟩ := result
    have shorter := length_next? found
    obtain ⟨run, positive, -, levels, -, -⟩ := levels_of_next? found
    have later := getLast?_holds rest
    rw [holds_of_next? found, levels, List.getLast?_append, List.getLast?_cons]
    cases ended : rest.levels.getLast? with
    | none =>
      rw [ended, Option.map_eq_none_iff] at later
      rw [later, List.getLast?_replicate, if_neg (by omega)]
      rfl
    | some level =>
      rw [ended] at later
      obtain ⟨last, same, high⟩ := Option.map_eq_some_iff.mp later
      rw [same, ← high]
      rfl
  termination_by plan.levels.length

/-- A message ends at mark. -/
theorem getLast?_ofData {data : List UInt8} (filled : data ≠ []) (bitPeriod : UInt32)
    (invert : Bool) :
    ∃ last, (ofData data bitPeriod invert).holds.getLast? = some last ∧ last.high = !invert := by
  have ends : (messageLevels data).getLast? = some true := by
    rw [← List.dropLast_concat_getLast filled, messageLevels, List.flatMap_append,
      List.getLast?_append, List.flatMap_singleton, Frame.getLast?_levels]
    rfl
  have last := getLast?_holds (ofData data bitPeriod invert)
  rw [ofData, List.getLast?_map, ends] at last
  obtain ⟨hold, found, high⟩ := Option.map_eq_some_iff.mp last
  exact ⟨hold, found, high.trans (Bool.true_xor invert)⟩

end Plan
end PinUart
