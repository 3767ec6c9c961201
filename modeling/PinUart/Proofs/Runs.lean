import Mathlib.Algebra.Ring.Nat
import Mathlib.Data.List.Chain
import PinUart.Proofs.Levels

/-! The holds of a message are the run-length encoding of its bit periods: no level is
lost or added, neighbours differ, and no hold spans more than nine bit periods. -/
namespace PinUart

/-- The levels that a hold stands for, one per bit period. -/
def Hold.levels (hold : Hold) (bitPeriod : UInt32) : List Bool :=
  List.replicate (hold.cycles.toNat / bitPeriod.toNat) hold.high

theorem getElem?_messageLevels (data : List UInt8) {frame place : Nat}
    (inside : frame < data.length) (within : place < frameBits) :
    (messageLevels data)[frameBits * frame + place]? = (Frame.levels data[frame])[place]? := by
  induction data generalizing frame with
  | nil => cases inside
  | cons byte rest ih =>
    rw [messageLevels_cons]
    cases frame with
    | zero =>
      rw [Nat.mul_zero, Nat.zero_add, List.getElem?_append_left (by simpa using within)]
      rfl
    | succ frame =>
      rw [List.getElem?_append_right (by rw [Frame.length_levels, Nat.mul_succ]; omega),
        Frame.length_levels, show frameBits * (frame + 1) + place - frameBits =
          frameBits * frame + place by rw [Nat.mul_succ]; omega,
        ih (by simpa using inside)]
      rfl

/-- Ten bit periods in a row hold a start bit and a stop bit, whatever they begin with,
so that a run of equal levels is over before. -/
theorem run_le_of_infix {data : List UInt8} {invert high : Bool} {run : Nat}
    (held : List.replicate run high <:+: (messageLevels data).map (· ^^ invert)) : run ≤ 9 := by
  obtain ⟨before, after, whole⟩ := held
  have steady : ∀ place, before.length ≤ place → place < before.length + run →
      ((messageLevels data).map (· ^^ invert))[place]? = some high := by
    intro place reached inside
    rw [← whole, List.getElem?_append_left (by simp; omega),
      List.getElem?_append_right reached]
    exact List.getElem?_replicate_of_lt (by omega)
  have bound : before.length + run ≤ 10 * data.length := by
    have size := congrArg List.length whole
    simp [length_messageLevels, frameBits, dataBits] at size
    omega
  apply Nat.le_of_not_lt
  intro long
  have start := steady (frameBits * ((before.length + 9) / 10) + 0)
    (by simp [frameBits, dataBits]; omega) (by simp [frameBits, dataBits]; omega)
  have stop := steady (frameBits * (before.length / 10) + 9)
    (by simp [frameBits, dataBits]; omega) (by simp [frameBits, dataBits]; omega)
  rw [List.getElem?_map, getElem?_messageLevels data (by omega) (by decide)] at start stop
  have space : (false ^^ invert) = high := Option.some.inj start
  have mark : (true ^^ invert) = high := Option.some.inj stop
  rw [← mark] at space
  cases invert <;> cases space

namespace Plan

/-- No level lasts longer than `most` bit periods. -/
def Brief (plan : Plan) (most : Nat) : Prop :=
  ∀ run high, List.replicate run high <:+: plan.levels → run ≤ most

theorem brief_ofData (data : List UInt8) (bitPeriod : UInt32) (invert : Bool) :
    (ofData data bitPeriod invert).Brief 9 := fun _ _ held => run_le_of_infix held

/-- The answer to one of many requests for the next hold, counted from zero. A plan that
has ended stays as it is. -/
def ask (plan : Plan) : Nat → Option Hold
  | 0 => plan.next?.map (·.1)
  | count + 1 =>
    match plan.next? with
    | none => plan.ask count
    | some (_, rest) => rest.ask count

/-- Requests bring the holds one by one, and nothing once they are through. -/
theorem ask_eq (plan : Plan) (count : Nat) : plan.ask count = plan.holds[count]? := by
  induction count generalizing plan with
  | zero =>
    cases found : plan.next? with
    | none => simp [ask, found, holds_of_levels_nil (levels_of_next?_none found)]
    | some answer => simp [ask, found, holds_of_next? found]
  | succ count ih =>
    cases found : plan.next? with
    | none => simp [ask, found, ih, holds_of_levels_nil (levels_of_next?_none found)]
    | some answer => simp [ask, found, ih, holds_of_next? found]

/-- What the holds of a plan are, as an encoding of its levels. -/
structure Encoded (plan : Plan) (most : Nat) (holds : List Hold) : Prop where
  multiple : ∀ hold ∈ holds, ∃ run, 1 ≤ run ∧ run ≤ most ∧
    hold.cycles.toNat = run * plan.bitPeriod.toNat
  changing : holds.IsChain (fun hold later => later.high = !hold.high)
  expands : holds.flatMap (·.levels plan.bitPeriod) = plan.levels
  lasting : (holds.map (·.cycles.toNat)).sum = plan.levels.length * plan.bitPeriod.toNat

theorem head?_holds (plan : Plan) : plan.holds.head?.map (·.high) = plan.levels.head? := by
  cases found : plan.next? with
  | none =>
    have ended := levels_of_next?_none found
    rw [holds_of_levels_nil ended, ended]
    rfl
  | some answer =>
    obtain ⟨run, positive, -, whole, -, -⟩ := levels_of_next? found
    obtain ⟨run, rfl⟩ := Nat.exists_eq_succ_of_ne_zero (Nat.ne_of_gt positive)
    rw [holds_of_next? found, whole]
    rfl

theorem Brief.encoded {plan : Plan} {most : Nat} (brief : plan.Brief most)
    (positive : 1 ≤ plan.bitPeriod.toNat) (fits : most * plan.bitPeriod.toNat < 2 ^ 32) :
    plan.Encoded most plan.holds := by
  fun_induction Plan.holds plan with
  | case1 plan ended =>
    have empty := levels_of_next?_none ended
    exact ⟨by simp, .nil, by simp [empty], by simp [empty]⟩
  | case2 plan hold rest found ih =>
    obtain ⟨run, positive_run, lasting, whole, changed, same⟩ := levels_of_next? found
    have short : run ≤ most := brief run hold.high (whole ▸ (List.prefix_append _ _).isInfix)
    have small : run * plan.bitPeriod.toNat ≤ most * plan.bitPeriod.toNat :=
      Nat.mul_le_mul_right _ short
    have alone : run * 1 ≤ run * plan.bitPeriod.toNat := Nat.mul_le_mul_left _ positive
    have cycles : hold.cycles.toNat = run * plan.bitPeriod.toNat := by
      rw [lasting, toNat_periods (by omega) (by omega)]
    have later : rest.Encoded most rest.holds := by
      refine ih (fun run high held => brief run high ?_) (same ▸ positive) (same ▸ fits)
      exact held.trans (whole ▸ (List.suffix_append _ _).isInfix)
    refine ⟨?_, ?_, ?_, ?_⟩
    · intro found member
      rcases List.mem_cons.mp member with rfl | member
      · exact ⟨run, positive_run, short, cycles⟩
      · rw [← same]
        exact later.multiple found member
    · refine List.isChain_cons.mpr ⟨?_, later.changing⟩
      intro next first
      have second := head?_holds rest
      rw [Option.mem_def.mp first, Option.map_some] at second
      rw [← second] at changed
      exact Bool.eq_not.mpr fun same => changed (congrArg some same)
    · have expanded := later.expands
      rw [same] at expanded
      rw [List.flatMap_cons, expanded, Hold.levels, cycles,
        Nat.mul_div_cancel _ (Nat.lt_of_succ_le positive), ← whole]
    · rw [List.map_cons, List.sum_cons, later.lasting, cycles, same, whole, List.length_append,
        List.length_replicate, Nat.add_mul]

/-- Holds that encode the frames of a message, each a start bit, the bits of a byte from the lowest
on, and a stop bit. -/
structure Frames (data : List UInt8) (bitPeriod : UInt32) (invert : Bool) (holds : List Hold) :
    Prop where
  multiple : ∀ hold ∈ holds, ∃ run, 1 ≤ run ∧ run ≤ 9 ∧
    hold.cycles.toNat = run * bitPeriod.toNat
  changing : holds.IsChain (fun hold later => later.high = !hold.high)
  expands : holds.flatMap (·.levels bitPeriod) =
    data.flatMap (fun byte => (false :: ((List.range 8).map
      (fun place => byte.toNat / 2 ^ place % 2 == 1) ++ [true])).map (· ^^ invert))
  lasting : (holds.map (·.cycles.toNat)).sum = 10 * data.length * bitPeriod.toNat
  ends : data ≠ [] → holds.head?.map (·.high) = some (false ^^ invert) ∧
    holds.getLast?.map (·.high) = some (true ^^ invert)

theorem frames_holds (data : List UInt8) {bitPeriod : UInt32} (invert : Bool)
    (positive : 1 ≤ bitPeriod.toNat) (fits : bitPeriod.toNat ≤ (2 ^ 32 - 1) / 9) :
    Frames data bitPeriod invert (ofData data bitPeriod invert).holds := by
  have encoded := (brief_ofData data bitPeriod invert).encoded positive
    (show 9 * bitPeriod.toNat < 2 ^ 32 by omega)
  refine ⟨encoded.multiple, encoded.changing, ?_, ?_, fun filled => ⟨?_, ?_⟩⟩
  · have bits (byte : UInt8) : Frame.bits byte =
        (List.range 8).map (fun place => byte.toNat / 2 ^ place % 2 == 1) := by
      refine List.map_congr_left fun place _ => ?_
      rw [Nat.testBit_eq_decide_div_mod_eq]
      rfl
    refine encoded.expands.trans ?_
    simp only [ofData, messageLevels, List.map_flatMap, Frame.levels, bits]
  · rw [encoded.lasting]
    simp [ofData, length_messageLevels, frameBits, dataBits]
  · obtain ⟨byte, rest, rfl⟩ := List.exists_cons_of_ne_nil filled
    exact head?_holds (ofData (byte :: rest) bitPeriod invert)
  · obtain ⟨last, ends, high⟩ := getLast?_ofData filled bitPeriod invert
    rw [ends, Option.map_some, high, Bool.true_xor]

/-- The holds of a message are the runs of its frames, and requests for them find these
holds in turn and nothing behind the last. -/
theorem holds_encode_message (data : List UInt8) (bitPeriod : UInt32) (invert : Bool)
    (positive : 1 ≤ bitPeriod.toNat) (fits : bitPeriod.toNat ≤ (2 ^ 32 - 1) / 9) :
    let plan := ofData data bitPeriod invert
    (∀ hold ∈ plan.holds, ∃ run, 1 ≤ run ∧ run ≤ 9 ∧
      hold.cycles.toNat = run * bitPeriod.toNat) ∧
    plan.holds.IsChain (fun hold later => later.high = !hold.high) ∧
    plan.holds.flatMap (·.levels bitPeriod) =
      data.flatMap (fun byte => (false :: ((List.range 8).map
        (fun place => byte.toNat / 2 ^ place % 2 == 1) ++ [true])).map (· ^^ invert)) ∧
    (plan.holds.map (·.cycles.toNat)).sum = 10 * data.length * bitPeriod.toNat ∧
    (data ≠ [] → plan.holds.head?.map (·.high) = some (false ^^ invert) ∧
      plan.holds.getLast?.map (·.high) = some (true ^^ invert)) ∧
    ∀ count, plan.ask count = plan.holds[count]? := by
  intro plan
  have frames := frames_holds data invert positive fits
  exact ⟨frames.multiple, frames.changing, frames.expands, frames.lasting, frames.ends,
    ask_eq plan⟩

/-- Nine bit periods at mark follow the start bit of FF, and nine at space begin the
frame of 00. -/
theorem holds_encode_full_blank :
    1 ≤ (8333 : UInt32).toNat ∧ (8333 : UInt32).toNat ≤ (2 ^ 32 - 1) / 9 ∧
    (ofData [0xFF, 0x00] 8333 true).holds.flatMap (·.levels 8333) =
      [true] ++ List.replicate 9 false ++ List.replicate 9 true ++ [false] ∧
    ((ofData [0xFF, 0x00] 8333 true).holds.map (·.cycles.toNat)).sum = 20 * 8333 ∧
    (ofData [0xFF, 0x00] 8333 true).holds.head?.map (·.high) = some true := by
  obtain ⟨-, -, expands, lasting, ends, -⟩ :=
    holds_encode_message [0xFF, 0x00] 8333 true (by decide) (by decide)
  exact ⟨by decide, by decide, expands.trans (by decide), lasting, (ends (by decide)).1⟩

end Plan
end PinUart
