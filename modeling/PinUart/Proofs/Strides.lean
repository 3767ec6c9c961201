import PinUart.Proofs.Observation
import PinUart.Proofs.Register

/-! Two loops over the bit periods before an edge: one takes a period a round, the other
all hidden bits at once. Both end, and where they end is what `Decoder.decode` answers. -/
namespace PinUart.Decoder

/-- How many data bits a round of the loop takes. -/
inductive Stride
  | single
  | hidden
  deriving DecidableEq, Repr

/-- Where a loop stands: what the decoder knows by now, the cycles left until the edge,
and what has become of completed bytes. -/
structure Reckoning where
  decoder : Decoder
  left : Int
  bytes : ByteRing
  outcome : Outcome := {}

namespace Reckoning

/-- Uses time up and takes bits into the register. -/
def advance (state : Reckoning) (count : Fin 9) (register : BitVec 8) (periods : Nat) :
    Reckoning :=
  { state with
    decoder := { state.decoder with phase := .receiving count, register := register }
    left := state.left - periods * state.decoder.signedPeriod }

/-- A round inside of the data bits, `count` of which have come before. The bit at the
edge has the level of the edge, and all before it are like the last. -/
def takeBits (state : Reckoning) (count : Nat) (below : count < 8) (mark : Bool) :
    Stride → Reckoning
  | .single =>
    let bit := if state.decoder.signedPeriod ≤ state.left then state.decoder.register.msb else mark
    state.advance ⟨count + 1, by omega⟩ (shiftIn state.decoder.register bit) 1
  | .hidden =>
    let hidden := min (state.left / state.decoder.signedPeriod).toNat (8 - count)
    let register := repeatLast state.decoder.register hidden
    if more : count + hidden < 8 then
      state.advance ⟨count + hidden + 1, by omega⟩ (shiftIn register mark) (hidden + 1)
    else state.advance (Fin.last 8) register hidden

/-- Stores a completed byte, if there is room for it. -/
def put (state : Reckoning) (byte : UInt8) : Reckoning :=
  let (stored, bytes) := state.bytes.push byte
  { state with
    bytes := bytes
    outcome :=
      if stored then { state.outcome with stored := state.outcome.stored + 1 }
      else { state.outcome with dropped := state.outcome.dropped + 1 } }

/-- The round after the last data bit: the stop bit goes by, and the byte is stored. -/
def close (state : Reckoning) : Reckoning :=
  { state.put (UInt8.ofBitVec state.decoder.register) with
    decoder := { state.decoder with phase := .idle, register := 0 }
    left := state.left - state.decoder.signedPeriod }

/-- One round of a loop. At rest a space level begins the next frame. -/
def round (stride : Stride) (mark : Bool) (state : Reckoning) : Reckoning :=
  match state.decoder.phase with
  | .idle =>
    if mark then state
    else
      { state with
        decoder := { state.decoder with phase := .receiving ⟨0, Nat.succ_pos dataBits⟩ } }
  | .receiving count =>
    if below : count.val < 8 then state.takeBits count below mark stride else state.close

/-- Whether a round was the last: a line at rest asks for no other, and no time may be
left over. -/
def IsLast (before after : Reckoning) : Prop := before.decoder.phase = .idle ∨ after.left < 0

/-- The rounds of a loop from one state to its end. -/
inductive Ends (stride : Stride) (mark : Bool) : Reckoning → Reckoning → Prop where
  | last {state : Reckoning} (past : IsLast state (state.round stride mark)) :
      Ends stride mark state (state.round stride mark)
  | next {state final : Reckoning} (more : ¬ IsLast state (state.round stride mark))
      (later : Ends stride mark (state.round stride mark) final) : Ends stride mark state final

def answer (state : Reckoning) : Outcome × Decoder × ByteRing :=
  (state.outcome, state.decoder, state.bytes)

end Reckoning

/-- Takes in one edge by a loop of its own. -/
def DecodesBy (stride : Stride) (decoder : Decoder) (edge : Edge) (bytes : ByteRing)
    (answer : Outcome × Decoder × ByteRing) : Prop :=
  let left := Cycle.span decoder.last edge.timestamp - decoder.signedPeriod.tdiv 2
  if left < 0 then answer = ({ spurious := true }, decoder, bytes)
  else
    ∃ final, Reckoning.Ends stride (edge.mark decoder.invert)
      { decoder := { decoder with last := edge.timestamp }, left, bytes } final ∧
      answer = final.answer

variable {decoder : Decoder} {count : Fin 9} {elapsed : Int}

theorem account_within (started : decoder.phase = .receiving count)
    (positive : 0 < decoder.signedPeriod)
    (within : count.val + (elapsed / decoder.signedPeriod).toNat < 8) (mark : Bool) :
    decoder.account elapsed mark =
      ({ decoder with
          phase := .receiving ⟨count.val + (elapsed / decoder.signedPeriod).toNat + 1, by omega⟩
          register := shiftIn
            (repeatLast decoder.register (elapsed / decoder.signedPeriod).toNat) mark },
        .progress) := by
  rw [account]
  simp only [started]
  rw [if_neg (by omega), dif_pos within]

theorem account_beyond (started : decoder.phase = .receiving count)
    (positive : 0 < decoder.signedPeriod)
    (beyond : 8 ≤ count.val + (elapsed / decoder.signedPeriod).toNat) (mark : Bool) :
    decoder.account elapsed mark =
      decoder.complete (repeatLast decoder.register (8 - count.val))
        (elapsed - (8 - count.val : Nat) * decoder.signedPeriod) mark := by
  rw [account]
  simp only [started]
  rw [if_neg (by omega), dif_neg (by omega)]

theorem account_ne_spurious (decoder : Decoder) (elapsed : Int) (mark : Bool) :
    (decoder.account elapsed mark).2 ≠ .spurious := by
  rw [account]
  split
  · exact Finding.noConfusion
  · dsimp only
    split
    · exact Finding.noConfusion
    · split <;> exact Finding.noConfusion

namespace Reckoning

variable {state : Reckoning} {stride : Stride} {mark : Bool}

/-- The answer for the time that is left, all at once. -/
def settled (mark : Bool) (state : Reckoning) : Outcome × Decoder × ByteRing :=
  match state.decoder.account state.left mark with
  | (decoder, .completed byte) => { state.put byte with decoder }.answer
  | (decoder, _) => { state with decoder }.answer

theorem settled_resting (state : Reckoning) (resting : state.decoder.phase = .idle) :
    state.settled mark =
      { state with decoder := { state.decoder with phase := arm mark } }.answer := by
  simp only [settled, account, resting]

theorem settled_within (state : Reckoning) {count : Fin 9}
    (started : state.decoder.phase = .receiving count) (positive : 0 < state.decoder.signedPeriod)
    {hidden : Nat}
    (same : (state.left / state.decoder.signedPeriod).toNat = hidden)
    (within : count.val + hidden < 8) :
    state.settled mark =
      (state.advance ⟨count.val + hidden + 1, by omega⟩
        (shiftIn (repeatLast state.decoder.register hidden) mark) (hidden + 1)).answer := by
  subst same
  rw [settled, account_within started positive within]
  rfl

/-- With all data bits in, the stop bit and the level behind it are what is left. -/
theorem settled_full (state : Reckoning) (started : state.decoder.phase = .receiving 8)
    (positive : 0 < state.decoder.signedPeriod) :
    state.settled mark =
      { state.put (UInt8.ofBitVec state.decoder.register) with
        decoder := { state.decoder with
          phase := if state.decoder.signedPeriod ≤ state.left then arm mark else .idle
          register := 0 } }.answer := by
  have none : 8 - (8 : Fin 9).val = 0 := rfl
  rw [settled, account_beyond started positive (Nat.le_add_right ..), none]
  simp [complete]

theorem settled_beyond (state : Reckoning) {count : Fin 9}
    (started : state.decoder.phase = .receiving count) (positive : 0 < state.decoder.signedPeriod)
    {hidden : Nat}
    (same : (state.left / state.decoder.signedPeriod).toNat = hidden)
    (beyond : 8 ≤ count.val + hidden) :
    state.settled mark =
      (state.advance (Fin.last 8) (repeatLast state.decoder.register (8 - count.val))
        (8 - count.val)).settled mark := by
  subst same
  rw [settled, account_beyond started positive beyond, settled_full
    (state.advance (Fin.last 8) _ _) rfl positive]
  rfl

/-- A hidden bit may as well be taken in by itself. -/
theorem settled_single {count : Fin 9} (started : state.decoder.phase = .receiving count)
    (below : count.val < 8) (positive : 0 < state.decoder.signedPeriod)
    (whole : state.decoder.signedPeriod ≤ state.left) :
    (state.advance ⟨count.val + 1, by omega⟩
      (shiftIn state.decoder.register state.decoder.register.msb) 1).settled mark =
      state.settled mark := by
  have periods : (state.left / state.decoder.signedPeriod).toNat =
      ((state.left - (1 : Nat) * state.decoder.signedPeriod) / state.decoder.signedPeriod).toNat
        + 1 := by
    have one : 1 ≤ state.left / state.decoder.signedPeriod :=
      (Int.le_ediv_iff_mul_le positive).mpr (by omega)
    rw [show state.left - (1 : Nat) * state.decoder.signedPeriod =
      state.left + -1 * state.decoder.signedPeriod by omega,
      Int.add_mul_ediv_right _ _ (by omega)]
    omega
  generalize hidden : ((state.left - (1 : Nat) * state.decoder.signedPeriod) /
    state.decoder.signedPeriod).toNat = rest at periods
  by_cases within : count.val + (rest + 1) < 8
  · have place : count.val + 1 + rest + 1 = count.val + (rest + 1) + 1 := by omega
    rw [settled_within state started positive periods within,
      settled_within (state.advance ..) rfl positive hidden
        (show count.val + 1 + rest < 8 by omega)]
    simp only [advance, answer, place, repeatLast_shiftIn _ (show rest < 8 by omega)]
  · have missing : 8 - (count.val + 1) + 1 = 8 - count.val := by omega
    have register : repeatLast (shiftIn state.decoder.register state.decoder.register.msb)
        (8 - (count.val + 1)) = repeatLast state.decoder.register (8 - count.val) := by
      rw [repeatLast_shiftIn _ (by omega), missing]
    rw [settled_beyond state started positive periods (by omega),
      settled_beyond (state.advance ..) rfl positive hidden
        (show 8 ≤ count.val + 1 + rest by omega)]
    have used (period : Int) :
        state.left - (1 : Nat) * period - (8 - (count.val + 1) : Nat) * period =
          state.left - (8 - count.val : Nat) * period := by
      rw [← missing, Int.natCast_add, Int.add_mul]
      omega
    simp only [advance, register, signedPeriod, used]

/-- What a round hands on: the answer once the loop is over, and the same answer to come
while it goes on, with less to do. -/
structure Keeps (mark : Bool) (before after : Reckoning) : Prop where
  ended : IsLast before after → after.answer = before.settled mark
  kept : ¬ IsLast before after → after.settled mark = before.settled mark
  period : after.decoder.signedPeriod = before.decoder.signedPeriod

theorem keeps_resting (resting : state.decoder.phase = .idle) :
    Keeps mark state (state.round stride mark) := by
  have settled : state.settled mark = _ := settled_resting state resting
  simp only [round, resting]
  cases mark with
  | true =>
    have stays : { state.decoder with phase := arm true } = state.decoder := by
      rw [show arm true = state.decoder.phase from resting.symm]
    have kept := congrArg (fun decoder => { state with decoder }.answer) stays
    exact ⟨fun _ => (settled.trans kept).symm, fun more => absurd (.inl resting) more, rfl⟩
  | false => exact ⟨fun _ => settled.symm, fun more => absurd (.inl resting) more, rfl⟩

theorem keeps_close (started : state.decoder.phase = .receiving 8)
    (positive : 0 < state.decoder.signedPeriod) : Keeps mark state state.close := by
  have used : state.close.left = state.left - state.decoder.signedPeriod := rfl
  refine ⟨fun past => ?_, fun more => ?_, rfl⟩
  · have past : state.close.left < 0 := past.resolve_left (by rw [started]; exact Phase.noConfusion)
    rw [settled_full state started positive, if_neg (by omega)]
    rfl
  · have more : ¬ state.close.left < 0 := fun negative => more (.inr negative)
    rw [settled_full state started positive, if_pos (by omega), settled_resting state.close rfl]
    rfl

theorem keeps_single {count : Fin 9} (started : state.decoder.phase = .receiving count)
    (below : count.val < 8) (positive : 0 < state.decoder.signedPeriod) (remains : 0 ≤ state.left) :
    Keeps mark state (state.takeBits count below mark .single) := by
  rw [takeBits]
  by_cases whole : state.decoder.signedPeriod ≤ state.left
  · rw [if_pos whole]
    refine ⟨fun past => ?_, fun _ => settled_single started below positive whole, rfl⟩
    rcases past with resting | past
    · rw [started] at resting
      cases resting
    · have left : state.left - (1 : Nat) * state.decoder.signedPeriod < 0 := past
      omega
  · rw [if_neg whole]
    have none : (state.left / state.decoder.signedPeriod).toNat = 0 := by
      rw [Int.ediv_eq_zero_of_lt remains (by omega)]
      rfl
    refine ⟨fun _ => ?_, fun more => absurd (.inr ?_) more, rfl⟩
    · rw [settled_within state started positive none below, repeatLast_zero]
    · show state.left - (1 : Nat) * state.decoder.signedPeriod < 0
      omega

theorem keeps_hidden {count : Fin 9} (started : state.decoder.phase = .receiving count)
    (below : count.val < 8) (positive : 0 < state.decoder.signedPeriod) (remains : 0 ≤ state.left) :
    Keeps mark state (state.takeBits count below mark .hidden) := by
  obtain ⟨hidden, periods⟩ := Int.eq_ofNat_of_zero_le
    (Int.ediv_nonneg remains (Int.le_of_lt positive))
  have same : (state.left / state.decoder.signedPeriod).toNat = hidden := by omega
  simp only [takeBits, same]
  by_cases within : count.val + hidden < 8
  · have all : min hidden (8 - count.val) = hidden := by omega
    have past := Int.lt_ediv_add_one_mul_self state.left positive
    rw [periods] at past
    simp only [all]
    rw [dif_pos within]
    refine ⟨fun _ => (settled_within state started positive same within).symm,
      fun more => absurd (.inr ?_) more, rfl⟩
    exact Int.sub_neg_of_lt past
  · have all : min hidden (8 - count.val) = 8 - count.val := by omega
    have fits : (8 - count.val : Nat) * state.decoder.signedPeriod ≤ state.left :=
      (Int.le_ediv_iff_mul_le positive).mp (by omega)
    simp only [all]
    rw [dif_neg (by omega)]
    refine ⟨fun past => ?_, fun _ => ?_, rfl⟩
    · rcases past with resting | past
      · rw [started] at resting
        cases resting
      · have left : state.left - (8 - count.val : Nat) * state.decoder.signedPeriod < 0 := past
        omega
    · exact (settled_beyond state started positive same (by omega)).symm

theorem keeps_round (positive : 0 < state.decoder.signedPeriod) (remains : 0 ≤ state.left) :
    Keeps mark state (state.round stride mark) := by
  cases place : state.decoder.phase with
  | idle => exact keeps_resting place
  | receiving count =>
    simp only [round, place]
    split
    · rename_i below
      cases stride with
      | single => exact keeps_single place below positive remains
      | hidden => exact keeps_hidden place below positive remains
    · rename_i full
      have last : count = 8 := by
        apply Fin.ext
        have := count.isLt
        show count.val = 8
        omega
      exact keeps_close (last ▸ place) positive

/-- Bits that a frame still lacks, and its end. -/
def toGo : Phase → Nat
  | .idle => 0
  | .receiving count => 9 - count.val

theorem toGo_round (busy : state.decoder.phase ≠ .idle) :
    toGo (state.round stride mark).decoder.phase < toGo state.decoder.phase := by
  cases place : state.decoder.phase with
  | idle => exact absurd place busy
  | receiving count =>
    have bound := count.isLt
    simp only [round, place]
    split
    · cases stride with
      | single => simp only [takeBits, advance, toGo]; omega
      | hidden =>
        simp only [takeBits]
        split
        · simp only [advance, toGo]; omega
        · simp only [advance, toGo]
          show 9 - 8 < _
          omega
    · simp only [close, toGo]
      omega

/-- Every round keeps the answer, and so does the whole loop. -/
theorem Ends.answer_eq {final : Reckoning} (ends : Ends stride mark state final)
    (positive : 0 < state.decoder.signedPeriod) (remains : 0 ≤ state.left) :
    final.answer = state.settled mark := by
  induction ends with
  | last past => exact (keeps_round positive remains).ended past
  | @next state final more later ih =>
    have keeps : Keeps mark state (state.round stride mark) := keeps_round positive remains
    rw [ih (keeps.period ▸ positive) (Int.le_of_not_gt fun past => more (.inr past)),
      keeps.kept more]

/-- Each round brings the end of the frame nearer. -/
theorem exists_ends (state : Reckoning) (stride : Stride) (mark : Bool) :
    ∃ final, Ends stride mark state final := by
  induction shrinks : toGo state.decoder.phase using Nat.strongRecOn generalizing state with
  | ind size ih =>
    by_cases past : IsLast state (state.round stride mark)
    · exact ⟨_, .last past⟩
    · subst shrinks
      obtain ⟨final, ends⟩ := ih _ (toGo_round fun resting => past (.inl resting)) _ rfl
      exact ⟨final, .next past ends⟩

end Reckoning

theorem settled_start (decoder : Decoder) (bytes : ByteRing) (left : Int) (mark : Bool) :
    ({ decoder, left, bytes } : Reckoning).settled mark =
      ((bytes.store (decoder.account left mark).2).1, (decoder.account left mark).1,
        (bytes.store (decoder.account left mark).2).2) := by
  have genuine := decoder.account_ne_spurious left mark
  rw [Reckoning.settled]
  split
  · rename_i after byte whole
    rw [whole, ByteRing.store, Reckoning.put]
    cases bytes.push byte with
    | mk stored pushed => cases stored <;> rfl
  · rename_i after finding unfinished whole
    rw [whole] at genuine ⊢
    cases finding with
    | spurious => exact absurd rfl genuine
    | progress => rfl
    | completed byte => exact (unfinished byte rfl).elim

/-- Whether its loop takes the bits one by one or all hidden ones at once, an edge is
decoded to the same end, and the loop reaches it. -/
theorem decodesBy_iff (stride : Stride) (decoder : Decoder) (edge : Edge) (bytes : ByteRing)
    (answer : Outcome × Decoder × ByteRing) (narrow : decoder.bitPeriod.toNat < 2 ^ 31) :
    DecodesBy stride decoder edge bytes answer ↔ decoder.decode edge bytes = answer := by
  have positive : 0 < decoder.signedPeriod := by
    have := decoder.bitPeriod_pos
    rw [signedPeriod, Cycle.signed_of_lt narrow]
    omega
  rw [DecodesBy, decode_eq, sense]
  split
  · exact eq_comm
  · rename_i remains
    rw [← settled_start]
    constructor
    · rintro ⟨final, ends, rfl⟩
      exact (ends.answer_eq positive (Int.le_of_not_gt remains)).symm
    · rintro rfl
      obtain ⟨final, ends⟩ := Reckoning.exists_ends _ stride (edge.mark decoder.invert)
      exact ⟨final, ends, (ends.answer_eq positive (Int.le_of_not_gt remains)).symm⟩

/-- A frame in the middle of its data bits: four are in, the last at space. -/
def midFrame : Decoder :=
  { create 100 false with phase := .receiving ⟨4, by decide⟩, register := 0x70, last := 1401 }

/-- One edge closes four hidden bits and comes with the stop bit. Another, to space, comes a bit
later and begins the next frame. -/
theorem decodesBy_midFrame :
    midFrame.bitPeriod.toNat < 2 ^ 31 ∧
    (∃ answer, DecodesBy .single midFrame (Edge.ofLevel 1900 true) (Ring.empty 8 0) answer ∧
      answer.1 = { stored := 1 } ∧ answer.2.1.isIdle ∧ answer.2.2.toList = [0x07]) ∧
    ∃ answer, DecodesBy .single midFrame (Edge.ofLevel 2000 false) (Ring.empty 8 0) answer ∧
      answer.1 = { stored := 1 } ∧ answer.2.1.cursor = -1 ∧ answer.2.2.toList = [0x07] := by
  have narrow : midFrame.bitPeriod.toNat < 2 ^ 31 := by decide
  refine ⟨narrow, ⟨_, (decodesBy_iff .single midFrame _ _ _ narrow).mpr rfl, ?_, ?_, ?_⟩,
    _, (decodesBy_iff .single midFrame _ _ _ narrow).mpr rfl, ?_, ?_, ?_⟩
  · decide
  · decide
  · decide
  · decide
  · decide
  · decide

end PinUart.Decoder
