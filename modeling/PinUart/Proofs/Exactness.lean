import PinUart.Proofs.Pacing
import PinUart.Proofs.Planning
import PinUart.Proofs.Strides

/-! A decoder in registers of fixed width. Counters that are meant to wrap around do so, and all
other arithmetic is checked. As long as ten bit periods fit into a word nothing overflows, from any
state that the decoder comes to and for any edge, and the registers hold what the decoder has. -/
namespace PinUart

structure Registers where
  bitPeriod : UInt32
  invert : Bool
  /-- Number of the last bit received, -1 for a start bit, and 8 at rest. -/
  cursor : Int
  accumulator : BitVec 32
  last : Cycle

namespace Registers

/-- The registers in the middle of an edge: the time left, and what became of bytes. -/
structure Working where
  registers : Registers
  cycles : Int
  bytes : ByteRing
  outcome : Outcome := {}

namespace Working

/-- Shifts a register down, and has its highest bit repeated. -/
def fill (accumulator : BitVec 32) (count : Int) : Option (BitVec 32) := do
  let shifted ← shiftDown accumulator count
  if accumulator &&& 0x80 != 0 then
    let ones ← shiftUp (0xff : BitVec 32) (← Width.signed.sub dataBits count)
    return shifted ||| ones &&& 0xff
  else return shifted

/-- Takes in the bits that have no edge of their own. They are like the last one. -/
def takeHidden (state : Working) (bit : Int) : Option Working := do
  if state.cycles < bit then return state
  else
    let missing ← Width.signed.sub (← Width.signed.sub dataBits 1) state.registers.cursor
    let hidden := min (← Width.signed.div state.cycles bit) missing
    let accumulator ← fill state.registers.accumulator hidden
    let cursor ← Width.signed.add state.registers.cursor hidden
    let cycles ← Width.signed.sub state.cycles (← Width.signed.mul hidden bit)
    return { state with registers := { state.registers with accumulator, cursor }, cycles }

/-- Takes in the bit that the edge begins. -/
def takeBit (state : Working) (mark : Bool) (bit : Int) : Option Working := do
  let cursor ← Width.signed.add state.registers.cursor 1
  let cycles ← Width.signed.sub state.cycles bit
  let shifted ← shiftDown state.registers.accumulator 1
  let accumulator := if mark then shifted ||| 0x80 else shifted
  return { state with registers := { state.registers with accumulator, cursor }, cycles }

/-- Takes in hidden bits, if there are any, and then the bit at the edge, if it is a data bit. -/
def takeBits (state : Working) (mark : Bool) (bit last : Int) : Option Working := do
  let state ← state.takeHidden bit
  if state.registers.cursor < last then state.takeBit mark bit else return state

/-- Counts one byte more. -/
def count (outcome : Outcome) (stored : Bool) : Option Outcome := do
  if stored then
    return { outcome with stored := (← Width.byte.add outcome.stored 1).toNat }
  else return { outcome with dropped := (← Width.byte.add outcome.dropped 1).toNat }

/-- Stores the byte of a frame that is over. -/
def store (state : Working) (bit : Int) : Option Working := do
  let cycles ← Width.signed.sub state.cycles bit
  let (stored, bytes) := state.bytes.push (UInt8.ofBitVec (state.registers.accumulator.setWidth 8))
  let outcome ← count state.outcome stored
  return { registers := { state.registers with cursor := dataBits, accumulator := 0 }
           cycles, bytes, outcome }

/-- One round, and whether there may be another. -/
def round (state : Working) (mark : Bool) (bit : Int) : Option (Bool × Working) := do
  let last ← Width.signed.sub dataBits 1
  if -1 ≤ state.registers.cursor ∧ state.registers.cursor < last then
    let state ← state.takeBits mark bit last
    return (0 ≤ state.cycles, state)
  else if state.registers.cursor = last then
    let state ← state.store bit
    return (0 ≤ state.cycles, state)
  else if mark then return (false, state)
  else return (false, { state with registers := { state.registers with cursor := -1 } })

section

variable {state after : Working} {mark : Bool} {bit last : Int}

theorem nonneg_of_fill {accumulator result : BitVec 32} {count : Int}
    (filled : fill accumulator count = some result) : 0 ≤ count := by
  obtain ⟨shifted, down, -⟩ := Option.bind_eq_some_iff.mp filled
  unfold shiftDown at down
  split at down
  · rename_i inside
    exact inside.1
  · cases down

theorem le_of_takeHidden (taken : state.takeHidden bit = some after) :
    state.registers.cursor ≤ after.registers.cursor := by
  unfold takeHidden at taken
  split at taken
  · cases taken
    exact Int.le_refl _
  · simp only [Option.bind_eq_bind, Option.bind_eq_some_iff] at taken
    obtain ⟨seven, -, missing, -, periods, -, accumulator, filled, cursor, moved, rest⟩ := taken
    obtain ⟨product, -, cycles, -, same⟩ := rest
    obtain ⟨-, rfl⟩ := Width.of_exact moved
    cases same
    exact Int.le_add_of_nonneg_right (nonneg_of_fill filled)

theorem lt_of_takeBits (taken : state.takeBits mark bit last = some after)
    (before : state.registers.cursor < last) :
    state.registers.cursor < after.registers.cursor := by
  obtain ⟨between, hidden, taken⟩ := Option.bind_eq_some_iff.mp taken
  have least := le_of_takeHidden hidden
  split at taken
  · obtain ⟨cursor, moved, rest⟩ := Option.bind_eq_some_iff.mp taken
    obtain ⟨cycles, -, rest⟩ := Option.bind_eq_some_iff.mp rest
    obtain ⟨shifted, -, same⟩ := Option.bind_eq_some_iff.mp rest
    obtain ⟨-, rfl⟩ := Width.of_exact moved
    cases same
    exact Int.lt_add_one_of_le least
  · rename_i full
    cases taken
    exact Int.lt_of_lt_of_le before (Int.not_lt.mp full)

/-- Where there may be another round, this one has gone on in the frame. -/
theorem lt_of_round (rounded : state.round mark bit = some (true, after)) :
    state.registers.cursor < dataBits ∧ state.registers.cursor < after.registers.cursor := by
  have last : Width.signed.sub dataBits 1 = some 7 := rfl
  have before : (7 : Int) < dataBits := by decide
  unfold round at rounded
  rw [last, Option.bind_eq_bind, Option.bind_some] at rounded
  split at rounded
  · rename_i inside
    obtain ⟨between, taken, same⟩ := Option.bind_eq_some_iff.mp rounded
    obtain ⟨-, rfl⟩ := Prod.mk.inj (Option.some.inj same)
    exact ⟨Int.lt_trans inside.2 before, lt_of_takeBits taken inside.2⟩
  · split at rounded
    · rename_i full
      obtain ⟨between, stored, same⟩ := Option.bind_eq_some_iff.mp rounded
      obtain ⟨cycles, -, stored⟩ := Option.bind_eq_some_iff.mp stored
      obtain ⟨outcome, -, stored⟩ := Option.bind_eq_some_iff.mp stored
      cases stored
      obtain ⟨-, rfl⟩ := Prod.mk.inj (Option.some.inj same)
      rw [full]
      exact ⟨before, before⟩
    · split at rounded
      · cases rounded
      · cases rounded

end

/-- Rounds until the time is used up or the line is at rest. -/
def loop (state : Working) (mark : Bool) (bit : Int) : Option Working :=
  match _rounded : state.round mark bit with
  | none => none
  | some (true, after) => loop after mark bit
  | some (false, after) => some after
termination_by (dataBits - state.registers.cursor).toNat
decreasing_by
  obtain ⟨inside, further⟩ := lt_of_round _rounded
  omega

end Working

/-- Takes in one edge. -/
def decode (registers : Registers) (edge : Edge) (bytes : ByteRing) :
    Option (Outcome × Registers × ByteRing) := do
  let bit := Cycle.signed registers.bitPeriod
  let elapsed := Cycle.span registers.last edge.timestamp
  let cycles := Width.signed.saturatingSub elapsed (← Width.signed.div bit 2)
  if cycles < 0 then return ({ spurious := true }, registers, bytes)
  else
    let state : Working := { registers := { registers with last := edge.timestamp }, cycles, bytes }
    let final ← state.loop (edge.mark registers.invert) bit
    return (final.outcome, final.registers, final.bytes)

/-- The edge that a frame still owes. -/
def owedEdge? (registers : Registers) (now : Cycle) : Option (Option Edge) := do
  if 0 ≤ registers.cursor ∧ registers.cursor < dataBits then
    let periods ← Width.signed.sub frameBits registers.cursor
    let cycles ← Width.word.mul periods registers.bitPeriod.toNat
    let expected := UInt32.ofNat cycles.toNat
    if now - registers.last < expected then return none
    else return some (Edge.ofLogical (registers.last + expected) true registers.invert)
  else return none

def reset (registers : Registers) (now : Cycle) : Registers :=
  { registers with cursor := dataBits, accumulator := 0, last := now - Cycle.idleReach }

def keepReach (registers : Registers) (now : Cycle) : Registers :=
  if registers.cursor = dataBits ∧ Cycle.idleReach < now - registers.last then
    { registers with last := now - Cycle.idleReach }
  else registers

end Registers

theorem shiftDown_eq {bits amount : Nat} (value : BitVec bits) (inside : amount < bits) :
    shiftDown value amount = some (value >>> amount) := by
  rw [shiftDown, if_pos ⟨Int.natCast_nonneg _, Int.ofNat_lt.mpr inside⟩]
  rfl

namespace Decoder

/-- The registers that hold a decoder. -/
def registers (decoder : Decoder) : Registers where
  bitPeriod := decoder.bitPeriod
  invert := decoder.invert
  cursor := decoder.cursor
  accumulator := decoder.register.setWidth 32
  last := decoder.last

section

variable (register : BitVec 8)

theorem and_top : (register.setWidth 32 &&& 0x80 != 0) = register.msb := by
  have each : ∀ value : Fin (2 ^ 8), ((BitVec.ofFin value).setWidth 32 &&& 0x80 != 0) =
      (BitVec.ofFin value).msb := by
    decide +kernel
  exact each register.toFin

theorem setWidth_shiftIn (mark : Bool) :
    (shiftIn register mark).setWidth 32 =
      if mark then register.setWidth 32 >>> 1 ||| 0x80 else register.setWidth 32 >>> 1 := by
  rw [shiftIn, BitVec.setWidth_or, BitVec.setWidth_ushiftRight (by decide)]
  cases mark with
  | true => rfl
  | false => exact BitVec.or_zero

theorem setWidth_repeatLast {count : Nat} (inside : count ≤ 8) :
    (repeatLast register count).setWidth 32 =
      if register.msb then
        register.setWidth 32 >>> count ||| (0xff : BitVec 32) <<< (8 - count) &&& 0xff
      else register.setWidth 32 >>> count := by
  have ones : ∀ place : Fin 9, (BitVec.allOnes 8 <<< place.val).setWidth 32 =
      (0xff : BitVec 32) <<< place.val &&& 0xff := by
    decide
  rw [repeatLast]
  split
  · rw [BitVec.setWidth_or, BitVec.setWidth_ushiftRight (by decide), ones ⟨8 - count, by omega⟩]
  · exact BitVec.setWidth_ushiftRight (by decide)

end

end Decoder

namespace Registers.Working

variable {state : Working} {register : BitVec 8} {bit : Int}

theorem fill_eq (register : BitVec 8) {count : Nat} (inside : count ≤ 8) :
    fill (register.setWidth 32) count = some ((Decoder.repeatLast register count).setWidth 32) := by
  have missing : Width.signed.sub dataBits count = some ((8 - count : Nat) : Int) := by
    rw [Width.sub, show ((dataBits : Nat) : Int) - count = (8 - count : Nat) by
      rw [dataBits]; omega]
    exact Width.signed_exact (by omega) (by omega)
  have ones : shiftUp (0xff : BitVec 32) ((8 - count : Nat) : Int) =
      some ((0xff : BitVec 32) <<< (8 - count)) := by
    have narrow : 2 ^ (8 - count) ≤ 2 ^ 8 := Nat.pow_le_pow_right (by decide) (by omega)
    rw [shiftUp, if_pos]
    · rfl
    · refine ⟨Int.natCast_nonneg _, by omega, ?_⟩
      change 255 * 2 ^ (8 - count) < 2 ^ 32
      omega
  rw [fill, shiftDown_eq _ (show count < 32 by omega), missing, Decoder.and_top,
    Decoder.setWidth_repeatLast register inside]
  dsimp only [Option.bind_eq_bind, Option.bind_some]
  rw [ones]
  cases register.msb with
  | true => rfl
  | false => rfl

theorem takeHidden_eq (loaded : state.registers.accumulator = register.setWidth 32)
    {count hidden : Nat} (cursor : state.registers.cursor = (count : Int) - 1) (below : count < 8)
    (positive : 0 < bit) (whole : bit ≤ state.cycles) (most : state.cycles < 2 ^ 31)
    (same : hidden = min (state.cycles / bit).toNat (8 - count)) :
    0 ≤ state.cycles - hidden * bit ∧
      state.takeHidden bit = some
        { state with
          registers := { state.registers with
            cursor := ((count + hidden : Nat) : Int) - 1
            accumulator := (Decoder.repeatLast register hidden).setWidth 32 }
          cycles := state.cycles - hidden * bit } := by
  have periods : 0 ≤ state.cycles / bit := Int.ediv_nonneg (by omega) (by omega)
  have few : (hidden : Int) ≤ state.cycles / bit := by omega
  have used : hidden * bit ≤ state.cycles := (Int.le_ediv_iff_mul_le positive).mp few
  have fewer : hidden ≤ 8 - count := same ▸ Nat.min_le_right _ _
  have quotient : Width.signed.div state.cycles bit = some (state.cycles / bit) := by
    have less : state.cycles / bit ≤ state.cycles := Int.ediv_le_self _ (by omega)
    rw [Width.div, if_neg (by omega), Int.tdiv_eq_ediv_of_nonneg (by omega)]
    exact Width.signed_exact (by omega) (by omega)
  have last : Width.signed.sub dataBits 1 = some 7 := rfl
  have missing : Width.signed.sub 7 state.registers.cursor = some ((8 - count : Nat) : Int) := by
    rw [Width.sub, cursor, show (7 : Int) - (count - 1) = (8 - count : Nat) by omega]
    exact Width.signed_exact (by omega) (by omega)
  have least : min (state.cycles / bit) ((8 - count : Nat) : Int) = hidden := by omega
  have moved : Width.signed.add state.registers.cursor hidden =
      some (((count + hidden : Nat) : Int) - 1) := by
    rw [Width.add, cursor, show (count : Int) - 1 + hidden = ((count + hidden : Nat) : Int) - 1 by
      omega]
    exact Width.signed_exact (by omega) (by omega)
  have product : Width.signed.mul hidden bit = some (hidden * bit) := by
    have := Int.mul_nonneg (Int.natCast_nonneg hidden) (show 0 ≤ bit by omega)
    exact Width.signed_exact (by omega) (by omega)
  have rest : Width.signed.sub state.cycles (hidden * bit) =
      some (state.cycles - hidden * bit) := by
    have := Int.mul_nonneg (Int.natCast_nonneg hidden) (show 0 ≤ bit by omega)
    exact Width.signed_exact (by omega) (by omega)
  refine ⟨by omega, ?_⟩
  rw [takeHidden, if_neg (Int.not_lt.mpr whole)]
  simp only [Option.bind_eq_bind, last, Option.bind_some, missing, quotient, least, moved, product,
    rest, loaded, fill_eq register (show hidden ≤ 8 by omega)]
  rfl

theorem takeBit_eq (loaded : state.registers.accumulator = register.setWidth 32)
    (least : -1 ≤ state.registers.cursor) (most : state.registers.cursor < 7)
    (remains : 0 ≤ state.cycles) (short : state.cycles < 2 ^ 31) (positive : 0 < bit)
    (narrow : bit < 2 ^ 31) (mark : Bool) :
    state.takeBit mark bit = some
      { state with
        registers := { state.registers with
          cursor := state.registers.cursor + 1
          accumulator := (Decoder.shiftIn register mark).setWidth 32 }
        cycles := state.cycles - bit } := by
  have moved : Width.signed.add state.registers.cursor 1 = some (state.registers.cursor + 1) :=
    Width.signed_exact (by omega) (by omega)
  have rest : Width.signed.sub state.cycles bit = some (state.cycles - bit) :=
    Width.signed_exact (by omega) (by omega)
  have shifted : shiftDown state.registers.accumulator 1 =
      some (state.registers.accumulator >>> 1) :=
    shiftDown_eq _ (by decide)
  unfold takeBit
  rw [moved, rest, shifted, Decoder.setWidth_shiftIn, loaded]
  rfl

/-- A byte that is over goes into the ring, if there is no overflow in the time that is left. -/
theorem store_map (loaded : state.registers.accumulator = register.setWidth 32)
    (fresh : state.outcome.stored = 0 ∧ state.outcome.dropped = 0) :
    state.store bit = (Width.signed.sub state.cycles bit).map fun cycles =>
      { registers := { state.registers with cursor := dataBits, accumulator := 0 }
        cycles
        bytes := (state.bytes.push (UInt8.ofBitVec register)).2
        outcome :=
          if (state.bytes.push (UInt8.ofBitVec register)).1 then
            { state.outcome with stored := state.outcome.stored + 1 }
          else { state.outcome with dropped := state.outcome.dropped + 1 } } := by
  have byte : state.registers.accumulator.setWidth 8 = register := by
    rw [loaded, BitVec.setWidth_setWidth_of_le _ (by decide), BitVec.setWidth_eq]
  unfold store
  rw [byte]
  generalize state.bytes.push (UInt8.ofBitVec register) = result
  obtain ⟨stored, bytes⟩ := result
  cases Width.signed.sub state.cycles bit with
  | none => rfl
  | some cycles =>
    cases stored with
    | true =>
      have counted : Width.byte.add state.outcome.stored 1 = some 1 := by rw [fresh.1]; rfl
      simp only [Option.bind_eq_bind, Option.bind_some, count, if_pos, counted, Option.map_some]
      rw [fresh.1]
      rfl
    | false =>
      have counted : Width.byte.add state.outcome.dropped 1 = some 1 := by rw [fresh.2]; rfl
      simp only [Option.bind_eq_bind, Option.bind_some, count, counted, Option.map_some]
      rw [fresh.2]
      rfl

end Registers.Working

namespace Decoder.Reckoning

/-- Where a loop stands, in registers. -/
def working (state : Reckoning) : Registers.Working where
  registers := state.decoder.registers
  cycles := state.left
  bytes := state.bytes
  outcome := state.outcome

/-- Where a round may begin. -/
structure Ready (state : Reckoning) : Prop where
  positive : 0 < state.decoder.signedPeriod
  remains : 0 ≤ state.left
  short : state.left < 2 ^ 31
  /-- No byte is over yet: with the one byte that an edge may end the decoder comes to rest. -/
  fresh : state.decoder.phase ≠ .idle → state.outcome.stored = 0 ∧ state.outcome.dropped = 0

variable {state : Reckoning} {mark : Bool}

theorem round_resting (resting : state.decoder.phase = .idle) (mark : Bool) (bit : Int) :
    state.working.round mark bit = some (false, (state.round .hidden mark).working) := by
  obtain ⟨⟨bitPeriod, invert, phase, register, last, positive⟩, left, bytes, outcome⟩ := state
  cases resting
  cases mark with
  | true => rfl
  | false => rfl

/-- A decoder that goes on with its frame, in registers. -/
def later (state : Reckoning) (cursor : Int) (register : BitVec 8) (periods : Nat) :
    Registers.Working where
  registers := { state.decoder.registers with cursor, accumulator := register.setWidth 32 }
  cycles := state.left - periods * state.decoder.signedPeriod
  bytes := state.bytes
  outcome := state.outcome

theorem working_takeBits {count hidden : Nat} (below : count < 8) (mark : Bool)
    (same : min (state.left / state.decoder.signedPeriod).toNat (8 - count) = hidden) :
    (state.takeBits count below mark .hidden).working =
      if count + hidden < 8 then
        state.later (((count + hidden + 1 : Nat) : Int) - 1)
          (shiftIn (repeatLast state.decoder.register hidden) mark) (hidden + 1)
      else state.later 7 (repeatLast state.decoder.register hidden) hidden := by
  subst same
  unfold takeBits
  dsimp only
  split
  · rfl
  · rfl

/-- Hidden bits are taken in as one, if there are any. -/
theorem hidden_working (ready : state.Ready) {count : Fin 9} {hidden : Nat}
    (place : state.decoder.phase = .receiving count) (below : count.val < 8)
    (same : min (state.left / state.decoder.signedPeriod).toNat (8 - count.val) = hidden) :
    0 ≤ state.left - hidden * state.decoder.signedPeriod ∧
      state.working.takeHidden state.decoder.signedPeriod =
        some (state.later (((count.val + hidden : Nat) : Int) - 1)
          (repeatLast state.decoder.register hidden) hidden) := by
  have cursor : state.decoder.cursor = (count.val : Int) - 1 := congrArg Phase.cursor place
  by_cases whole : state.decoder.signedPeriod ≤ state.left
  · have loaded : state.working.registers.accumulator = state.decoder.register.setWidth 32 := rfl
    exact Registers.Working.takeHidden_eq loaded cursor below ready.positive whole ready.short
      same.symm
  · have none : (state.left / state.decoder.signedPeriod).toNat = 0 := by
      rw [Int.ediv_eq_zero_of_lt ready.remains (by omega)]
      rfl
    have remains := ready.remains
    rw [none, Nat.zero_min] at same
    subst same
    rw [Registers.Working.takeHidden, later, repeatLast_zero, Nat.add_zero, ← cursor,
      Int.natCast_zero, Int.zero_mul, Int.sub_zero]
    exact ⟨ready.remains, if_pos (Int.not_le.mp whole)⟩

theorem takeBit_later (ready : state.Ready) {count hidden : Nat}
    (remains : 0 ≤ state.left - hidden * state.decoder.signedPeriod) (more : count + hidden < 8)
    (register : BitVec 8) (mark : Bool) :
    (state.later (((count + hidden : Nat) : Int) - 1) register hidden).takeBit mark
        state.decoder.signedPeriod =
      some (state.later (((count + hidden + 1 : Nat) : Int) - 1) (shiftIn register mark)
        (hidden + 1)) := by
  have narrow : state.decoder.signedPeriod < 2 ^ 31 := Cycle.signed_lt _
  have positive := ready.positive
  have short := ready.short
  have used : 0 ≤ (hidden : Int) * state.decoder.signedPeriod :=
    Int.mul_nonneg (Int.natCast_nonneg hidden) (by omega)
  have past : state.left - hidden * state.decoder.signedPeriod - state.decoder.signedPeriod =
      state.left - ((hidden + 1 : Nat) : Int) * state.decoder.signedPeriod := by
    rw [Int.natCast_add, Int.add_mul]
    omega
  have moved : ((count + hidden : Nat) : Int) - 1 + 1 = ((count + hidden + 1 : Nat) : Int) - 1 := by
    omega
  rw [Registers.Working.takeBit_eq rfl (by dsimp only [later]; omega)
    (by dsimp only [later]; omega) remains (by dsimp only [later]; omega) positive narrow]
  dsimp only [later]
  rw [past, moved]

theorem takeBits_working (ready : state.Ready) {count : Fin 9}
    (place : state.decoder.phase = .receiving count) (below : count.val < 8) (mark : Bool) :
    state.working.takeBits mark state.decoder.signedPeriod 7 =
      some (state.takeBits count below mark .hidden).working := by
  generalize same : min (state.left / state.decoder.signedPeriod).toNat (8 - count.val) = hidden
  obtain ⟨remains, taken⟩ := hidden_working ready place below same
  rw [working_takeBits below mark same, Registers.Working.takeBits]
  rw [taken, Option.bind_eq_bind, Option.bind_some]
  by_cases more : count.val + hidden < 8
  · rw [if_pos more, if_pos (by dsimp only [later]; omega)]
    exact takeBit_later ready remains more _ mark
  · have full : count.val + hidden = 8 := by omega
    rw [if_neg more, if_neg (by dsimp only [later]; omega), full]
    rfl

theorem round_within (ready : state.Ready) {count : Fin 9}
    (place : state.decoder.phase = .receiving count) (below : count.val < 8) (mark : Bool) :
    state.working.round mark state.decoder.signedPeriod =
      some (decide (0 ≤ (state.takeBits count below mark .hidden).left),
        (state.takeBits count below mark .hidden).working) := by
  have cursor : state.working.registers.cursor = (count.val : Int) - 1 :=
    congrArg Phase.cursor place
  have last : Width.signed.sub dataBits 1 = some 7 := rfl
  rw [Registers.Working.round, last, cursor]
  dsimp only [Option.bind_eq_bind, Option.bind_some]
  rw [if_pos (by omega), takeBits_working ready place below mark]
  rfl

theorem round_full (ready : state.Ready) (place : state.decoder.phase = .receiving 8)
    (mark : Bool) :
    state.working.round mark state.decoder.signedPeriod =
      some (decide (0 ≤ state.close.left), state.close.working) := by
  have cursor : state.working.registers.cursor = 7 := congrArg Phase.cursor place
  have narrow : state.decoder.signedPeriod < 2 ^ 31 := Cycle.signed_lt _
  have busy : state.decoder.phase ≠ .idle := by
    rw [place]
    exact Phase.noConfusion
  have stored : state.working.store state.decoder.signedPeriod = some state.close.working := by
    have loaded : state.working.registers.accumulator = state.decoder.register.setWidth 32 := rfl
    have remains := ready.remains
    have short := ready.short
    have positive := ready.positive
    have rest : Width.signed.sub state.left state.decoder.signedPeriod =
        some (state.left - state.decoder.signedPeriod) :=
      Width.signed_exact (by omega) (by omega)
    rw [Registers.Working.store_map loaded (ready.fresh busy)]
    unfold close put
    change (Width.signed.sub state.left state.decoder.signedPeriod).map _ = _
    rw [rest, Option.map_some]
    change some (Registers.Working.mk _ _ (state.bytes.push _).2
      (if (state.bytes.push _).1 then _ else _)) = _
    generalize state.bytes.push (UInt8.ofBitVec state.decoder.register) = result
    obtain ⟨stored, bytes⟩ := result
    cases stored with
    | true => rfl
    | false => rfl
  unfold Registers.Working.round
  rw [cursor, stored]
  rfl

/-- One round meets no overflow, and stays with the loop that it is a round of. -/
theorem round_working (ready : state.Ready) (mark : Bool) :
    ∃ more, state.working.round mark state.decoder.signedPeriod =
        some (more, (state.round .hidden mark).working) ∧
      (more = true ↔ ¬ IsLast state (state.round .hidden mark)) := by
  cases place : state.decoder.phase with
  | idle =>
    exact ⟨false, round_resting place mark _, iff_of_false Bool.false_ne_true
      fun more => more (.inl place)⟩
  | receiving count =>
    have busy : state.decoder.phase ≠ .idle := by
      rw [place]
      exact Phase.noConfusion
    have goes (after : Reckoning) : decide (0 ≤ after.left) = true ↔ ¬ IsLast state after := by
      rw [decide_eq_true_iff, IsLast, or_iff_right busy, Int.not_lt]
    by_cases below : count.val < 8
    · have same : state.round .hidden mark = state.takeBits count below mark .hidden := by
        rw [round, place]
        exact dif_pos below
      rw [same]
      exact ⟨_, round_within ready place below mark, goes _⟩
    · have last : count = 8 := Fin.ext (by have := count.isLt; show count.val = 8; omega)
      have same : state.round .hidden mark = state.close := by
        rw [round, place]
        exact dif_neg below
      rw [same]
      exact ⟨_, round_full ready (last ▸ place) mark, goes _⟩

theorem Ready.round (ready : state.Ready) (mark : Bool)
    (more : ¬ IsLast state (state.round .hidden mark)) : (state.round .hidden mark).Ready := by
  have positive := ready.positive
  have short := ready.short
  have remains : 0 ≤ (state.round .hidden mark).left :=
    Int.not_lt.mp fun past => more (.inr past)
  have busy : state.decoder.phase ≠ .idle := fun resting => more (.inl resting)
  have less (periods : Nat) : state.left - periods * state.decoder.signedPeriod < 2 ^ 31 := by
    have := Int.mul_nonneg (Int.natCast_nonneg periods) (show 0 ≤ state.decoder.signedPeriod by omega)
    omega
  revert remains
  unfold Reckoning.round
  split
  · rename_i resting
    exact absurd resting busy
  · rename_i count place
    split
    · rename_i below
      unfold takeBits
      dsimp only
      split
      · exact fun remains => ⟨positive, remains, less _, fun _ => ready.fresh busy⟩
      · exact fun remains => ⟨positive, remains, less _, fun _ => ready.fresh busy⟩
    · refine fun remains => ⟨positive, remains, ?_, fun going => absurd rfl going⟩
      change state.left - state.decoder.signedPeriod < 2 ^ 31
      omega

/-- The whole loop meets no overflow, and comes to its end. -/
theorem Ends.loop_working {final : Reckoning} (ends : Ends .hidden mark state final)
    (ready : state.Ready) :
    state.working.loop mark state.decoder.signedPeriod = some final.working := by
  -- Rounds match one by one, so the loop of the registers comes to its end with the decoder's.
  induction ends with
  | @last state past =>
    obtain ⟨more, rounded, goes⟩ := round_working ready mark
    have finished : more = false := Bool.eq_false_iff.mpr fun going => goes.mp going past
    rw [Registers.Working.loop, rounded, finished]
  | @next state final more later ih =>
    obtain ⟨going, rounded, goes⟩ := round_working ready mark
    rw [Registers.Working.loop, rounded, goes.mpr more]
    have keeps : Keeps mark state (state.round .hidden mark) :=
      keeps_round ready.positive ready.remains
    have rest := ih (ready.round mark more)
    rw [keeps.period] at rest
    exact rest

end Decoder.Reckoning

namespace Decoder

variable {decoder : Decoder}

theorem signedPeriod_pos (narrow : decoder.bitPeriod.toNat < 2 ^ 31) :
    0 < decoder.signedPeriod := by
  have := decoder.bitPeriod_pos
  rw [signedPeriod, Cycle.signed_of_lt narrow]
  omega

/-- What is done with an edge in registers. Neither does the half of a period overflow, nor does
the cut of a difference that is too much change its sign. -/
theorem registers_decode_eq (decoder : Decoder) (edge : Edge) (bytes : ByteRing) :
    let elapsed := Cycle.span decoder.last edge.timestamp
    let half := decoder.signedPeriod.tdiv 2
    decoder.registers.decode edge bytes =
      if elapsed - half < 0 then some ({ spurious := true }, decoder.registers, bytes)
      else
        (Registers.Working.loop
          { registers := { decoder.registers with last := edge.timestamp }
            cycles := Width.signed.saturatingSub elapsed half
            bytes } (edge.mark decoder.invert) decoder.signedPeriod).bind fun final =>
          some (final.outcome, final.registers, final.bytes) := by
  intro elapsed half
  have above : decoder.signedPeriod < 2 ^ 31 := Cycle.signed_lt _
  have below : -2 ^ 31 ≤ decoder.signedPeriod := Cycle.neg_le_signed _
  have size : half.natAbs = decoder.signedPeriod.natAbs / 2 := Int.natAbs_tdiv _ _
  have halved : Width.signed.div decoder.signedPeriod 2 = some half := by
    rw [Width.div, if_neg (by decide)]
    exact Width.signed_exact (by omega) (by omega)
  have sign : Width.signed.saturatingSub elapsed half < 0 ↔ elapsed - half < 0 := by
    unfold Width.saturatingSub Width.signed
    dsimp only
    omega
  unfold Registers.decode
  change (Width.signed.div decoder.signedPeriod 2).bind _ = _
  rw [halved, Option.bind_some]
  by_cases early : elapsed - half < 0
  · rw [if_pos early]
    exact if_pos (sign.mpr early)
  · rw [if_neg early]
    exact if_neg (sign.not.mpr early)

/-- An edge is taken in without overflow, and to the end that it has in any case. -/
theorem registers_decode (narrow : decoder.bitPeriod.toNat < 2 ^ 31) (edge : Edge)
    (bytes : ByteRing) :
    decoder.registers.decode edge bytes = some ((decoder.decode edge bytes).1,
      (decoder.decode edge bytes).2.1.registers, (decoder.decode edge bytes).2.2) := by
  have positive := signedPeriod_pos narrow
  have far : Cycle.span decoder.last edge.timestamp < 2 ^ 31 := Cycle.signed_lt _
  have half : 0 ≤ decoder.signedPeriod.tdiv 2 := Int.tdiv_nonneg (by omega) (by decide)
  have decodes := (decodesBy_iff .hidden decoder edge bytes _ narrow).mpr rfl
  unfold DecodesBy at decodes
  dsimp only at decodes
  rw [registers_decode_eq]
  dsimp only
  split
  · rename_i early
    rw [if_pos early] at decodes
    rw [decodes]
  · rename_i remains
    rw [if_neg remains] at decodes
    obtain ⟨final, ends, answered⟩ := decodes
    have exact : Width.signed.saturatingSub (Cycle.span decoder.last edge.timestamp)
        (decoder.signedPeriod.tdiv 2) =
          Cycle.span decoder.last edge.timestamp - decoder.signedPeriod.tdiv 2 := by
      unfold Width.saturatingSub Width.signed
      dsimp only
      omega
    have looped := ends.loop_working
      ⟨positive, Int.not_lt.mp remains, by dsimp only; omega, fun _ => ⟨rfl, rfl⟩⟩
    rw [answered, exact]
    exact congrArg (Option.bind · fun final =>
      some (final.outcome, final.registers, final.bytes)) looped

/-- What is left of a frame is no longer than ten bit periods. -/
theorem mul_periods {bitPeriod : UInt32} (fits : 10 * bitPeriod.toNat < 2 ^ 32) {count : Nat}
    (few : count ≤ 10) :
    Width.word.mul count bitPeriod.toNat = some ((UInt32.ofNat count * bitPeriod).toNat : Int) := by
  have small : count * bitPeriod.toNat ≤ 10 * bitPeriod.toNat := Nat.mul_le_mul_right _ few
  rw [Width.mul, ← Int.natCast_mul, toNat_periods (by omega) (by omega)]
  exact Width.word_exact (by omega)

/-- The edge that a frame owes is reckoned from one product, and that may overflow. -/
theorem registers_owedEdge?_cases (decoder : Decoder) (now : Cycle) :
    decoder.registers.owedEdge? now = some (decoder.owedEdge? now) ∨
      ∃ count ≤ 10, decoder.registers.owedEdge? now =
        (Width.word.mul (count : Nat) decoder.bitPeriod.toNat).map
          fun _ => decoder.owedEdge? now := by
  cases place : decoder.phase with
  | idle =>
    have resting : decoder.registers.cursor = 8 := congrArg Phase.cursor place
    rw [Registers.owedEdge?, resting, owedEdge?, place]
    exact .inl rfl
  | receiving count =>
    have bound := count.isLt
    have cursor : decoder.registers.cursor = (count.val : Int) - 1 := congrArg Phase.cursor place
    rw [Registers.owedEdge?, cursor, owedEdge?, place]
    dsimp only
    by_cases begun : count = 0
    · rw [if_pos begun, begun]
      exact .inl rfl
    · have some : 0 < count.val := Nat.pos_of_ne_zero fun zero => begun (Fin.ext zero)
      have periods : Width.signed.sub frameBits ((count.val : Int) - 1) =
          .some ((11 - count.val : Nat) : Int) := by
        rw [Width.sub, show ((frameBits : Nat) : Int) - (count.val - 1) = (11 - count.val : Nat) by
          rw [frameBits, dataBits]; omega]
        exact Width.signed_exact (by omega) (by omega)
      have inside : 0 ≤ (count.val : Int) - 1 ∧ (count.val : Int) - 1 < dataBits := by
        rw [show ((dataBits : Nat) : Int) = 8 from rfl]
        omega
      rw [if_pos inside, if_neg begun, periods]
      refine .inr ⟨11 - count.val, by omega, ?_⟩
      change (Width.word.mul _ decoder.bitPeriod.toNat).bind _ = _
      cases product : Width.word.mul (11 - count.val : Nat) decoder.bitPeriod.toNat with
      | none => rfl
      | some cycles =>
        obtain ⟨-, rfl⟩ := Width.of_exact product
        rw [Option.bind_some, Option.map_some, ← Int.natCast_mul, Int.toNat_natCast,
          UInt32.ofNat_mul, UInt32.ofNat_toNat]
        split
        · rename_i early
          exact congrArg Option.some (if_pos early).symm
        · rename_i due
          exact congrArg Option.some (if_neg due).symm

/-- As long as ten bit periods fit into a word, so does the time until a stop bit is over. -/
theorem registers_owedEdge? (fits : 10 * decoder.bitPeriod.toNat < 2 ^ 32) (now : Cycle) :
    decoder.registers.owedEdge? now = some (decoder.owedEdge? now) := by
  obtain whole | ⟨count, few, product⟩ := decoder.registers_owedEdge?_cases now
  · exact whole
  · rw [product, mul_periods fits few, Option.map_some]

theorem registers_keepReach (now : Cycle) :
    decoder.registers.keepReach now = (decoder.keepReach now).registers := by
  have resting : decoder.registers.cursor = dataBits ↔ decoder.isIdle = true := by
    change decoder.phase.cursor = 8 ↔ (decoder.phase == .idle) = true
    cases decoder.phase with
    | idle => exact iff_of_true rfl rfl
    | receiving count =>
      refine iff_of_false ?_ Bool.false_ne_true
      have := count.isLt
      dsimp only [Phase.cursor]
      omega
  have same : decoder.registers.cursor = dataBits ∧
      Cycle.idleReach < now - decoder.registers.last ↔
        (decoder.isIdle && Cycle.idleReach < now - decoder.last) = true := by
    rw [resting, Bool.and_eq_true, decide_eq_true_iff]
    rfl
  by_cases late : decoder.registers.cursor = dataBits ∧
      Cycle.idleReach < now - decoder.registers.last
  · rw [Registers.keepReach, if_pos late, keepReach, if_pos (same.mp late)]
    rfl
  · rw [Registers.keepReach, if_neg late, keepReach, if_neg fun idle => late (same.mpr idle)]

/-- What may be done with a decoder that keeps its bit period. -/
inductive Use
  | decode (edge : Edge) (bytes : ByteRing)
  | owed (now : Cycle)
  | reset (now : Cycle)
  | keepReach (now : Cycle)

/-- What is answered. -/
inductive Reply
  | decoded (outcome : Outcome) (bytes : ByteRing)
  | owed (edge : Option Edge)
  | nothing

def Reply.outcome? : Reply → Option Outcome
  | .decoded outcome _ => some outcome
  | _ => none

def use (decoder : Decoder) : Use → Reply × Decoder
  | .decode edge bytes =>
    let (outcome, decoder, bytes) := decoder.decode edge bytes
    (.decoded outcome bytes, decoder)
  | .owed now => (.owed (decoder.owedEdge? now), decoder)
  | .reset now => (.nothing, decoder.reset now)
  | .keepReach now => (.nothing, decoder.keepReach now)

def useAll (decoder : Decoder) : List Use → List Reply × Decoder
  | [] => ([], decoder)
  | use :: uses =>
    let (reply, decoder) := decoder.use use
    let (replies, decoder) := decoder.useAll uses
    (reply :: replies, decoder)

end Decoder

namespace Registers

/-- The registers of a decoder that was not used yet. -/
def create (bitPeriod : UInt32) (invert : Bool) : Registers where
  bitPeriod := max bitPeriod 1
  invert := invert
  cursor := dataBits
  accumulator := 0
  last := 0

def use (registers : Registers) : Decoder.Use → Option (Decoder.Reply × Registers)
  | .decode edge bytes => do
    let (outcome, registers, bytes) ← registers.decode edge bytes
    return (.decoded outcome bytes, registers)
  | .owed now => return (.owed (← registers.owedEdge? now), registers)
  | .reset now => return (.nothing, registers.reset now)
  | .keepReach now => return (.nothing, registers.keepReach now)

def useAll (registers : Registers) :
    List Decoder.Use → Option (List Decoder.Reply × Registers)
  | [] => return ([], registers)
  | use :: uses => do
    let (reply, registers) ← registers.use use
    let (replies, registers) ← registers.useAll uses
    return (reply :: replies, registers)

end Registers

namespace Decoder

variable {decoder : Decoder}

theorem bitPeriod_use (decoder : Decoder) (use : Use) :
    (decoder.use use).2.bitPeriod = decoder.bitPeriod := by
  cases use with
  | decode edge bytes => exact decoder.bitPeriod_decode edge bytes
  | keepReach now => exact decoder.bitPeriod_keepReach now
  | owed | reset => rfl

/-- One use meets no overflow. -/
theorem registers_use (fits : 10 * decoder.bitPeriod.toNat < 2 ^ 32) (use : Use) :
    decoder.registers.use use =
      some ((decoder.use use).1, (decoder.use use).2.registers) := by
  cases use with
  | decode edge bytes =>
    rw [Registers.use, registers_decode (by omega)]
    rfl
  | owed now =>
    rw [Registers.use, registers_owedEdge? fits]
    rfl
  | reset now => rfl
  | keepReach now =>
    rw [Registers.use, registers_keepReach]
    rfl

/-- Nor does a whole run. -/
theorem registers_useAll (fits : 10 * decoder.bitPeriod.toNat < 2 ^ 32) (uses : List Use) :
    decoder.registers.useAll uses =
      some ((decoder.useAll uses).1, (decoder.useAll uses).2.registers) := by
  induction uses generalizing decoder with
  | nil => rfl
  | cons use uses ih =>
    rw [Registers.useAll, registers_use fits]
    dsimp only [Option.bind_eq_bind, Option.bind_some]
    rw [ih (by rw [bitPeriod_use]; exact fits)]
    rfl

end Decoder

/-- If ten bit periods fit into a word, nothing that a decoder or a planner reckons leaves its type
on the way, whatever edges come at whatever times and whatever is sent. -/
theorem arithmetic_exact {bitPeriod : UInt32} (most : bitPeriod.toNat ≤ (2 ^ 32 - 1) / 10)
    (invert : Bool) :
    (∀ uses, (Registers.create bitPeriod invert).useAll uses =
      some (((Decoder.create bitPeriod invert).useAll uses).1,
        ((Decoder.create bitPeriod invert).useAll uses).2.registers)) ∧
    ∀ data : List UInt8, data.length < 2 ^ 64 → ∀ count,
      ({ data, bitPeriod, invert } : Planner).ask count =
        some ((Plan.ofData data bitPeriod invert).ask count) := by
  constructor
  · intro uses
    have fits : 10 * (Decoder.create bitPeriod invert).bitPeriod.toNat < 2 ^ 32 := by
      change 10 * (max bitPeriod 1).toNat < 2 ^ 32
      rw [UInt32.toNat_max]
      change 10 * max bitPeriod.toNat 1 < 2 ^ 32
      omega
    exact Decoder.registers_useAll fits uses
  · intro data short count
    exact Planner.ask_ofData (by omega) short count

/-- A byte at the longest bit period. One interval falls just short of half a turn, and one is half
a turn, which counts as negative and has half a bit period taken off. -/
def slowest : List Decoder.Use :=
  [.reset 0, .decode (.ofLogical 0 false true) (Ring.empty 4 0),
    .decode (.ofLogical 2147483647 true true) (Ring.empty 4 0),
    .decode (.ofLogical 4294967294 true true) (Ring.empty 4 0), .owed 1717986916,
    .decode (.ofLogical 4294967292 true true) (Ring.empty 4 0)]

theorem exact_slowest :
    (429496729 : UInt32).toNat ≤ (2 ^ 32 - 1) / 10 ∧
      ([0x00, 0xff] : List UInt8).length < 2 ^ 64 ∧
      (∃ replies registers,
        (Registers.create 429496729 true).useAll slowest = some (replies, registers) ∧
          replies.filterMap Decoder.Reply.outcome? =
            [{}, {}, { spurious := true }, { stored := 1 }]) ∧
      ({ data := [0x00, 0xff], bitPeriod := 429496729, invert := true } : Planner).ask 0 =
        some (some ⟨true, 3865470561⟩) := by
  have most : (429496729 : UInt32).toNat ≤ (2 ^ 32 - 1) / 10 := by decide
  have short : ([0x00, 0xff] : List UInt8).length < 2 ^ 64 := by decide
  obtain ⟨uses, requests⟩ := arithmetic_exact most true
  refine ⟨most, short, ⟨_, _, uses slowest, ?_⟩, (requests _ short 0).trans ?_⟩
  · decide +kernel
  · exact congrArg some (by decide)

end PinUart
