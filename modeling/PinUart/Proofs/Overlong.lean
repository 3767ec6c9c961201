import PinUart.Proofs.Exactness

/-! Bit periods that are too long. A period of half a turn or more is negative as a signed number,
and most of what is reckoned with it overflows. Where registers of fixed width have an answer all
the same, it is the answer of the decoder, at any bit period. -/
namespace PinUart

namespace Decoder

theorem repeat_shiftIn (register : BitVec 8) (mark : Bool) (count : Nat) :
    Nat.repeat (shiftIn · mark) count (shiftIn register mark) =
      Nat.repeat (shiftIn · mark) (count + 1) register := by
  induction count with
  | zero => rfl
  | succ count ih => exact congrArg (shiftIn · mark) ih

end Decoder

namespace Registers.Working

variable {state after : Working} {register : BitVec 8} {mark : Bool} {bit : Int}

/-- A negative period takes no hidden bits in. -/
theorem takeHidden_of_negative (negative : bit < 0) (remains : 0 ≤ state.cycles)
    (before : state.registers.cursor < 7)
    (loaded : state.registers.accumulator = register.setWidth 32)
    (taken : state.takeHidden bit = some after) : after = state := by
  unfold takeHidden at taken
  rw [if_neg (by omega)] at taken
  simp only [Option.bind_eq_bind, Option.bind_eq_some_iff] at taken
  obtain ⟨seven, last, missing, lacking, periods, divided, accumulator, filled, cursor, moved,
    product, used, cycles, left, same⟩ := taken
  have all : Width.signed.sub dataBits 1 = some 7 := rfl
  obtain rfl := Option.some.inj (all.symm.trans last)
  obtain ⟨-, rfl⟩ := Width.of_exact lacking
  unfold Width.div at divided
  rw [if_neg (by omega)] at divided
  obtain ⟨-, rfl⟩ := Width.of_exact divided
  -- A negative number of bits cannot be shifted by, and there is no positive one.
  have none : min (state.cycles.tdiv bit) (7 - state.registers.cursor) = 0 := by
    have missing := Int.sub_pos_of_lt before
    have few := Int.tdiv_nonpos_of_nonneg_of_nonpos remains (Int.le_of_lt negative)
    have some := nonneg_of_fill filled
    omega
  rw [none] at filled moved used
  have kept : fill state.registers.accumulator 0 = some state.registers.accumulator := by
    rw [loaded]
    refine (fill_eq register (Nat.zero_le 8)).trans ?_
    rw [Decoder.repeatLast_zero]
  obtain rfl := Option.some.inj (kept.symm.trans filled)
  obtain ⟨-, rfl⟩ := Width.of_exact moved
  obtain ⟨-, rfl⟩ := Width.of_exact used
  obtain ⟨-, rfl⟩ := Width.of_exact left
  cases same
  rw [Int.zero_mul, Int.sub_zero, Int.add_zero]

/-- With a negative period, a round that comes to its end has taken one bit in, and no time. -/
theorem takeBits_of_negative (negative : bit < 0) (remains : 0 ≤ state.cycles)
    (before : state.registers.cursor < 7)
    (loaded : state.registers.accumulator = register.setWidth 32)
    (taken : state.takeBits mark bit 7 = some after) :
    after = { state with
      registers := { state.registers with
        cursor := state.registers.cursor + 1
        accumulator := (Decoder.shiftIn register mark).setWidth 32 }
      cycles := state.cycles - bit } := by
  obtain ⟨between, hidden, further⟩ := Option.bind_eq_some_iff.mp taken
  obtain rfl := takeHidden_of_negative negative remains before loaded hidden
  rw [if_pos before] at further
  obtain ⟨cursor, moved, rest⟩ := Option.bind_eq_some_iff.mp further
  obtain ⟨cycles, used, rest⟩ := Option.bind_eq_some_iff.mp rest
  obtain ⟨shifted, down, same⟩ := Option.bind_eq_some_iff.mp rest
  obtain ⟨-, rfl⟩ := Width.of_exact moved
  obtain ⟨-, rfl⟩ := Width.of_exact used
  have first : shiftDown between.registers.accumulator 1 =
      some (between.registers.accumulator >>> 1) := shiftDown_eq _ (by decide)
  obtain rfl := Option.some.inj (first.symm.trans down)
  cases same
  rw [Decoder.setWidth_shiftIn, loaded]

/-- A byte that is over goes into the ring, whatever the period. -/
theorem of_store (loaded : state.registers.accumulator = register.setWidth 32)
    (fresh : state.outcome = {}) (stored : state.store bit = some after) :
    after = { registers := { state.registers with cursor := dataBits, accumulator := 0 }
              cycles := state.cycles - bit
              bytes := (state.bytes.store (.completed (UInt8.ofBitVec register))).2
              outcome := (state.bytes.store (.completed (UInt8.ofBitVec register))).1 } := by
  rw [store_map loaded (by rw [fresh]; exact ⟨rfl, rfl⟩)] at stored
  obtain ⟨cycles, used, rfl⟩ := Option.map_eq_some_iff.mp stored
  obtain ⟨-, rfl⟩ := Width.of_exact used
  rw [fresh, ByteRing.store]
  generalize state.bytes.push (UInt8.ofBitVec register) = result
  obtain ⟨room, bytes⟩ := result
  cases room with
  | true => rfl
  | false => rfl

/-- At rest the level alone tells whether a frame begins. -/
theorem loop_resting (resting : state.registers.cursor = dataBits) (mark : Bool) (bit : Int) :
    state.loop mark bit = some { state with
      registers := { state.registers with cursor := (Decoder.arm mark).cursor } } := by
  obtain ⟨⟨bitPeriod, invert, cursor, accumulator, last⟩, cycles, bytes, outcome⟩ := state
  cases resting
  rw [loop]
  cases mark with
  | true => rfl
  | false => rfl

/-- A loop that comes to its end goes on from a round that leaves time over. -/
theorem loop_of_step {step : Option Working} (looped : state.loop mark bit = some after)
    (rounded : state.round mark bit =
      step.bind fun later => some (decide (0 ≤ later.cycles), later)) :
    ∃ later, step = some later ∧ (0 ≤ later.cycles → later.loop mark bit = some after) := by
  rw [loop, rounded] at looped
  cases step with
  | none => cases looped
  | some later =>
    refine ⟨later, rfl, fun remains => ?_⟩
    rw [Option.bind_some, decide_eq_true remains] at looped
    exact looped

/-- With a negative period, a loop that comes to its end has gone on with the level to the end of
the byte, and has stored that. -/
theorem loop_of_negative (negative : bit < 0) {missing : Nat} (few : missing ≤ 8)
    (cursor : state.registers.cursor = 7 - (missing : Int)) (remains : 0 ≤ state.cycles)
    (loaded : state.registers.accumulator = register.setWidth 32) (fresh : state.outcome = {})
    (looped : state.loop mark bit = some after) :
    let stored := state.bytes.store
      (.completed (UInt8.ofBitVec (Nat.repeat (Decoder.shiftIn · mark) missing register)))
    (after.outcome, after.registers, after.bytes) =
      (stored.1, { state.registers with cursor := (Decoder.arm mark).cursor, accumulator := 0 },
        stored.2) := by
  have last : Width.signed.sub dataBits 1 = some 7 := rfl
  -- Every round takes one of the missing bits in, and leaves more time than there was.
  induction missing generalizing state register with
  | zero =>
    rw [Int.natCast_zero, Int.sub_zero] at cursor
    have rounded : state.round mark bit =
        (state.store bit).bind fun closed => some (decide (0 ≤ closed.cycles), closed) := by
      rw [round, last, cursor]
      rfl
    obtain ⟨closed, stored, further⟩ := loop_of_step looped rounded
    obtain rfl := of_store loaded fresh stored
    have rest := further (by dsimp only; omega)
    rw [loop_resting rfl] at rest
    cases rest
    rfl
  | succ missing ih =>
    have before : state.registers.cursor < 7 := by omega
    have rounded : state.round mark bit =
        (state.takeBits mark bit 7).bind fun later => some (decide (0 ≤ later.cycles), later) := by
      rw [round, last]
      exact if_pos ⟨by omega, before⟩
    obtain ⟨later, taken, further⟩ := loop_of_step looped rounded
    have same := takeBits_of_negative negative remains before loaded taken
    have cycles : later.cycles = state.cycles - bit := by rw [same]
    have moved : later.registers.cursor = state.registers.cursor + 1 := by rw [same]
    have shifted : later.registers.accumulator = (Decoder.shiftIn register mark).setWidth 32 := by
      rw [same]
    have result := ih (by omega) (by omega) (by omega) shifted (by rw [same]; exact fresh)
      (further (by omega))
    rw [same, Decoder.repeat_shiftIn] at result
    exact result

end Registers.Working

namespace Decoder

variable {decoder after : Decoder}

theorem account_of_negative {count : Fin 9} (started : decoder.phase = .receiving count)
    (negative : decoder.signedPeriod < 0) {elapsed : Int} (remains : 0 ≤ elapsed) (mark : Bool) :
    decoder.account elapsed mark =
      ({ decoder with phase := arm mark, register := 0 },
        .completed (UInt8.ofBitVec
          (Nat.repeat (shiftIn · mark) (8 - count.val) decoder.register))) := by
  rw [account]
  simp only [started]
  rw [if_pos negative, complete, if_pos (by omega)]

/-- An edge that is taken in without overflow comes to the end that it has in any case. -/
theorem decode_of_registers {edge : Edge} {bytes : ByteRing}
    {answer : Outcome × Registers × ByteRing}
    (answered : decoder.registers.decode edge bytes = some answer) :
    answer = ((decoder.decode edge bytes).1, (decoder.decode edge bytes).2.1.registers,
      (decoder.decode edge bytes).2.2) := by
  by_cases narrow : decoder.bitPeriod.toNat < 2 ^ 31
  · rw [registers_decode narrow] at answered
    exact (Option.some.inj answered).symm
  have negative : decoder.signedPeriod < 0 := by
    have bound := decoder.bitPeriod.toNat_lt
    refine (if_neg narrow).trans_lt ?_
    omega
  rw [registers_decode_eq] at answered
  dsimp only at answered
  rw [decode_eq, sense]
  dsimp only
  split at answered
  · rename_i early
    rw [if_pos early]
    exact (Option.some.inj answered).symm
  · rename_i remains
    rw [if_neg remains]
    obtain ⟨final, looped, same⟩ := Option.bind_eq_some_iff.mp answered
    obtain rfl := Option.some.inj same
    have cycles : 0 ≤ Width.signed.saturatingSub (Cycle.span decoder.last edge.timestamp)
        (decoder.signedPeriod.tdiv 2) := by
      unfold Width.saturatingSub Width.signed
      dsimp only
      omega
    cases place : decoder.phase with
    | idle =>
      have resting : decoder.registers.cursor = dataBits := congrArg Phase.cursor place
      rw [Registers.Working.loop_resting (by exact resting)] at looped
      cases looped
      rfl
    | receiving count =>
      have cursor : decoder.registers.cursor = 7 - ((8 - count.val : Nat) : Int) := by
        have := count.isLt
        have counted : decoder.registers.cursor = (count.val : Int) - 1 :=
          congrArg Phase.cursor place
        omega
      rw [account_of_negative rfl (by exact negative) (Int.not_lt.mp remains)]
      exact Registers.Working.loop_of_negative negative (Nat.sub_le ..) cursor cycles rfl rfl looped

theorem owedEdge?_of_registers {now : Cycle} {answer : Option Edge}
    (answered : decoder.registers.owedEdge? now = some answer) :
    answer = decoder.owedEdge? now := by
  obtain whole | ⟨count, -, product⟩ := decoder.registers_owedEdge?_cases now
  · rw [whole] at answered
    exact (Option.some.inj answered).symm
  · rw [product] at answered
    obtain ⟨cycles, -, same⟩ := Option.map_eq_some_iff.mp answered
    exact same.symm

/-- What one use answers, if nothing overflows. -/
theorem use_of_registers {use : Use} {answer : Reply × Registers}
    (answered : decoder.registers.use use = some answer) :
    answer = ((decoder.use use).1, (decoder.use use).2.registers) := by
  cases use with
  | decode edge bytes =>
    obtain ⟨decoded, taken, same⟩ := Option.bind_eq_some_iff.mp answered
    obtain rfl := Option.some.inj same
    rw [decode_of_registers taken]
    rfl
  | owed now =>
    obtain ⟨edge, owed, same⟩ := Option.bind_eq_some_iff.mp answered
    obtain rfl := Option.some.inj same
    rw [owedEdge?_of_registers owed]
    rfl
  | reset now => exact (Option.some.inj answered).symm
  | keepReach now =>
    obtain rfl := Option.some.inj answered
    rw [registers_keepReach]
    rfl

/-- What a whole run answers, if nothing overflows. -/
theorem useAll_of_registers {uses : List Use} {answer : List Reply × Registers}
    (answered : decoder.registers.useAll uses = some answer) :
    answer = ((decoder.useAll uses).1, (decoder.useAll uses).2.registers) := by
  induction uses generalizing decoder answer with
  | nil => exact (Option.some.inj answered).symm
  | cons use uses ih =>
    obtain ⟨first, used, rest⟩ := Option.bind_eq_some_iff.mp answered
    obtain rfl := use_of_registers used
    obtain ⟨later, further, same⟩ := Option.bind_eq_some_iff.mp rest
    obtain rfl := ih further
    exact (Option.some.inj same).symm

end Decoder
end PinUart
