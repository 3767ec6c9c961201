import PinUart.Decoder
import PinUart.Proofs.Levels

/-! The register while a frame comes in: it holds the bits received so far at its
top, and the hidden bits that repeat the last one are those of the frame as long
as the line keeps its level. -/
namespace PinUart.Decoder

/-- The register once the bits of a byte that come up to `place` are in. -/
def loaded (byte : UInt8) (place : Nat) : BitVec 8 := byte.toBitVec <<< (8 - place)

theorem getLsbD_loaded (byte : UInt8) (place : Nat) {index : Nat} (within : index < 8) :
    (loaded byte place).getLsbD index =
      (decide (8 - place ≤ index) && byte.toBitVec.getLsbD (index - (8 - place))) := by
  rw [loaded, BitVec.getLsbD_shiftLeft, decide_eq_true within, Bool.true_and]
  by_cases below : index < 8 - place
  · rw [decide_eq_true below, decide_eq_false (show ¬ 8 - place ≤ index by omega)]
    simp
  · rw [decide_eq_false below, decide_eq_true (Nat.le_of_not_lt below)]
    simp

theorem loaded_full (byte : UInt8) : UInt8.ofBitVec (loaded byte 8) = byte := by
  simp [loaded]

theorem loaded_start (byte : UInt8) : loaded byte 0 = 0 := by
  simp [loaded]

/-- What came last stands at the top. -/
theorem msb_loaded (byte : UInt8) {place : Nat} (inside : place ≤ 8) :
    (loaded byte place).msb = Frame.level byte place := by
  cases place with
  | zero => simp [loaded_start, Frame.level_start]
  | succ place =>
    rw [Frame.level_data byte (by omega), BitVec.msb_eq_getLsbD_last,
      getLsbD_loaded byte _ (by omega), decide_eq_true (by omega), Bool.true_and,
      show 8 - 1 - (8 - (place + 1)) = place by omega]

theorem getLsbD_shiftIn (register : BitVec 8) (bit : Bool) {index : Nat} (within : index < 8) :
    (shiftIn register bit).getLsbD index =
      if index = 7 then bit else register.getLsbD (index + 1) := by
  have top : (if bit then 0x80#8 else 0).getLsbD index = (decide (index = 7) && bit) := by
    match index, within with
    | 0, _ | 1, _ | 2, _ | 3, _ | 4, _ | 5, _ | 6, _ | 7, _ => cases bit <;> rfl
  rw [shiftIn, BitVec.getLsbD_or, top, BitVec.getLsbD_ushiftRight, Nat.add_comm 1 index]
  by_cases last : index = 7
  · subst last
    simp
  · simp [last]

theorem msb_shiftIn (register : BitVec 8) (bit : Bool) : (shiftIn register bit).msb = bit := by
  rw [BitVec.msb_eq_getLsbD_last, getLsbD_shiftIn _ _ (by omega)]
  rfl

theorem shiftIn_loaded (byte : UInt8) {place : Nat} (inside : place < 8) :
    shiftIn (loaded byte place) (Frame.level byte (place + 1)) = loaded byte (place + 1) := by
  rw [Frame.level_data byte inside]
  apply BitVec.eq_of_getLsbD_eq
  intro index within
  rw [getLsbD_shiftIn _ _ within, getLsbD_loaded byte _ within]
  by_cases last : index = 7
  · subst last
    rw [if_pos rfl, decide_eq_true (by omega), show 7 - (8 - (place + 1)) = place by omega,
      Bool.true_and]
  · rw [if_neg last, getLsbD_loaded byte _ (by omega),
      show index + 1 - (8 - place) = index - (8 - (place + 1)) by omega]
    congr 2
    exact propext (by omega)

@[simp] theorem repeatLast_zero (register : BitVec 8) : repeatLast register 0 = register := by
  rw [repeatLast]
  split <;> simp

theorem getLsbD_repeatLast (register : BitVec 8) {count index : Nat} (inside : count ≤ 8)
    (within : index < 8) :
    (repeatLast register count).getLsbD index =
      if index + count < 8 then register.getLsbD (index + count) else register.msb := by
  have shifted : (register >>> count).getLsbD index =
      if index + count < 8 then register.getLsbD (index + count) else false := by
    rw [BitVec.getLsbD_ushiftRight, Nat.add_comm count index]
    split
    · rfl
    · exact BitVec.getLsbD_of_ge _ _ (by omega)
  cases top : register.msb with
  | false => simpa [repeatLast, top] using shifted
  | true =>
    simp only [repeatLast, top, if_true, BitVec.getLsbD_or, shifted, BitVec.getLsbD_shiftLeft,
      BitVec.getLsbD_allOnes]
    by_cases early : index + count < 8
    · simp [early, show index < 8 - count by omega]
    · simp [early, within, show ¬ index < 8 - count by omega, show index - (8 - count) < 8 by omega]

theorem msb_repeatLast (register : BitVec 8) {count : Nat} (inside : count ≤ 8) :
    (repeatLast register count).msb = register.msb := by
  rw [BitVec.msb_eq_getLsbD_last, getLsbD_repeatLast register inside (by omega)]
  split
  · rename_i none
    rw [show 8 - 1 + count = 8 - 1 by omega, ← BitVec.msb_eq_getLsbD_last]
  · rfl

/-- Repeating the last bit amounts to taking it in over and over. -/
theorem repeatLast_succ (register : BitVec 8) {count : Nat} (inside : count < 8) :
    repeatLast register (count + 1) = shiftIn (repeatLast register count) register.msb := by
  apply BitVec.eq_of_getLsbD_eq
  intro index within
  rw [getLsbD_repeatLast register inside within, getLsbD_shiftIn _ _ within]
  by_cases last : index = 7
  · rw [if_neg (by omega), if_pos last]
  · rw [if_neg last, getLsbD_repeatLast register (by omega) (by omega),
      show index + 1 + count = index + (count + 1) by omega]

/-- The first of the repeated bits may as well be the one taken in by itself. -/
theorem repeatLast_shiftIn (register : BitVec 8) {count : Nat} (inside : count < 8) :
    repeatLast (shiftIn register register.msb) count = repeatLast register (count + 1) := by
  induction count with
  | zero => rw [repeatLast_succ _ inside, repeatLast_zero, repeatLast_zero]
  | succ count ih =>
    rw [repeatLast_succ _ (by omega), ih (by omega), msb_shiftIn,
      ← repeatLast_succ register inside]

/-- Where the line keeps its level, repeating the last bit loads the next ones. -/
theorem repeatLast_loaded (byte : UInt8) {place count : Nat} (inside : place + count ≤ 8)
    (steady : ∀ later, place ≤ later → later ≤ place + count →
      Frame.level byte later = Frame.level byte place) :
    repeatLast (loaded byte place) count = loaded byte (place + count) := by
  induction count with
  | zero => rw [repeatLast_zero, Nat.add_zero]
  | succ count ih =>
    rw [repeatLast_succ _ (by omega),
      ih (by omega) (fun later after before => steady later after (by omega)),
      msb_loaded byte (by omega), ← steady (place + (count + 1)) (by omega) (by omega)]
    exact shiftIn_loaded byte (by omega)

end PinUart.Decoder
