import PinUart.Board

/-! Waiting for a deadline by reading the counter over and over. Every reading
moves the counter, so that the wait ends, also when the counter turns over. -/
namespace PinUart

/-- Whether a deadline is still more than one cycle ahead, by less than half a turn. -/
def Cycle.isAhead (deadline now : Cycle) : Bool :=
  1 < deadline - now && deadline - now < 0x80000000

theorem Cycle.isAhead_iff {deadline now : Cycle} :
    Cycle.isAhead deadline now ↔
      1 < (deadline - now).toNat ∧ (deadline - now).toNat < 0x80000000 := by
  rw [Cycle.isAhead, Bool.and_eq_true, decide_eq_true_iff, decide_eq_true_iff,
    UInt32.lt_iff_toNat_lt, UInt32.lt_iff_toNat_lt]
  rfl

/-- A deadline is ahead as long as the signed distance to it is more than one. -/
theorem Cycle.isAhead_iff_span {deadline now : Cycle} :
    Cycle.isAhead deadline now ↔ 1 < Cycle.span now deadline := by
  have := (deadline - now).toNat_lt
  rw [Cycle.isAhead_iff, Cycle.span, Cycle.signed]
  split <;> omega

/-- Bounds the readings that a wait has yet to make. -/
private def remaining (step deadline now : Cycle) : Nat :=
  if Cycle.isAhead deadline now then
    if step.toNat < 0x80000000 then (deadline - now).toNat else 0x80000000 - (deadline - now).toNat
  else 0x100000000

private theorem remaining_lt (step deadline now : Cycle) (moves : 1 ≤ step)
    (ahead : Cycle.isAhead deadline (now + step)) :
    remaining step deadline (now + step) < remaining step deadline now := by
  have positive : 1 ≤ step.toNat := UInt32.le_iff_toNat_le.mp moves
  have left : (deadline - (now + step)).toNat =
      (0x100000000 - step.toNat + (deadline - now).toNat) % 0x100000000 := by
    rw [show deadline - (now + step) = (deadline - now) - step by grind, UInt32.toNat_sub]
  have := (deadline - now).toNat_lt
  have := step.toNat_lt
  simp only [remaining, ahead, if_true]
  rw [Cycle.isAhead_iff] at ahead
  rw [left] at ahead ⊢
  by_cases before : Cycle.isAhead deadline now
  · simp only [before, if_true]
    rw [Cycle.isAhead_iff] at before
    split <;> omega
  · simp only [before]
    split <;> simp <;> omega

/-- Reads the counter until a deadline has come to within one cycle. Answers the
last reading. -/
def Timebase.spin (timebase : Timebase) (deadline now : Cycle) : Cycle :=
  let reading := now + timebase.perRead
  if _ahead : Cycle.isAhead deadline reading then timebase.spin deadline reading else reading
  termination_by remaining timebase.perRead deadline now
  decreasing_by exact remaining_lt _ _ _ timebase.perRead_ge _ahead

/-- The last reading is not ahead of the deadline any more. -/
theorem Timebase.isAhead_spin (timebase : Timebase) (deadline now : Cycle) :
    Cycle.isAhead deadline (timebase.spin deadline now) = false := by
  fun_induction timebase.spin deadline now with
  | case1 now reading ahead ih => exact ih
  | case2 now reading ahead => simpa using ahead

/-- Waits until a deadline has come to within one cycle. -/
def Board.spinUntil (board : Board) (deadline : Cycle) : Board :=
  { board with clock := board.timebase.spin deadline board.clock }

end PinUart
