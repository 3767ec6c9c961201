import PinUart.Cycle

/-! One observed change of a line's level, packed into a word: the time in the
upper 31 bits, and the level in bit 0, which is set when the line went low. -/
namespace PinUart

structure Edge where
  word : UInt32
  deriving DecidableEq, Repr

namespace Edge

/-- Packs a time and the electrical level after the edge. -/
def ofLevel (cycle : Cycle) (high : Bool) : Edge :=
  ⟨cycle / 2 * 2 + (if high then 0 else 1)⟩

/-- Packs a logical level, mark as `true`, for a line that may be inverted. -/
def ofLogical (cycle : Cycle) (mark invert : Bool) : Edge := ofLevel cycle (mark ^^ invert)

/-- The time of the edge, off by at most one cycle: the level bit stays in. -/
def timestamp (edge : Edge) : Cycle := edge.word

/-- The electrical level after the edge. -/
def high (edge : Edge) : Bool := edge.word % 2 == 0

/-- The logical level after the edge. -/
def mark (edge : Edge) (invert : Bool) : Bool := edge.high ^^ invert

theorem toNat_timestamp_ofLevel (cycle : Cycle) (high : Bool) :
    (ofLevel cycle high).timestamp.toNat =
      cycle.toNat / 2 * 2 + (if high then 0 else 1) := by
  have := cycle.toNat_lt
  cases high <;> simp [ofLevel, timestamp] <;> omega

@[simp] theorem high_ofLevel (cycle : Cycle) (high : Bool) : (ofLevel cycle high).high = high := by
  have := toNat_timestamp_ofLevel cycle high
  cases high <;> simp_all [Edge.high, timestamp, ← UInt32.toNat_inj]

@[simp] theorem mark_ofLogical (cycle : Cycle) (mark invert : Bool) :
    (ofLogical cycle mark invert).mark invert = mark := by
  simp [ofLogical, Edge.mark]

end Edge
end PinUart
