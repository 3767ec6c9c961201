/-! Time on a free-running 32-bit cycle counter. Two readings are compared by
the signed distance between them, which is exact while they lie less than half
a turn apart. -/
namespace PinUart

/-- A reading of the cycle counter. -/
abbrev Cycle := UInt32

namespace Cycle

/-- A count of cycles read as signed: the upper half of the range is negative. -/
def signed (count : UInt32) : Int :=
  if count.toNat < 0x80000000 then count.toNat else (count.toNat : Int) - 0x100000000

/-- Signed distance covered on the way to `later`, in the range of half a turn. -/
def span (earlier later : Cycle) : Int := signed (later - earlier)

/-- The furthest that an idle reference may trail the counter: a quarter turn,
so that the next edge always lies at a positive distance. -/
def idleReach : Cycle := 1073741824

theorem signed_of_lt {count : UInt32} (small : count.toNat < 0x80000000) :
    signed count = count.toNat := if_pos small

theorem signed_lt (count : UInt32) : signed count < 0x80000000 := by
  have := count.toNat_lt
  unfold signed
  split <;> omega

theorem neg_le_signed (count : UInt32) : -0x80000000 ≤ signed count := by
  have := count.toNat_lt
  unfold signed
  split <;> omega

@[simp] theorem span_self (now : Cycle) : span now now = 0 := by
  simp [span, signed]

end Cycle
end PinUart
