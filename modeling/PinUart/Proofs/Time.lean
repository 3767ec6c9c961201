import Mathlib.Algebra.Group.Int.Defs
import Mathlib.Algebra.Group.Nat.Defs
import PinUart.Edge

/-! Time without end behind the cycle counter. The counter shows it up to whole turns,
and the difference of two readings is exact while they lie less than a turn apart. An
edge carries its time off by at most one cycle. -/
namespace PinUart

namespace Cycle

/-- What the counter reads at a time that is counted without end. -/
def ofTime (time : Int) : Cycle := UInt32.ofInt time

theorem toNat_ofTime (time : Int) : ((ofTime time).toNat : Int) = time % 2 ^ 32 := by
  have positive : 0 ≤ time % 2 ^ 32 := Int.emod_nonneg _ (by decide)
  have below : time % 2 ^ 32 < 2 ^ 32 := Int.emod_lt_of_pos _ (by decide)
  rw [ofTime, UInt32.ofInt, UInt32.toNat_ofNat', Nat.mod_eq_of_lt (by omega)]
  omega

theorem ofTime_add (time ahead : Int) : ofTime (time + ahead) = ofTime time + ofTime ahead :=
  UInt32.ofInt_add time ahead

theorem ofTime_sub (time back : Int) : ofTime (time - back) = ofTime time - ofTime back := by
  simp only [ofTime, Int.sub_eq_add_neg, UInt32.ofInt_add, UInt32.ofInt_neg, UInt32.sub_eq_add_neg]

theorem ofTime_toNat (cycle : Cycle) : ofTime cycle.toNat = cycle := by
  have := cycle.toNat_lt
  apply UInt32.toNat_inj.mp
  have := toNat_ofTime cycle.toNat
  omega

theorem ofTime_add_toNat (time : Int) (cycles : Cycle) :
    ofTime (time + cycles.toNat) = ofTime time + cycles := by
  rw [ofTime_add, ofTime_toNat]

/-- A reading as the time that has gone by since another. -/
theorem eq_ofTime_add_sub (earlier later : Cycle) :
    later = ofTime (earlier.toNat + (later - earlier).toNat) := by
  rw [ofTime_add_toNat, ofTime_toNat, UInt32.add_comm, UInt32.sub_add_cancel]

/-- Between readings that are less than a whole turn apart the counter shows the time. -/
theorem toNat_sub_ofTime {earlier later : Int} (order : earlier ≤ later)
    (near : later - earlier < 2 ^ 32) :
    ((ofTime later - ofTime earlier).toNat : Int) = later - earlier := by
  rw [← ofTime_sub, toNat_ofTime]
  omega

theorem span_ofTime {earlier later : Int} (ahead : later - earlier < 2 ^ 31)
    (behind : -2 ^ 31 ≤ later - earlier) : span (ofTime earlier) (ofTime later) = later - earlier := by
  have read := toNat_ofTime (later - earlier)
  rw [span, ← ofTime_sub, signed]
  split <;> omega

end Cycle

namespace Edge

/-- The time that an edge carries, whose last bit has made room for the level. -/
def noted (time : Int) (high : Bool) : Int := time / 2 * 2 + (if high then 0 else 1)

theorem timestamp_ofLevel (time : Int) (high : Bool) :
    (ofLevel (Cycle.ofTime time) high).timestamp = Cycle.ofTime (noted time high) := by
  apply UInt32.toNat_inj.mp
  have packed := toNat_timestamp_ofLevel (Cycle.ofTime time) high
  have read := Cycle.toNat_ofTime time
  have shown := Cycle.toNat_ofTime (noted time high)
  cases high <;> simp [noted] at packed shown ⊢ <;> omega

theorem le_noted (time : Int) (high : Bool) : time - 1 ≤ noted time high := by
  cases high <;> simp [noted] <;> omega

theorem noted_le (time : Int) (high : Bool) : noted time high ≤ time + 1 := by
  cases high <;> simp [noted] <;> omega

end Edge
end PinUart
