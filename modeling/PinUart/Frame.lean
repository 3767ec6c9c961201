/-! Framing of one byte on the line: a start bit at space, eight data bits with
the least significant first, and a stop bit at mark. Mark is `true`. -/
namespace PinUart

/-- Data bits of a frame. -/
def dataBits : Nat := 8

/-- Bit periods of a complete frame, start and stop bit included. -/
def frameBits : Nat := dataBits + 2

namespace Frame

/-- The data bits of a byte in the order they cross the line. -/
def bits (byte : UInt8) : List Bool := (List.range dataBits).map byte.toNat.testBit

/-- The logical levels of a frame, one per bit period. -/
def levels (byte : UInt8) : List Bool := false :: (bits byte ++ [true])

@[simp] theorem length_bits (byte : UInt8) : (bits byte).length = dataBits := by
  simp [bits]

@[simp] theorem length_levels (byte : UInt8) : (levels byte).length = frameBits := by
  simp [levels, frameBits, dataBits]

/-- Every frame closes with the line at mark. -/
theorem getLast?_levels (byte : UInt8) : (levels byte).getLast? = some true := by
  simp [levels, List.getLast?_cons]

end Frame

/-- The logical levels of a message, frame after frame without a pause. -/
def messageLevels (data : List UInt8) : List Bool := data.flatMap Frame.levels

@[simp] theorem messageLevels_nil : messageLevels [] = [] := rfl

@[simp] theorem messageLevels_cons (byte : UInt8) (data : List UInt8) :
    messageLevels (byte :: data) = Frame.levels byte ++ messageLevels data := rfl

theorem length_messageLevels (data : List UInt8) :
    (messageLevels data).length = frameBits * data.length := by
  induction data with
  | nil => rfl
  | cons byte rest ih => simp [ih, Nat.mul_add, Nat.add_comm]

end PinUart
