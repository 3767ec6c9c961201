import PinUart.Edge
import PinUart.Frame
import PinUart.Ring

/-! Bytes from the times of edges. The line keeps its level between two edges,
so an edge that comes several bit periods after the last one stands for that
many bits. A stop bit after a data bit at mark brings no edge of its own; a
poll supplies the edge once the stop bit must be over. -/
namespace PinUart

/-- Decoded bytes that wait to be read. -/
abbrev ByteRing := Ring UInt8

namespace ByteRing

def reserve (capacity : UInt64) : Except Refusal ByteRing := Ring.reserve 1 capacity 0

end ByteRing

/-- How far a frame has come: the number of data bits received since its start
edge, if there was one. -/
inductive Phase
  | idle
  | receiving (count : Fin 9)
  deriving DecidableEq, Repr

/-- Position of the last received bit: data bits count from 0, the start bit is
at -1, and 8 stands for an idle line. -/
def Phase.cursor : Phase → Int
  | .idle => 8
  | .receiving count => (count.val : Int) - 1

structure Decoder where
  bitPeriod : UInt32
  invert : Bool
  phase : Phase
  /-- Received bits enter at the top and move down. -/
  register : BitVec 8
  /-- Time of the last accepted edge. -/
  last : Cycle
  bitPeriod_pos : 0 < bitPeriod.toNat

/-- What one edge did. -/
inductive Finding
  | spurious
  | progress
  | completed (byte : UInt8)
  deriving DecidableEq, Repr

/-- What became of one edge: bytes stored, bytes refused by a full ring, and
whether the edge came too early to be one. -/
structure Outcome where
  stored : Nat := 0
  dropped : Nat := 0
  spurious : Bool := false
  deriving DecidableEq, Repr

namespace Decoder

private theorem pos_of_max (period : UInt32) : 0 < (max period 1).toNat := by
  rw [show max period 1 = if period ≤ 1 then 1 else period from rfl]
  split
  · decide
  · rename_i above
    simp only [UInt32.not_le, UInt32.lt_iff_toNat_lt] at above
    exact Nat.lt_of_le_of_lt (Nat.zero_le _) above

/-- A decoder at rest; a bit period of zero is raised to one. -/
def create (bitPeriod : UInt32) (invert : Bool) : Decoder where
  bitPeriod := max bitPeriod 1
  invert := invert
  phase := .idle
  register := 0
  last := 0
  bitPeriod_pos := pos_of_max bitPeriod

/-- Changes the bit period, in the middle of a frame too. -/
def withPeriod (decoder : Decoder) (bitPeriod : UInt32) : Decoder :=
  { decoder with bitPeriod := max bitPeriod 1, bitPeriod_pos := pos_of_max bitPeriod }

def isIdle (decoder : Decoder) : Bool := decoder.phase == .idle

def cursor (decoder : Decoder) : Int := decoder.phase.cursor

/-- Drops a partial frame. The line counts as idle for a long time before `now`,
so that a start edge is welcome at once. -/
def reset (decoder : Decoder) (now : Cycle) : Decoder :=
  { decoder with phase := .idle, register := 0, last := now - Cycle.idleReach }

/-- Shifts in `count` copies of the bit that came last. -/
def repeatLast (register : BitVec 8) (count : Nat) : BitVec 8 :=
  if register.msb then register >>> count ||| BitVec.allOnes 8 <<< (8 - count)
  else register >>> count

/-- Shifts in one bit. -/
def shiftIn (register : BitVec 8) (bit : Bool) : BitVec 8 :=
  register >>> 1 ||| (if bit then 0x80#8 else 0)

/-- An idle line leaves rest on a space level only. -/
def arm (mark : Bool) : Phase := if mark then .idle else .receiving 0

/-- The bit period as a signed distance. Periods of half a turn and more come out
negative, and no time can hold a multiple of them. -/
def signedPeriod (decoder : Decoder) : Int := Cycle.signed decoder.bitPeriod

/-- Closes the byte that has all its bits, with `left` cycles to go until the
edge: a space level after the stop bit is the next start bit. -/
def complete (decoder : Decoder) (register : BitVec 8) (left : Int) (mark : Bool) :
    Decoder × Finding :=
  ({ decoder with
      phase := if decoder.signedPeriod ≤ left then arm mark else .idle
      register := 0 },
    .completed (UInt8.ofBitVec register))

/-- Accounts for `elapsed` cycles, counted from the middle of the last bit, and
for the level that they lead to. A negative period uses no time up, so that the
level goes on to the end of the byte; arithmetic of fixed width has the same
answer there, or overflows and has none. -/
def account (decoder : Decoder) (elapsed : Int) (mark : Bool) : Decoder × Finding :=
  match decoder.phase with
  | .idle => ({ decoder with phase := arm mark }, .progress)
  | .receiving count =>
    let missing := 8 - count.val
    if decoder.signedPeriod < 0 then
      decoder.complete (Nat.repeat (shiftIn · mark) missing decoder.register) elapsed mark
    else
      let hidden := (elapsed / decoder.signedPeriod).toNat
      if within : count.val + hidden < 8 then
        ({ decoder with
            phase := .receiving ⟨count.val + hidden + 1, by omega⟩
            register := shiftIn (repeatLast decoder.register hidden) mark },
          .progress)
      else
        decoder.complete (repeatLast decoder.register missing)
          (elapsed - missing * decoder.signedPeriod) mark

/-- Takes in one edge. An edge less than half a bit after the last one is no
bit boundary, and leaves the decoder as it was. -/
def sense (decoder : Decoder) (edge : Edge) : Decoder × Finding :=
  let elapsed := Cycle.span decoder.last edge.timestamp - decoder.signedPeriod.tdiv 2
  if elapsed < 0 then (decoder, .spurious)
  else { decoder with last := edge.timestamp }.account elapsed (edge.mark decoder.invert)

/-- Takes in one edge and puts a completed byte into the ring. -/
def decode (decoder : Decoder) (edge : Edge) (bytes : ByteRing) : Outcome × Decoder × ByteRing :=
  match decoder.sense edge with
  | (decoder, .spurious) => ({ spurious := true }, decoder, bytes)
  | (decoder, .progress) => ({}, decoder, bytes)
  | (decoder, .completed byte) =>
    match bytes.push byte with
    | (true, bytes) => ({ stored := 1 }, decoder, bytes)
    | (false, bytes) => ({ dropped := 1 }, decoder, bytes)

/-- Takes in edges one after the other; answers how many bytes found no room. -/
def decodeAll (decoder : Decoder) (bytes : ByteRing) : List Edge → Nat × Decoder × ByteRing
  | [] => (0, decoder, bytes)
  | edge :: edges =>
    let (outcome, decoder, bytes) := decoder.decode edge bytes
    let (dropped, decoder, bytes) := decoder.decodeAll bytes edges
    (outcome.dropped + dropped, decoder, bytes)

/-- The edge to mark that a frame still owes once its stop bit is over, if data
bits have arrived and the edge itself cannot come any more. -/
def owedEdge? (decoder : Decoder) (now : Cycle) : Option Edge :=
  match decoder.phase with
  | .idle => none
  | .receiving count =>
    if count = 0 then none
    else
      let expected := UInt32.ofNat (11 - count.val) * decoder.bitPeriod
      if now - decoder.last < expected then none
      else some (Edge.ofLogical (decoder.last + expected) true decoder.invert)

/-- Keeps the reference of an idle line within reach of the next edge. -/
def keepReach (decoder : Decoder) (now : Cycle) : Decoder :=
  if decoder.isIdle && Cycle.idleReach < now - decoder.last then
    { decoder with last := now - Cycle.idleReach }
  else decoder

/-- A look at the line once all captured edges are in: supplies the edge of a
stop bit that is over, and keeps an idle reference in reach. Answers how many
bytes found no room. -/
def poll (decoder : Decoder) (now : Cycle) (bytes : ByteRing) : Nat × Decoder × ByteRing :=
  match decoder.owedEdge? now with
  | none => (0, decoder.keepReach now, bytes)
  | some edge =>
    let (outcome, decoder, bytes) := decoder.decode edge bytes
    (outcome.dropped, decoder.keepReach now, bytes)

end Decoder
end PinUart
