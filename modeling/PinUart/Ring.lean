/-! A bounded queue on a fixed array. One slot stays free, so that equal indices
mean an empty ring and a ring of `n` slots holds at most `n - 1` elements. -/
namespace PinUart

/-- Elements lie from `tail` up to `head`, wrapping at the end of the slots. -/
structure Ring (α : Type) where
  slots : Array α
  head : Nat
  tail : Nat
  two_le_size : 2 ≤ slots.size
  head_lt : head < slots.size
  tail_lt : tail < slots.size

/-- Why storage for a ring was refused. -/
inductive Refusal
  | beyondAddressing
  | outOfMemory
  deriving DecidableEq, Repr

def Refusal.message : Refusal → String
  | .beyondAddressing =>
    "memory allocation failed because the computed capacity exceeded the collection's maximum"
  | .outOfMemory => "memory allocation failed because the memory allocator returned an error"

namespace Ring

/-- An empty ring; fewer than two slots are raised to two. -/
def empty (capacity : Nat) (filler : α) : Ring α where
  slots := Array.replicate (max capacity 2) filler
  head := 0
  tail := 0
  two_le_size := by rw [Array.size_replicate]; omega
  head_lt := by rw [Array.size_replicate]; omega
  tail_lt := by rw [Array.size_replicate]; omega

/-- No machine holds this many slots, of whatever width. -/
def slotLimit : Nat := 0x1fffffffffffffff

/-- An empty ring whose slots take `width` bytes each, unless that many bytes
can be neither addressed nor found. -/
def reserve (width : Nat) (capacity : UInt64) (filler : α) : Except Refusal (Ring α) :=
  if 0x8000000000000000 ≤ capacity.toNat * width then .error .beyondAddressing
  else if slotLimit ≤ capacity.toNat then .error .outOfMemory
  else .ok (empty capacity.toNat filler)

/-- Slots of the ring, the free one included. -/
def capacity (ring : Ring α) : Nat := ring.slots.size

def size (ring : Ring α) : Nat :=
  if ring.tail ≤ ring.head then ring.head - ring.tail
  else ring.head + ring.slots.size - ring.tail

def isEmpty (ring : Ring α) : Bool := ring.head == ring.tail

/-- The index after `index`, back at the first slot after the last. -/
def next (ring : Ring α) (index : Nat) : Nat := (index + 1) % ring.slots.size

theorem next_lt (ring : Ring α) (index : Nat) : ring.next index < ring.slots.size :=
  Nat.mod_lt _ (by have := ring.two_le_size; omega)

def isFull (ring : Ring α) : Bool := ring.next ring.head == ring.tail

/-- Appends an element, or refuses it when the ring is full. -/
def push (ring : Ring α) (value : α) : Bool × Ring α :=
  if ring.next ring.head = ring.tail then (false, ring)
  else (true,
    { slots := ring.slots.set ring.head value ring.head_lt
      head := ring.next ring.head
      tail := ring.tail
      two_le_size := by simpa using ring.two_le_size
      head_lt := by simpa using ring.next_lt ring.head
      tail_lt := by simpa using ring.tail_lt })

def peek? (ring : Ring α) : Option α :=
  if ring.isEmpty then none
  else
    have := ring.tail_lt
    some ring.slots[ring.tail]

/-- Takes the oldest element. -/
def pop? (ring : Ring α) : Option α × Ring α :=
  match ring.peek? with
  | none => (none, ring)
  | some value => (some value, { ring with tail := ring.next ring.tail, tail_lt := ring.next_lt _ })

/-- Empties the ring from the filling side, starting over at the first slot. -/
def clear (ring : Ring α) : Ring α :=
  { ring with
    head := 0
    tail := 0
    head_lt := by have := ring.two_le_size; omega
    tail_lt := by have := ring.two_le_size; omega }

/-- Empties the ring from the draining side; the next free slot stays the same. -/
def discard (ring : Ring α) : Ring α := { ring with tail := ring.head, tail_lt := ring.head_lt }

/-- The queued elements, oldest first. -/
def toList (ring : Ring α) : List α :=
  (List.range ring.size).map fun offset =>
    have inside : (ring.tail + offset) % ring.slots.size < ring.slots.size :=
      Nat.mod_lt _ (by have := ring.two_le_size; omega)
    ring.slots[(ring.tail + offset) % ring.slots.size]

end Ring
end PinUart
