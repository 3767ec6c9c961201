import PinUart.Edge
import PinUart.Ring.View

/-! Edges wait here between the interrupt that captures them and the poll that
decodes them. A refused edge raises a loss flag that stays up until it is read. -/
namespace PinUart

structure EdgeQueue where
  ring : Ring Edge
  lost : Bool := false

namespace EdgeQueue

/-- Bytes that one queued edge takes. -/
def slotWidth : Nat := 4

def reserve (capacity : UInt64) : Except Refusal EdgeQueue :=
  return { ring := ← Ring.reserve slotWidth capacity ⟨0⟩ }

def capacity (queue : EdgeQueue) : Nat := queue.ring.capacity

def size (queue : EdgeQueue) : Nat := queue.ring.size

def isEmpty (queue : EdgeQueue) : Bool := queue.ring.isEmpty

def toList (queue : EdgeQueue) : List Edge := queue.ring.toList

/-- Appends an edge; one that finds no room is dropped and noted as lost. -/
def push (queue : EdgeQueue) (edge : Edge) : Bool × EdgeQueue :=
  match queue.ring.push edge with
  | (true, ring) => (true, { queue with ring })
  | (false, ring) => (false, { ring, lost := true })

def pop? (queue : EdgeQueue) : Option Edge × EdgeQueue :=
  let (edge, ring) := queue.ring.pop?
  (edge, { queue with ring })

/-- Drops every queued edge. -/
def discard (queue : EdgeQueue) : EdgeQueue := { queue with ring := queue.ring.discard }

/-- Reads and lowers the loss flag. -/
def takeLost (queue : EdgeQueue) : Bool × EdgeQueue := (queue.lost, { queue with lost := false })

theorem push_fst (queue : EdgeQueue) (edge : Edge) :
    (queue.push edge).1 = decide (queue.size + 1 < queue.capacity) := by
  rw [size, capacity, ← Ring.push_fst queue.ring edge, push]
  split <;> simp_all

theorem toList_push (queue : EdgeQueue) (edge : Edge) :
    (queue.push edge).2.toList =
      if queue.size + 1 < queue.capacity then queue.toList ++ [edge] else queue.toList := by
  rw [toList, toList, size, capacity, ← Ring.toList_push, push]
  split <;> simp_all

/-- The flag goes up when a push is refused, and stays up. -/
theorem lost_push (queue : EdgeQueue) (edge : Edge) :
    (queue.push edge).2.lost = (queue.lost || !(queue.push edge).1) := by
  rw [push]
  split <;> simp

@[simp] theorem capacity_push (queue : EdgeQueue) (edge : Edge) :
    (queue.push edge).2.capacity = queue.capacity := by
  rw [capacity, capacity, ← Ring.capacity_push queue.ring edge, push]
  split <;> simp_all

theorem pop?_fst (queue : EdgeQueue) : queue.pop?.1 = queue.toList.head? :=
  Ring.pop?_fst queue.ring

theorem toList_pop (queue : EdgeQueue) : queue.pop?.2.toList = queue.toList.tail :=
  Ring.toList_pop queue.ring

@[simp] theorem toList_discard (queue : EdgeQueue) : queue.discard.toList = [] :=
  Ring.toList_discard queue.ring

@[simp] theorem toList_takeLost (queue : EdgeQueue) : queue.takeLost.2.toList = queue.toList := rfl

end EdgeQueue
end PinUart
