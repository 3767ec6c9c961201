import PinUart.Board.Pin

/-! The table that leads from an interrupt entry point to whoever is to hear of
the interrupt. A free slot is found by lowest index. -/
namespace PinUart

/-- Who hears of an interrupt: the capture of that index, or a probe. -/
inductive Sink
  | capture (index : Nat)
  | probe (index : Nat)
  deriving DecidableEq, Repr

structure Slots where
  bindings : Vector (Option Sink) slotCount

namespace Slots

def empty : Slots := ⟨Vector.replicate slotCount none⟩

def sink? (slots : Slots) (index : SlotIndex) : Option Sink := slots.bindings[index]

def set (slots : Slots) (index : SlotIndex) (sink : Option Sink) : Slots :=
  ⟨slots.bindings.set index sink⟩

theorem sink?_set (slots : Slots) (index other : SlotIndex) (sink : Option Sink) :
    (slots.set index sink).sink? other = if index = other then sink else slots.sink? other := by
  simp [set, sink?, Vector.getElem_set, Fin.ext_iff]

@[simp] theorem sink?_empty (index : SlotIndex) : empty.sink? index = none := by
  simp [empty, sink?]

def isBound (slots : Slots) (index : SlotIndex) : Bool := (slots.sink? index).isSome

/-- The lowest slot that nothing is bound to. -/
def free? (slots : Slots) : Option SlotIndex :=
  (List.finRange slotCount).find? fun index => !slots.isBound index

/-- Binds a sink to the lowest free slot. -/
def claim? (slots : Slots) (sink : Sink) : Option (SlotIndex × Slots) :=
  slots.free?.map fun index => (index, slots.set index (some sink))

def release (slots : Slots) (index : SlotIndex) : Slots := slots.set index none

def freeCount (slots : Slots) : Nat :=
  (List.finRange slotCount).countP fun index => !slots.isBound index

/-- The free slot of lowest index: it is free, and all before it are bound. -/
theorem free?_eq_some {slots : Slots} {index : SlotIndex} (found : slots.free? = some index) :
    slots.isBound index = false ∧ ∀ earlier < index, slots.isBound earlier = true := by
  obtain ⟨free, place, inside, same, before⟩ := List.find?_eq_some_iff_getElem.mp found
  have position : place = index.val := by
    rw [List.getElem_finRange] at same
    exact congrArg Fin.val same
  refine ⟨by simpa using free, ?_⟩
  intro earlier less
  have := before earlier.val (by rw [position]; exact less)
  simpa using this

/-- No slot is found exactly if all are bound. -/
theorem free?_eq_none_iff {slots : Slots} :
    slots.free? = none ↔ ∀ index, slots.isBound index = true := by
  rw [free?, List.find?_eq_none]
  constructor
  · intro none index
    simpa using none index (List.mem_finRange index)
  · intro all index _
    simp [all index]

end Slots

/-- The slot of that number, if the table has it. -/
def slotIndex? (number : Nat) : Option SlotIndex :=
  if valid : number < slotCount then some ⟨number, valid⟩ else none

end PinUart
