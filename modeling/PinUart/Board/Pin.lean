/-! Pins, how each is set up, and what may be called when a level changes. -/
namespace PinUart

/-- A pin by its number. -/
abbrev Pin := UInt8

inductive Direction
  | input
  | output
  deriving DecidableEq, Repr

inductive Pull
  | none
  | up
  deriving DecidableEq, Repr

/-- How many ports can receive at one time. -/
def slotCount : Nat := 10

abbrev SlotIndex := Fin slotCount

/-- Interrupt entry points carry no argument. One is fixed to each slot and
leads to whatever the slot holds; a probe only reports that it was entered. -/
inductive Handler
  | probe (index : Nat)
  | entry (slot : SlotIndex)
  deriving DecidableEq, Repr

/-- The set-up of one pin. `forced` is a level forced on it from outside. -/
structure PinState where
  direction : Direction := .input
  pull : Pull := .none
  output : Bool := false
  forced : Option Bool := none
  handler : Option Handler := none

/-- The level that a pin itself forces on its net, if it drives at all. -/
def PinState.drives? (state : PinState) : Option Bool :=
  match state.forced, state.direction with
  | some level, _ => some level
  | none, .output => some state.output
  | none, .input => none

/-- A value for each of the 256 pins. -/
structure PinMap (α : Type) where
  cells : Vector α 256

namespace PinMap

def fill (value : α) : PinMap α := ⟨Vector.replicate 256 value⟩

def get (map : PinMap α) (pin : Pin) : α :=
  have := pin.toNat_lt
  map.cells[pin.toNat]

def set (map : PinMap α) (pin : Pin) (value : α) : PinMap α :=
  ⟨map.cells.set pin.toNat value (pin.toNat_lt)⟩

def modify (map : PinMap α) (pin : Pin) (change : α → α) : PinMap α :=
  map.set pin (change (map.get pin))

@[simp] theorem get_fill (value : α) (pin : Pin) : (fill value).get pin = value := by
  simp [fill, get]

theorem get_set (map : PinMap α) (pin other : Pin) (value : α) :
    (map.set pin value).get other = if pin = other then value else map.get other := by
  simp [get, set, Vector.getElem_set, UInt8.toNat_inj]

@[simp] theorem get_set_self (map : PinMap α) (pin : Pin) (value : α) :
    (map.set pin value).get pin = value := by simp [get_set]

theorem get_modify (map : PinMap α) (pin other : Pin) (change : α → α) :
    (map.modify pin change).get other =
      if pin = other then change (map.get other) else map.get other := by
  by_cases same : pin = other <;> simp [modify, get_set, same]

theorem get_modify_self (map : PinMap α) (pin : Pin) (change : α → α) :
    (map.modify pin change).get pin = change (map.get pin) :=
  (map.get_modify pin pin change).trans (if_pos rfl)

theorem get_modify_of_ne {pin other : Pin} (different : pin ≠ other) (map : PinMap α)
    (change : α → α) : (map.modify pin change).get other = map.get other :=
  (map.get_modify pin other change).trans (if_neg different)

end PinMap
end PinUart
