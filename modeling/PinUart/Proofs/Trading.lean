import PinUart.Proofs.Lifecycle

/-! How ports deal with the slot table: each claims a free slot for its own capture, and
gives back what it holds. Handlers do not matter here, so that all of it holds as well
where handlers are attached and taken off by hand. -/
namespace PinUart

/-- To free a slot that is free changes nothing. -/
theorem Slots.release_of_free {slots : Slots} {slot : SlotIndex}
    (free : slots.isBound slot = false) : slots.release slot = slots := by
  have unbound : slots.bindings[slot.val] = none := by
    simpa [isBound, sink?] using free
  unfold release set
  congr 1
  rw [← unbound]
  exact Vector.set_getElem_self slot.isLt

/-- A slot that may be held, and the table that it is a slot of. -/
abbrev Holding := Option SlotIndex × Slots

/-- What the owner of a capture, or whoever owns none, does with the slot table. -/
inductive Trade (capture : Option Nat) : Holding → Holding → Prop
  | claim {index : Nat} {slot : SlotIndex} {slots claimed : Slots} (own : capture = some index)
      (found : slots.claim? (.capture index) = some (slot, claimed)) :
      Trade capture (none, slots) (some slot, claimed)
  | release (slot : SlotIndex) (slots : Slots) :
      Trade capture (some slot, slots) (none, slots.release slot)

/-- The slot that is held is the one that leads to the capture. -/
def Holding.Owned (capture : Option Nat) (holding : Holding) : Prop :=
  ∀ slot, holding.1 = some slot ↔
    ∃ index, capture = some index ∧ holding.2.sink? slot = some (.capture index)

section

variable {capture : Option Nat} {before after : Holding}

/-- Bindings to the captures of others stay as they are. -/
theorem Trade.foreign (trade : Trade capture before after) (owned : before.Owned capture)
    (slot : SlotIndex) {sink : Sink}
    (others : ∀ index, capture = some index → sink ≠ .capture index) :
    after.2.sink? slot = some sink ↔ before.2.sink? slot = some sink := by
  cases trade with
  | claim own found =>
    obtain ⟨free, bound⟩ := Machine.sink?_claim found
    rw [bound]
    split
    · rename_i same
      rw [← same, free]
      simpa using fun mine => others _ own mine.symm
    · exact Iff.rfl
  | release held slots =>
    obtain ⟨index, own, bound⟩ := (owned held).mp rfl
    change (slots.set held none).sink? slot = _ ↔ slots.sink? slot = _
    rw [Slots.sink?_set]
    split
    · rename_i same
      rw [← same, bound]
      simpa using fun mine => others _ own mine.symm
    · exact Iff.rfl

theorem Trade.owned (trade : Trade capture before after) (owned : before.Owned capture) :
    after.Owned capture := by
  intro slot
  cases trade with
  | @claim index taken slots claimed own found =>
    obtain ⟨free, bound⟩ := Machine.sink?_claim found
    have unbound : ¬ slots.sink? slot = some (.capture index) := by
      intro led
      have held := (owned slot).mpr ⟨index, own, led⟩
      cases held
    subst own
    simp only [Option.some.injEq, exists_eq_left', bound]
    by_cases same : taken = slot
    · simp [same]
    · simp [same, unbound]
  | release held slots =>
    have only : ∀ index, capture = some index → slots.sink? slot = some (.capture index) →
        held = slot := fun index own led =>
      Option.some.inj ((owned slot).mpr ⟨index, own, led⟩)
    change none = some slot ↔ ∃ index, capture = some index ∧
      (slots.set held none).sink? slot = some (.capture index)
    rw [Slots.sink?_set]
    constructor
    · intro free
      cases free
    · rintro ⟨index, own, led⟩
      split at led
      · cases led
      · rename_i different
        exact absurd (only index own led) different

theorem Trade.owned_of_trades (trades : Relation.ReflTransGen (Trade capture) before after)
    (owned : before.Owned capture) : after.Owned capture := by
  induction trades with
  | refl => exact owned
  | tail _ trade ih => exact trade.owned ih

theorem Trade.foreign_of_trades (trades : Relation.ReflTransGen (Trade capture) before after)
    (owned : before.Owned capture) (slot : SlotIndex) {sink : Sink}
    (others : ∀ index, capture = some index → sink ≠ .capture index) :
    after.2.sink? slot = some sink ↔ before.2.sink? slot = some sink := by
  induction trades with
  | refl => exact Iff.rfl
  | tail earlier trade ih =>
    exact (trade.foreign (owned_of_trades earlier owned) slot others).trans ih

end

/-- Nothing was claimed or given back, and all captures are on their pins. -/
structure Machine.Keeps (before after : Machine) : Prop where
  slots : after.slots = before.slots
  pins : ∀ index pin, before.capturePin? index = some pin → after.capturePin? index = some pin

namespace Machine

variable {before middle after machine : Machine}

theorem Keeps.refl (machine : Machine) : machine.Keeps machine := ⟨rfl, fun _ _ found => found⟩

theorem Keeps.trans (first : before.Keeps middle) (second : middle.Keeps after) :
    before.Keeps after :=
  ⟨second.slots.trans first.slots, fun index pin found =>
    second.pins index pin (first.pins index pin found)⟩

theorem Quiet.keeps (quiet : before.Quiet after) : before.Keeps after := ⟨quiet.slots, quiet.pins⟩

theorem keeps_attach (machine : Machine) (pin : Pin) (handler : Handler) :
    machine.Keeps (machine.attach pin handler).2 := by
  rcases machine.attach_cases pin handler with done | ⟨fault, refused, failed, quiet, -⟩
  · rw [done]
    exact ⟨rfl, fun _ _ found => found⟩
  · rw [failed]
    exact quiet.keeps

theorem keeps_attachAnswering (machine : Machine) (pin : Pin) (handler : Handler) :
    machine.Keeps (machine.attachAnswering pin handler).2 := by
  have kept := machine.keeps_attach pin handler
  unfold attachAnswering
  split <;> rename_i same <;> rw [same] at kept <;> exact kept

/-- Operations that neither bind nor free a slot. -/
def Operation.sparesSlots : Operation → Bool
  | .claim _ | .release _ => false
  | _ => true

theorem keeps_perform (machine : Machine) {operation : Operation}
    (spares : operation.sparesSlots) : machine.Keeps (machine.perform operation).2 := by
  by_cases calm : operation.sparesInterrupts
  · exact (machine.quiet_perform calm).keeps
  · cases operation with
    | attach pin handler => exact machine.keeps_attachAnswering pin handler
    | detach pin => exact ⟨rfl, fun _ _ found => found⟩
    | attachSlot pin slot =>
      unfold perform
      dsimp only
      split
      · exact .refl machine
      · exact machine.keeps_attachAnswering pin _
    | claim | release => cases spares
    | _ => exact absurd rfl calm

end Machine

namespace Port

/-- A port goes on with its capture, and trades for it. -/
structure Trades (port : Port) (machine : Machine) (after : Port × Machine) : Prop where
  capture : after.1.stake.capture = port.stake.capture
  pins : ∀ index pin, machine.capturePin? index = some pin → after.2.capturePin? index = some pin
  trades : Relation.ReflTransGen (Trade port.stake.capture) (port.slot, machine.slots)
    (after.1.slot, after.2.slots)

variable {port other : Port} {machine between : Machine} {after : Port × Machine}

theorem Trades.trans (first : port.Trades machine (other, between))
    (second : other.Trades between after) : port.Trades machine after :=
  ⟨second.capture.trans first.capture,
    fun index pin found => second.pins index pin (first.pins index pin found),
    first.trades.trans (first.capture ▸ second.trades)⟩

theorem Trades.of_keeps (capture : after.1.stake.capture = port.stake.capture)
    (slot : after.1.slot = port.slot) (kept : machine.Keeps after.2) :
    port.Trades machine after := by
  refine ⟨capture, kept.pins, ?_⟩
  rw [slot, kept.slots]

theorem Trades.refl (port : Port) (machine : Machine) : port.Trades machine (port, machine) :=
  .of_keeps rfl rfl (.refl machine)

theorem Idles.trades (idles : port.Idles machine after) : port.Trades machine after :=
  .of_keeps (congrArg Stake.capture idles.stake) (congrArg Stake.slot idles.stake)
    idles.quiet.keeps

theorem trades_setListening (port : Port) (machine : Machine) (on : Bool) :
    port.Trades machine (port.setListening machine on).2 := by
  have kept : machine.Keeps (port.setListening machine on).2.2 := by
    unfold setListening
    split
    · rename_i pin slot receive own
      split
      · dsimp only
        refine machine.quiet_readClock.keeps.trans ?_
        have attached := machine.readClock.2.keeps_attach pin (.entry slot)
        split <;> rename_i same <;> rw [same] at attached <;> exact attached
      · have detached : machine.Keeps (machine.detach pin) := ⟨rfl, fun _ _ found => found⟩
        exact detached.trans (port.idles_collect (machine.detach pin)).quiet.keeps
    · exact .refl machine
  have both : (port.setListening machine on).2.1.stake.capture = port.stake.capture ∧
      (port.setListening machine on).2.1.stake.slot = port.stake.slot := by
    rcases port.setListening_cases machine on with ⟨same, -⟩ | ⟨-, -, same⟩
    · rw [same]
      exact ⟨rfl, rfl⟩
    · rw [same]
      exact ⟨rfl, rfl⟩
  exact .of_keeps both.1 both.2 kept

/-- A slot that was given back is free, if it was bound at all. -/
theorem trades_giveSlotBack (port : Port) (machine : Machine) :
    port.Trades machine (port.giveSlotBack machine) := by
  unfold giveSlotBack
  split
  · exact .refl port machine
  · rename_i slot own
    have freed : (machine.release slot).slots = machine.slots.release slot := by
      unfold Machine.release
      split
      · rfl
      · rename_i free
        rw [machine.slots.release_of_free (by simpa using free)]
    refine ⟨rfl, ?_, ?_⟩
    · intro index pin found
      unfold Machine.release
      split <;> exact found
    · rw [own, freed]
      exact .single (.release slot machine.slots)

theorem trades_startSlot (port : Port) (machine : Machine) :
    port.Trades machine (port.startSlot machine).2 := by
  unfold startSlot
  split
  · rename_i reception without held
    unfold Machine.claim
    cases found : machine.slots.claim? (.capture reception.capture) with
    | none => exact .refl port machine
    | some result =>
      refine ⟨rfl, fun _ _ placed => placed, ?_⟩
      rw [without]
      exact .single (.claim (stake_capture held) found)
  · exact .refl port machine

theorem Move.trades {before after : Port × Machine} (move : Move before after) :
    before.1.Trades before.2 after := by
  cases move with
  | idle idles => exact idles.trades
  | listen port machine on => exact port.trades_setListening machine on
  | claim port machine => exact port.trades_startSlot machine
  | @giveBack port machine => exact port.trades_giveSlotBack machine
  | withdraw port machine =>
    exact Trades.trans (port.trades_setListening machine false) (trades_giveSlotBack _ _)

/-- Whatever a port does, it only trades. -/
theorem Moves.trades (moves : port.Moves machine after) : port.Trades machine after := by
  induction moves with
  | refl => exact .refl port machine
  | tail _ move ih => exact ih.trans move.trades

end Port
end PinUart
