import PinUart.Proofs.Routing

/-! What a port has at stake in the interrupts, and how its operations treat it. Only
starting, stopping and turning the line touch the slot table or a handler, and a sound
port takes guarded steps there. -/
namespace PinUart

/-- What the receive interrupt of a port depends on. -/
structure Stake where
  rxPin : Option Pin
  capture : Option Nat
  slot : Option SlotIndex
  listening : Bool

/-- The capture is on the receive pin, the slot is bound to that capture and to no other
one, and nothing leads to the slot unless the port listens. -/
structure Stake.Sound (stake : Stake) (machine : Machine) : Prop where
  routed : machine.Routed
  placed : ∀ index, stake.capture = some index →
    ∃ pin, stake.rxPin = some pin ∧ machine.capturePin? index = some pin
  held : ∀ slot, stake.slot = some slot → ∃ index, stake.capture = some index
  bound : ∀ index slot, stake.capture = some index →
    (machine.slots.sink? slot = some (.capture index) ↔ stake.slot = some slot)
  unheard : stake.listening = false → ∀ slot, stake.slot = some slot → machine.Unheard slot

/-- A slot that a sound port listens with is led to by its receive pin alone. -/
theorem Stake.Sound.pin {stake : Stake} {machine : Machine} (sound : stake.Sound machine)
    {slot : SlotIndex} {pin : Pin} (own : stake.slot = some slot)
    (entered : machine.board.Reaches pin (.entry slot)) : stake.rxPin = some pin := by
  obtain ⟨index, capture⟩ := sound.held slot own
  obtain ⟨receive, same, placed⟩ := sound.placed index capture
  obtain ⟨other, found, led, bound, location⟩ := sound.routed pin _ entered
  cases led
  rw [(sound.bound index slot capture).mpr own] at bound
  cases bound
  rw [same, ← placed, location]

/-- A quiet machine keeps a port sound. -/
theorem Stake.Sound.quiet {stake : Stake} {machine after : Machine}
    (sound : stake.Sound machine) (quiet : machine.Quiet after) : stake.Sound after := by
  refine ⟨(@Machine.Step.quiet none _ _ quiet).routed sound.routed, ?_, sound.held, ?_, ?_⟩
  · intro index capture
    obtain ⟨pin, same, placed⟩ := sound.placed index capture
    exact ⟨pin, same, quiet.pins index pin placed⟩
  · intro index slot capture
    rw [quiet.slots]
    exact sound.bound index slot capture
  · intro silent slot own pin entered
    exact sound.unheard silent slot own pin (quiet.calm.reaches entered)

namespace Port

def stake (port : Port) : Stake :=
  { rxPin := port.rxPin
    capture := port.reception.map (·.capture)
    slot := port.slot
    listening := port.listening }

/-- A port that keeps its stake while the machine stays quiet. -/
structure Idles (port : Port) (machine : Machine) (after : Port × Machine) : Prop where
  stake : after.1.stake = port.stake
  quiet : machine.Quiet after.2

/-- A sound port that goes on to be sound takes guarded steps only. -/
def Goes (port : Port) (machine : Machine) (after : Port × Machine) : Prop :=
  port.stake.Sound machine →
    after.1.stake.Sound after.2 ∧ after.1.stake.capture = port.stake.capture ∧
      Machine.Steps port.stake.capture machine after.2

variable {port other : Port} {machine between : Machine} {after : Port × Machine}

theorem Idles.refl (port : Port) (machine : Machine) : port.Idles machine (port, machine) :=
  ⟨rfl, .refl machine⟩

theorem Idles.trans (first : port.Idles machine (other, between))
    (second : other.Idles between after) : port.Idles machine after :=
  ⟨second.stake.trans first.stake, first.quiet.trans second.quiet⟩

theorem Idles.of_quiet (quiet : machine.Quiet between) : port.Idles machine (port, between) :=
  ⟨rfl, quiet⟩

theorem Goes.trans (first : port.Goes machine (other, between))
    (second : other.Goes between after) : port.Goes machine after := by
  intro sound
  obtain ⟨halfway, same, steps⟩ := first sound
  obtain ⟨done, kept, more⟩ := second halfway
  exact ⟨done, kept.trans same, steps.trans (same ▸ more)⟩

theorem Idles.goes (idles : port.Idles machine after) : port.Goes machine after := by
  intro sound
  refine ⟨?_, congrArg Stake.capture idles.stake, .of_quiet idles.quiet⟩
  rw [idles.stake]
  exact sound.quiet idles.quiet

theorem idles_warn (port : Port) (machine : Machine) (text : String) :
    port.Idles machine (port.warn machine text) :=
  ⟨rfl, .refl machine.board, rfl, fun _ _ found => found⟩

theorem idles_noteLostEdges (port : Port) (machine : Machine) (capture : Nat) :
    port.Idles machine (port.noteLostEdges machine capture) := by
  have quiet := machine.quiet_takeLost capture
  unfold noteLostEdges
  split <;> rename_i same <;> rw [same] at quiet
  · exact ⟨rfl, quiet⟩
  · refine Idles.trans ⟨?_, quiet⟩ (idles_warn _ _ _)
    rfl

theorem idles_noteDroppedBytes (port : Port) (machine : Machine) (dropped : Nat) :
    port.Idles machine (port.noteDroppedBytes machine dropped) := by
  unfold noteDroppedBytes
  split
  · exact .refl port machine
  · exact ⟨rfl, .refl machine.board, rfl, fun _ _ found => found⟩

theorem stake_capture {reception : Reception} (held : port.reception = some reception) :
    port.stake.capture = some reception.capture := by
  rw [stake, held]
  rfl

theorem reception_isSome (port : Port) :
    port.reception.isSome = port.stake.capture.isSome := by
  rw [stake, Option.isSome_map]

/-- New contents of the byte ring are not at stake. -/
theorem stake_refill {reception : Reception} (held : port.stake.capture = some reception.capture)
    (bytes : ByteRing) :
    { port with reception := some { reception with bytes } }.stake = port.stake := by
  change Stake.mk port.rxPin (some reception.capture) port.slot port.listening = _
  rw [← held]
  rfl

theorem idles_collect (port : Port) (machine : Machine) :
    port.Idles machine (port.collect machine) := by
  unfold collect
  split
  · exact .refl port machine
  · rename_i reception held
    have noted := port.idles_noteLostEdges machine reception.capture
    generalize port.noteLostEdges machine reception.capture = result at noted ⊢
    obtain ⟨other, between⟩ := result
    dsimp only
    generalize other.decoder.decodeAll _ _ = decoded
    obtain ⟨refused, decoder, bytes⟩ := decoded
    dsimp only
    generalize decoder.poll _ _ = polled
    obtain ⟨late, decoder, bytes⟩ := polled
    have same : other.stake.capture = some reception.capture := by
      rw [noted.stake, stake_capture held]
    refine noted.trans (Idles.trans ⟨?_, ?_⟩ (idles_noteDroppedBytes _ _ _))
    · exact stake_refill same bytes
    · exact (between.quiet_modifyQueue _ _).trans (Machine.quiet_readClock _)

theorem idles_available (port : Port) (machine : Machine) :
    port.Idles machine (port.available machine).2 := by
  unfold available
  split
  · exact .refl port machine
  · have collected := port.idles_collect machine
    generalize port.collect machine = result at collected ⊢
    obtain ⟨other, between⟩ := result
    dsimp only
    split
    · exact collected.trans
        ((Idles.of_quiet (between.quiet_sleep _)).trans (other.idles_collect _))
    · exact collected

theorem idles_takeByte (port : Port) (machine : Machine) :
    port.Idles machine (port.takeByte.2, machine) := by
  unfold takeByte
  split
  · exact .refl port machine
  · rename_i reception held
    exact ⟨stake_refill (stake_capture held) _, .refl machine⟩

theorem idles_read (port : Port) (machine : Machine) :
    port.Idles machine (port.read machine).2 := by
  unfold read
  dsimp only
  split
  · exact (port.idles_collect machine).trans (idles_takeByte _ _)
  · exact port.idles_takeByte machine

theorem idles_peek (port : Port) (machine : Machine) :
    port.Idles machine (port.peek machine).2 :=
  port.idles_collect machine

theorem idles_drainWith (port : Port) (machine : Machine) (fuel : Nat) :
    port.Idles machine (port.drainWith machine fuel).2 := by
  induction fuel generalizing port machine with
  | zero => exact .refl port machine
  | succ fuel ih =>
    unfold drainWith
    dsimp only
    split
    · exact port.idles_available machine
    · exact (port.idles_available machine).trans ((idles_read _ _).trans (ih _ _))

theorem idles_flush (port : Port) (machine : Machine) :
    port.Idles machine (port.flush machine) := by
  unfold flush
  cases held : port.reception with
  | none => exact ⟨rfl, machine.quiet_readClock⟩
  | some reception =>
    exact ⟨stake_refill (stake_capture held) reception.bytes.clear,
      (machine.quiet_modifyQueue _ _).trans (Machine.quiet_readClock _)⟩

theorem idles_takeLosses (port : Port) (machine : Machine) :
    port.Idles machine (port.takeLosses machine).2 := by
  unfold takeLosses
  refine ⟨rfl, ?_⟩
  dsimp only
  split
  · exact .refl machine
  · exact machine.quiet_takeLost _

theorem idles_serve (port : Port) (machine : Machine) :
    port.Idles machine (port.serve machine) := by
  unfold serve
  split
  · dsimp only
    split
    · exact port.idles_collect machine
    · exact (port.idles_collect machine).trans ⟨rfl, Machine.quiet_note _ _⟩
  · exact .refl port machine

theorem idles_setSpeed (port : Port) (machine : Machine) (baud : UInt32) :
    port.Idles machine (port.setSpeed machine baud).2 := by
  unfold setSpeed
  split
  · exact .refl port machine
  · exact ⟨rfl, machine.quiet_write _ _⟩

theorem idles_useEnablePin (port : Port) (machine : Machine) (pin : Pin) :
    port.Idles machine (port.useEnablePin machine pin).2 := by
  unfold useEnablePin
  split
  · exact ⟨rfl, (machine.quiet_restLine _ _ _).trans (Machine.quiet_write _ _ _)⟩
  · exact ⟨rfl, .refl machine⟩

theorem idles_startEnablePin (port : Port) (machine : Machine) :
    port.Idles machine (port.startEnablePin machine).2 := by
  unfold startEnablePin
  split
  · exact port.idles_useEnablePin machine _
  · exact .refl port machine

theorem idles_startReception (port : Port) (machine : Machine) :
    port.Idles machine (port.startReception machine) := by
  unfold startReception
  split
  · rename_i reception pin held receive
    refine ⟨stake_refill (stake_capture held) reception.bytes.clear, ?_⟩
    exact (machine.quiet_modifyQueue _ _).trans
      ((Machine.quiet_setPull _ _ _).trans (Machine.quiet_setDirection _ _ _))
  · exact .refl port machine

theorem quiet_startSending (port : Port) (machine : Machine) :
    machine.Quiet (port.startSending machine) := by
  unfold startSending
  split
  · exact .refl machine
  · split
    · exact .refl machine
    · exact machine.quiet_restLine _ _ _

theorem quiet_setEnable (port : Port) (machine : Machine) (on : Bool) :
    machine.Quiet (port.setEnable machine on) := by
  unfold setEnable
  split
  · exact .refl machine
  · exact machine.quiet_setLine _ _ _

theorem quiet_sendOn (port : Port) (machine : Machine) (pin : Pin) (data : List UInt8) :
    machine.Quiet (port.sendOn machine pin data).2 :=
  (port.quiet_setEnable machine true).trans
    ((port.transmitter.quiet_send _ pin data).trans (port.quiet_setEnable _ false))

end Port
end PinUart
