import PinUart.Proofs.Duplex

/-! Making and starting the two ports of a line. The one that is started first listens while the
other sets up its pin, and hears nothing of that. -/
namespace PinUart

namespace Port

variable {port : Port} {machine : Machine} {pin : Pin} {slot : SlotIndex}

theorem startReception_eq {reception : Reception} (held : port.reception = some reception)
    (receive : port.rxPin = some pin) :
    port.startReception machine =
      ({ port with
          reception := some { reception with bytes := reception.bytes.clear }
          mode := .receive },
        ((machine.modifyQueue reception.capture fun queue => queue.discard.takeLost.2).setPull pin
          .up).setDirection pin .input) := by
  unfold startReception
  rw [held, receive]

/-- A start empties the buffers of a one-wire port, and sets up its pin as an input. -/
theorem refresh_eq {reception : Reception} {baud period : UInt32}
    (held : port.reception = some reception) (receive : port.rxPin = some pin)
    (shared : Config.oneWire { port.config with baud } = true) :
    let emptied := machine.modifyQueue reception.capture fun queue => queue.discard.takeLost.2
    let input := (emptied.setPull pin .up).setDirection pin .input
    port.refresh machine baud period =
      ({ port.withSpeed baud period with
          reception := some { reception with bytes := reception.bytes.clear }
          mode := .receive
          losses := {}
          decoder := (port.decoder.withPeriod period).reset input.readClock.1 },
        input.readClock.2) := by
  have received := @startReception_eq (port.withSpeed baud period) machine pin _ held receive
  unfold refresh
  rw [received]
  exact Prod.ext rfl (startSending_eq shared _)

/-- A start whose preparations succeed. -/
theorem start_eq {first second : Port} {between bound : Machine} {baud period : UInt32}
    (timed : periodFor machine baud = .ok period) (equipped : port.refused = none)
    (prepared : port.startEnablePin machine = (.ok (), first, between))
    (slotted : first.startSlot between = (.ok (), second, bound)) :
    port.start machine baud =
      (second.refresh bound baud period).1.launch (second.refresh bound baud period).2 := by
  unfold start
  rw [timed, equipped]
  simp only [prepared, slotted]
  rfl

/-- The end of a start, where the hardware refuses nothing. -/
theorem launch_eq (silent : port.listening = false) (receive : port.rxPin = some pin)
    (own : port.slot = some slot) (faults : machine.faults = [])
    (usable : machine.board.usable = none) :
    ∃ log, port.launch machine =
      (.ok (),
        { port with
          decoder := port.decoder.reset machine.readClock.1
          listening := true
          started := true },
        { machine.readClock.2 with
          board := machine.readClock.2.board.attach pin (.entry slot), log }) := by
  unfold launch startListening
  rw [silent, if_neg Bool.false_ne_true, arm_eq receive own faults usable]
  exact ⟨_, rfl⟩

end Port

namespace Duplex

variable (duplex : Duplex)

/-- A port that is not started yet, on a pin that nobody has set up. -/
structure Made (side : Bool) (port : Port) (machine : Machine) : Prop where
  config : port.config = duplex.config side
  rxPin : port.rxPin = some (duplex.pin side)
  txPin : port.txPin = some (duplex.pin side)
  enablePin : port.enablePin = none
  reception : ∃ bytes, port.reception = some ⟨side.toNat, bytes⟩ ∧
    bytes.capacity = max (duplex.config side).byteCapacity.toNat 2
  refused : port.refused = none
  slotless : port.slot = none
  silent : port.listening = false
  losses : port.losses = {}
  polarity : port.decoder.invert = false
  transmitter : port.transmitter =
    { duplex.transmitter side with bitPeriod := port.transmitter.bitPeriod }
  capture : ∃ queue, machine.captures[side.toNat]? = some ⟨duplex.pin side, queue⟩ ∧
    queue.lost = false ∧ queue.capacity = max (duplex.config side).edgeSlots.toNat 2
  pin : machine.board.pins.get (duplex.pin side) = {}

variable {duplex} {machine after : Machine} {side : Bool}

theorem Laid.addCapture (laid : duplex.Laid machine) (pin : Pin) (queue : EdgeQueue) :
    duplex.Laid (machine.addCapture pin queue).2 :=
  laid.of_rig rfl laid.unmasked laid.pending

theorem Laid.rate_eq (laid : duplex.Laid machine) : machine.rate = duplex.timebase.rate := by
  rw [Machine.rate, laid.rate, laid.timebase]
  rfl

theorem Laid.periodFor (laid : duplex.Laid machine) :
    Port.periodFor machine duplex.baud = .ok (duplex.timebase.rate / duplex.baud) := by
  have positive := duplex.period_pos
  rw [← laid.rate_eq] at positive
  rw [Port.periodFor_eq positive, laid.rate_eq]

/-- Making a port adds its capture, and does nothing to the board. -/
theorem Laid.create (laid : duplex.Laid machine)
    (fresh : machine.board.pins.get (duplex.pin side) = {})
    (next : machine.captures.size = side.toNat) :
    ∃ port queue, Port.create machine (duplex.config side) =
        (port, (machine.addCapture (duplex.pin side) queue).2) ∧
      duplex.Made side port (machine.addCapture (duplex.pin side) queue).2 := by
  obtain ⟨rxPin, txPin, enablePin⟩ := duplex.shared side
  have buffers :=
    Port.openReception_eq laid.usable rxPin (duplex.edgesFit side) (duplex.bytesFit side)
  rw [next] at buffers
  rw [Port.create, Port.usablePins_eq laid.usable, Port.noteUnusablePins_eq laid.usable, buffers]
  refine ⟨_, { ring := Ring.empty (duplex.config side).edgeSlots.toNat ⟨0⟩ }, rfl, rfl, rxPin,
    txPin, rfl, ⟨_, rfl, Ring.capacity_empty _ _⟩, rfl, rfl, rfl, rfl, duplex.upright side, ?_,
    ⟨{ ring := Ring.empty (duplex.config side).edgeSlots.toNat ⟨0⟩ }, ?_, rfl,
      Ring.capacity_empty _ _⟩, fresh⟩
  · unfold transmitter
    rw [duplex.upright side]
  · rw [← next]
    exact Array.getElem?_push_size

/-- A port that is not started does not depend on other pins and captures. -/
theorem Made.frame {port : Port} (made : duplex.Made side port machine)
    (confined : duplex.Confined (!side) machine after) : duplex.Made side port after :=
  { made with
    capture := (confined.captures _ (toNat_ne side)) ▸ made.capture
    pin := (confined.pins _ (duplex.differ_side side).symm).trans made.pin }

theorem Made.anyLost {port : Port} (made : duplex.Made side port machine) :
    (port.anyLost machine).1 = false := by
  obtain ⟨bytes, reception, -⟩ := made.reception
  obtain ⟨queue, found, kept, -⟩ := made.capture
  exact Port.anyLost_eq_false reception found kept made.losses

/-- A start empties the buffers and sets up the shared pin as an input, unheard. -/
theorem Made.refresh {port : Port} {slot : SlotIndex} {time : Int}
    (made : duplex.Made side port machine) (laid : duplex.Laid machine)
    (clock : machine.board.clock = Cycle.ofTime time)
    (unheard : (∀ pin, machine.board.handler? pin = none) ∨
      ∃ slot, (machine.board.pins.get (duplex.pin (!side))).Listens slot)
    (bound : machine.slots.sink? slot = some (.capture side.toNat)) :
    ∃ fresh ready, { port with slot := some slot }.refresh machine duplex.baud
        (duplex.timebase.rate / duplex.baud) = (fresh, ready) ∧
      duplex.Laid ready ∧ duplex.Poised side slot fresh ready (time + duplex.reading) ∧
      fresh.mode = .receive ∧ ready.slots = machine.slots ∧
      duplex.Confined side machine ready := by
  obtain ⟨bytes, reception, room⟩ := made.reception
  obtain ⟨queue, capture, -, edgeRoom⟩ := made.capture
  have emptied : duplex.Laid (machine.modifyQueue side.toNat fun queue =>
      queue.discard.takeLost.2) := laid.of_rig rfl laid.unmasked laid.pending
  have default : (machine.modifyQueue side.toNat fun queue =>
      queue.discard.takeLost.2).board.pins.get (duplex.pin side) = {} := made.pin
  have input := emptied.setInput unheard (default ▸ PinState.yields_of_input rfl rfl)
    (by rw [default])
  have shared : Config.oneWire { port.config with baud := duplex.baud } = true := by
    rw [made.config]
    exact duplex.oneWire_config side duplex.baud
  have refreshed := @Port.refresh_eq { port with slot := some slot } machine (duplex.pin side) _
    duplex.baud (duplex.timebase.rate / duplex.baud) reception made.rxPin shared
  dsimp only at refreshed
  rw [refreshed]
  generalize (Machine.setPull _ (duplex.pin side) .up).setDirection (duplex.pin side) .input =
    pulled at input
  have quiet := (emptied.adjusted input).readClock
  have own := input.own
  rw [default] at own
  have apart (pin : Pin) (different : duplex.pin side ≠ pin) := input.apart different
  obtain ⟨levels, history, rfl⟩ := input
  refine ⟨_, _, rfl, quiet, ⟨?_, ?_, congrArg PinState.forced own, congrArg PinState.direction own,
    congrArg PinState.pull own, bound, ⟨_, [], [], time + duplex.reading⟩,
    ⟨⟨bytes.clear, rfl, Ring.toList_clear _, room⟩, rfl, rfl, laid.timebase, laid.rate, ?_,
      queue.discard.takeLost.2, ?_, EdgeQueue.toList_discard queue, rfl, edgeRoom⟩, rfl, rfl, rfl,
      fun now => ?_⟩, rfl, rfl, apart, fun index apart => ?_⟩
  · change (⟨{ port.config with baud := duplex.baud }, port.rxPin, port.txPin, port.enablePin,
      { port.transmitter with bitPeriod := _ }, port.refused⟩ : Port.Outfit) = _
    rw [made.config, made.rxPin, made.txPin, made.enablePin, made.transmitter, made.refused]
    rfl
  · change (⟨port.rxPin, some side.toNat, some slot, port.listening⟩ : Stake) = _
    rw [made.rxPin, made.silent]
    rfl
  · exact Machine.readClock_ofTime clock laid.timebase
  · exact Machine.captures_modifyQueue capture fun queue => queue.discard.takeLost.2
  · refine (Decoder.reset_withPeriod port.decoder _ _ now).trans ?_
    rw [made.polarity]
    rfl
  · exact (Array.getElem?_modify ..).trans (if_neg apart)

/-- Starting a port sets up its pin and claims a slot. Then it listens to a line at rest. -/
theorem Made.start {port : Port} {slot : SlotIndex} {slots : Slots} {time : Int}
    (made : duplex.Made side port machine) (laid : duplex.Laid machine)
    (clock : machine.board.clock = Cycle.ofTime time)
    (unheard : (∀ pin, machine.board.handler? pin = none) ∨
      ∃ slot, (machine.board.pins.get (duplex.pin (!side))).Listens slot)
    (free : machine.slots.claim? (.capture side.toNat) = some (slot, slots)) :
    ∃ after ready, port.start machine duplex.baud = (.ok (), after, ready) ∧
      duplex.Laid ready ∧
      duplex.Waits side slot after ready (time + 2 * duplex.reading) (2 ^ 30) ∧
      ready.slots = slots ∧ duplex.Confined side machine ready := by
  obtain ⟨bytes, reception, room⟩ := made.reception
  have prepared : port.startEnablePin machine = (.ok (), port, machine) := by
    rw [Port.startEnablePin, made.enablePin, made.config, (duplex.shared side).2.2]
  have claimed : machine.claim (.capture side.toNat) = (.ok slot,
      { machine with slots }.write .debug s!"Claimed interrupt slot {slot.val}") := by
    rw [Machine.claim, free]
  have slotted : port.startSlot machine = (.ok (), { port with slot := some slot },
      { machine with slots }.write .debug s!"Claimed interrupt slot {slot.val}") := by
    rw [Port.startSlot, made.slotless, reception]
    simp only [claimed]
  have claimer : duplex.Laid ({ machine with slots }.write .debug
      s!"Claimed interrupt slot {slot.val}") :=
    laid.of_rig rfl laid.unmasked laid.pending
  have bound := ((Machine.sink?_claim free).2 slot).trans (if_pos rfl)
  have holder : duplex.Made side port ({ machine with slots }.write .debug
      s!"Claimed interrupt slot {slot.val}") :=
    made.frame ⟨fun _ _ => rfl, fun _ _ => rfl⟩
  obtain ⟨fresh, ready, refreshed, quiet, poised, receives, same, confined⟩ :=
    holder.refresh claimer clock unheard bound
  obtain ⟨log, launched⟩ := Port.launch_eq (congrArg Stake.listening poised.stake)
    (congrArg Stake.rxPin poised.stake) (congrArg Stake.slot poised.stake) quiet.faults quiet.usable
  rw [Port.start_eq laid.periodFor made.refused prepared slotted, refreshed, launched]
  obtain ⟨laid, waits, armed⟩ := poised.arm quiet (by rw [← receives]) log
  have worked := confined.trans armed
  refine ⟨_, _, rfl, laid, ?_, same, worked.pins, worked.captures⟩
  rw [show time + 2 * duplex.reading = time + duplex.reading + duplex.reading by omega]
  exact waits

/-- The machine before anything is done to it. -/
def fresh (duplex : Duplex) : Machine :=
  { board := { timebase := duplex.timebase, clock := duplex.clock } }

theorem wire_differ (duplex : Duplex) : duplex.wire.1 ≠ duplex.wire.2 := by
  unfold wire
  split
  · exact duplex.differ.symm
  · exact duplex.differ

/-- Both ports can be made once the pins are wired, and nobody listens yet. -/
theorem exists_made (duplex : Duplex) :
    let wired := duplex.fresh.connect duplex.wire.1 duplex.wire.2
    ∃ first second between ready, Port.create wired (duplex.config false) = (first, between) ∧
      Port.create between (duplex.config true) = (second, ready) ∧
      duplex.Made false first between ∧ duplex.Made false first ready ∧
      duplex.Made true second ready ∧ duplex.Laid ready ∧
      (∀ pin, ready.board.handler? pin = none) ∧ ready.slots = .empty := by
  obtain ⟨levels, history, wired⟩ :=
    Machine.connect_fresh duplex.timebase duplex.clock duplex.wire_differ
  have pins (pin : Pin) : duplex.fresh.board.pins.get pin = {} := PinMap.get_fill _ pin
  rw [fresh, wired]
  have laid : duplex.Laid
      { board :=
          { timebase := duplex.timebase
            clock := duplex.clock
            nets := [duplex.net]
            levels
            history } } := ⟨rfl, rfl, rfl, rfl, rfl, rfl, rfl⟩
  obtain ⟨first, queue, created, made⟩ := @Laid.create duplex _ false laid (pins _) rfl
  obtain ⟨second, other, follows, joins⟩ :=
    @Laid.create duplex _ true (laid.addCapture _ queue) (pins _) rfl
  refine ⟨first, second, _, _, created, follows, made, ?_, joins,
    (laid.addCapture _ queue).addCapture _ other,
    fun pin => congrArg PinState.handler (pins pin), rfl⟩
  exact made.frame ⟨fun _ _ => rfl, fun index apart =>
    Array.getElem?_push.trans (if_neg (Ne.symm apart))⟩

/-- Both ports can be started, one after the other. The first hears nothing of the second. -/
theorem start_both {ports : Bool → Port} (laid : duplex.Laid machine)
    (made : ∀ side, duplex.Made side (ports side) machine)
    (deaf : ∀ pin, machine.board.handler? pin = none) (empty : machine.slots = .empty) :
    ∃ slot first second between ready,
      (ports duplex.leader).start machine duplex.baud = (.ok (), first, between) ∧
      (ports !duplex.leader).start between duplex.baud = (.ok (), second, ready) ∧
      (first.anyLost between).1 = false ∧ ((ports !duplex.leader).anyLost between).1 = false ∧
      ∀ after : Bool → Port, after duplex.leader = first → after (!duplex.leader) = second →
        duplex.Ready slot after ready := by
  obtain ⟨first, between, begun, laid, waits, slots, confined⟩ :=
    (made duplex.leader).start laid (Cycle.ofTime_toNat machine.board.clock).symm (.inl deaf)
      (empty ▸ Slots.claim?_empty _)
  obtain ⟨other, different⟩ : ∃ other, Slots.first ≠ other := by decide
  have spare : between.slots.sink? other = none := by
    rw [slots, Slots.sink?_set, if_neg different, empty, Slots.sink?_empty]
  obtain ⟨slot, claimed, free⟩ := Slots.exists_claim? spare (.capture (!duplex.leader).toNat)
  have peer : duplex.Made (!duplex.leader) (ports !duplex.leader) between :=
    (made _).frame (by rw [Bool.not_not]; exact confined)
  have listens : (between.board.pins.get (duplex.pin (!(!duplex.leader)))).Listens Slots.first := by
    rw [Bool.not_not]
    exact waits.armed.pin
  obtain ⟨second, ready, follows, laid, joins, taken, apart⟩ :=
    peer.start laid waits.clock (.inr ⟨_, listens⟩) free
  obtain ⟨vacant, sinks⟩ := Machine.sink?_claim free
  have bound : ready.slots.sink? Slots.first = between.slots.sink? Slots.first := by
    rw [taken, sinks, if_neg]
    rintro rfl
    cases vacant.symm.trans waits.armed.bound
  have := duplex.reading_bounds
  have stays : duplex.Waits duplex.leader Slots.first first ready
      (machine.board.clock.toNat + 2 * duplex.reading + 2 * duplex.reading) (2 ^ 30 + 2 ^ 28) :=
    waits.frame apart bound laid joins.clock (by omega) (by omega)
  have follower := joins.weaken (show 2 ^ 30 ≤ 2 ^ 30 + 2 ^ 28 by decide)
  obtain ⟨table, own, its⟩ : ∃ table : Bool → SlotIndex,
      table duplex.leader = Slots.first ∧ table (!duplex.leader) = slot :=
    ⟨fun side => if side = duplex.leader then Slots.first else slot, if_pos rfl, if_neg (by simp)⟩
  rw [← own] at stays
  rw [← its] at follower
  exact ⟨table, first, second, between, ready, begun, follows, waits.anyLost, peer.anyLost,
    fun _ one two => .of_both laid stays follower one two⟩

end Duplex
end PinUart
