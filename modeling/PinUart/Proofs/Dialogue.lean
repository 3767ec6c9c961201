import PinUart.Proofs.Duplex

/-! Two one-wire ports that take turns at sending. The one that sends lets go of its interrupt and
takes hold of the line, which the other hears no edge of; it gets both back once the message is
out. In between the decoder of the other is left as it is, so that the time since its reference
is part of what a turn keeps. -/
namespace PinUart

namespace Port

variable {port : Port} {machine : Machine} {pin : Pin} {slot : SlotIndex}

/-- A port turns to sending after a last poll without its interrupt. -/
theorem turn_away_eq (shared : port.sharedPin? = some pin) (receive : port.rxPin = some pin)
    (own : port.slot = some slot) :
    let polled := port.collect (machine.detach pin)
    ∃ log, port.turnLine machine true =
      (.ok (), { polled.1 with listening := false, mode := .transmit },
        { polled.2.restLine pin polled.1.transmitter.markLevel polled.1.transmitter.drive with
          log }) := by
  have disarmed : port.setListening machine false =
      (.ok (), { (port.collect (machine.detach pin)).1 with listening := false },
        (port.collect (machine.detach pin)).2) := by
    rw [setListening, receive, own]
    rfl
  obtain ⟨other, between, done, same⟩ := turnLine_away shared machine
  rw [disarmed] at done
  obtain ⟨-, rfl, rfl⟩ := done
  rw [same]
  unfold noteMode Machine.write
  exact ⟨_, rfl⟩

/-- Where the hardware refuses nothing, a port that turns back listens again. -/
theorem turn_back_eq (shared : port.sharedPin? = some pin) (receive : port.rxPin = some pin)
    (own : port.slot = some slot) (faults : machine.faults = [])
    (usable : machine.board.usable = none) :
    let input := (machine.setPull pin .up).setDirection pin .input
    ∃ log, port.turnLine machine false =
      (.ok (),
        { port with
          decoder := port.decoder.reset input.readClock.1
          listening := true
          mode := .receive },
        { input.readClock.2 with
          board := input.readClock.2.board.attach pin (.entry slot), log }) := by
  have rig := machine.rig_setInput pin
  obtain ⟨answer, other, between, log, armed, same⟩ := turnLine_back shared machine
  generalize (machine.setPull pin .up).setDirection pin .input = input at rig armed ⊢
  have done := @arm_eq { port with mode := .receive } input pin slot receive own
    ((congrArg Rig.faults rig).trans faults) ((congrArg Rig.usable rig).trans usable)
  obtain ⟨rfl, rfl, rfl⟩ := armed.symm.trans done
  exact ⟨log, same⟩

/-- Writing nothing is a poll. -/
theorem write_nil (port : Port) (machine : Machine) :
    port.write machine [] = (0, port.collect machine) := by
  unfold write
  dsimp only
  split
  · rfl
  · simp

/-- A write that turns the line, step by step. -/
theorem write_turning {first second third : Port} {polled away back : Machine} {data : List UInt8}
    (filled : data ≠ []) (collected : port.collect machine = (first, polled))
    (started : first.started = true) (receives : first.mode = .receive)
    (shared : first.sharedPin? = some pin)
    (turned : first.turnLine polled true = (.ok (), second, away))
    (plain : second.enablePin = none)
    (returned : second.turnLine (second.transmitter.send away pin data).2 false =
      (.ok (), third, back)) :
    port.write machine data = (data.length, third, back) := by
  obtain ⟨oneWire, send⟩ := sharedPin?_eq_some.mp shared
  have sent : second.sendOn away pin data =
      (data.length, (second.transmitter.send away pin data).2) := by
    unfold sendOn setEnable
    rw [plain]
    unfold Transmitter.send
    rw [if_neg (by simpa using filled)]
  have present : data.isEmpty = false := by simpa using filled
  unfold write
  rw [collected]
  dsimp only
  rw [send]
  simp only [started, present, oneWire, receives, turnLineOrWarn, turned, sent, returned]
  rfl

end Port

namespace Duplex

variable (duplex : Duplex)

/-- A port that has taken hold of the line, and has nothing to read. -/
structure Sends (side : Bool) (slot : SlotIndex) (port : Port) (machine : Machine)
    (time : Int) : Prop where
  outfit : port.outfit = duplex.outfit side
  stake : port.stake = { duplex.stake side slot with listening := false }
  started : port.started = true
  line : (duplex.config side).drive.Holds true (machine.board.pins.get (duplex.pin side))
  bound : machine.slots.sink? slot = some (.capture side.toNat)
  inbox : ∃ view, (duplex.inbox side).Shows port machine view ∧ view.bytes = [] ∧
    view.edges = [] ∧ view.time = time ∧
    ∀ now, view.decoder.reset now = duplex.decoder.reset now

/-- A message is on its way into a port: a poll within a bit period has it, or owes the last byte
of it. -/
structure Awaits (side : Bool) (slot : SlotIndex) (port : Port) (machine : Machine)
    (data : List UInt8) (time : Int) : Prop where
  armed : duplex.Armed side slot port machine
  inbox : ∃ view, (duplex.inbox side).Shows port machine view ∧ view.time = time ∧
    ∀ after later, (duplex.inbox side).Shows port after { view with time := later } →
      time ≤ later → later ≤ time + duplex.decoder.period →
      ∃ polled owed,
        (duplex.inbox side).Shows (port.collect after).1 (port.collect after).2 polled ∧
        (duplex.inbox side).Settled polled owed ∧ polled.bytes ++ owed = data ∧
        polled.time = later + duplex.reading ∧ data.length < port.drainBound after

/-- A port from which data is to be read: a poll has it, or owes the last byte of it. -/
structure Loaded (side : Bool) (slot : SlotIndex) (port : Port) (machine : Machine)
    (data : List UInt8) (time : Int) : Prop where
  armed : duplex.Armed side slot port machine
  inbox : ∃ view, (duplex.inbox side).Shows port machine view
  polled : ∃ view owed,
    (duplex.inbox side).Shows (port.collect machine).1 (port.collect machine).2 view ∧
      (duplex.inbox side).Settled view owed ∧ view.bytes ++ owed = data ∧
      view.time = time + duplex.reading
  bound : data.length < port.drainBound machine

variable {duplex} {machine after : Machine} {port peer : Port} {side : Bool}
  {slot other : SlotIndex} {time most : Int} {data : List UInt8}

theorem Confined.not_not (confined : duplex.Confined side machine after) :
    duplex.Confined (!(!side)) machine after := by
  rw [Bool.not_not]
  exact confined

theorem Laid.polled {own : Option Nat} (laid : duplex.Laid machine)
    (polled : Machine.Polled own machine after) : duplex.Laid after :=
  laid.of_rig polled.rig (polled.masked.trans laid.unmasked) (polled.pending.trans laid.pending)

theorem Armed.polled {result : Port × Machine} (armed : duplex.Armed side slot port machine)
    (polls : port.Polls machine result) (posture : result.1.posture = port.posture) :
    duplex.Armed side slot result.1 result.2 where
  outfit := polls.outfit.trans armed.outfit
  stake := polls.stake.trans armed.stake
  started := (congrArg Posture.started posture).trans armed.started
  mode := (congrArg Posture.mode posture).trans armed.mode
  pin := (congrArg (·.pins.get (duplex.pin side)) polls.rig) ▸ armed.pin
  bound := (congrArg (·.slots.sink? slot) polls.rig).trans armed.bound

/-- Polls of a port leave all pins, and all captures but its own. -/
theorem Confined.of_polls {result : Port × Machine} (stake : port.stake = duplex.stake side slot)
    (polls : port.Polls machine result) : duplex.Confined side machine result.2 := by
  refine ⟨fun pin _ => congrArg (·.pins.get pin) polls.rig, fun index apart => ?_⟩
  refine polls.polled.captures index fun same => apart ?_
  exact Option.some.inj ((congrArg Stake.capture stake).symm.trans same)

/-- A look at an idle line, once the counter is in reach again. -/
theorem glance {view : Receiver.View} (shown : (duplex.inbox side).Shows port machine view)
    (idle : (duplex.inbox side).Idle view duplex.decoder.period most)
    (near : most + duplex.reading < 2 ^ 32) :
    ∃ next, (duplex.inbox side).Shows (port.collect machine).1 (port.collect machine).2 next ∧
      (duplex.inbox side).Idle next duplex.decoder.period (2 ^ 30) ∧
      next.time = view.time + duplex.reading := by
  have moves := duplex.reading_bounds
  refine shown.glance idle ?_ (by omega) (by omega) near
    (Nat.lt_of_lt_of_le (by decide) (Nat.le_max_right _ _))
  change duplex.decoder.period ≤ duplex.decoder.period + duplex.reading
  omega

/-- A poll of a port that has nothing to read keeps it so. -/
theorem Waits.collect (waits : duplex.Waits side slot port machine time most)
    (near : most + duplex.reading < 2 ^ 32) :
    duplex.Waits side slot (port.collect machine).1 (port.collect machine).2
      (time + duplex.reading) (2 ^ 30) := by
  obtain ⟨view, shown, idle, rfl⟩ := waits.idle
  obtain ⟨next, looked, still, moved⟩ := glance shown idle near
  exact ⟨waits.armed.polled (port.polls_collect machine) (port.posture_collect machine),
    next, looked, still, moved⟩

theorem wired (outfit : port.outfit = duplex.outfit side) :
    port.outfit.Wired (duplex.pin side) := by
  rw [outfit]
  refine ⟨duplex.oneWire_config side duplex.baud, rfl, rfl, nofun, ?_⟩
  change (duplex.config side).enablePin ≠ _
  rw [(duplex.shared side).2.2]
  nofun

theorem Laid.detach (laid : duplex.Laid machine) (pin : Pin) : duplex.Laid (machine.detach pin) :=
  laid.of_rig rfl laid.unmasked
    (congrArg (List.filter fun held : Pin × Handler => held.1 != pin) laid.pending)

/-- A port that is disarmed polls once more. Its pin stays an input. -/
theorem Waits.disarm (waits : duplex.Waits side slot port machine time most)
    (laid : duplex.Laid machine) (near : most + duplex.reading < 2 ^ 32) (mode : LineMode) :
    let polled := port.collect (machine.detach (duplex.pin side))
    duplex.Laid polled.2 ∧
      duplex.Poised side slot { polled.1 with listening := false, mode } polled.2
        (time + duplex.reading) ∧
      polled.1.started = true ∧ polled.2.board.handler? (duplex.pin side) = none ∧
      duplex.Confined side machine polled.2 ∧ polled.2.slots = machine.slots := by
  obtain ⟨view, shown, idle, rfl⟩ := waits.idle
  have armed := waits.armed
  have polls := port.polls_collect (machine.detach (duplex.pin side))
  have posture := port.posture_collect (machine.detach (duplex.pin side))
  have detached : (duplex.inbox side).Shows port (machine.detach (duplex.pin side)) view :=
    ⟨shown.reception, shown.decoder, shown.losses, shown.timebase, shown.rate, shown.clock,
      shown.queue⟩
  obtain ⟨next, looked, still, moved⟩ := glance detached idle near
  have quiet := (laid.detach (duplex.pin side)).polled polls.polled
  dsimp only
  generalize port.collect (machine.detach (duplex.pin side)) = polled at *
  have pins (pin : Pin) : polled.2.board.pins.get pin =
      if duplex.pin side = pin then { machine.board.pins.get pin with handler := none }
      else machine.board.pins.get pin :=
    (congrArg (·.pins.get pin) polls.rig).trans (PinMap.get_modify ..)
  have own := (pins _).trans (if_pos rfl)
  refine ⟨quiet, ⟨polls.outfit.trans armed.outfit, ?_, ?_, ?_, ?_, ?_, next, ?_, still.bytes,
    still.edges, moved, still.trails.reset⟩, ?_, congrArg PinState.handler own,
    ⟨fun pin apart => (pins pin).trans (if_neg apart),
      (Confined.of_polls armed.stake polls).captures⟩, congrArg Rig.slots polls.rig⟩
  · exact congrArg (fun stake : Stake => { stake with listening := false })
      (polls.stake.trans armed.stake)
  · exact (congrArg PinState.forced own).trans armed.pin.unforced
  · exact (congrArg PinState.direction own).trans armed.pin.input
  · exact (congrArg PinState.pull own).trans armed.pin.pulled
  · exact (congrArg (·.slots.sink? slot) polls.rig).trans armed.bound
  · exact ⟨looked.reception, looked.decoder, looked.losses, looked.timebase, looked.rate,
      looked.clock, looked.queue⟩
  · exact (congrArg Posture.started posture).trans armed.started

/-- A disarmed port takes hold of the line unheard, while its peer listens. -/
theorem Poised.takeLine (poised : duplex.Poised side slot port machine time)
    (started : port.started = true) (deaf : machine.board.handler? (duplex.pin side) = none)
    (laid : duplex.Laid machine)
    (listens : (machine.board.pins.get (duplex.pin (!side))).Listens other)
    (log : Array Log.Line) :
    let ready := { machine.restLine (duplex.pin side) true (duplex.config side).drive with log }
    duplex.Laid ready ∧ duplex.Sends side slot port ready time ∧
      duplex.Confined side machine ready ∧ ready.slots = machine.slots := by
  obtain ⟨view, shown, read, decoded, moved, resets⟩ := poised.inbox
  have rested := laid.restLine listens poised.unforced poised.input (duplex.config side).drive
  have line := (duplex.config side).drive.holds_rest true poised.unforced deaf
  rw [← rested.own] at line
  have others (pin : Pin) (apart : duplex.pin side ≠ pin) := rested.apart apart
  have after := laid.adjusted rested
  dsimp only
  generalize machine.restLine (duplex.pin side) true (duplex.config side).drive = ready at *
  obtain ⟨levels, history, rfl⟩ := rested
  exact ⟨after.of_rig rfl after.unmasked after.pending,
    ⟨poised.outfit, poised.stake, started, line, poised.bound, view,
      ⟨shown.reception, shown.decoder, shown.losses, shown.timebase, shown.rate, shown.clock,
        shown.queue⟩, read, decoded, moved, resets⟩, ⟨others, fun _ _ => rfl⟩, rfl⟩

theorem Waits.turn_away (waits : duplex.Waits side slot port machine time most)
    (laid : duplex.Laid machine)
    (listens : (machine.board.pins.get (duplex.pin (!side))).Listens other)
    (near : most + duplex.reading < 2 ^ 32) :
    ∃ after ready, port.turnLine machine true = (.ok (), after, ready) ∧ duplex.Laid ready ∧
      duplex.Sends side slot after ready (time + duplex.reading) ∧
      duplex.Confined side machine ready ∧ ready.slots = machine.slots := by
  have armed := waits.armed
  obtain ⟨quiet, poised, started, deaf, polled, kept⟩ := waits.disarm laid near .transmit
  obtain ⟨log, turned⟩ := @Port.turn_away_eq port machine _ _ (wired armed.outfit).sharedPin?
    (congrArg Stake.rxPin armed.stake) (congrArg Stake.slot armed.stake)
  dsimp only at turned
  have level : (port.collect (machine.detach (duplex.pin side))).1.transmitter =
      duplex.transmitter side := congrArg Port.Outfit.transmitter poised.outfit
  have mark : (port.collect (machine.detach (duplex.pin side))).1.transmitter.markLevel = true := by
    rw [level]
    rfl
  have drive : (port.collect (machine.detach (duplex.pin side))).1.transmitter.drive =
      (duplex.config side).drive := congrArg _ level
  rw [mark, drive] at turned
  rw [← polled.pins _ (duplex.differ_side side)] at listens
  obtain ⟨laid, sends, rested, same⟩ := poised.takeLine started deaf quiet listens log
  exact ⟨_, _, turned, laid, sends, polled.trans rested, same.trans kept⟩

/-- A port that lets go of the line sets up its pin for receiving, while its peer listens. -/
theorem Sends.letGo (sends : duplex.Sends side slot port machine time) (laid : duplex.Laid machine)
    (listens : (machine.board.pins.get (duplex.pin (!side))).Listens other) :
    let input := (machine.setPull (duplex.pin side) .up).setDirection (duplex.pin side) .input
    duplex.Laid input ∧ duplex.Poised side slot port input time ∧
      duplex.Confined side machine input ∧ input.slots = machine.slots := by
  obtain ⟨view, shown, read, decoded, moved, resets⟩ := sends.inbox
  have input := laid.setInput (.inr ⟨other, listens⟩) sends.line.yields sends.line.unforced
  have own := input.own
  have others (pin : Pin) (apart : duplex.pin side ≠ pin) := input.apart apart
  have after := laid.adjusted input
  dsimp only
  generalize (machine.setPull (duplex.pin side) .up).setDirection (duplex.pin side) .input = ready
    at *
  obtain ⟨levels, history, rfl⟩ := input
  exact ⟨after, ⟨sends.outfit, sends.stake,
    (congrArg PinState.forced own).trans sends.line.unforced, congrArg PinState.direction own,
    congrArg PinState.pull own, sends.bound, view,
    ⟨shown.reception, shown.decoder, shown.losses, shown.timebase, shown.rate, shown.clock,
      shown.queue⟩, read, decoded, moved, resets⟩, ⟨others, fun _ _ => rfl⟩, rfl⟩

theorem Sends.turn_back (sends : duplex.Sends side slot port machine time)
    (laid : duplex.Laid machine)
    (listens : (machine.board.pins.get (duplex.pin (!side))).Listens other) :
    ∃ after ready, port.turnLine machine false = (.ok (), after, ready) ∧ duplex.Laid ready ∧
      duplex.Waits side slot after ready (time + duplex.reading) (2 ^ 30) ∧
      duplex.Confined side machine ready ∧ ready.slots = machine.slots := by
  obtain ⟨quiet, poised, input, same⟩ := sends.letGo laid listens
  obtain ⟨log, turned⟩ := Port.turn_back_eq (wired sends.outfit).sharedPin?
    (congrArg Stake.rxPin sends.stake) (congrArg Stake.slot sends.stake) laid.faults laid.usable
  dsimp only at turned
  generalize (machine.setPull (duplex.pin side) .up).setDirection (duplex.pin side) .input = ready
    at quiet poised input same turned
  have started : { port with started := true } = port := by rw [← sends.started]
  obtain ⟨laid, waits, armed⟩ := poised.arm quiet rfl log
  refine ⟨_, _, turned, laid, ?_, input.trans armed, same⟩
  rw [← started]
  exact waits

/-- The line from one port to the other, by way of the slot of the other. -/
def link (duplex : Duplex) (side : Bool) (slot : SlotIndex) (others : Array Capture) : Link where
  timebase := duplex.timebase
  transmitter := duplex.transmitter side
  sender := duplex.pin side
  receiver := duplex.pin (!side)
  net := duplex.net
  slot := slot
  capture := (!side).toNat
  capacity := max (duplex.config (!side)).edgeSlots.toNat 2
  others := others
  differ := duplex.differ_side side
  joined := duplex.net_eq side
  paced := duplex.paced
  narrow := Nat.le_trans duplex.narrow (by decide)

/-- Data that the buffers of a port have room for. -/
structure Fits (duplex : Duplex) (side : Bool) (data : List UInt8) : Prop where
  stored : data.length + 1 ≤ (duplex.config side).byteCapacity.toNat
  captured : 10 * data.length + 1 ≤ (duplex.config side).edgeSlots.toNat
  brief : data.length * duplex.timebase.perRead.toNat ≤ 2 ^ 26

instance (side : Bool) (data : List UInt8) : Decidable (duplex.Fits side data) :=
  decidable_of_iff (data.length + 1 ≤ (duplex.config side).byteCapacity.toNat ∧
      10 * data.length + 1 ≤ (duplex.config side).edgeSlots.toNat ∧
      data.length * duplex.timebase.perRead.toNat ≤ 2 ^ 26)
    ⟨fun ⟨stored, captured, brief⟩ => ⟨stored, captured, brief⟩,
      fun fits => ⟨fits.stored, fits.captured, fits.brief⟩⟩

/-- A message is clocked out to a port that waits. -/
theorem Sends.send (sends : duplex.Sends side slot port machine time) (laid : duplex.Laid machine)
    (waits : duplex.Waits (!side) other peer machine time most) (near : most ≤ 2 ^ 30 + 2 ^ 29)
    (filled : data ≠ []) (fits : duplex.Fits (!side) data) :
    let sent := ((duplex.transmitter side).send machine (duplex.pin side) data).2
    ∃ later, duplex.Laid sent ∧ duplex.Sends side slot port sent later ∧
      duplex.Awaits (!side) other peer sent data later ∧ sent.slots = machine.slots := by
  obtain ⟨view, shown, read, decoded, clock, resets⟩ := sends.inbox
  obtain ⟨idle, shows, rests, moved⟩ := waits.idle
  have line : (duplex.link side other machine.captures).Shows machine { high := true, time } :=
    ⟨⟨laid.nets, sends.line, waits.armed.pin⟩, laid.timebase, waits.clock, laid.unmasked,
      laid.pending, laid.rate, waits.armed.bound, rests.edges ▸ shows.queue, fun _ _ => rfl⟩
  have feeds : (duplex.link side other machine.captures).Feeds (duplex.inbox (!side)) :=
    ⟨rfl, duplex.bitPeriod_decoder, rfl⟩
  obtain ⟨next, carried, open', through, delivers⟩ := feeds.message line filled rfl rfl rfl rfl
    (moved ▸ rests.trails) near (Nat.lt_of_lt_of_le fits.captured (Nat.le_max_left _ _))
    (Nat.lt_of_lt_of_le fits.stored (Nat.le_max_left _ _)) fits.brief
  have rig := (duplex.transmitter side).rig_send machine filled (duplex.pin side)
  change (duplex.link side other machine.captures).Shows
    ((duplex.transmitter side).send machine (duplex.pin side) data).2 next at carried
  dsimp only
  generalize ((duplex.transmitter side).send machine (duplex.pin side) data).2 = sent
    at rig carried ⊢
  have held : sent.board.pins.get (duplex.pin side) = _ :=
    (congrArg (·.pins.get (duplex.pin side)) rig).trans (PinMap.get_modify_self ..)
  have mine : sent.captures[side.toNat]? = machine.captures[side.toNat]? :=
    carried.others _ (toNat_ne side).symm
  refine ⟨next.time, laid.of_rig rig (carried.masked.trans open') ?_, ⟨sends.outfit, sends.stake,
    sends.started, held ▸ sends.line.turn true, ?_, { view with time := next.time },
    ⟨shown.reception, shown.decoder, shown.losses, carried.timebase, carried.rate, carried.clock,
      mine ▸ shown.queue⟩, read, decoded, rfl, resets⟩, ⟨?_, ?_⟩, congrArg Rig.slots rig⟩
  · rw [carried.pending, through]
    rfl
  · exact (congrArg (·.slots.sink? slot) rig).trans sends.bound
  · exact { waits.armed with pin := carried.wires.receiving, bound := carried.bound }
  · refine ⟨{ idle with edges := next.edges, time := next.time }, ⟨?_, shows.decoder, shows.losses,
      carried.timebase, carried.rate, carried.clock, carried.queue⟩, rfl,
      fun after later shown soonest latest => ?_⟩
    · exact shows.reception
    · exact delivers peer after later (rests.bytes ▸ shown) soonest latest

/-- The poll that finds the message may come after the sender has let go of the line. -/
theorem Awaits.loaded {later : Int} (awaits : duplex.Awaits side slot port machine data time)
    (confined : duplex.Confined (!side) machine after) (slots : after.slots = machine.slots)
    (laid : duplex.Laid after) (clock : after.board.clock = Cycle.ofTime later)
    (soonest : time ≤ later) (latest : later ≤ time + duplex.decoder.period) :
    duplex.Loaded side slot port after data later := by
  obtain ⟨view, shown, rfl, delivers⟩ := awaits.inbox
  have still := confined.shows shown laid clock
  obtain ⟨polled, owed, looked, settled, whole, moved, bound⟩ :=
    delivers after later still soonest latest
  exact ⟨awaits.armed.frame confined (by rw [slots]), ⟨_, still⟩,
    ⟨polled, owed, looked, settled, whole, moved⟩, bound⟩

/-- Nothing is there to read from a port that waits. -/
theorem Waits.loaded (waits : duplex.Waits side slot port machine time most)
    (near : most + duplex.reading < 2 ^ 32) : duplex.Loaded side slot port machine [] time := by
  obtain ⟨view, shown, idle, rfl⟩ := waits.idle
  obtain ⟨next, looked, still, moved⟩ := glance shown idle near
  have moves := duplex.reading_bounds
  refine ⟨waits.armed, ⟨view, shown⟩, ⟨next, [], looked,
    ⟨still.edges, .rest _ (still.trails.later (by omega) (by omega)), ?_⟩, ?_, moved⟩, ?_⟩
  · rw [still.bytes]
    exact Nat.lt_of_lt_of_le (by decide) (Nat.le_max_right _ _)
  · rw [still.bytes]
    rfl
  · rw [shown.drainBound]
    exact Nat.succ_pos _

/-- The data is read out byte after byte, by a loop that ends by itself. Then the port waits
again. -/
theorem Loaded.drain (loaded : duplex.Loaded side slot port machine data time)
    (laid : duplex.Laid machine)
    (brief : data.length * duplex.timebase.perRead.toNat ≤ 2 ^ 26) :
    ∃ after final later, port.drain machine = (data, after, final) ∧
      (∀ polls, data.length < polls → port.drainWith machine polls = (data, after, final)) ∧
      duplex.Laid final ∧ duplex.Waits side slot after final later (2 ^ 30) ∧
      duplex.Confined side machine final ∧ final.slots = machine.slots ∧
      time ≤ later ∧ later ≤ time + 2 ^ 28 := by
  obtain ⟨view, owed, looked, settled, whole, moved⟩ := loaded.polled
  obtain ⟨after, final, last, drained, shown, idle, soonest, latest⟩ :=
    looked.drainWith settled rfl
  rw [whole] at drained latest
  have bounds := duplex.reading_bounds
  have ended := drained (data.length + 1) (Nat.lt_succ_self _)
  have polls := port.polls_drainWith machine (data.length + 1)
  obtain ⟨actions, -, tends⟩ := port.tends_drainWith machine (data.length + 1)
  rw [ended] at polls tends
  refine ⟨after, final, last.time, drained _ loaded.bound, drained, laid.polled polls.polled,
    ⟨loaded.armed.polled polls tends.posture, last, shown, idle, rfl⟩,
    .of_polls loaded.armed.stake polls, congrArg Rig.slots polls.rig, by omega, ?_⟩
  have allowed := ((duplex.inbox side).allowance_bounds owed).2
  have short : (data.length : Int) * duplex.reading ≤ 2 ^ 26 := by
    unfold reading
    omega
  change last.time ≤ view.time + data.length * duplex.reading + _ at latest
  change _ ≤ 2 * (20 * duplex.decoder.period + duplex.reading) at allowed
  omega

/-- A port that writes has sent all when it listens again, and its peer has it to be read. -/
theorem Waits.write (waits : duplex.Waits side slot port machine time (2 ^ 30 + 2 ^ 28))
    (hears : duplex.Waits (!side) other peer machine time (2 ^ 30 + 2 ^ 28))
    (laid : duplex.Laid machine) (fits : duplex.Fits (!side) data) :
    ∃ after sent later, port.write machine data = (data.length, after, sent) ∧
      duplex.Laid sent ∧ duplex.Waits side slot after sent later (2 ^ 30) ∧
      duplex.Loaded (!side) other peer sent data later ∧ sent.slots = machine.slots := by
  have moves := duplex.reading_bounds
  have polls := port.polls_collect machine
  have quiet := laid.polled polls.polled
  have first := waits.collect (by omega)
  have confined := Confined.of_polls waits.armed.stake polls
  have slots : (port.collect machine).2.slots = machine.slots := congrArg Rig.slots polls.rig
  by_cases filled : data = []
  · subst filled
    have still : duplex.Waits (!side) other peer (port.collect machine).2
        (time + duplex.reading) (2 ^ 30 + 2 ^ 29) :=
      hears.frame confined.not_not (by rw [slots]) quiet first.clock (by omega) (by omega)
    exact ⟨_, _, _, port.write_nil machine, quiet, first, still.loaded (by omega), slots⟩
  · have listens := (hears.armed.frame confined.not_not (by rw [slots])).pin
    obtain ⟨second, away, turned, laid, sends, aside, kept⟩ :=
      first.turn_away quiet listens (by omega)
    have clock : away.board.clock = Cycle.ofTime (time + duplex.reading + duplex.reading) := by
      obtain ⟨view, shown, -, -, same, -⟩ := sends.inbox
      rw [← same]
      exact shown.clock
    have still : duplex.Waits (!side) other peer away (time + duplex.reading + duplex.reading)
        (2 ^ 30 + 2 ^ 29) :=
      hears.frame (confined.trans aside).not_not (by rw [kept, slots]) laid clock (by omega)
        (by omega)
    obtain ⟨later, laid, sends, awaits, same⟩ := sends.send laid still (Int.le_refl _) filled fits
    obtain ⟨third, back, returned, laid, ready, settled, stays⟩ :=
      sends.turn_back laid awaits.armed.pin
    have plain : second.enablePin = none := congrArg Port.Outfit.enablePin sends.outfit
    rw [← show second.transmitter = duplex.transmitter side from
      congrArg Port.Outfit.transmitter sends.outfit] at returned
    refine ⟨third, back, _, Port.write_turning filled rfl first.armed.started first.armed.mode
      (wired first.armed.outfit).sharedPin? turned plain returned, laid, ready, ?_, ?_⟩
    · exact awaits.loaded settled.not_not (by rw [stays]) laid ready.clock (by omega) (by omega)
    · rw [stays, same, kept, slots]

/-- One turn at the ports themselves. The receiver has all that is sent, the sender hears nothing of
it, nothing is lost in between, and both are ready for the next turn. -/
theorem Ready.exchange {slot : Bool → SlotIndex} {ports : Bool → Port}
    (ready : duplex.Ready slot ports machine) (who : Bool) (fits : duplex.Fits (!who) data) :
    ∃ sender receiver idler sent heard final,
      (ports who).write machine data = (data.length, sender, sent) ∧
      (ports !who).drain sent = (data, receiver, heard) ∧
      (∀ polls, data.length < polls →
        (ports !who).drainWith sent polls = (data, receiver, heard)) ∧
      sender.drain heard = ([], idler, final) ∧
      (∀ polls, 0 < polls → sender.drainWith heard polls = ([], idler, final)) ∧
      (sender.anyLost sent).1 = false ∧ ((ports !who).anyLost sent).1 = false ∧
      (sender.anyLost heard).1 = false ∧ (receiver.anyLost heard).1 = false ∧
      ∀ after : Bool → Port, after who = idler → after (!who) = receiver →
        duplex.Ready slot after final := by
  obtain ⟨time, waits⟩ := ready.waits
  have moves := duplex.reading_bounds
  obtain ⟨sender, sent, soon, written, settled, stays, loaded, -⟩ :=
    (waits who).write (waits !who) ready.laid fits
  obtain ⟨view, shown⟩ := loaded.inbox
  obtain ⟨receiver, heard, later, drained, ends, quiet, hears, aside, kept, forth, near⟩ :=
    loaded.drain settled fits.brief
  have looks : duplex.Waits who (slot who) sender heard later (2 ^ 30 + 2 ^ 28) :=
    stays.frame aside (by rw [kept]) quiet hears.clock forth (by omega)
  obtain ⟨idler, final, last, nothing, stops, laid, rests, alone, same, onward, brief⟩ :=
    (looks.loaded (by omega)).drain quiet (by simp)
  have idles : duplex.Waits (!who) (slot !who) receiver final last (2 ^ 30 + 2 ^ 28) :=
    hears.frame alone.not_not (by rw [same]) laid rests.clock onward (by omega)
  exact ⟨sender, receiver, idler, sent, heard, final, written, drained, ends, nothing, stops,
    stays.anyLost, shown.anyLost, looks.anyLost, hears.anyLost,
    fun _ one two => .of_both laid (rests.weaken (by decide)) idles one two⟩

end Duplex

end PinUart
