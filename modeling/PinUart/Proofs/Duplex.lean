import PinUart.Proofs.Bearing
import PinUart.Proofs.Wiring

/-! Two one-wire ports on wired pins, from a fresh board to a line on which both listen. The
pull-ups of the ports hold the line at mark, so that setting up one pin is heard by nobody. -/
namespace PinUart

/-- A pin with this set-up does not hold its line low. -/
def PinState.Yields (state : PinState) : Prop := state.drives? ≠ some false

theorem PinState.yields_of_input {state : PinState} (unforced : state.forced = none)
    (input : state.direction = .input) : state.Yields := by
  unfold Yields
  rw [PinState.drives?_of_input unforced input]
  simp

theorem PinState.yields_of_high {state : PinState} (unforced : state.forced = none)
    (output : state.direction = .output) (high : state.output = true) : state.Yields := by
  unfold Yields drives?
  rw [unforced, output, high]
  simp

/-- A pin that holds its line high does not hold it low. -/
theorem Drive.Holds.yields {drive : Drive} {state : PinState} (holds : drive.Holds true state) :
    state.Yields := by
  cases drive with
  | pushPull => exact PinState.yields_of_high holds.unforced holds.ready.1 holds.ready.2
  | pullUpRelease => exact PinState.yields_of_input holds.unforced holds.ready.1

namespace Board

/-- A line that a pin pulls up is high, unless another pin drives it low. -/
theorem netLevel_high {board : Board} {net : List Pin}
    (free : ∀ pin ∈ net, (board.pins.get pin).Yields)
    (pulled : ∃ pin ∈ net, (board.pins.get pin).pull = .up) : board.netLevel net = true := by
  unfold netLevel
  split
  · obtain ⟨pin, member, up⟩ := pulled
    rw [List.any_eq_true.mpr ⟨pin, member, by rw [up]; rfl⟩]
    rfl
  · refine List.all_eq_true.mpr fun level member => ?_
    obtain ⟨pin, inside, drives⟩ := List.mem_filterMap.mp member
    cases level with
    | true => rfl
    | false => exact absurd drives (free pin inside)

/-- A change of the set-up of a pin that leaves the level of its net is no edge. -/
theorem setUp_level {board : Board} {pin : Pin} {act : PinState → PinState}
    (same : { board with pins := board.pins.modify pin act }.netLevel (board.net pin) =
      board.netLevel (board.net pin)) :
    ∃ levels, board.setUp pin act =
      ({ board with pins := board.pins.modify pin act, levels }, []) := by
  unfold setUp change
  dsimp only
  have net : Board.net { board with pins := board.pins.modify pin act } pin = board.net pin := rfl
  rw [net, same, if_neg (by simp)]
  exact ⟨_, rfl⟩

end Board

namespace Machine

/-- The set-up of a pin has been changed, and nobody has heard of it. -/
def Adjusted (machine : Machine) (pin : Pin) (act : PinState → PinState) (after : Machine) : Prop :=
  ∃ levels history, after = { machine with
    board := { machine.board with pins := machine.board.pins.modify pin act, levels, history } }

variable {machine middle after : Machine} {pin : Pin} {act first second : PinState → PinState}

theorem Adjusted.trans (one : machine.Adjusted pin first middle)
    (other : middle.Adjusted pin second after) : machine.Adjusted pin (second ∘ first) after := by
  obtain ⟨_, _, rfl⟩ := one
  obtain ⟨levels, history, rfl⟩ := other
  exact ⟨levels, history, by rw [← PinMap.modify_modify]⟩

theorem Adjusted.own (adjusted : machine.Adjusted pin act after) :
    after.board.pins.get pin = act (machine.board.pins.get pin) := by
  obtain ⟨_, _, rfl⟩ := adjusted
  exact PinMap.get_modify_self ..

theorem Adjusted.apart {other : Pin} (adjusted : machine.Adjusted pin act after)
    (different : pin ≠ other) : after.board.pins.get other = machine.board.pins.get other := by
  obtain ⟨_, _, rfl⟩ := adjusted
  exact PinMap.get_modify_of_ne different ..

theorem Adjusted.deaf (adjusted : machine.Adjusted pin act after)
    (spares : ∀ state, (act state).handler = state.handler)
    (deaf : ∀ other, machine.board.handler? other = none) (other : Pin) :
    after.board.handler? other = none := by
  by_cases same : pin = other
  · subst same
    exact (congrArg PinState.handler adjusted.own).trans ((spares _).trans (deaf pin))
  · exact (congrArg PinState.handler (adjusted.apart same)).trans (deaf other)

theorem adjusted_of_level
    (same : { machine.board with pins := machine.board.pins.modify pin act }.netLevel
      (machine.board.net pin) = machine.board.netLevel (machine.board.net pin)) :
    machine.Adjusted pin act (machine.settle (machine.board.setUp pin act)) := by
  obtain ⟨levels, set⟩ := Board.setUp_level same
  rw [set]
  exact ⟨levels, _, rfl⟩

theorem adjusted_of_deaf (deaf : ∀ other, machine.board.handler? other = none)
    (spares : ∀ state, (act state).handler = state.handler) :
    machine.Adjusted pin act (machine.settle (machine.board.setUp pin act)) := by
  obtain ⟨levels, history, set⟩ := machine.board.change_deaf pin
    (fun board => { board with pins := board.pins.modify pin act }) fun other => by
      refine Eq.trans (congrArg PinState.handler (PinMap.get_modify ..)) ?_
      split
      · exact (spares _).trans (deaf other)
      · exact deaf other
  rw [Board.setUp, set]
  exact ⟨levels, history, rfl⟩

end Machine

namespace Port

variable {port : Port} {machine : Machine} {pin : Pin} {slot : SlotIndex}

/-- Where the hardware refuses nothing, arming a port attaches the entry of its slot. -/
theorem arm_eq (receive : port.rxPin = some pin) (own : port.slot = some slot)
    (faults : machine.faults = []) (usable : machine.board.usable = none) :
    port.setListening machine true =
      (.ok (),
        { port with decoder := port.decoder.reset machine.readClock.1, listening := true },
        { machine.readClock.2 with
          board := machine.readClock.2.board.attach pin (.entry slot) }) := by
  have granted : machine.readClock.2.rig.Grants pin :=
    ⟨faults, by rw [show machine.readClock.2.rig.usable = none from usable]; rfl⟩
  have allowed := (machine.readClock.2.grants_iff pin).mp granted (.entry slot)
  rcases machine.readClock.2.attach_cases pin (.entry slot) with attached | ⟨_, _, failed, -⟩
  · rw [setListening, receive, own]
    simp only [if_pos, attached]
  · rw [failed] at allowed
    cases allowed

end Port

/-- A fresh board with two wired pins, and a one-wire port on each, both for one line speed. The
port for `false` is made first. -/
structure Duplex where
  timebase : Timebase
  clock : Cycle
  pin : Bool → Pin
  config : Bool → Config
  baud : UInt32
  /-- The wire is laid from the second pin to the first. -/
  crossed : Bool
  /-- The port that is started first. -/
  leader : Bool
  differ : pin false ≠ pin true
  shared : ∀ side, (config side).rxPin = some (pin side) ∧ (config side).txPin = some (pin side) ∧
    (config side).enablePin = none
  upright : ∀ side, (config side).invert = false
  edgesFit : ∀ side, (config side).edgeSlots.toNat < Ring.slotLimit
  bytesFit : ∀ side, (config side).byteCapacity.toNat < Ring.slotLimit
  paced : 2 * timebase.perMicrosecond.toNat + 6 * timebase.perRead.toNat + 8 ≤
    (timebase.rate / baud).toNat
  narrow : (timebase.rate / baud).toNat ≤ 2 ^ 22

namespace Duplex

variable (duplex : Duplex)

/-- The wired pins, in the order in which they are wired. -/
def wire : Pin × Pin :=
  if duplex.crossed then (duplex.pin true, duplex.pin false)
  else (duplex.pin false, duplex.pin true)

def net : List Pin := [duplex.wire.1, duplex.wire.2]

/-- The transmitter of a port, once it is started. -/
def transmitter (side : Bool) : Transmitter where
  bitPeriod := duplex.timebase.rate / duplex.baud
  invert := false
  drive := (duplex.config side).drive
  interruptible := (duplex.config side).interruptible

/-- The decoder of a port, once it is started. -/
def decoder : Decoder := .create (duplex.timebase.rate / duplex.baud) false

theorem period_pos : 1 ≤ (duplex.timebase.rate / duplex.baud).toNat := by
  have := duplex.paced
  omega

theorem bitPeriod_decoder : duplex.decoder.bitPeriod = duplex.timebase.rate / duplex.baud :=
  Decoder.bitPeriod_create duplex.period_pos _

theorem differ_side (side : Bool) : duplex.pin side ≠ duplex.pin (!side) := by
  cases side with
  | false => exact duplex.differ
  | true => exact duplex.differ.symm

theorem oneWire_config (side : Bool) (baud : UInt32) :
    Config.oneWire { duplex.config side with baud } = true := by
  obtain ⟨receives, sends, -⟩ := duplex.shared side
  unfold Config.oneWire
  rw [receives, sends]
  simp

theorem net_eq (side : Bool) :
    duplex.net = [duplex.pin side, duplex.pin (!side)] ∨
      duplex.net = [duplex.pin (!side), duplex.pin side] := by
  unfold net wire
  cases side <;> cases duplex.crossed <;> simp

theorem period_decoder : duplex.decoder.period ≤ 2 ^ 22 := by
  rw [Decoder.period, bitPeriod_decoder]
  exact Int.ofNat_le.mpr duplex.narrow

theorem slow_decoder :
    2 * duplex.timebase.perMicrosecond.toNat + duplex.timebase.perRead.toNat ≤
      duplex.decoder.bitPeriod.toNat := by
  have := duplex.paced
  rw [bitPeriod_decoder]
  omega

/-- The receiving end of a port. -/
def inbox (side : Bool) : Receiver where
  timebase := duplex.timebase
  pin := duplex.pin side
  capture := side.toNat
  edgeSlots := max (duplex.config side).edgeSlots.toNat 2
  capacity := max (duplex.config side).byteCapacity.toNat 2
  decoder := duplex.decoder
  narrow := Int.le_trans duplex.period_decoder (by decide)
  slow := duplex.slow_decoder

/-- What the interrupt of a port depends on, once it listens. -/
def stake (side : Bool) (slot : SlotIndex) : Stake where
  rxPin := some (duplex.pin side)
  capture := some side.toNat
  slot := some slot
  listening := true

/-- How a port is set up, once it is started. -/
def outfit (side : Bool) : Port.Outfit where
  config := { duplex.config side with baud := duplex.baud }
  rxPin := some (duplex.pin side)
  txPin := some (duplex.pin side)
  enablePin := none
  transmitter := duplex.transmitter side
  refused := none

/-- The pins are wired to each other alone, no interrupt is held back, and the hardware refuses
nothing. -/
structure Laid (machine : Machine) : Prop where
  timebase : machine.board.timebase = duplex.timebase
  rate : machine.statedRate = none
  usable : machine.board.usable = none
  nets : machine.board.nets = [duplex.net]
  faults : machine.faults = []
  unmasked : machine.board.masked = false
  pending : machine.board.pending = []

/-- A started port that listens by way of a slot. -/
structure Armed (side : Bool) (slot : SlotIndex) (port : Port) (machine : Machine) : Prop where
  outfit : port.outfit = duplex.outfit side
  stake : port.stake = duplex.stake side slot
  started : port.started = true
  mode : port.mode = .receive
  pin : (machine.board.pins.get (duplex.pin side)).Listens slot
  bound : machine.slots.sink? slot = some (.capture side.toNat)

/-- A port with a slot and nothing to read, on a pin that is set up as an input. It only needs to
be armed. -/
structure Poised (side : Bool) (slot : SlotIndex) (port : Port) (machine : Machine)
    (time : Int) : Prop where
  outfit : port.outfit = duplex.outfit side
  stake : port.stake = { duplex.stake side slot with listening := false }
  unforced : (machine.board.pins.get (duplex.pin side)).forced = none
  input : (machine.board.pins.get (duplex.pin side)).direction = .input
  pulled : (machine.board.pins.get (duplex.pin side)).pull = .up
  bound : machine.slots.sink? slot = some (.capture side.toNat)
  inbox : ∃ view, (duplex.inbox side).Shows port machine view ∧ view.bytes = [] ∧
    view.edges = [] ∧ view.time = time ∧
    ∀ now, view.decoder.reset now = duplex.decoder.reset now

/-- A port that listens and has nothing to read, on a line that has been idle for a bit period. -/
structure Waits (side : Bool) (slot : SlotIndex) (port : Port) (machine : Machine)
    (time most : Int) : Prop where
  armed : duplex.Armed side slot port machine
  idle : ∃ view, (duplex.inbox side).Shows port machine view ∧
    (duplex.inbox side).Idle view duplex.decoder.period most ∧ view.time = time

/-- Nothing has changed but the pin and the capture of one port. -/
structure Confined (side : Bool) (before after : Machine) : Prop where
  pins : ∀ pin, duplex.pin side ≠ pin → after.board.pins.get pin = before.board.pins.get pin
  captures : ∀ index, side.toNat ≠ index → after.captures[index]? = before.captures[index]?

theorem toNat_ne (side : Bool) : (!side).toNat ≠ side.toNat := by
  cases side <;> decide

variable {duplex} {machine middle after : Machine} {side : Bool}

theorem Confined.trans (first : duplex.Confined side machine middle)
    (second : duplex.Confined side middle after) : duplex.Confined side machine after :=
  ⟨fun pin apart => (second.pins pin apart).trans (first.pins pin apart),
    fun index apart => (second.captures index apart).trans (first.captures index apart)⟩

/-- The wires depend on few parts of the rig. -/
theorem Laid.of_rig {pins : PinMap PinState} {slots : Slots} (laid : duplex.Laid machine)
    (rig : after.rig = { machine.rig with pins, slots }) (unmasked : after.board.masked = false)
    (pending : after.board.pending = []) : duplex.Laid after :=
  ⟨(congrArg Rig.timebase rig).trans laid.timebase, (congrArg Rig.statedRate rig).trans laid.rate,
    (congrArg Rig.usable rig).trans laid.usable, (congrArg Rig.nets rig).trans laid.nets,
    (congrArg Rig.faults rig).trans laid.faults, unmasked, pending⟩

theorem Laid.readClock (laid : duplex.Laid machine) : duplex.Laid machine.readClock.2 :=
  laid.of_rig rfl laid.unmasked laid.pending

theorem Laid.adjusted {pin : Pin} {act : PinState → PinState} (laid : duplex.Laid machine)
    (adjusted : machine.Adjusted pin act after) : duplex.Laid after := by
  obtain ⟨levels, history, rfl⟩ := adjusted
  exact laid.of_rig rfl laid.unmasked laid.pending

theorem Laid.net (laid : duplex.Laid machine) (side : Bool) :
    machine.board.net (duplex.pin side) = duplex.net := by
  rw [Board.net, laid.nets]
  rcases duplex.net_eq side with same | same <;> simp [same]

/-- While the other port listens, and the pin is not driven low, the line is high. -/
theorem netLevel {board : Board} {slot : SlotIndex}
    (peer : (board.pins.get (duplex.pin (!side))).Listens slot)
    (free : (board.pins.get (duplex.pin side)).Yields) :
    board.netLevel duplex.net = true := by
  have members : duplex.pin (!side) ∈ duplex.net ∧
      ∀ pin ∈ duplex.net, pin = duplex.pin side ∨ pin = duplex.pin (!side) := by
    rcases duplex.net_eq side with same | same <;> rw [same] <;> simp [or_comm]
  refine Board.netLevel_high (fun pin member => ?_) ⟨_, members.1, peer.pulled⟩
  rcases members.2 pin member with rfl | rfl
  · exact free
  · exact PinState.yields_of_input peer.unforced peer.input

/-- A port whose peer listens can set up its pin unheard, unless it pulls the line low. -/
theorem Laid.adjust {slot : SlotIndex} (laid : duplex.Laid machine)
    (peer : (machine.board.pins.get (duplex.pin (!side))).Listens slot) (act : PinState → PinState)
    (before : (machine.board.pins.get (duplex.pin side)).Yields)
    (free : (act (machine.board.pins.get (duplex.pin side))).Yields) :
    machine.Adjusted (duplex.pin side) act
      (machine.settle (machine.board.setUp (duplex.pin side) act)) := by
  refine Machine.adjusted_of_level ?_
  rw [laid.net, netLevel peer before]
  have apart := PinMap.get_modify_of_ne (duplex.differ_side side) machine.board.pins act
  have own := PinMap.get_modify_self machine.board.pins (duplex.pin side) act
  exact netLevel (apart ▸ peer) (own ▸ free)

/-- Nobody hears how a port sets its pin up for sending, while its peer listens. -/
theorem Laid.restLine {slot : SlotIndex} (laid : duplex.Laid machine)
    (peer : (machine.board.pins.get (duplex.pin (!side))).Listens slot)
    (unforced : (machine.board.pins.get (duplex.pin side)).forced = none)
    (input : (machine.board.pins.get (duplex.pin side)).direction = .input) (drive : Drive) :
    machine.Adjusted (duplex.pin side) (drive.rest true)
      (machine.restLine (duplex.pin side) true drive) := by
  have different := duplex.differ_side side
  have idle (output : Bool) (pull : Pull) : PinState.Yields
      { machine.board.pins.get (duplex.pin side) with output, pull } :=
    PinState.yields_of_input unforced input
  have begun (output : Bool) := laid.adjust peer ({ · with output }) (idle _ _) (idle output _)
  cases drive with
  | pushPull =>
    have output := begun true
    refine output.trans ((laid.adjusted output).adjust (output.apart different ▸ peer)
      ({ · with direction := .output }) (output.own ▸ idle true _) ?_)
    rw [output.own]
    exact PinState.yields_of_high unforced rfl rfl
  | pullUpRelease =>
    have output := begun false
    have pulled := (laid.adjusted output).adjust (output.apart different ▸ peer)
      ({ · with pull := .up }) (output.own ▸ idle false _) (output.own ▸ idle false .up)
    have both := output.trans pulled
    refine both.trans (((laid.adjusted output).adjusted pulled).adjust
      (both.apart different ▸ peer) ({ · with direction := .input }) (both.own ▸ idle false .up) ?_)
    rw [both.own]
    exact PinState.yields_of_input unforced rfl

/-- Nobody hears how a port sets its pin up for receiving, while its peer listens or nobody does. -/
theorem Laid.setInput (laid : duplex.Laid machine)
    (unheard : (∀ pin, machine.board.handler? pin = none) ∨
      ∃ slot, (machine.board.pins.get (duplex.pin (!side))).Listens slot)
    (free : (machine.board.pins.get (duplex.pin side)).Yields)
    (unforced : (machine.board.pins.get (duplex.pin side)).forced = none) :
    machine.Adjusted (duplex.pin side) ({ · with pull := .up, direction := .input })
      ((machine.setPull (duplex.pin side) .up).setDirection (duplex.pin side) .input) := by
  rcases unheard with deaf | ⟨slot, peer⟩
  · have pulled : machine.Adjusted (duplex.pin side) ({ · with pull := .up })
        (machine.setPull (duplex.pin side) .up) :=
      Machine.adjusted_of_deaf deaf fun _ => rfl
    have turned : (machine.setPull (duplex.pin side) .up).Adjusted (duplex.pin side)
        ({ · with direction := .input })
        ((machine.setPull (duplex.pin side) .up).setDirection (duplex.pin side) .input) :=
      Machine.adjusted_of_deaf (pulled.deaf (fun _ => rfl) deaf) fun _ => rfl
    exact pulled.trans turned
  · have pulled := laid.adjust peer ({ · with pull := .up }) free free
    refine pulled.trans ((laid.adjusted pulled).adjust
      (pulled.apart (duplex.differ_side side) ▸ peer) ({ · with direction := .input })
      (pulled.own ▸ free) ?_)
    rw [pulled.own]
    exact PinState.yields_of_input unforced rfl

def reading (duplex : Duplex) : Int := duplex.timebase.perRead.toNat

theorem reading_bounds (duplex : Duplex) :
    1 ≤ duplex.reading ∧ duplex.reading ≤ duplex.decoder.period ∧
      duplex.decoder.period ≤ 2 ^ 22 := by
  have bounds := (duplex.inbox true).reading_bounds
  exact ⟨bounds.1, bounds.2, duplex.period_decoder⟩

/-- A port that is armed finds its line at rest. -/
theorem Poised.arm {port listener : Port} {slot : SlotIndex} {time : Int}
    (poised : duplex.Poised side slot port machine time) (laid : duplex.Laid machine)
    (listens : listener =
      { port with
        decoder := port.decoder.reset machine.readClock.1
        listening := true
        mode := .receive
        started := true }) (log : Array Log.Line) :
    let ready := { machine.readClock.2 with
      board := machine.readClock.2.board.attach (duplex.pin side) (.entry slot), log }
    duplex.Laid ready ∧ duplex.Waits side slot listener ready (time + duplex.reading) (2 ^ 30) ∧
      duplex.Confined side machine ready := by
  obtain ⟨view, shown, read, decoded, rfl, resets⟩ := poised.inbox
  have entry := PinMap.get_modify_self machine.board.pins (duplex.pin side)
    ({ · with handler := some (.entry slot) })
  have clock : machine.readClock.1 = Cycle.ofTime (view.time + duplex.reading) :=
    Machine.readClock_ofTime shown.clock laid.timebase
  have moves := duplex.reading_bounds
  have stake := congrArg (fun stake : Stake => { stake with listening := true }) poised.stake
  subst listens
  refine ⟨laid.of_rig rfl laid.unmasked laid.pending,
    ⟨⟨poised.outfit, stake, rfl, rfl, ?_, poised.bound⟩,
      { decoder := duplex.decoder.reset (Cycle.ofTime (view.time + duplex.reading))
        bytes := []
        edges := []
        time := view.time + duplex.reading }, ⟨?_, ?_, shown.losses, laid.timebase, laid.rate,
          clock, ?_⟩, ⟨rfl, rfl, ?_⟩, rfl⟩, fun pin apart => ?_, fun _ _ => rfl⟩
  · exact ⟨(congrArg PinState.forced entry).trans poised.unforced,
      (congrArg PinState.direction entry).trans poised.input,
      (congrArg PinState.pull entry).trans poised.pulled, congrArg PinState.handler entry⟩
  · rw [← read]
    exact shown.reception
  · rw [← resets, ← shown.decoder, ← clock]
  · rw [← decoded]
    exact shown.queue
  · exact (Decoder.trails_reset _ _).later (by simp only; omega) (by simp only; omega)
  · exact PinMap.get_modify_of_ne apart ..

/-- A port that listens does not depend on the pin and the capture of its peer. -/
theorem Armed.frame {port : Port} {slot : SlotIndex} (armed : duplex.Armed side slot port machine)
    (confined : duplex.Confined (!side) machine after)
    (bound : after.slots.sink? slot = machine.slots.sink? slot) :
    duplex.Armed side slot port after :=
  { armed with
    pin := (confined.pins _ (duplex.differ_side side).symm) ▸ armed.pin
    bound := bound.trans armed.bound }

/-- What is seen of a port is not changed by its peer, but time passes. -/
theorem Confined.shows {port : Port} {view : Receiver.View} {later : Int}
    (confined : duplex.Confined (!side) machine after)
    (shown : (duplex.inbox side).Shows port machine view) (laid : duplex.Laid after)
    (clock : after.board.clock = Cycle.ofTime later) :
    (duplex.inbox side).Shows port after { view with time := later } :=
  ⟨shown.reception, shown.decoder, shown.losses, laid.timebase, laid.rate, clock,
    (confined.captures _ (toNat_ne side)) ▸ shown.queue⟩

/-- A port that waits goes on waiting while its peer is at work. -/
theorem Waits.frame {port : Port} {slot : SlotIndex} {time later most more : Int}
    (waits : duplex.Waits side slot port machine time most)
    (confined : duplex.Confined (!side) machine after)
    (bound : after.slots.sink? slot = machine.slots.sink? slot) (laid : duplex.Laid after)
    (clock : after.board.clock = Cycle.ofTime later) (passed : time ≤ later)
    (near : most + (later - time) ≤ more) : duplex.Waits side slot port after later more := by
  obtain ⟨view, shown, idle, rfl⟩ := waits.idle
  exact ⟨waits.armed.frame confined bound, _, confined.shows shown laid clock,
    ⟨idle.bytes, idle.edges, idle.trails.later (by simp only; omega) (by simp only; omega)⟩, rfl⟩

theorem Waits.weaken {port : Port} {slot : SlotIndex} {time most more : Int}
    (waits : duplex.Waits side slot port machine time most) (near : most ≤ more) :
    duplex.Waits side slot port machine time more := by
  obtain ⟨view, shown, idle, rfl⟩ := waits.idle
  exact ⟨waits.armed, view, shown,
    ⟨idle.bytes, idle.edges, idle.trails.later (by omega) (by omega)⟩, rfl⟩

theorem Waits.clock {port : Port} {slot : SlotIndex} {time most : Int}
    (waits : duplex.Waits side slot port machine time most) :
    machine.board.clock = Cycle.ofTime time := by
  obtain ⟨view, shown, -, rfl⟩ := waits.idle
  exact shown.clock

theorem Waits.anyLost {port : Port} {slot : SlotIndex} {time most : Int}
    (waits : duplex.Waits side slot port machine time most) : (port.anyLost machine).1 = false := by
  obtain ⟨view, shown, -⟩ := waits.idle
  exact shown.anyLost

/-- Both ports listen and have nothing to read, and their decoders have the counter in reach. -/
structure Ready (duplex : Duplex) (slot : Bool → SlotIndex) (ports : Bool → Port)
    (machine : Machine) : Prop where
  laid : duplex.Laid machine
  waits : ∃ time, ∀ side,
    duplex.Waits side (slot side) (ports side) machine time (2 ^ 30 + 2 ^ 28)

theorem Ready.of_both {slot : Bool → SlotIndex} {ports : Bool → Port} {first second : Port}
    {time : Int} (laid : duplex.Laid machine)
    (own : duplex.Waits side (slot side) first machine time (2 ^ 30 + 2 ^ 28))
    (peer : duplex.Waits (!side) (slot !side) second machine time (2 ^ 30 + 2 ^ 28))
    (one : ports side = first) (two : ports (!side) = second) :
    duplex.Ready slot ports machine := by
  refine ⟨laid, time, fun other => ?_⟩
  by_cases same : other = side
  · rw [same, one]
    exact own
  · rw [Bool.eq_not.mpr same, two]
    exact peer

end Duplex
end PinUart
