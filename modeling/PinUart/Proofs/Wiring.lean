import PinUart.Proofs.Draining
import PinUart.World

/-! Two pins are wired, and two ports are made and started on them, from a fresh board to a
line that carries a message. Nothing listens until the receiving port is started. -/
namespace PinUart

namespace Board

/-- Without handlers an edge only leaves its record. -/
theorem noteEdge_deaf {board : Board} (deaf : ∀ pin, board.handler? pin = none) (level : Bool)
    (pins : List Pin) : ∃ history, board.noteEdge level pins = ({ board with history }, []) := by
  induction pins generalizing board with
  | nil => exact ⟨board.history, rfl⟩
  | cons pin pins ih =>
    have noted : board.notePin pin level =
        ({ board with history := board.history.modify pin (·.push ⟨board.clock, level⟩) }, none) := by
      rw [notePin, show (board.pins.get pin).handler = none from deaf pin]
    obtain ⟨history, later⟩ := @ih (board.notePin pin level).1 (by rw [noted]; exact deaf)
    rw [noteEdge, noted] at *
    simp only at later ⊢
    rw [later]
    exact ⟨history, rfl⟩

/-- A change of the set-up of a pin, or of the wiring, where nothing listens. -/
theorem change_deaf (board : Board) (pin : Pin) (act : Board → Board)
    (deaf : ∀ pin, (act board).handler? pin = none) :
    ∃ levels history, board.change pin act = ({ act board with levels, history }, []) := by
  unfold change
  dsimp only
  split
  · obtain ⟨history, noted⟩ := @noteEdge_deaf
      { act board with levels := (act board).levels.set _ _ } deaf
      ((act board).netLevel ((act board).net pin)) ((act board).net pin)
    rw [noted]
    exact ⟨_, history, rfl⟩
  · exact ⟨_, _, rfl⟩

end Board

namespace Ring

theorem reserve_of_lt {width : Nat} {capacity : UInt64} (filler : α) (narrow : width ≤ 4)
    (fits : capacity.toNat < slotLimit) :
    reserve width capacity filler = .ok (empty capacity.toNat filler) := by
  have bound : capacity.toNat * width ≤ capacity.toNat * 4 := Nat.mul_le_mul_left _ narrow
  unfold slotLimit at fits
  rw [reserve, if_neg (by omega), if_neg (by unfold slotLimit; omega)]

end Ring

namespace Slots

/-- The slot that is claimed first. -/
def first : SlotIndex := ⟨0, by decide⟩

theorem claim?_empty (sink : Sink) :
    empty.claim? sink = some (first, empty.set first (some sink)) := by
  have free : empty.free? = some first := by decide
  rw [claim?, free]
  rfl

/-- A slot can be claimed as long as one is not bound. -/
theorem exists_claim? {slots : Slots} {index : SlotIndex} (free : slots.sink? index = none)
    (sink : Sink) : ∃ slot claimed, slots.claim? sink = some (slot, claimed) := by
  unfold claim?
  cases found : slots.free? with
  | none =>
    have bound := free?_eq_none_iff.mp found index
    rw [isBound, free] at bound
    cases bound
  | some slot => exact ⟨slot, _, rfl⟩

end Slots

namespace Port

variable {machine : Machine} {config : Config}

/-- On a board where every pin can be used, a port has the pins of its configuration. -/
theorem usablePins_eq (usable : machine.board.usable = none) (config : Config) :
    usablePins machine config = (config.rxPin, config.txPin) := by
  have all : machine.board.isUsable = fun _ => true := by
    funext pin
    rw [Board.isUsable, usable]
  rw [usablePins, all]
  cases config.rxPin <;> cases config.txPin <;> rfl

theorem noteUnusablePins_eq (usable : machine.board.usable = none) (config : Config) :
    noteUnusablePins machine config = machine := by
  rw [noteUnusablePins, if_pos (usablePins_eq usable config)]

/-- Buffers of a size that can be reserved come with a capture of their own. -/
theorem openReception_eq {pin : Pin} (usable : machine.board.usable = none)
    (receives : config.rxPin = some pin) (edgesFit : config.edgeSlots.toNat < Ring.slotLimit)
    (bytesFit : config.byteCapacity.toNat < Ring.slotLimit) :
    openReception machine config =
      (some ⟨machine.captures.size, Ring.empty config.byteCapacity.toNat 0⟩, none,
        (machine.addCapture pin { ring := Ring.empty config.edgeSlots.toNat ⟨0⟩ }).2) := by
  have edges : EdgeQueue.reserve config.edgeSlots =
      .ok { ring := Ring.empty config.edgeSlots.toNat ⟨0⟩ } := by
    rw [EdgeQueue.reserve, EdgeQueue.slotWidth, Ring.reserve_of_lt _ (by omega) edgesFit]
    rfl
  have bytes : ByteRing.reserve config.byteCapacity =
      .ok (Ring.empty config.byteCapacity.toNat 0) := Ring.reserve_of_lt _ (by omega) bytesFit
  rw [openReception, usablePins_eq usable, receives]
  simp only [reserveBuffers, edges, bytes]
  rfl

/-- A line speed that leaves cycles for a bit is one that the counter can represent. -/
theorem periodFor_eq {baud : UInt32} (positive : 1 ≤ (machine.rate / baud).toNat) :
    periodFor machine baud = .ok (machine.rate / baud) := by
  rw [UInt32.toNat_div] at positive
  rw [periodFor, if_neg]
  rintro (zero | above)
  · rw [zero] at positive
    simp at positive
  · rw [UInt32.lt_iff_toNat_lt] at above
    rw [Nat.div_eq_of_lt above] at positive
    omega

end Port

namespace Decoder

theorem bitPeriod_create {bitPeriod : UInt32} (positive : 1 ≤ bitPeriod.toNat) (invert : Bool) :
    (create bitPeriod invert).bitPeriod = bitPeriod := by
  change (if bitPeriod ≤ 1 then 1 else bitPeriod) = bitPeriod
  split
  · rename_i least
    have : bitPeriod.toNat ≤ 1 := UInt32.le_iff_toNat_le.mp least
    apply UInt32.toNat_inj.mp
    change 1 = _
    omega
  · rfl

/-- Polarity and bit period are all that a reset leaves of a decoder. -/
theorem reset_withPeriod (decoder : Decoder) (bitPeriod : UInt32) (before now : Cycle) :
    ((decoder.withPeriod bitPeriod).reset before).reset now =
      (create bitPeriod decoder.invert).reset now := rfl

end Decoder

/-- Nobody hears how the pins of a fresh machine are wired. -/
theorem Machine.connect_fresh (timebase : Timebase) (clock : Cycle) {one other : Pin}
    (differ : one ≠ other) :
    ∃ levels history, Machine.connect { board := { timebase, clock } } one other =
      { board := { timebase, clock, nets := [[one, other]], levels, history } } := by
  have joined : Board.join { timebase, clock } one other =
      { timebase, clock, nets := [[one, other]] } := by
    rw [Board.join]
    simp [Board.net, differ.symm]
  have deaf (pin : Pin) : (Board.join { timebase, clock } one other).handler? pin = none := by
    rw [joined]
    exact congrArg PinState.handler (PinMap.get_fill _ pin)
  obtain ⟨levels, history, changed⟩ :=
    Board.change_deaf { timebase, clock } one (·.join one other) deaf
  rw [Machine.connect, Board.connect, changed, joined]
  exact ⟨levels, history, rfl⟩

/-- A fresh board with two wired pins, and two ports for one line speed and polarity: one
that only sends, and one that only receives. -/
structure Loopback where
  timebase : Timebase
  clock : Cycle
  sendPin : Pin
  receivePin : Pin
  /-- The wire is laid from the receiving pin to the sending pin. -/
  crossed : Bool
  sender : Config
  receiver : Config
  baud : UInt32
  differ : sendPin ≠ receivePin
  sends : sender.rxPin = none ∧ sender.txPin = some sendPin ∧ sender.enablePin = none
  receives : receiver.rxPin = some receivePin ∧ receiver.txPin = none ∧ receiver.enablePin = none
  polarity : receiver.invert = sender.invert
  edgesFit : receiver.edgeSlots.toNat < Ring.slotLimit
  bytesFit : receiver.byteCapacity.toNat < Ring.slotLimit
  paced : 2 * timebase.perMicrosecond.toNat + 6 * timebase.perRead.toNat + 8 ≤
    (timebase.rate / baud).toNat
  narrow : (timebase.rate / baud).toNat ≤ 2 ^ 26

namespace Loopback

/-- The wired pins, in the order in which they are wired. -/
def wire (loopback : Loopback) : Pin × Pin :=
  if loopback.crossed then (loopback.receivePin, loopback.sendPin)
  else (loopback.sendPin, loopback.receivePin)

/-- A board with the two pins wired and set up, where nothing listens yet. -/
structure Bench (loopback : Loopback) (board : Board) (sending receiving : PinState) : Prop where
  timebase : board.timebase = loopback.timebase
  usable : board.usable = none
  nets : board.nets = [[loopback.wire.1, loopback.wire.2]]
  sending : board.pins.get loopback.sendPin = sending
  receiving : board.pins.get loopback.receivePin = receiving
  deaf : ∀ pin, board.handler? pin = none
  unmasked : board.masked = false
  pending : board.pending = []

/-- A machine around such a board, with the slots and captures that are taken so far. -/
structure Laid (loopback : Loopback) (machine : Machine) (sending receiving : PinState)
    (slots : Slots) (captures : Array Capture) : Prop where
  bench : loopback.Bench machine.board sending receiving
  slots : machine.slots = slots
  captures : machine.captures = captures
  faults : machine.faults = []
  rate : machine.statedRate = none

/-- The machine before anything is done to it. -/
def fresh (loopback : Loopback) : Machine :=
  { board := { timebase := loopback.timebase, clock := loopback.clock } }

theorem wire_differ (loopback : Loopback) : loopback.wire.1 ≠ loopback.wire.2 := by
  unfold wire
  split
  · exact loopback.differ.symm
  · exact loopback.differ

/-- Wiring the pins of a fresh machine leaves both as they are. -/
theorem laid_connect (loopback : Loopback) :
    loopback.Laid (loopback.fresh.connect loopback.wire.1 loopback.wire.2) {} {} .empty #[] := by
  have pins (pin : Pin) : loopback.fresh.board.pins.get pin = {} := PinMap.get_fill _ pin
  obtain ⟨levels, history, wired⟩ :=
    Machine.connect_fresh loopback.timebase loopback.clock loopback.wire_differ
  rw [fresh, wired]
  exact ⟨⟨rfl, rfl, rfl, pins _, pins _, fun pin => congrArg PinState.handler (pins pin), rfl, rfl⟩,
    rfl, rfl, rfl, rfl⟩

variable {loopback : Loopback} {machine : Machine} {sending receiving : PinState} {slots : Slots}
  {captures : Array Capture}

theorem Laid.write (laid : loopback.Laid machine sending receiving slots captures)
    (level : Log.Level) (text : String) :
    loopback.Laid (machine.write level text) sending receiving slots captures :=
  ⟨laid.bench, laid.slots, laid.captures, laid.faults, laid.rate⟩

theorem Bench.readClock {board : Board} (bench : loopback.Bench board sending receiving) :
    loopback.Bench board.readClock.2 sending receiving :=
  ⟨bench.timebase, bench.usable, bench.nets, bench.sending, bench.receiving, bench.deaf,
    bench.unmasked, bench.pending⟩

theorem Laid.readClock (laid : loopback.Laid machine sending receiving slots captures) :
    loopback.Laid machine.readClock.2 sending receiving slots captures :=
  ⟨laid.bench.readClock, laid.slots, laid.captures, laid.faults, laid.rate⟩

theorem Laid.modifyQueue {pin : Pin} {queue : EdgeQueue}
    (laid : loopback.Laid machine sending receiving slots #[⟨pin, queue⟩])
    (act : EdgeQueue → EdgeQueue) :
    loopback.Laid (machine.modifyQueue 0 act) sending receiving slots #[⟨pin, act queue⟩] := by
  refine ⟨laid.bench, laid.slots, ?_, laid.faults, laid.rate⟩
  rw [Machine.modifyQueue, laid.captures]
  rfl

/-- A change of the set-up of one pin is heard by nobody. -/
private theorem Bench.setUp {board : Board} (bench : loopback.Bench board sending receiving)
    (pin : Pin) (act : PinState → PinState)
    (spares : ∀ state, (act state).handler = state.handler) :
    ∃ after, board.setUp pin act = (after, []) ∧
      loopback.Bench after (if pin = loopback.sendPin then act sending else sending)
        (if pin = loopback.receivePin then act receiving else receiving) := by
  have deaf : ∀ other,
      Board.handler? { board with pins := board.pins.modify pin act } other = none := by
    intro other
    rw [Board.handler?, PinMap.get_modify]
    split
    · exact (spares _).trans (bench.deaf other)
    · exact bench.deaf other
  obtain ⟨levels, history, changed⟩ := board.change_deaf pin
    (fun board => { board with pins := board.pins.modify pin act }) deaf
  refine ⟨_, changed, bench.timebase, bench.usable, bench.nets, ?_, ?_, deaf, bench.unmasked,
    bench.pending⟩
  · rw [← bench.sending]
    exact PinMap.get_modify ..
  · rw [← bench.receiving]
    exact PinMap.get_modify ..

private theorem Laid.setUp (laid : loopback.Laid machine sending receiving slots captures)
    (pin : Pin) (act : PinState → PinState)
    (spares : ∀ state, (act state).handler = state.handler) :
    loopback.Laid (machine.settle (machine.board.setUp pin act))
      (if pin = loopback.sendPin then act sending else sending)
      (if pin = loopback.receivePin then act receiving else receiving) slots captures := by
  obtain ⟨after, changed, bench⟩ := laid.bench.setUp pin act spares
  rw [changed]
  exact ⟨bench, laid.slots, laid.captures, laid.faults, laid.rate⟩

theorem Laid.setSending (laid : loopback.Laid machine sending receiving slots captures)
    (act : PinState → PinState) (spares : ∀ state, (act state).handler = state.handler) :
    loopback.Laid (machine.settle (machine.board.setUp loopback.sendPin act)) (act sending)
      receiving slots captures := by
  have changed := laid.setUp loopback.sendPin act spares
  rw [if_pos rfl, if_neg loopback.differ] at changed
  exact changed

theorem Laid.setReceiving (laid : loopback.Laid machine sending receiving slots captures)
    (act : PinState → PinState) (spares : ∀ state, (act state).handler = state.handler) :
    loopback.Laid (machine.settle (machine.board.setUp loopback.receivePin act)) sending
      (act receiving) slots captures := by
  have changed := laid.setUp loopback.receivePin act spares
  rw [if_pos rfl, if_neg loopback.differ.symm] at changed
  exact changed

/-- The transmitter of the sending port, once it is started. -/
def transmitter (loopback : Loopback) : Transmitter where
  bitPeriod := loopback.timebase.rate / loopback.baud
  invert := loopback.sender.invert
  drive := loopback.sender.drive
  interruptible := loopback.sender.interruptible

/-- A port that only sends. Only the line speed is still to be set. -/
structure Speaks (loopback : Loopback) (port : Port) : Prop where
  rxPin : port.rxPin = none
  txPin : port.txPin = some loopback.sendPin
  enablePin : port.enablePin = none
  without : port.config.enablePin = none
  apart : port.config.oneWire = false
  reception : port.reception = none
  refused : port.refused = none
  silent : port.listening = false
  transmitter : port.transmitter =
    { loopback.transmitter with bitPeriod := port.transmitter.bitPeriod }

theorem Laid.create_sender (laid : loopback.Laid machine sending receiving slots captures) :
    loopback.Speaks (Port.create machine loopback.sender).1 ∧
      (Port.create machine loopback.sender).2 = machine := by
  obtain ⟨rxPin, txPin, enablePin⟩ := loopback.sends
  have nothing : Port.openReception machine loopback.sender = (none, none, machine) := by
    rw [Port.openReception, Port.usablePins_eq laid.bench.usable, rxPin]
  rw [Port.create, Port.usablePins_eq laid.bench.usable,
    Port.noteUnusablePins_eq laid.bench.usable, nothing]
  exact ⟨⟨rxPin, txPin, rfl, enablePin, by rw [Config.oneWire, rxPin]; rfl, rfl, rfl, rfl, rfl⟩, rfl⟩

theorem period_pos (loopback : Loopback) : 1 ≤ (loopback.timebase.rate / loopback.baud).toNat := by
  have := loopback.paced
  omega

theorem Laid.periodFor (laid : loopback.Laid machine sending receiving slots captures) :
    Port.periodFor machine loopback.baud = .ok loopback.transmitter.bitPeriod := by
  have rate : machine.rate = loopback.timebase.rate := by
    rw [Machine.rate, laid.rate, laid.bench.timebase]
    rfl
  have positive := loopback.period_pos
  rw [← rate] at positive
  rw [Port.periodFor_eq positive, rate]
  rfl

/-- The sending pin rests at mark once the port is set up. -/
theorem Laid.restLine (laid : loopback.Laid machine {} receiving slots captures) (high : Bool)
    (drive : Drive) :
    loopback.Laid (machine.restLine loopback.sendPin high drive) (drive.rest high {}) receiving
      slots captures := by
  cases drive with
  | pushPull =>
    have output := laid.setSending ({ · with output := high }) fun _ => rfl
    exact output.setSending ({ · with direction := .output }) fun _ => rfl
  | pullUpRelease =>
    have output := laid.setSending ({ · with output := false }) fun _ => rfl
    have pulled := output.setSending ({ · with pull := .up }) fun _ => rfl
    exact pulled.setSending ({ · with direction := if high then .input else .output }) fun _ => rfl

theorem Speaks.startSending {port : Port} (speaks : loopback.Speaks port) (machine : Machine) :
    port.startSending machine = machine.restLine loopback.sendPin
      loopback.transmitter.markLevel loopback.transmitter.drive := by
  rw [Port.startSending, speaks.txPin, speaks.transmitter]
  simp only [speaks.apart]
  rfl

theorem Speaks.startListening {port : Port} (speaks : loopback.Speaks port) (machine : Machine) :
    port.startListening machine = (.ok (), port, machine) := by
  simp [Port.startListening, Port.setListening, speaks.rxPin, speaks.silent]

/-- Starting the sending port leaves its pin at rest. -/
theorem Laid.start_sender {port : Port} (laid : loopback.Laid machine {} receiving slots captures)
    (speaks : loopback.Speaks port) :
    ∃ after ready, port.start machine loopback.baud = (.ok (), after, ready) ∧
      loopback.Speaks after ∧ after.started = true ∧ after.transmitter = loopback.transmitter ∧
      loopback.Laid ready (loopback.transmitter.drive.rest loopback.transmitter.markLevel {})
        receiving slots captures := by
  have prepared : port.startEnablePin machine = (.ok (), port, machine) := by
    rw [Port.startEnablePin, speaks.enablePin, speaks.without]
  have slotless : port.startSlot machine = (.ok (), port, machine) := by
    rw [Port.startSlot, speaks.reception]
    cases port.slot <;> rfl
  have timed : (port.withSpeed loopback.baud loopback.transmitter.bitPeriod).transmitter =
      loopback.transmitter := by
    rw [Port.withSpeed, speaks.transmitter]
  have spoken (decoder : Decoder) : loopback.Speaks
      { port.withSpeed loopback.baud loopback.transmitter.bitPeriod with losses := {}, decoder } :=
    ⟨speaks.rxPin, speaks.txPin, speaks.enablePin, speaks.without, speaks.apart, speaks.reception,
      speaks.refused, speaks.silent, by rw [timed]⟩
  have unheard : (port.withSpeed loopback.baud loopback.transmitter.bitPeriod).startReception
      machine = (port.withSpeed loopback.baud loopback.transmitter.bitPeriod, machine) := by
    unfold Port.startReception
    rw [show (port.withSpeed _ _).reception = none from speaks.reception]
  rw [Port.start, laid.periodFor, speaks.refused]
  simp only [prepared, slotless, unheard]
  rw [(spoken _).startSending, (spoken _).startListening]
  refine ⟨_, _, rfl, ?_, rfl, timed, ?_⟩
  · exact ⟨speaks.rxPin, speaks.txPin, speaks.enablePin, speaks.without, speaks.apart,
      speaks.reception, speaks.refused, speaks.silent, by rw [timed]⟩
  · exact (laid.readClock.restLine _ _).write _ _

/-- A port that only receives, with its buffers. Only the line speed is still to be set. -/
structure Hears (loopback : Loopback) (port : Port) : Prop where
  rxPin : port.rxPin = some loopback.receivePin
  txPin : port.txPin = none
  enablePin : port.enablePin = none
  without : port.config.enablePin = none
  reception : ∃ bytes, port.reception = some ⟨0, bytes⟩ ∧
    bytes.capacity = max loopback.receiver.byteCapacity.toNat 2
  refused : port.refused = none
  slotless : port.slot = none
  silent : port.listening = false
  polarity : port.decoder.invert = loopback.sender.invert

theorem Laid.create_receiver (laid : loopback.Laid machine sending receiving slots #[]) :
    ∃ port queue after, Port.create machine loopback.receiver = (port, after) ∧
      loopback.Hears port ∧
      loopback.Laid after sending receiving slots #[⟨loopback.receivePin, queue⟩] ∧
      queue.capacity = max loopback.receiver.edgeSlots.toNat 2 := by
  obtain ⟨rxPin, txPin, enablePin⟩ := loopback.receives
  have buffers := Port.openReception_eq laid.bench.usable rxPin loopback.edgesFit loopback.bytesFit
  rw [laid.captures] at buffers
  rw [Port.create, Port.usablePins_eq laid.bench.usable,
    Port.noteUnusablePins_eq laid.bench.usable, buffers]
  refine ⟨_, { ring := Ring.empty loopback.receiver.edgeSlots.toNat ⟨0⟩ }, _, rfl, ?_, ?_,
    Ring.capacity_empty _ _⟩
  · exact ⟨rxPin, txPin, rfl, enablePin, ⟨_, rfl, Ring.capacity_empty _ _⟩, rfl, rfl, rfl,
      loopback.polarity⟩
  · refine ⟨laid.bench, laid.slots, ?_, laid.faults, laid.rate⟩
    change machine.captures.push _ = _
    rw [laid.captures]
    rfl

/-- The line between the pins. -/
def link (loopback : Loopback) : Link where
  timebase := loopback.timebase
  transmitter := loopback.transmitter
  sender := loopback.sendPin
  receiver := loopback.receivePin
  net := [loopback.wire.1, loopback.wire.2]
  slot := Slots.first
  capture := 0
  capacity := max loopback.receiver.edgeSlots.toNat 2
  others := #[]
  differ := loopback.differ
  joined := by
    unfold wire
    split
    · exact .inr rfl
    · exact .inl rfl
  paced := loopback.paced
  narrow := loopback.narrow

/-- The decoder of the receiving port, once it is started. -/
def decoder (loopback : Loopback) : Decoder :=
  .create loopback.transmitter.bitPeriod loopback.sender.invert

theorem bitPeriod_decoder (loopback : Loopback) :
    loopback.decoder.bitPeriod = loopback.transmitter.bitPeriod :=
  Decoder.bitPeriod_create loopback.period_pos _

theorem narrow_decoder (loopback : Loopback) : loopback.decoder.period ≤ 2 ^ 26 := by
  rw [Decoder.period, bitPeriod_decoder]
  exact Int.ofNat_le.mpr loopback.narrow

theorem slow_decoder (loopback : Loopback) :
    2 * loopback.timebase.perMicrosecond.toNat + loopback.timebase.perRead.toNat ≤
      loopback.decoder.bitPeriod.toNat := by
  have := loopback.paced
  rw [bitPeriod_decoder]
  exact Nat.le_trans (by omega) this

/-- The receiving end. -/
def inbox (loopback : Loopback) : Receiver where
  timebase := loopback.timebase
  pin := loopback.receivePin
  capture := 0
  edgeSlots := max loopback.receiver.edgeSlots.toNat 2
  capacity := max loopback.receiver.byteCapacity.toNat 2
  decoder := loopback.decoder
  narrow := loopback.narrow_decoder
  slow := loopback.slow_decoder

/-- The slot table once the receiving port has its slot. -/
def claimed : Slots := Slots.empty.set Slots.first (some (.capture 0))

theorem Laid.claim (laid : loopback.Laid machine sending receiving .empty captures) :
    ∃ after, machine.claim (.capture 0) = (.ok Slots.first, after) ∧
      loopback.Laid after sending receiving claimed captures := by
  rw [Machine.claim, laid.slots, Slots.claim?_empty]
  exact ⟨_, rfl, laid.bench, rfl, laid.captures, laid.faults, laid.rate⟩

/-- The receiving pin is pulled up, and what its capture held is dropped. -/
theorem Laid.startReception {bytes : ByteRing} {queue : EdgeQueue}
    (laid : loopback.Laid machine sending {} slots #[⟨loopback.receivePin, queue⟩]) (port : Port)
    (rxPin : port.rxPin = some loopback.receivePin) (reception : port.reception = some ⟨0, bytes⟩) :
    ∃ after ready, port.startReception machine = (after, ready) ∧
      after = { port with reception := some ⟨0, bytes.clear⟩, mode := .receive } ∧
      loopback.Laid ready sending { pull := .up } slots
        #[⟨loopback.receivePin, queue.discard.takeLost.2⟩] := by
  have emptied := laid.modifyQueue fun queue => queue.discard.takeLost.2
  have pulled := emptied.setReceiving ({ · with pull := .up }) fun _ => rfl
  have input := pulled.setReceiving ({ · with direction := .input }) fun _ => rfl
  rw [Port.startReception, rxPin, reception]
  exact ⟨_, _, rfl, rfl, input⟩

/-- From the moment at which the entry of its slot is attached, the line is watched. -/
theorem Laid.attach {queue : EdgeQueue} {high : Bool}
    (laid : loopback.Laid machine (loopback.transmitter.drive.rest high {}) { pull := .up }
      claimed #[⟨loopback.receivePin, queue⟩])
    (empty : queue.toList = []) (kept : queue.lost = false)
    (capacity : queue.capacity = max loopback.receiver.edgeSlots.toNat 2) :
    ∃ after, machine.attach loopback.receivePin (.entry Slots.first) = (.ok (), after) ∧
      loopback.link.Shows after { high, time := machine.board.clock.toNat } := by
  refine ⟨{ machine with
    board := machine.board.attach loopback.receivePin (.entry Slots.first) }, ?_, ?_⟩
  · rw [Machine.attach, laid.faults]
    simp [Board.isUsable, laid.bench.usable]
  · refine ⟨⟨laid.bench.nets, ?_, ?_⟩, laid.bench.timebase, (Cycle.ofTime_toNat _).symm,
      laid.bench.unmasked, laid.bench.pending, laid.rate, ?_,
      ⟨queue, ?_, empty, kept, capacity⟩, fun index apart => ?_⟩
    · have untouched := PinMap.get_modify_of_ne loopback.differ.symm machine.board.pins
        ({ · with handler := some (.entry Slots.first) })
      rw [laid.bench.sending] at untouched
      exact untouched ▸ loopback.transmitter.drive.holds_rest high rfl rfl
    · have attached := PinMap.get_modify_self machine.board.pins loopback.receivePin
        ({ · with handler := some (.entry Slots.first) })
      rw [laid.bench.receiving] at attached
      exact attached ▸ ⟨rfl, rfl, rfl, rfl⟩
    · rw [laid.slots, claimed, Slots.sink?_set]
      exact if_pos rfl
    · rw [laid.captures]
      rfl
    · rw [laid.captures]
      exact Array.getElem?_eq_none (Nat.one_le_iff_ne_zero.mpr apart)

/-- Listening begins with a fresh decoder. -/
theorem Laid.startListening {queue : EdgeQueue} {high : Bool}
    (laid : loopback.Laid machine (loopback.transmitter.drive.rest high {}) { pull := .up }
      claimed #[⟨loopback.receivePin, queue⟩])
    (empty : queue.toList = []) (kept : queue.lost = false)
    (capacity : queue.capacity = max loopback.receiver.edgeSlots.toNat 2) (port : Port)
    (rxPin : port.rxPin = some loopback.receivePin) (slot : port.slot = some Slots.first)
    (silent : port.listening = false) :
    ∃ time after ready, port.startListening machine = (.ok (), after, ready) ∧
      after = { port with decoder := port.decoder.reset (Cycle.ofTime time), listening := true } ∧
      loopback.link.Shows ready { high, time } := by
  obtain ⟨ready, attached, shown⟩ := laid.readClock.attach empty kept capacity
  refine ⟨machine.readClock.2.board.clock.toNat, _, ready, ?_, rfl, shown⟩
  rw [Port.startListening, silent, if_neg Bool.false_ne_true, Port.setListening, rxPin, slot]
  simp only [if_pos, attached]
  rw [Cycle.ofTime_toNat]
  rfl

/-- Once the receiving port is started, the line carries what is sent to it. -/
theorem Laid.start_receiver {port : Port} {queue : EdgeQueue} {high : Bool}
    (laid : loopback.Laid machine (loopback.transmitter.drive.rest high {}) {} .empty
      #[⟨loopback.receivePin, queue⟩])
    (hears : loopback.Hears port)
    (capacity : queue.capacity = max loopback.receiver.edgeSlots.toNat 2) :
    ∃ after ready time, port.start machine loopback.baud = (.ok (), after, ready) ∧
      loopback.link.Shows ready { high, time } ∧
      loopback.inbox.Shows after ready
        { decoder := loopback.decoder.reset (Cycle.ofTime time), bytes := [], edges := [], time } := by
  obtain ⟨bytes, reception, room⟩ := hears.reception
  have prepared : port.startEnablePin machine = (.ok (), port, machine) := by
    rw [Port.startEnablePin, hears.enablePin, hears.without]
  obtain ⟨claimer, claimed, bound⟩ := laid.claim
  have slotted : port.startSlot machine =
      (.ok (), { port with slot := some Slots.first }, claimer) := by
    rw [Port.startSlot, hears.slotless, reception]
    simp only [claimed]
  obtain ⟨opened, emptied, received, shape, line⟩ := bound.startReception
    ({ port with slot := some Slots.first }.withSpeed loopback.baud loopback.transmitter.bitPeriod)
    hears.rxPin reception
  have unsent (decoder : Decoder) (machine : Machine) :
      Port.startSending { opened with losses := {}, decoder } machine = machine := by
    rw [Port.startSending, shape]
    simp only [Port.withSpeed, hears.txPin]
  obtain ⟨time, after, ready, listening, final, shown⟩ := line.readClock.startListening
    (EdgeQueue.toList_discard _) rfl capacity
    { opened with losses := {}, decoder := opened.decoder.reset emptied.readClock.1 }
    (by rw [shape]; exact hears.rxPin) (by rw [shape]; rfl) (by rw [shape]; exact hears.silent)
  rw [Port.start, laid.periodFor, hears.refused]
  simp only [prepared, slotted, received, unsent, listening]
  refine ⟨_, _, time, rfl, shown.write _ _, ⟨bytes.clear, ?_, rfl, ?_⟩, ?_, ?_, shown.timebase,
    shown.rate, shown.clock, shown.queue⟩
  · rw [final, shape]
    rfl
  · rw [Ring.capacity_clear, room]
    rfl
  · rw [final, shape]
    exact (Decoder.reset_withPeriod _ _ _ _).trans (by rw [hears.polarity]; rfl)
  · rw [final]

end Loopback
end PinUart
