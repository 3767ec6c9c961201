import PinUart.Proofs.Rig
import PinUart.Proofs.Time

/-! A line from a sending pin to a pin that an interrupt watches. Of the machine that
carries it only a view matters: the level, the time without end, and the edges that wait
in the capture. What the machine does to the line, it does to the view. -/
namespace PinUart

theorem Timebase.perRead_pos (timebase : Timebase) : 1 ≤ timebase.perRead.toNat :=
  UInt32.le_iff_toNat_le.mp timebase.perRead_ge

namespace Machine

variable {machine : Machine} {timebase : Timebase} {time : Int}

theorem readClock_ofTime (clock : machine.board.clock = Cycle.ofTime time)
    (counts : machine.board.timebase = timebase) :
    machine.readClock.1 = Cycle.ofTime (time + timebase.perRead.toNat) := by
  rw [Cycle.ofTime_add_toNat, ← clock, ← counts]
  rfl

theorem clock_sleep_ofTime (clock : machine.board.clock = Cycle.ofTime time)
    (counts : machine.board.timebase = timebase) (micros : UInt32) :
    (machine.sleep micros).board.clock =
      Cycle.ofTime (time + (micros * timebase.perMicrosecond).toNat) := by
  rw [Cycle.ofTime_add_toNat, ← clock, ← counts]
  rfl

end Machine

/-- A pin with this set-up holds its line at a level. -/
structure Drive.Holds (drive : Drive) (high : Bool) (state : PinState) : Prop where
  unforced : state.forced = none
  deaf : state.handler = none
  ready : match drive with
    | .pushPull => state.direction = .output ∧ state.output = high
    | .pullUpRelease =>
      state.direction = (if high then .input else .output) ∧ state.output = false ∧
        state.pull = .up

theorem Drive.holds_rest {state : PinState} (drive : Drive) (high : Bool)
    (unforced : state.forced = none) (deaf : state.handler = none) :
    drive.Holds high (drive.rest high state) := by
  cases drive with
  | pushPull => exact ⟨unforced, deaf, rfl, rfl⟩
  | pullUpRelease => exact ⟨unforced, deaf, rfl, rfl, rfl⟩

theorem Drive.Holds.turn {drive : Drive} {high : Bool} {state : PinState}
    (holds : drive.Holds high state) (next : Bool) : drive.Holds next (drive.turn next state) := by
  cases drive with
  | pushPull => exact ⟨holds.unforced, holds.deaf, holds.ready.1, rfl⟩
  | pullUpRelease => exact ⟨holds.unforced, holds.deaf, rfl, holds.ready.2⟩

/-- The set-up of a pin that is listened to by way of a slot. -/
structure PinState.Listens (state : PinState) (slot : SlotIndex) : Prop where
  unforced : state.forced = none
  input : state.direction = .input
  pulled : state.pull = .up
  entry : state.handler = some (.entry slot)

theorem PinState.drives?_of_input {state : PinState} (unforced : state.forced = none)
    (input : state.direction = .input) : state.drives? = none := by
  unfold PinState.drives?
  rw [unforced, input]

theorem PinState.Listens.drives? {state : PinState} {slot : SlotIndex}
    (listens : state.Listens slot) : state.drives? = none :=
  PinState.drives?_of_input listens.unforced listens.input

/-- A line of two pins with its transmitter, and the way from the receiving pin to its
capture. The counter is fast enough for the line speed, and turns over slowly enough. -/
structure Link where
  timebase : Timebase
  transmitter : Transmitter
  sender : Pin
  receiver : Pin
  net : List Pin
  slot : SlotIndex
  capture : Nat
  capacity : Nat
  /-- What the captures of other lines hold. -/
  others : Array Capture
  differ : sender ≠ receiver
  joined : net = [sender, receiver] ∨ net = [receiver, sender]
  paced : 2 * timebase.perMicrosecond.toNat + 6 * timebase.perRead.toNat + 8 ≤
    transmitter.bitPeriod.toNat
  narrow : transmitter.bitPeriod.toNat ≤ 2 ^ 26

namespace Link

/-- What is seen of a line. An edge that comes while interrupts are masked waits. -/
structure View where
  high : Bool
  time : Int
  edges : List Edge := []
  masked : Bool := false
  waiting : Bool := false

/-- What a change of level does to the pins. -/
def turned (link : Link) (pins : PinMap PinState) (high : Bool) : PinMap PinState :=
  pins.modify link.sender (link.transmitter.drive.turn high)

/-- The two pins are wired to each other alone, and set up for a level. -/
structure Holds (link : Link) (board : Board) (high : Bool) : Prop where
  nets : board.nets = [link.net]
  sending : link.transmitter.drive.Holds high (board.pins.get link.sender)
  receiving : (board.pins.get link.receiver).Listens link.slot

/-- The machine carries the line as the view has it, and has lost no edge. -/
structure Shows (link : Link) (machine : Machine) (view : View) : Prop where
  wires : link.Holds machine.board view.high
  timebase : machine.board.timebase = link.timebase
  clock : machine.board.clock = Cycle.ofTime view.time
  masked : machine.board.masked = view.masked
  pending : machine.board.pending =
    if view.waiting then [(link.receiver, .entry link.slot)] else []
  rate : machine.statedRate = none
  bound : machine.slots.sink? link.slot = some (.capture link.capture)
  queue : ∃ queue, machine.captures[link.capture]? = some ⟨link.receiver, queue⟩ ∧
    queue.toList = view.edges ∧ queue.lost = false ∧ queue.capacity = link.capacity
  others : ∀ index, index ≠ link.capture → machine.captures[index]? = link.others[index]?

/-- Cycles that one reading of the counter takes. -/
def reading (link : Link) : Int := link.timebase.perRead.toNat

namespace View

/-- The counter has been read. -/
def tick (view : View) (link : Link) : View := { view with time := view.time + link.reading }

/-- The capture has taken in the level that it finds. -/
def heard (view : View) (link : Link) : View :=
  { view with
    time := view.time + link.reading
    edges := view.edges ++ [.ofLevel (Cycle.ofTime (view.time + link.reading)) view.high] }

/-- The line has been set to a level. -/
def turn (view : View) (link : Link) (high : Bool) : View :=
  if view.high = high then view
  else if view.masked then { view with high, waiting := true }
  else { view with high }.heard link

/-- Interrupts have been let in. -/
def unmask (view : View) (link : Link) : View :=
  if view.waiting then { view with masked := false, waiting := false }.heard link
  else { view with masked := false }

end View

variable {link : Link} {board : Board} {high : Bool}

theorem Holds.of_eq {after : Board} (holds : link.Holds board high)
    (nets : after.nets = board.nets) (pins : after.pins = board.pins) : link.Holds after high :=
  ⟨nets ▸ holds.nets, pins ▸ holds.sending, pins ▸ holds.receiving⟩

theorem Holds.turn (holds : link.Holds board high) (next : Bool) :
    link.Holds { board with pins := link.turned board.pins next } next := by
  refine ⟨holds.nets, ?_, ?_⟩
  · rw [turned, PinMap.get_modify_self]
    exact holds.sending.turn next
  · rw [turned, PinMap.get_modify_of_ne link.differ]
    exact holds.receiving

theorem Holds.net (holds : link.Holds board high) : board.net link.sender = link.net := by
  rw [Board.net, holds.nets]
  rcases link.joined with same | same <;> simp [same]

theorem Holds.net_receiver (holds : link.Holds board high) :
    board.net link.receiver = link.net := by
  rw [Board.net, holds.nets]
  rcases link.joined with same | same <;> simp [same]

theorem Holds.netLevel (holds : link.Holds board high) : board.netLevel link.net = high := by
  have receiving := holds.receiving.drives?
  have pulled := holds.receiving.pulled
  obtain ⟨unforced, -, ready⟩ := holds.sending
  unfold Board.netLevel
  rcases link.joined with same | same <;> rw [same] <;>
    cases found : link.transmitter.drive <;> cases high <;>
    simp_all [PinState.drives?]

theorem Holds.level (holds : link.Holds board high) : board.level link.receiver = high := by
  rw [Board.level, holds.net_receiver, holds.netLevel]

/-- An edge of the line enters the handler of the receiving pin. -/
theorem Holds.noteEdge_heard (holds : link.Holds board high) (level : Bool)
    (unmasked : board.masked = false) :
    ∃ history, board.noteEdge level link.net =
      ({ board with history }, [.entry link.slot]) := by
  rcases link.joined with same | same
  · rw [same]
    simp [Board.noteEdge, Board.notePin, holds.sending.deaf, holds.receiving.entry, unmasked]
  · rw [same]
    simp [Board.noteEdge, Board.notePin, holds.sending.deaf, holds.receiving.entry, unmasked]

/-- While interrupts are masked, the handler is left pending. -/
theorem Holds.noteEdge_held (holds : link.Holds board high) (level : Bool)
    (masked : board.masked = true) (nothing : board.pending = []) :
    ∃ history, board.noteEdge level link.net =
      ({ board with history, pending := [(link.receiver, .entry link.slot)] }, []) := by
  rcases link.joined with same | same
  · rw [same]
    simp [Board.noteEdge, Board.notePin, holds.sending.deaf, holds.receiving.entry, masked,
      nothing]
  · rw [same]
    simp [Board.noteEdge, Board.notePin, holds.sending.deaf, holds.receiving.entry, masked,
      nothing]

/-- A change of the sending pin is an edge exactly if it changes the level. -/
theorem Holds.setUp (holds : link.Holds board high) (next : Bool) :
    ∃ levels,
      let changed := { board with pins := link.turned board.pins next, levels }
      link.Holds changed next ∧
        board.setUp link.sender (link.transmitter.drive.turn next) =
          if high = next then (changed, []) else changed.noteEdge next link.net := by
  have changed := holds.turn next
  have net := changed.net
  refine ⟨board.levels.set (Board.keyPin link.net) (some next), changed.of_eq rfl rfl, ?_⟩
  rw [Board.setUp, Board.change]
  change (if _ then _ else _) = _
  rw [← turned, net, changed.netLevel, holds.net, holds.netLevel]
  by_cases same : high = next <;> simp [same]

variable {machine : Machine} {view : View}

/-- A board of the same line changes the view of it only where time and interrupts differ. -/
theorem Shows.of_board {board : Board} {next : View} (shown : link.Shows machine view)
    (wires : link.Holds board next.high) (timebase : board.timebase = machine.board.timebase)
    (clock : board.clock = Cycle.ofTime next.time) (masked : board.masked = next.masked)
    (pending : board.pending = if next.waiting then [(link.receiver, .entry link.slot)] else [])
    (edges : next.edges = view.edges) : link.Shows { machine with board } next :=
  ⟨wires, timebase.trans shown.timebase, clock, masked, pending, shown.rate, shown.bound,
    edges ▸ shown.queue, shown.others⟩

theorem reading_pos (link : Link) : 1 ≤ link.reading :=
  Int.ofNat_le.mpr link.timebase.perRead_pos

theorem Shows.readClock (shown : link.Shows machine view) :
    machine.readClock.1 = Cycle.ofTime (view.tick link).time ∧
      link.Shows machine.readClock.2 (view.tick link) := by
  have moved : machine.readClock.1 = Cycle.ofTime (view.tick link).time :=
    Machine.readClock_ofTime shown.clock shown.timebase
  refine ⟨moved, shown.of_board (shown.wires.of_eq rfl rfl) rfl moved ?_ shown.pending rfl⟩
  exact shown.masked

/-- The interrupt of the line makes its capture take in the level that it finds. -/
theorem Shows.enter (shown : link.Shows machine view)
    (room : view.edges.length + 1 < link.capacity) :
    link.Shows (machine.enter (.entry link.slot)) (view.heard link) := by
  obtain ⟨queue, found, queued, kept, capacity⟩ := shown.queue
  obtain ⟨known, same⟩ := Array.getElem?_eq_some_iff.mp found
  obtain ⟨moved, read⟩ := shown.readClock
  have entered : machine.enter (.entry link.slot) = machine.captureEdge link.capture := by
    rw [Machine.enter, Machine.dispatch, shown.bound]
    rfl
  have fits : queue.size + 1 < queue.capacity := by
    have size : queue.toList.length = queue.size := queue.ring.length_toList
    rw [← size, queued, capacity]
    exact room
  have level : machine.board.readClock.2.level link.receiver = view.high :=
    (shown.wires.of_eq rfl rfl).level
  rw [entered, Machine.captureEdge, dif_pos known, same]
  refine ⟨read.wires, read.timebase, read.clock, read.masked, read.pending, read.rate, read.bound,
    ?_, fun index apart =>
      (Array.getElem?_set_ne known (Ne.symm apart)).trans (shown.others index apart)⟩
  simp only [Capture.takeEdge, Array.getElem?_set_self]
  refine ⟨_, rfl, ?_, ?_, ?_⟩
  · rw [EdgeQueue.toList_push, if_pos fits, queued, level]
    rw [show machine.board.readClock.1 = _ from moved]
    rfl
  · rw [EdgeQueue.lost_push, EdgeQueue.push_fst, kept, decide_eq_true fits]
    rfl
  · rw [EdgeQueue.capacity_push, capacity]

/-- The line can be set to either level. -/
theorem Shows.setLine (shown : link.Shows machine view) (next : Bool)
    (room : view.edges.length + 1 < link.capacity) (settled : view.waiting = false) :
    link.Shows (machine.setLine link.sender next link.transmitter.drive) (view.turn link next) := by
  obtain ⟨levels, holds, set⟩ := shown.wires.setUp next
  have nothing : machine.board.pending = [] := by
    rw [shown.pending, settled]
    rfl
  rw [Machine.setLine_eq, set]
  unfold View.turn
  split
  · rename_i level
    subst level
    exact shown.of_board holds rfl shown.clock shown.masked shown.pending rfl
  · split
    · rename_i level masked
      obtain ⟨history, noted⟩ := holds.noteEdge_held next (shown.masked.trans masked) nothing
      rw [noted]
      exact shown.of_board (holds.of_eq rfl rfl) rfl shown.clock shown.masked rfl rfl
    · rename_i level unmasked
      have heard := shown.masked.trans (Bool.eq_false_iff.mpr unmasked)
      obtain ⟨history, noted⟩ := holds.noteEdge_heard next heard
      rw [noted]
      refine @Shows.enter link _ { view with high := next } ?_ room
      exact shown.of_board (holds.of_eq rfl rfl) rfl shown.clock shown.masked shown.pending rfl

theorem Shows.write (shown : link.Shows machine view) (level : Log.Level) (text : String) :
    link.Shows (machine.write level text) view :=
  ⟨shown.wires, shown.timebase, shown.clock, shown.masked, shown.pending, shown.rate, shown.bound,
    shown.queue, shown.others⟩

theorem Shows.mask (shown : link.Shows machine view) :
    link.Shows machine.mask { view with masked := true } :=
  shown.of_board (shown.wires.of_eq rfl rfl) rfl shown.clock rfl shown.pending rfl

theorem Shows.unmask (shown : link.Shows machine view)
    (room : view.waiting → view.edges.length + 1 < link.capacity) :
    link.Shows machine.unmask (view.unmask link) := by
  have opened : link.Shows { machine with board := machine.board.unmask.1 }
      { view with masked := false, waiting := false } :=
    shown.of_board (shown.wires.of_eq rfl rfl) rfl shown.clock rfl rfl rfl
  have same : machine.unmask = machine.settle (machine.board.unmask.1,
      machine.board.pending.map (·.2)) := rfl
  rw [same, shown.pending]
  unfold View.unmask
  split
  · rename_i waiting
    exact opened.enter (room waiting)
  · rename_i settled
    have nothing : view.waiting = false := Bool.eq_false_iff.mpr settled
    rw [nothing]
    exact opened

theorem Shows.sleep (shown : link.Shows machine view) (micros : UInt32) :
    link.Shows (machine.sleep micros)
      { view with
        time := view.time + (micros * link.timebase.perMicrosecond).toNat } := by
  refine shown.of_board (shown.wires.of_eq rfl rfl) rfl ?_ shown.masked shown.pending rfl
  exact Machine.clock_sleep_ofTime shown.clock shown.timebase micros

end Link
end PinUart
