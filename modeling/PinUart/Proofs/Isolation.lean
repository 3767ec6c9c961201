import PinUart.Proofs.Lifecycle
import PinUart.Proofs.Renewal

/-! What an earlier session has left in a receiver does not show in the next. A start empties
the rings, and from there on it does not matter where in them the elements lie. -/
namespace PinUart.World

/-- Worlds that nobody can tell apart. -/
structure Alike (one other : World) : Prop where
  machine : one.machine.Alike none other.machine
  ports : ∀ index, Option.Rel (Port.Alike none) (one.port? index) (other.port? index)
  size : other.ports.size = one.ports.size
  taps : other.taps = one.taps
  transmitters : other.transmitters = one.transmitters

variable {one other : World}

theorem Alike.refl (world : World) : world.Alike world := by
  refine ⟨.refl _, fun index => ?_, rfl, rfl, rfl⟩
  cases world.port? index with
  | none => exact .none
  | some port => exact .some (.refl port)

/-- Ports go in pairs. -/
theorem Alike.port? (alike : one.Alike other) (index : Nat) :
    (one.port? index = none ∧ other.port? index = none) ∨
      ∃ port twin, one.port? index = some port ∧ other.port? index = some twin ∧
        port.Alike none twin := by
  have pair := alike.ports index
  generalize one.port? index = first at pair ⊢
  generalize other.port? index = second at pair ⊢
  cases pair with
  | none => exact .inl ⟨rfl, rfl⟩
  | some like => exact .inr ⟨_, _, rfl, rfl, like⟩

theorem Alike.withMachine (alike : one.Alike other) {before after : Machine}
    (machine : before.Alike none after) :
    Alike { one with machine := before } { other with machine := after } :=
  ⟨machine, alike.ports, alike.size, alike.taps, alike.transmitters⟩

theorem Alike.withPort (alike : one.Alike other) {index : Nat} {port twin : Port}
    (live : one.port? index = some port) (lives : other.port? index = some twin)
    {before after : Machine} (machine : before.Alike none after) {kept double : Option Port}
    (like : Option.Rel (Port.Alike none) kept double) :
    Alike { one with machine := before, ports := one.ports.setIfInBounds index kept }
      { other with machine := after, ports := other.ports.setIfInBounds index double } := by
  refine ⟨machine, fun place => ?_, ?_, alike.taps, alike.transmitters⟩
  · have first := port?_setIfInBounds live kept place
    have second := port?_setIfInBounds lives double place
    unfold World.port? at first second ⊢
    rw [first, second]
    split
    · exact like
    · exact alike.ports place
  · simp only [Array.size_setIfInBounds, alike.size]

theorem Alike.performPort (alike : one.Alike other) (index : Nat) (operation : Port.Operation) :
    (other.performPort index operation).1 = (one.performPort index operation).1 ∧
      Alike (one.performPort index operation).2 (other.performPort index operation).2 := by
  unfold World.performPort
  obtain ⟨live, lives⟩ | ⟨port, twin, live, lives, like⟩ := alike.port? index
  · rw [live, lives]
    exact ⟨rfl, alike⟩
  · rw [live, lives]
    have twins : Port.Twins none (port, one.machine) (twin, other.machine) := ⟨like, alike.machine⟩
    obtain ⟨same, done⟩ := twins.perform operation
    exact ⟨same, alike.withPort live lives done.machine (.some done.port)⟩

theorem Alike.closePort (alike : one.Alike other) (index : Nat) :
    Alike (one.closePort index) (other.closePort index) := by
  unfold World.closePort
  obtain ⟨live, lives⟩ | ⟨port, twin, live, lives, like⟩ := alike.port? index
  · rw [live, lives]
    exact alike
  · rw [live, lives]
    have twins : Port.Twins none (port, one.machine) (twin, other.machine) := ⟨like, alike.machine⟩
    exact alike.withPort live lives twins.stop.machine .none

theorem Alike.openPort (alike : one.Alike other) (config : Config) :
    (other.openPort config).1 = (one.openPort config).1 ∧
      Alike (one.openPort config).2 (other.openPort config).2 := by
  obtain ⟨port, before, after, first, second, machine⟩ :=
    (Port.agrees_create alike.machine config).split
  refine ⟨?_, ?_, ?_, ?_, alike.taps, alike.transmitters⟩
  · unfold World.openPort
    rw [first, second]
    exact alike.size
  · unfold World.openPort
    rw [first, second]
    exact machine
  · intro index
    rw [port?_openPort, port?_openPort, first, second, alike.size]
    split
    · exact .some (.refl port)
    · exact alike.ports index
  · unfold World.openPort
    rw [first, second]
    simp only [Array.size_push, alike.size]

theorem Alike.modifyTransmitter (alike : one.Alike other) (index : Nat)
    (act : Transmitter → Transmitter) :
    Alike (one.modifyTransmitter index act) (other.modifyTransmitter index act) :=
  ⟨alike.machine, alike.ports, alike.size, alike.taps,
    congrArg (fun all : Array Transmitter => all.modify index act) alike.transmitters⟩

theorem Alike.openTap (alike : one.Alike other) (pin : Pin) (capacity : UInt64) :
    (other.openTap pin capacity).1 = (one.openTap pin capacity).1 ∧
      Alike (one.openTap pin capacity).2 (other.openTap pin capacity).2 := by
  unfold World.openTap
  split
  · exact ⟨rfl, alike⟩
  · rename_i queue _
    obtain ⟨capture, before, after, first, second, added⟩ :=
      (alike.machine.addCapture pin queue).split
    rw [first, second, alike.taps]
    exact ⟨rfl, added, alike.ports, alike.size, rfl, alike.transmitters⟩

/-- What is done next is answered alike. -/
theorem Alike.perform (alike : one.Alike other) (operation : Operation) :
    (other.perform operation).1 = (one.perform operation).1 ∧
      Alike (one.perform operation).2 (other.perform operation).2 := by
  cases operation with
  | machine operation =>
    obtain ⟨same, done⟩ := alike.machine.perform operation
    exact ⟨same, alike.withMachine done⟩
  | openPort config =>
    obtain ⟨same, opened⟩ := alike.openPort config
    exact ⟨congrArg Answer.count same, opened⟩
  | closePort index => exact ⟨rfl, alike.closePort index⟩
  | port index operation => exact alike.performPort index operation
  | openTap pin capacity => exact alike.openTap pin capacity
  | tap index operation =>
    unfold World.perform performTap
    dsimp only
    rw [alike.taps]
    split
    · exact ⟨rfl, alike⟩
    · rename_i capture _
      obtain ⟨same, done⟩ := alike.machine.performTap capture operation
      exact ⟨same, done, alike.ports, alike.size, rfl, alike.transmitters⟩
  | addTransmitter bitPeriod invert drive =>
    refine ⟨congrArg (fun all : Array Transmitter => Answer.count all.size) alike.transmitters,
      alike.machine, alike.ports, alike.size, alike.taps, ?_⟩
    exact congrArg (fun all : Array Transmitter => all.push { bitPeriod, invert, drive })
      alike.transmitters
  | setInterruptible index on => exact ⟨rfl, alike.modifyTransmitter index _⟩
  | setBitPeriod index bitPeriod => exact ⟨rfl, alike.modifyTransmitter index _⟩
  | transmitterReport index =>
    unfold World.perform
    dsimp only
    rw [alike.transmitters]
    split <;> exact ⟨rfl, alike⟩
  | plan index data =>
    unfold World.perform
    dsimp only
    rw [alike.transmitters]
    split <;> exact ⟨rfl, alike⟩
  | send index pin data =>
    unfold World.perform
    dsimp only
    rw [alike.transmitters]
    split
    · exact ⟨rfl, alike⟩
    · rename_i transmitter _
      obtain ⟨same, sent⟩ := transmitter.alike_send alike.machine pin data
      exact ⟨congrArg Answer.count same, sent, alike.ports, alike.size, alike.taps, rfl⟩

theorem Alike.run (alike : one.Alike other) (operations : List Operation) :
    (other.run operations).1 = (one.run operations).1 ∧
      Alike (one.run operations).2 (other.run operations).2 := by
  induction operations generalizing one other with
  | nil => exact ⟨rfl, alike⟩
  | cons operation operations ih =>
    obtain ⟨answer, done⟩ := alike.perform operation
    obtain ⟨answers, rest⟩ := ih done
    exact ⟨congrArg₂ List.cons answer answers, rest⟩

/-- What may be left over in a receiver. -/
structure Leftovers where
  queue : EdgeQueue
  bytes : ByteRing
  decoder : Decoder
  losses : Losses

/-- It is left over from this receiver: its rings have as many slots, and its decoder the same
polarity. -/
structure Leftovers.Fit (left : Leftovers) (world : World) (port : Port) (reception : Reception) :
    Prop where
  queue : ∀ capture, world.machine.captures[reception.capture]? = some capture →
    left.queue.capacity = capture.queue.capacity
  bytes : left.bytes.capacity = reception.bytes.capacity
  invert : left.decoder.invert = port.decoder.invert

/-- The world as it is with something else left over in the receiver of a port. -/
def leave (world : World) (index : Nat) (port : Port) (reception : Reception) (left : Leftovers) :
    World :=
  { world with
    machine := world.machine.modifyQueue reception.capture fun _ => left.queue
    ports := world.ports.setIfInBounds index
      (some (port.leave (some { reception with bytes := left.bytes }) left.decoder left.losses)) }

section

variable {world : World} {index : Nat} {port : Port} {reception : Reception} {left : Leftovers}

theorem Leftovers.Fit.twins (fits : left.Fit world port reception)
    (held : port.reception = some reception) :
    Port.Twins (some reception.capture) (port, world.machine)
      (port.leave (some { reception with bytes := left.bytes }) left.decoder left.losses,
        world.machine.modifyQueue reception.capture fun _ => left.queue) := by
  refine ⟨.intro ?_ fits.invert (fun none => by cases none), ?_⟩
  · rw [held]
    exact .some ⟨rfl, fits.bytes, fun kept => absurd (by simp) kept⟩
  · exact world.machine.alike_spared reception.capture left.queue fits.queue

theorem port?_leave (live : world.port? index = some port) :
    (world.leave index port reception left).port? index =
      some (port.leave (some { reception with bytes := left.bytes }) left.decoder left.losses) :=
  (port?_setIfInBounds live _ index).trans (if_pos rfl)

theorem performPort_eq (live : world.port? index = some port) (own : Port.Operation) :
    world.perform (.port index own) =
      ((port.perform world.machine own).1,
        { world with
          machine := (port.perform world.machine own).2.2
          ports := world.ports.setIfInBounds index
            (some (port.perform world.machine own).2.1) }) := by
  unfold perform performPort
  dsimp only
  rw [live]

/-- A start is answered alike, and if it succeeds nobody can tell the worlds apart after it. -/
theorem leave_start (live : world.port? index = some port) (placed : port.rxPin.isSome)
    (held : port.reception = some reception) (fits : left.Fit world port reception)
    (baud : UInt32) :
    ((world.leave index port reception left).perform (.port index (.start baud))).1 =
        (world.perform (.port index (.start baud))).1 ∧
      ((world.perform (.port index (.start baud))).1 = .done →
        (world.perform (.port index (.start baud))).2.Alike
          ((world.leave index port reception left).perform (.port index (.start baud))).2) := by
  obtain ⟨same, started⟩ := (fits.twins held).start baud (by
    rintro _ ⟨⟩
    exact ⟨placed, reception, held, rfl⟩)
  rw [performPort_eq live, performPort_eq (port?_leave live)]
  refine ⟨congrArg Answer.ofResult same, fun done => ?_⟩
  have succeeded : (port.start world.machine baud).1 = .ok () := by
    change Answer.ofResult (port.start world.machine baud).1 = .done at done
    generalize (port.start world.machine baud).1 = result at done
    cases result with
    | error failure => cases done
    | ok => rfl
  obtain ⟨twin, machine⟩ := started (.inr succeeded)
  have alike := (Alike.refl world).withPort live live machine (.some twin)
  unfold leave
  dsimp only
  rw [Array.setIfInBounds_setIfInBounds]
  exact alike

/-- Nothing of an earlier session shows after a start. Whatever was left over in a receiver, the
start is answered alike, and if it succeeds, so is everything that comes later. -/
theorem run_isolates (live : world.port? index = some port) (placed : port.rxPin.isSome)
    (held : port.reception = some reception) (fits : left.Fit world port reception)
    (baud : UInt32) :
    let first := world.perform (.port index (.start baud))
    let second := (world.leave index port reception left).perform (.port index (.start baud))
    second.1 = first.1 ∧
      (first.1 = .done → ∀ operations,
        (second.2.run operations).1 = (first.2.run operations).1 ∧
          (second.2.run operations).2.machine.board = (first.2.run operations).2.machine.board ∧
          (second.2.run operations).2.machine.events =
            (first.2.run operations).2.machine.events ∧
          (second.2.run operations).2.machine.log = (first.2.run operations).2.machine.log) := by
  obtain ⟨same, alike⟩ := leave_start live placed held fits baud
  refine ⟨same, fun done operations => ?_⟩
  obtain ⟨answers, later⟩ := (alike done).run operations
  exact ⟨answers, later.machine.board, later.machine.events, later.machine.log⟩

end

/-- A session that was stopped in the middle of a byte. -/
def brokenOff : List Operation :=
  [.openPort { rxPin := some 5, txPin := some 4, byteCapacity := 4, edgeCapacity := some 8 },
    .port 0 (.start 9600), .machine (.inject 5 (some false)), .machine (.advance 8329),
    .machine (.inject 5 (some true)), .port 0 .available, .port 0 .stop]

/-- Full rings that wrap, a loss of either kind, and a decoder at another speed in the middle of a
byte. -/
def debris : Leftovers where
  queue := ⟨⟨.replicate 8 (.ofLevel 77 false), 3, 4, by decide, by decide, by decide⟩, true⟩
  bytes := ⟨#[1, 2, 3, 4], 0, 1, by decide, by decide, by decide⟩
  decoder := { Decoder.create 333 false with phase := .receiving ⟨5, by decide⟩, register := 0x58 }
  losses := ⟨true, true⟩

theorem debris_run_isolates :
    ∃ port reception,
      (World.run {} brokenOff).2.port? 0 = some port ∧ port.rxPin.isSome ∧
      port.reception = some reception ∧ debris.Fit (World.run {} brokenOff).2 port reception ∧
      let first := (World.run {} brokenOff).2.perform (.port 0 (.start 19200))
      let second := ((World.run {} brokenOff).2.leave 0 port reception debris).perform
        (.port 0 (.start 19200))
      second.1 = .done ∧
        ∀ operations, (second.2.run operations).1 = (first.2.run operations).1 := by
  have stopped : ((World.run {} brokenOff).2.port? 0).bind (fun port =>
      port.reception.map fun reception =>
        (port.rxPin, port.decoder.invert, reception.capture, reception.bytes.capacity)) =
      some (some 5, false, 0, 4) := by
    decide +kernel
  have queues : (World.run {} brokenOff).2.machine.captures.map (·.queue.capacity) = #[8] := by
    decide +kernel
  have restarted : ((World.run {} brokenOff).2.perform (.port 0 (.start 19200))).1 = .done := by
    decide +kernel
  simp only [Option.bind_eq_some_iff, Option.map_eq_some_iff] at stopped
  obtain ⟨port, live, reception, held, same⟩ := stopped
  injection same with pin same
  injection same with invert same
  injection same with capture bytes
  have placed : port.rxPin.isSome := by rw [pin]; rfl
  have fits : debris.Fit (World.run {} brokenOff).2 port reception := by
    refine ⟨fun kept known => ?_, bytes.symm, invert.symm⟩
    have eight := congrArg (fun all : Array Nat => all[reception.capture]?) queues
    rw [Array.getElem?_map, known, capture] at eight
    exact (Option.some.inj eight).symm
  obtain ⟨same, later⟩ := run_isolates live placed held fits 19200
  exact ⟨port, reception, live, placed, held, fits, same.trans restarted,
    fun operations => (later restarted operations).1⟩

end PinUart.World
