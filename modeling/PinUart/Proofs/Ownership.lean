import PinUart.Proofs.Listening

/-! Interrupts of a world in which only ports attach handlers and use the slot table:
wherever a handler is entered, it leads to a live port that holds the slot and receives
on that pin. -/
namespace PinUart

/-- Operations that neither attach or detach a handler nor bind or free a slot. -/
def Machine.Operation.sparesInterrupts : Machine.Operation → Bool
  | .attach .. | .detach _ | .claim _ | .release _ | .attachSlot .. => false
  | _ => true

/-- Operations that leave handlers and slots to the ports. -/
def World.Operation.sparesInterrupts : World.Operation → Bool
  | .machine operation => operation.sparesInterrupts
  | .tap _ operation => operation != .claim
  | _ => true

theorem Machine.quiet_perform (machine : Machine) {operation : Machine.Operation}
    (spares : operation.sparesInterrupts) : machine.Quiet (machine.perform operation).2 := by
  cases operation with
  | connect one other => exact machine.quiet_connect one other
  | inject pin level => exact machine.quiet_inject pin level
  | forceMessage pin data bitPeriod invert => exact machine.quiet_forceHolds pin _
  | advance cycles => exact machine.quiet_advance cycles
  | setDirection pin direction => exact machine.quiet_setDirection pin direction
  | setPull pin pull => exact machine.quiet_setPull pin pull
  | setOutput pin high => exact machine.quiet_setOutput pin high
  | readClock => exact machine.quiet_readClock
  | sleep micros => exact machine.quiet_sleep micros
  | mask => exact machine.quiet_mask
  | unmask => exact machine.quiet_unmask
  | forgetTransitions => exact .of_board machine (.of_eq (fun _ => rfl) rfl)
  | queueFault fault => exact ⟨.refl _, rfl, fun _ _ found => found⟩
  | dispatch slot | entry slot =>
    unfold perform
    dsimp only
    split
    · exact .refl machine
    · exact machine.quiet_dispatch _
  | level | rate | isMasked | isUsable | hasHandler | direction | transitions | isBound
  | slotTally => exact .refl machine
  | attach | detach | claim | release | attachSlot => cases spares

theorem Machine.quiet_performTap (machine : Machine) (index : Nat) {operation : Tap.Operation}
    (spares : operation ≠ .claim) : machine.Quiet (machine.performTap index operation).2 := by
  cases operation with
  | takeEdge => exact machine.quiet_captureEdge index
  | claim => exact absurd rfl spares
  | pop => exact machine.quiet_popEdge index
  | report => exact machine.quiet_captureReport index

namespace Port

theorem moves_perform (port : Port) (machine : Machine) (operation : Operation) :
    port.Moves machine (port.perform machine operation).2 := by
  cases operation with
  | start baud => exact port.moves_start machine baud
  | stop => exact port.moves_stop machine
  | setSpeed baud => exact (port.idles_setSpeed machine baud).moves
  | read => exact (port.idles_read machine).moves
  | peek => exact (port.idles_peek machine).moves
  | available => exact (port.idles_available machine).moves
  | drain => exact (port.idles_drainWith machine _).moves
  | flush => exact (port.idles_flush machine).moves
  | write data => exact port.moves_write machine data
  | anyLost => exact (port.idles_takeLosses machine).moves
  | takeLosses => exact (port.idles_takeLosses machine).moves
  | serve => exact (port.idles_serve machine).moves
  | turnLine on => exact port.moves_turnLine machine on
  | setListening on => exact (Move.listen port machine on).moves
  | useEnablePin pin => exact (port.idles_useEnablePin machine pin).moves
  | setCallback | setInterruptible | report | describe =>
    exact Idles.moves ⟨rfl, .refl machine⟩

theorem goes_perform (port : Port) (machine : Machine) (operation : Operation) :
    port.Goes machine (port.perform machine operation).2 :=
  (port.moves_perform machine operation).goes

/-- A port that was stopped holds no slot. -/
theorem slot_stop (port : Port) (machine : Machine) : (port.stop machine).1.slot = none := by
  unfold stop
  split
  · rename_i idle
    simpa using (Bool.and_eq_true_iff.mp idle).2
  · dsimp only
    unfold giveSlotBack
    split
    · assumption
    · rfl

/-- A capture that was added is on its pin, and is none of those before. -/
theorem reserveBuffers_capture (machine : Machine) (config : Config) (pin : Pin) :
    machine.Quiet (reserveBuffers machine config pin).2 ∧
      ∀ reception, (reserveBuffers machine config pin).1 = .ok reception →
        machine.captures.size = reception.capture ∧
          (reserveBuffers machine config pin).2.capturePin? reception.capture = some pin := by
  unfold reserveBuffers
  split
  · exact ⟨machine.quiet_write _ _, fun _ refused => by cases refused⟩
  · split
    · exact ⟨machine.quiet_write _ _, fun _ refused => by cases refused⟩
    · rename_i queue _ _ bytes _
      refine ⟨machine.quiet_addCapture pin queue, ?_⟩
      rintro reception ⟨⟩
      refine ⟨rfl, ?_⟩
      unfold Machine.capturePin? Machine.addCapture
      rw [Array.getElem?_push_size]
      rfl

/-- A new port has a capture of its own, on its receive pin, or none. -/
theorem create_stake (machine : Machine) (config : Config) :
    machine.Quiet (create machine config).2 ∧
      (create machine config).1.stake.slot = none ∧
      ∀ index, (create machine config).1.stake.capture = some index →
        machine.captures.size = index ∧ ∃ pin, (create machine config).1.stake.rxPin = some pin ∧
          (create machine config).2.capturePin? index = some pin := by
  have quiet : machine.Quiet (noteUnusablePins machine config) := by
    unfold noteUnusablePins
    split
    · exact .refl machine
    · exact machine.quiet_write _ _
  have same : (noteUnusablePins machine config).captures = machine.captures ∧
      (noteUnusablePins machine config).board = machine.board := by
    unfold noteUnusablePins
    split <;> exact ⟨rfl, rfl⟩
  unfold create openReception
  generalize noteUnusablePins machine config = noted at quiet same ⊢
  rw [← same.1]
  unfold usablePins
  rw [same.2]
  cases config.rxPin.filter machine.board.isUsable with
  | none => exact ⟨quiet, rfl, fun _ without => by cases without⟩
  | some pin =>
    obtain ⟨calm, fresh⟩ := reserveBuffers_capture noted config pin
    dsimp only
    cases reserved : reserveBuffers noted config pin with
    | mk result after =>
      rw [reserved] at calm fresh
      cases result with
      | error requested => exact ⟨quiet.trans calm, rfl, fun _ without => by cases without⟩
      | ok reception =>
        obtain ⟨next, placed⟩ := fresh reception rfl
        refine ⟨quiet.trans calm, rfl, ?_⟩
        rintro index ⟨⟩
        exact ⟨next, pin, rfl, placed⟩

end Port

/-- Steps of the owner of another capture keep a stake sound. -/
theorem Stake.Sound.elsewhere {stake : Stake} {owner : Option Nat} {before after : Machine}
    (sound : stake.Sound before) (steps : Machine.Steps owner before after)
    (apart : ∀ index, owner = some index → stake.capture ≠ some index) : stake.Sound after := by
  have foreign : ∀ index, stake.capture = some index →
      ∀ other, owner = some other → Sink.capture index ≠ .capture other := by
    intro index capture other own same
    cases same
    exact apart index own capture
  refine ⟨Machine.Steps.routed steps sound.routed, ?_, sound.held, ?_, ?_⟩
  · intro index capture
    obtain ⟨pin, same, placed⟩ := sound.placed index capture
    exact ⟨pin, same, Machine.Steps.pins steps placed⟩
  · intro index slot capture
    exact (Machine.Steps.sink? steps slot (foreign index capture)).trans
      (sound.bound index slot capture)
  · intro silent slot own
    obtain ⟨index, capture⟩ := sound.held slot own
    exact Machine.Steps.unheard steps ((sound.bound index slot capture).mpr own)
      (foreign index capture) (sound.unheard silent slot own)

namespace World

/-- Every port is sound, no two share a capture, and every bound slot is held by the port
whose capture it leads to. -/
structure Sound (world : World) : Prop where
  routed : world.machine.Routed
  ports : ∀ index port, world.port? index = some port → port.stake.Sound world.machine
  apart : ∀ one other first second capture, world.port? one = some first →
    world.port? other = some second → first.stake.capture = some capture →
    second.stake.capture = some capture → one = other
  owned : ∀ slot sink, world.machine.slots.sink? slot = some sink →
    ∃ index port capture, world.port? index = some port ∧
      port.stake.capture = some capture ∧ sink = .capture capture

variable {world : World} {port : Port} {index : Nat}

theorem lt_of_port? (live : world.port? index = some port) : index < world.ports.size := by
  have found : world.ports[index]? = some (some port) := Option.join_eq_some_iff.mp live
  exact (Array.getElem?_eq_some_iff.mp found).1

theorem port?_setIfInBounds (live : world.port? index = some port) (kept : Option Port)
    (other : Nat) : ((world.ports.setIfInBounds index kept)[other]?).join =
      if index = other then kept else world.port? other := by
  have inside := lt_of_port? live
  rw [Array.getElem?_setIfInBounds]
  split
  · rfl
  · rfl

/-- What the ports do not take part in keeps a world sound, if the machine stays quiet. -/
theorem Sound.quiet {after : World} (sound : world.Sound) (ports : after.ports = world.ports)
    (quiet : world.machine.Quiet after.machine) : after.Sound := by
  have same : after.port? = world.port? := by
    unfold port?
    rw [ports]
  refine ⟨(@Machine.Step.quiet none _ _ quiet).routed sound.routed, ?_, ?_, ?_⟩
  · rw [same]
    intro index port live
    exact (sound.ports index port live).quiet quiet
  · rw [same]
    exact sound.apart
  · rw [same, quiet.slots]
    exact sound.owned

section

variable {gone : Port} {kept : Option Port}

/-- A port that is there after one of them went on, or left, is that one or is as it was. -/
theorem settled_cases (live : world.port? index = some port)
    (same : kept = some gone ∨ kept = none ∧ gone.slot = none) {other : Nat} {found : Port}
    (there : ((world.ports.setIfInBounds index kept)[other]?).join = some found) :
    index = other ∧ found = gone ∨ index ≠ other ∧ world.port? other = some found := by
  rw [port?_setIfInBounds live] at there
  split at there
  · rename_i this
    rcases same with rfl | ⟨rfl, -⟩
    · exact .inl ⟨this, (Option.some.inj there).symm⟩
    · cases there
  · rename_i different
    exact .inr ⟨different, there⟩

/-- The capture of a port that is there afterwards was its own before. -/
theorem settled_origin (live : world.port? index = some port)
    (same : kept = some gone ∨ kept = none ∧ gone.slot = none)
    (capture : gone.stake.capture = port.stake.capture) {other : Nat} {found : Port}
    (there : ((world.ports.setIfInBounds index kept)[other]?).join = some found) :
    ∃ old, world.port? other = some old ∧ found.stake.capture = old.stake.capture := by
  rcases settled_cases live same there with ⟨rfl, rfl⟩ | ⟨-, stayed⟩
  · exact ⟨port, live, capture⟩
  · exact ⟨found, stayed, rfl⟩

theorem settled_apart (live : world.port? index = some port)
    (same : kept = some gone ∨ kept = none ∧ gone.slot = none)
    (capture : gone.stake.capture = port.stake.capture)
    (apart : ∀ one other first second shared, world.port? one = some first →
      world.port? other = some second → first.stake.capture = some shared →
      second.stake.capture = some shared → one = other)
    (one other : Nat) (first second : Port) (shared : Nat)
    (left : ((world.ports.setIfInBounds index kept)[one]?).join = some first)
    (right : ((world.ports.setIfInBounds index kept)[other]?).join = some second)
    (own : first.stake.capture = some shared) (theirs : second.stake.capture = some shared) :
    one = other := by
  obtain ⟨before, lived, stays⟩ := settled_origin live same capture left
  obtain ⟨earlier, there, stay⟩ := settled_origin live same capture right
  exact apart one other before earlier shared lived there (stays ▸ own) (stay ▸ theirs)

/-- A slot leads to a port that is there afterwards, if it did so before or is held by the one
that went on. -/
theorem settled_bound {slots later : Slots} (live : world.port? index = some port)
    (same : kept = some gone ∨ kept = none ∧ gone.slot = none)
    (capture : gone.stake.capture = port.stake.capture)
    (bound : ∀ slot sink, slots.sink? slot = some sink → ∃ index port shared,
      world.port? index = some port ∧ port.stake.capture = some shared ∧ sink = .capture shared)
    (holds : ∀ slot shared, port.stake.capture = some shared →
      later.sink? slot = some (.capture shared) → gone.slot = some slot)
    (foreign : ∀ slot sink, (∀ shared, port.stake.capture = some shared → sink ≠ .capture shared) →
      later.sink? slot = some sink → slots.sink? slot = some sink)
    (slot : SlotIndex) (sink : Sink) (led : later.sink? slot = some sink) :
    ∃ other : Nat, ∃ found : Port, ∃ shared : Nat,
      ((world.ports.setIfInBounds index kept)[other]?).join = some found ∧
        found.stake.capture = some shared ∧ sink = .capture shared := by
  have lookup := port?_setIfInBounds live kept
  by_cases own : ∃ shared, port.stake.capture = some shared ∧ sink = .capture shared
  · obtain ⟨shared, mine, rfl⟩ := own
    have held := holds slot shared mine led
    refine ⟨index, gone, shared, ?_, capture.trans mine, rfl⟩
    rcases same with rfl | ⟨-, without⟩
    · exact (lookup index).trans (if_pos rfl)
    · cases without.symm.trans held
  · have others : ∀ shared, port.stake.capture = some shared → sink ≠ .capture shared :=
      fun shared mine equal => own ⟨shared, mine, equal⟩
    obtain ⟨other, found, shared, stayed, theirs, rfl⟩ := bound slot sink
      (foreign slot sink others led)
    refine ⟨other, found, shared, (lookup other).trans ?_, theirs, rfl⟩
    rw [if_neg]
    · exact stayed
    · rintro rfl
      cases live.symm.trans stayed
      exact others shared theirs rfl

end

/-- A world stays sound when one of its ports goes on, or leaves without a slot. -/
theorem Sound.settle {after : Port × Machine} (sound : world.Sound)
    (live : world.port? index = some port) (goes : port.Goes world.machine after)
    (kept : Option Port) (same : kept = some after.1 ∨ kept = none ∧ after.1.slot = none) :
    { world with
      machine := after.2
      ports := world.ports.setIfInBounds index kept }.Sound := by
  obtain ⟨mine, capture, steps⟩ := goes (sound.ports index port live)
  refine ⟨Machine.Steps.routed steps sound.routed, ?_,
    settled_apart live same capture sound.apart,
    settled_bound live same capture sound.owned ?_ ?_⟩
  · intro other found there
    rcases settled_cases live same there with ⟨rfl, rfl⟩ | ⟨different, stayed⟩
    · exact mine
    · refine (sound.ports other found stayed).elsewhere steps ?_
      intro shared own theirs
      exact different (sound.apart index other port found shared live stayed own theirs)
  · intro slot shared own bound
    exact (mine.bound shared slot (capture.trans own)).mp bound
  · intro slot sink others bound
    exact (Machine.Steps.sink? steps slot others).mp bound

theorem port?_openPort (config : Config) : (world.openPort config).2.port? index =
    if index = world.ports.size then some (Port.create world.machine config).1
    else world.port? index := by
  unfold World.openPort World.port?
  rw [Array.getElem?_push]
  split
  · rfl
  · rfl

theorem Sound.capture_lt {capture : Nat} (sound : world.Sound)
    (live : world.port? index = some port) (own : port.stake.capture = some capture) :
    capture < world.machine.captures.size := by
  obtain ⟨pin, -, placed⟩ := (sound.ports index port live).placed capture own
  obtain ⟨found, inside, -⟩ := Option.map_eq_some_iff.mp placed
  exact (Array.getElem?_eq_some_iff.mp inside).1

/-- No slot leads to a capture that is still to be made. -/
theorem Sound.sink?_ne_next (sound : world.Sound) (slot : SlotIndex) :
    world.machine.slots.sink? slot ≠ some (.capture world.machine.captures.size) := by
  intro bound
  obtain ⟨index, port, capture, live, own, same⟩ := sound.owned slot _ bound
  cases same
  exact Nat.lt_irrefl _ (sound.capture_lt live own)

/-- A port that has just been made is sound: it holds no slot, and its capture is new. -/
theorem Sound.create (sound : world.Sound) (config : Config) :
    (Port.create world.machine config).1.stake.Sound (Port.create world.machine config).2 := by
  obtain ⟨quiet, free, fresh⟩ := Port.create_stake world.machine config
  refine ⟨(@Machine.Step.quiet none _ _ quiet).routed sound.routed,
    fun capture own => (fresh capture own).2, ?_, ?_, ?_⟩
  · intro slot holds
    cases free.symm.trans holds
  · intro capture slot own
    obtain ⟨rfl, -⟩ := fresh capture own
    rw [free]
    constructor
    · intro bound
      exact absurd (quiet.slots ▸ bound) (sound.sink?_ne_next slot)
    · intro holds
      cases holds
  · intro _ slot holds
    cases free.symm.trans holds

theorem Sound.openPort (sound : world.Sound) (config : Config) :
    (world.openPort config).2.Sound := by
  obtain ⟨quiet, free, fresh⟩ := Port.create_stake world.machine config
  have made := sound.create config
  refine ⟨made.routed, ?_, ?_, ?_⟩
  · intro index port live
    rw [port?_openPort] at live
    split at live
    · cases live
      exact made
    · exact (sound.ports index port live).quiet quiet
  · intro one other first second capture left right own theirs
    rw [port?_openPort] at left right
    split at left <;> split at right
    · rename_i last also
      exact last.trans also.symm
    · cases left
      have := sound.capture_lt right theirs
      have := (fresh capture own).1
      omega
    · cases right
      have := sound.capture_lt left own
      have := (fresh capture theirs).1
      omega
    · exact sound.apart one other first second capture left right own theirs
  · intro slot sink bound
    obtain ⟨index, port, capture, live, own, same⟩ := sound.owned slot sink (quiet.slots ▸ bound)
    have inside := lt_of_port? live
    refine ⟨index, port, capture, ?_, own, same⟩
    rw [port?_openPort, if_neg (by omega)]
    exact live

/-- An operation is one on the machine, or quiet, or opens a port, or is the work of one port, which
may leave. -/
theorem perform_cases (world : World) {operation : Operation}
    (unclaimed : ∀ index, operation ≠ .tap index .claim) :
    (∃ own, operation = .machine own) ∨
      ((world.perform operation).2.ports = world.ports ∧
        world.machine.Quiet (world.perform operation).2.machine) ∨
      (∃ config, (world.perform operation).2 = (world.openPort config).2) ∨
      ∃ index port after kept, world.port? index = some port ∧
        port.Moves world.machine after ∧
        (kept = some after.1 ∨ kept = none ∧ after.1.slot = none) ∧
        (world.perform operation).2 =
          { world with
            machine := after.2
            ports := world.ports.setIfInBounds index kept } := by
  cases operation with
  | machine own => exact .inl ⟨own, rfl⟩
  | openPort config => exact .inr (.inr (.inl ⟨config, rfl⟩))
  | closePort index =>
    unfold perform closePort
    dsimp only
    cases live : world.port? index with
    | none => exact .inr (.inl ⟨rfl, .refl _⟩)
    | some port =>
      exact .inr (.inr (.inr ⟨index, port, port.stop world.machine, none, live,
        port.moves_stop world.machine, .inr ⟨rfl, port.slot_stop world.machine⟩, rfl⟩))
  | port index operation =>
    unfold perform performPort
    dsimp only
    cases live : world.port? index with
    | none => exact .inr (.inl ⟨rfl, .refl _⟩)
    | some port =>
      exact .inr (.inr (.inr ⟨index, port, (port.perform world.machine operation).2, _, live,
        port.moves_perform world.machine operation, .inl rfl, rfl⟩))
  | openTap pin capacity =>
    unfold perform openTap
    dsimp only
    cases EdgeQueue.reserve capacity with
    | error refusal => exact .inr (.inl ⟨rfl, .refl _⟩)
    | ok queue => exact .inr (.inl ⟨rfl, world.machine.quiet_addCapture pin queue⟩)
  | tap index operation =>
    unfold perform performTap
    dsimp only
    cases world.taps[index]? with
    | none => exact .inr (.inl ⟨rfl, .refl _⟩)
    | some capture =>
      have spares : operation ≠ .claim := fun claims => unclaimed index (claims ▸ rfl)
      exact .inr (.inl ⟨rfl, world.machine.quiet_performTap capture spares⟩)
  | send index pin data =>
    unfold perform
    dsimp only
    cases world.transmitters[index]? with
    | none => exact .inr (.inl ⟨rfl, .refl _⟩)
    | some transmitter => exact .inr (.inl ⟨rfl, transmitter.quiet_send world.machine pin data⟩)
  | addTransmitter | setInterruptible | setBitPeriod => exact .inr (.inl ⟨rfl, .refl _⟩)
  | transmitterReport index | plan index data =>
    unfold perform
    dsimp only
    split <;> exact .inr (.inl ⟨rfl, .refl _⟩)

/-- What one operation preserves, and how it gets there. -/
theorem Sound.perform (sound : world.Sound) {operation : Operation}
    (spares : operation.sparesInterrupts) :
    (world.perform operation).2.Sound ∧
      ∃ owner, Machine.Steps owner world.machine (world.perform operation).2.machine := by
  have unclaimed : ∀ index, operation ≠ .tap index .claim := by
    rintro index rfl
    exact Bool.false_ne_true spares
  rcases world.perform_cases unclaimed with ⟨own, rfl⟩ | ⟨ports, quiet⟩ | ⟨config, same⟩ |
    ⟨index, port, after, kept, live, moves, stays, same⟩
  · have quiet : world.machine.Quiet _ := world.machine.quiet_perform spares
    exact ⟨sound.quiet rfl quiet, none, .of_quiet quiet⟩
  · exact ⟨sound.quiet ports quiet, none, .of_quiet quiet⟩
  · rw [same]
    exact ⟨sound.openPort config, none,
      .of_quiet (Port.create_stake world.machine config).1⟩
  · rw [same]
    have goes := moves.goes
    exact ⟨sound.settle live goes kept stays, _, (goes (sound.ports index port live)).2.2⟩

/-- What a whole run preserves. -/
theorem Sound.run (sound : world.Sound) {operations : List Operation}
    (spare : ∀ operation ∈ operations, operation.sparesInterrupts) :
    (world.run operations).2.Sound := by
  induction operations generalizing world with
  | nil => exact sound
  | cons operation operations ih =>
    have next := (sound.perform (spare operation (by simp))).1
    exact ih next fun other member => spare other (by simp [member])

/-- Nothing is attached or pending, no slot is bound, and there are no ports. -/
structure Fresh (world : World) : Prop where
  ports : world.ports = #[]
  unheard : ∀ pin handler, ¬ world.machine.board.Reaches pin handler
  unbound : ∀ slot, world.machine.slots.sink? slot = none

theorem Fresh.sound (fresh : world.Fresh) : world.Sound := by
  have without : ∀ index, world.port? index = none := by
    intro index
    unfold port?
    rw [fresh.ports]
    rfl
  refine ⟨fun pin handler entered => absurd entered (fresh.unheard pin handler), ?_, ?_, ?_⟩
  · intro index port live
    cases (without index).symm.trans live
  · intro one _ _ _ _ live
    cases (without one).symm.trans live
  · intro slot sink bound
    cases (fresh.unbound slot).symm.trans bound

/-- Wherever ports are the only ones to use slots and handlers, every handler that an edge
can enter, or that is pending, is the entry of a slot that a live port holds, bound to the
capture of that port, which is on the pin. The next operation, too, releases a slot only
once nothing leads to it, and attaches only what leads to its owner. -/
theorem run_leads_to_owner {operations : List Operation} (fresh : world.Fresh)
    (spare : ∀ operation ∈ operations, operation.sparesInterrupts) :
    let reached := (world.run operations).2
    (∀ pin handler, reached.machine.board.Reaches pin handler →
      ∃ slot index port reception, handler = .entry slot ∧ reached.port? index = some port ∧
        port.slot = some slot ∧ port.reception = some reception ∧
        reached.machine.slots.sink? slot = some (.capture reception.capture) ∧
        reached.machine.capturePin? reception.capture = some pin) ∧
      ∀ next : Operation, next.sparesInterrupts →
        ∃ owner, Machine.Steps owner reached.machine (reached.perform next).2.machine := by
  have sound := fresh.sound.run spare
  refine ⟨?_, fun next spares => (sound.perform spares).2⟩
  intro pin handler entered
  obtain ⟨slot, capture, same, bound, placed⟩ := sound.routed pin handler entered
  obtain ⟨index, port, shared, live, own, led⟩ := sound.owned slot _ bound
  cases led
  obtain ⟨reception, held, rfl⟩ := Option.map_eq_some_iff.mp own
  have holds := ((sound.ports index port live).bound _ slot own).mp bound
  exact ⟨slot, index, port, reception, same, live, holds, held, bound, placed⟩

/-- Two ports share a pin, and the second meets a fault first. An edge comes while
interrupts are masked. -/
def sharedPin : List Operation :=
  [.openPort { rxPin := some 5, byteCapacity := 2 },
    .openPort { rxPin := some 5, byteCapacity := 2 }, .port 0 (.start 9600),
    .machine (.queueFault (.attach 5 "busy")), .port 1 (.start 9600), .port 1 (.start 9600),
    .machine .mask, .machine (.inject 5 (some false))]

/-- The pending edge of the shared pin leads to the port that attached last. -/
theorem sharedPin_leads_to_second :
    let reached := (run {} sharedPin).2
    reached.machine.board.Reaches 5 (.entry ⟨1, by decide⟩) ∧
      ∃ slot index port reception, .entry ⟨1, by decide⟩ = Handler.entry slot ∧
        reached.port? index = some port ∧ port.slot = some slot ∧
        port.reception = some reception ∧
        reached.machine.slots.sink? slot = some (.capture reception.capture) ∧
        reached.machine.capturePin? reception.capture = some 5 := by
  have fresh : Fresh {} := by
    refine ⟨rfl, ?_, Slots.sink?_empty⟩
    intro pin handler entered
    rcases entered with attached | pending
    · have without := congrArg PinState.handler (@PinMap.get_fill PinState {} pin)
      cases without.symm.trans attached
    · cases pending
  have entered : (run {} sharedPin).2.machine.board.Reaches 5 (.entry ⟨1, by decide⟩) :=
    .inr (by decide +kernel)
  exact ⟨entered, (run_leads_to_owner fresh (by decide)).1 5 _ entered⟩

end World
end PinUart
