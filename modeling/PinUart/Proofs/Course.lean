import PinUart.Proofs.Acting
import PinUart.Proofs.Lifecycle

/-! The intake of a port in the course of a run. The operations of its owner act on it as
they are told to; whatever else happens only lets edges in, while the port listens. -/
namespace PinUart

open Intake

/-- Operations that leave handlers and slots alone and enter no interrupt by hand. -/
def Machine.Operation.sparesReception : Machine.Operation → Bool
  | .dispatch _ | .entry _ => false
  | operation => operation.sparesInterrupts

/-- Operations that leave interrupts and captured edges to the ports. -/
def World.Operation.sparesReception : World.Operation → Bool
  | .machine operation => operation.sparesReception
  | .tap .. => false
  | _ => true

theorem World.Operation.sparesInterrupts_of_reception {operation : World.Operation}
    (spares : operation.sparesReception) : operation.sparesInterrupts := by
  cases operation with
  | machine operation => cases operation <;> first | rfl | cases spares
  | tap => cases spares
  | _ => rfl

theorem Machine.stirs_perform (machine : Machine) {operation : Machine.Operation}
    (spares : operation.sparesReception) : machine.Stirs (machine.perform operation).2 := by
  cases operation with
  | connect one other => exact machine.stirs_connect one other
  | inject pin level => exact machine.stirs_inject pin level
  | forceMessage pin data bitPeriod invert => exact machine.stirs_forceHolds pin _
  | advance cycles => exact machine.stirs_advance cycles
  | setDirection pin direction => exact machine.stirs_setDirection pin direction
  | setPull pin pull => exact machine.stirs_setPull pin pull
  | setOutput pin high => exact machine.stirs_setOutput pin high
  | readClock => exact machine.stirs_readClock
  | sleep micros => exact machine.stirs_sleep micros
  | mask => exact machine.stirs_mask
  | unmask => exact machine.stirs_unmask
  | forgetTransitions => exact .of_board machine (.of_eq (fun _ => rfl) rfl) rfl
  | queueFault fault => exact .single (.aside ⟨.refl _, rfl, fun _ _ found => found⟩ rfl rfl)
  | level | rate | isMasked | isUsable | hasHandler | direction | transitions | isBound
  | slotTally => exact .refl
  | attach | detach | claim | release | attachSlot | dispatch | entry => cases spares

theorem Ring.eq_empty_of_reserve {α : Type} {width : Nat} {capacity : UInt64} {filler : α}
    {ring : Ring α} (made : reserve width capacity filler = .ok ring) :
    ring = empty capacity.toNat filler := by
  unfold reserve at made
  split at made
  · cases made
  · split at made
    · cases made
    · cases made
      rfl

theorem EdgeQueue.toList_of_reserve {capacity : UInt64} {queue : EdgeQueue}
    (made : reserve capacity = .ok queue) : queue.toList = [] := by
  unfold reserve at made
  cases stored : Ring.reserve slotWidth capacity (⟨0⟩ : Edge) with
  | error refusal =>
    rw [stored] at made
    cases made
  | ok ring =>
    rw [stored] at made
    cases made
    rw [Ring.eq_empty_of_reserve stored]
    rfl

namespace Port

/-- The queues of all captures stay as they are when a port is made. -/
theorem create_queues (machine : Machine) (config : Config) :
    (create machine config).2.rate = machine.rate ∧
      ∀ index < machine.captures.size,
        (create machine config).2.queue? index = machine.queue? index := by
  have noted : (noteUnusablePins machine config).captures = machine.captures ∧
      (noteUnusablePins machine config).rate = machine.rate := by
    unfold noteUnusablePins
    split <;> exact ⟨rfl, rfl⟩
  unfold create
  dsimp only
  generalize noteUnusablePins machine config = prepared at noted ⊢
  obtain ⟨captures, rate⟩ := noted
  have same := Machine.queue?_of_captures captures
  unfold openReception
  split
  · exact ⟨rate, fun index _ => same index⟩
  · rename_i pin _
    unfold reserveBuffers
    cases EdgeQueue.reserve config.edgeSlots with
    | error refusal => exact ⟨rate, fun index _ => same index⟩
    | ok queue =>
      cases ByteRing.reserve config.byteCapacity with
      | error refusal => exact ⟨rate, fun index _ => same index⟩
      | ok bytes =>
        refine ⟨rate, fun index known => ?_⟩
        exact (prepared.queue?_addCapture pin queue (captures ▸ known)).trans (same index)

/-- The intake of a new port is empty, and does not listen. -/
theorem create_intake {machine : Machine} {config : Config} {intake : Intake}
    (found : (create machine config).1.intake? (create machine config).2 = some intake) :
    intake.queue.toList = [] ∧ intake.received = [] ∧ intake.listening = false ∧
      intake.bytes.capacity = max config.byteCapacity.toNat 2 := by
  obtain ⟨reception, queue, held, known, rfl⟩ := intake?_eq_some.mp found
  unfold create at held known
  dsimp only at held known
  generalize noteUnusablePins machine config = prepared at held known
  unfold openReception at held known
  split at held
  · cases held
  · rename_i pin usable
    rw [usable] at known
    unfold reserveBuffers at held known
    cases stored : EdgeQueue.reserve config.edgeSlots with
    | error refusal =>
      rw [stored] at held
      cases held
    | ok empty =>
      cases filled : ByteRing.reserve config.byteCapacity with
      | error refusal =>
        rw [stored, filled] at held
        cases held
      | ok bytes =>
        rw [stored, filled] at held known
        cases held
        have added : some empty = some queue :=
          (prepared.queue?_addCapture_new pin empty).symm.trans known
        cases added
        have cleared := Ring.eq_empty_of_reserve filled
        refine ⟨EdgeQueue.toList_of_reserve stored, ?_, rfl, ?_⟩
        · rw [received, cleared]
          rfl
        · rw [cleared]
          exact Ring.capacity_empty _ _

/-- The bytes that wait in the ring of a port. -/
def received (port : Port) : List UInt8 := port.reception.elim [] (·.bytes.toList)

theorem received_of_intake {port : Port} {machine : Machine} {intake : Intake}
    (found : port.intake? machine = some intake) : port.received = intake.received := by
  obtain ⟨reception, -, held, -, rfl⟩ := intake?_eq_some.mp found
  unfold received
  rw [held]
  rfl

theorem buffered_eq (port : Port) : port.buffered = port.received.length := by
  unfold buffered received
  cases port.reception with
  | none => rfl
  | some reception => exact reception.bytes.length_toList.symm

end Port

namespace World

variable {world : World} {operation : Operation} {index : Nat} {port : Port}

/-- The intake of a port. -/
def intake? (world : World) (index : Nat) : Option Intake :=
  (world.port? index).bind (·.intake? world.machine)

theorem intake?_of_live (live : world.port? index = some port) :
    world.intake? index = port.intake? world.machine := by
  unfold intake?
  rw [live]
  rfl

theorem intake?_eq_some {intake : Intake} : world.intake? index = some intake ↔
    ∃ port, world.port? index = some port ∧ port.intake? world.machine = some intake :=
  Option.bind_eq_some_iff

/-- The bytes that wait in the ring of a port. -/
def received (world : World) (index : Nat) : List UInt8 :=
  (world.port? index).elim [] Port.received

theorem received_of_live (live : world.port? index = some port) :
    world.received index = port.received := by
  unfold received
  rw [live]
  rfl

theorem received_of_intake {intake : Intake} (found : world.intake? index = some intake) :
    world.received index = intake.received := by
  obtain ⟨port, live, known⟩ := intake?_eq_some.mp found
  exact (received_of_live live).trans (Port.received_of_intake known)

/-- Whether an operation is carried out by the port of that index, or closes it. -/
def Operation.isOwn (index : Nat) : Operation → Bool
  | .closePort other => other == index
  | .port other _ => other == index
  | _ => false

/-- Operations that leave interrupts and captured edges to the ports, do not close the port of
that index, and are allowed if it carries them out. -/
def Operation.keepsTo (index : Nat) (allowed : Port.Operation → Bool) : Operation → Bool
  | .machine operation => operation.sparesReception
  | .tap .. => false
  | .closePort other => other != index
  | .port other own => other != index || allowed own
  | _ => true

theorem Operation.sparesReception_of_keepsTo {allowed : Port.Operation → Bool}
    (keeps : operation.keepsTo index allowed) : operation.sparesReception := by
  cases operation with
  | machine operation => exact keeps
  | tap => cases keeps
  | _ => rfl

theorem Operation.ne_closePort {allowed : Port.Operation → Bool}
    (keeps : operation.keepsTo index allowed) : operation ≠ .closePort index := by
  rintro rfl
  simp [keepsTo] at keeps

theorem Operation.allowed_of_keepsTo {allowed : Port.Operation → Bool} {own : Port.Operation}
    (keeps : Operation.keepsTo index allowed (.port index own)) : allowed own := by
  simpa [keepsTo] using keeps

/-- What a machine comes to when an operation is carried out: all that its owner does are
deeds, or captures are added. -/
theorem perform_machine (sound : world.Sound) (spares : operation.sparesReception) :
    (∃ owner, Machine.Deeds owner world.machine (world.perform operation).2.machine ∧
        ∀ capture, owner = some capture → ∃ index port, operation.isOwn index ∧
          world.port? index = some port ∧ port.stake.capture = some capture) ∨
      (world.perform operation).2.machine.rate = world.machine.rate ∧
        ∀ capture < world.machine.captures.size,
          (world.perform operation).2.machine.queue? capture = world.machine.queue? capture := by
  have stirs : ∀ {after : Machine}, world.machine.Stirs after →
      ∃ owner, Machine.Deeds owner world.machine after ∧
        ∀ capture, owner = some capture → ∃ index port, operation.isOwn index ∧
          world.port? index = some port ∧ port.stake.capture = some capture :=
    fun stirs => ⟨none, stirs.deeds, fun _ own => by cases own⟩
  cases operation with
  | machine operation => exact .inl (stirs (world.machine.stirs_perform spares))
  | openPort config => exact .inr (Port.create_queues world.machine config)
  | closePort index =>
    unfold perform closePort
    dsimp only
    cases live : world.port? index with
    | none => exact .inl (stirs .refl)
    | some port =>
      refine .inl ⟨port.stake.capture, (port.does_stop _ (sound.ports index port live)).1, ?_⟩
      exact fun capture own => ⟨index, port, beq_self_eq_true index, live, own⟩
  | port index operation =>
    unfold perform performPort
    dsimp only
    cases live : world.port? index with
    | none => exact .inl (stirs .refl)
    | some port =>
      refine .inl ⟨port.stake.capture,
        (port.does_perform _ operation (sound.ports index port live)).1, ?_⟩
      exact fun capture own => ⟨index, port, beq_self_eq_true index, live, own⟩
  | openTap pin capacity =>
    unfold perform openTap
    dsimp only
    cases EdgeQueue.reserve capacity with
    | error refusal => exact .inl (stirs .refl)
    | ok queue =>
      exact .inr ⟨rfl, fun capture known => world.machine.queue?_addCapture pin queue known⟩
  | send index pin data =>
    unfold perform
    dsimp only
    cases world.transmitters[index]? with
    | none => exact .inl (stirs .refl)
    | some transmitter => exact .inl (stirs (transmitter.stirs_send world.machine pin data))
  | addTransmitter | setInterruptible | setBitPeriod => exact .inl (stirs .refl)
  | transmitterReport | plan =>
    unfold perform
    dsimp only
    split <;> exact .inl (stirs .refl)
  | tap => cases spares

theorem rate_perform (sound : world.Sound) (spares : operation.sparesReception) :
    (world.perform operation).2.machine.rate = world.machine.rate := by
  rcases world.perform_machine sound spares with ⟨owner, deeds, -⟩ | ⟨rate, -⟩
  · exact Machine.Deeds.rate deeds
  · exact rate

/-- A port that an operation does not concern stays as it is. -/
theorem port?_of_elsewhere (world : World) (elsewhere : operation.isOwn index = false)
    (live : world.port? index = some port) :
    (world.perform operation).2.port? index = some port := by
  rw [port?_follow]
  unfold Operation.follow
  cases operation with
  | openPort config =>
    have inside := lt_of_port? live
    dsimp only
    rw [if_neg (by omega)]
    exact live
  | closePort other | port other own =>
    dsimp only
    rw [if_neg (beq_eq_false_iff_ne.mp elsewhere)]
    exact live
  | machine | openTap | tap | addTransmitter | setInterruptible | setBitPeriod
  | transmitterReport | plan | send => exact live

/-- What an operation that does not concern a port does to its intake. -/
theorem intake?_of_elsewhere (sound : world.Sound) (spares : operation.sparesReception)
    (elsewhere : operation.isOwn index = false) (live : world.port? index = some port)
    {before : Intake} (found : port.intake? world.machine = some before) :
    ∃ actions, OnlyEdges actions ∧ before.Legal actions ∧
      port.intake? (world.perform operation).2.machine = some (before.run actions).2 := by
  obtain ⟨reception, -, held, -⟩ := Port.intake?_eq_some.mp found
  have own := Port.stake_capture held
  have fed : Machine.Fed reception.capture world.machine (world.perform operation).2.machine := by
    rcases world.perform_machine sound spares with ⟨owner, deeds, theirs⟩ | ⟨-, same⟩
    · refine Machine.Deeds.fed deeds ?_
      intro shared
      obtain ⟨other, found, concerned, there, captured⟩ := theirs _ shared
      cases sound.apart other index found port _ there live captured own
      rw [elsewhere] at concerned
      cases concerned
    · exact .of_same (same _ (sound.capture_lt live own))
  obtain ⟨actions, only, acts⟩ := Port.acts_of_fed (sound.ports index port live) held fed
  exact ⟨actions, only, acts before found⟩

/-- A port that is not closed stays, as it is or with one operation carried out. -/
theorem perform_live (stays : operation ≠ .closePort index)
    (live : world.port? index = some port) :
    ∃ after, (world.perform operation).2.port? index = some after ∧
      (after = port ∨
        ∃ own, operation = .port index own ∧ after = (port.perform world.machine own).2.1) := by
  cases concerned : operation.isOwn index with
  | false => exact ⟨port, world.port?_of_elsewhere concerned live, .inl rfl⟩
  | true =>
    cases operation with
    | closePort other => exact absurd (congrArg Operation.closePort (eq_of_beq concerned)) stays
    | port other own =>
      cases eq_of_beq concerned
      exact ⟨_, (perform_port live own).1, .inr ⟨own, rfl, rfl⟩⟩
    | _ => cases concerned

/-- The actions that an operation of the world comes to for one port. -/
def Operation.Fits (index : Nat) (mode : LineMode) (actions : List Action) : Operation → Prop
  | .port other own => if other = index then own.Fits mode actions else OnlyEdges actions
  | _ => OnlyEdges actions

theorem Operation.fits_of_elsewhere {mode : LineMode} {actions : List Action}
    (elsewhere : operation.isOwn index = false) (only : OnlyEdges actions) :
    operation.Fits index mode actions := by
  cases operation with
  | port other own =>
    unfold Fits
    dsimp only
    rw [if_neg (beq_eq_false_iff_ne.mp elsewhere)]
    exact only
  | _ => exact only

/-- Every operation acts on the intake of a port as it is told to. -/
theorem perform_fits (sound : world.Sound) (spares : operation.sparesReception)
    (stays : operation ≠ .closePort index) (live : world.port? index = some port)
    {before : Intake} (found : port.intake? world.machine = some before) :
    ∃ after actions, (world.perform operation).2.port? index = some after ∧
      operation.Fits index port.mode actions ∧ before.Legal actions ∧
      after.intake? (world.perform operation).2.machine = some (before.run actions).2 := by
  cases concerned : operation.isOwn index with
  | false =>
    obtain ⟨actions, only, legal, acts⟩ := intake?_of_elsewhere sound spares concerned live found
    exact ⟨port, actions, world.port?_of_elsewhere concerned live,
      Operation.fits_of_elsewhere concerned only, legal, acts⟩
  | true =>
    cases operation with
    | closePort other => exact absurd (congrArg Operation.closePort (eq_of_beq concerned)) stays
    | port other own =>
      cases eq_of_beq concerned
      obtain ⟨-, actions, fits, acts⟩ :=
        port.does_perform world.machine own (sound.ports index port live)
      obtain ⟨legal, acted⟩ := acts before found
      obtain ⟨there, machine⟩ := perform_port live own
      refine ⟨(port.perform world.machine own).2.1, actions, there, ?_, legal, ?_⟩
      · unfold Operation.Fits
        dsimp only
        rw [if_pos rfl]
        exact fits
      · rw [machine]
        exact acted
    | _ => cases concerned

end World

/-- The capture of a sound port has a queue. -/
theorem Port.exists_intake {port : Port} {machine : Machine} (sound : port.stake.Sound machine)
    (captured : port.stake.capture.isSome) : ∃ before, port.intake? machine = some before := by
  obtain ⟨index, capture⟩ := Option.isSome_iff_exists.mp captured
  obtain ⟨reception, held, rfl⟩ := Option.map_eq_some_iff.mp capture
  obtain ⟨pin, -, placed⟩ := sound.placed _ capture
  obtain ⟨found, inside, -⟩ := Option.map_eq_some_iff.mp placed
  exact ⟨_, intake?_eq_some.mpr ⟨reception, found.queue, held,
    Option.map_eq_some_iff.mpr ⟨found, inside, rfl⟩, rfl⟩⟩

namespace World

variable {world : World} {operation : Operation} {index : Nat} {port : Port}

theorem port?_closePort (world : World) (index : Nat) :
    (world.perform (.closePort index)).2.port? index = none :=
  (world.port?_follow (.closePort index) index).trans (if_pos rfl)

/-- What is in the intake of a port came about by a legal run from what was in it before. -/
theorem exists_run (sound : world.Sound) (spares : operation.sparesReception)
    {before after : Port} {intake : Intake} (there : world.port? index = some before)
    (live : (world.perform operation).2.port? index = some after)
    (found : after.intake? (world.perform operation).2.machine = some intake) :
    ∃ earlier actions, before.intake? world.machine = some earlier ∧ earlier.Legal actions ∧
      intake = (earlier.run actions).2 := by
  have stays : operation ≠ .closePort index := by
    rintro rfl
    cases (world.port?_closePort index).symm.trans live
  have mine := sound.ports index before there
  obtain ⟨other, here, kept⟩ := perform_live stays there
  cases live.symm.trans here
  have capture : after.stake.capture = before.stake.capture := by
    rcases kept with rfl | ⟨own, -, rfl⟩
    · rfl
    · exact (before.goes_perform world.machine own mine).2.1
  obtain ⟨reception, -, held, -⟩ := Port.intake?_eq_some.mp found
  obtain ⟨earlier, known⟩ := Port.exists_intake mine (by
    rw [← capture, Port.stake_capture held]
    rfl)
  obtain ⟨_, actions, there', -, legal, acts⟩ := perform_fits sound spares stays there known
  cases live.symm.trans there'
  cases found.symm.trans acts
  exact ⟨earlier, actions, known, legal, rfl⟩

/-- What holds of the ports of a world, besides soundness: one that does not listen has no
edge queued, its byte ring has the configured size, and one that runs has a counter. -/
structure Attended (world : World) : Prop where
  sound : world.Sound
  orderly : ∀ index port, world.port? index = some port → port.Orderly
  intakes : ∀ index port intake, world.port? index = some port →
    port.intake? world.machine = some intake → intake.Hushed ∧
      intake.bytes.capacity = max port.config.byteCapacity.toNat 2
  ticking : ∀ index port, world.port? index = some port → port.started →
    world.machine.rate ≠ 0

theorem Attended.perform (attended : world.Attended) (spares : operation.sparesReception) :
    (world.perform operation).2.Attended := by
  have sound := attended.sound
  have rate := world.rate_perform sound spares
  refine ⟨(sound.perform (Operation.sparesInterrupts_of_reception spares)).1, ?_, ?_, ?_⟩
  · intro index port live
    rcases port?_perform live with ⟨config, -, rfl⟩ | ⟨before, there, rfl | ⟨own, -, rfl⟩⟩
    · exact Port.orderly_create _ _
    · exact attended.orderly index _ there
    · exact (attended.orderly index before there).perform _ own
  · intro index port intake live found
    rcases port?_perform live with ⟨config, rfl, rfl⟩ | ⟨before, there, kept⟩
    · obtain ⟨empty, -, -, room⟩ := Port.create_intake found
      exact ⟨fun _ => empty, room⟩
    · obtain ⟨earlier, actions, known, legal, rfl⟩ := exists_run sound spares there live found
      obtain ⟨hushed, room⟩ := attended.intakes index before earlier there known
      have same : port.config.byteCapacity = before.config.byteCapacity := by
        rcases kept with rfl | ⟨own, -, rfl⟩
        · rfl
        · exact (attended.orderly index before there).byteCapacity_perform world.machine own
      rw [same]
      exact ⟨hushed.run legal, (capacity_run _ _).trans room⟩
  · intro index port live runs
    rw [rate]
    rcases port?_perform live with ⟨config, -, rfl⟩ | ⟨before, there, rfl | ⟨own, -, rfl⟩⟩
    · cases runs
    · exact attended.ticking index _ there runs
    · obtain ⟨started, mode, posture, ticks⟩ :=
        (attended.orderly index before there).posture_perform world.machine own
      rcases ticks ((congrArg Posture.started posture).symm.trans runs) with already | counts
      · exact attended.ticking index before there already
      · exact counts

theorem Attended.run (attended : world.Attended) {operations : List Operation}
    (spare : ∀ operation ∈ operations, operation.sparesReception) :
    (world.run operations).2.Attended := by
  induction operations generalizing world with
  | nil => exact attended
  | cons operation operations ih =>
    refine ih (attended.perform (spare operation (by simp))) ?_
    exact fun other member => spare other (List.mem_cons_of_mem _ member)

theorem Fresh.attended (fresh : world.Fresh) : world.Attended := by
  have without := port?_of_no_ports fresh.ports
  refine ⟨fresh.sound, ?_, ?_, ?_⟩
  · intro index port live
    cases (without index).symm.trans live
  · intro index port intake live
    cases (without index).symm.trans live
  · intro index port live
    cases (without index).symm.trans live

end World
end PinUart
