import PinUart.Proofs.Ownership
import PinUart.Proofs.Starting

/-! The states that a port goes through. Only a running receiver holds a slot, and a start
that fails leaves a port as much running as it was. -/
namespace PinUart

/-- A port that holds a slot runs and receives, and it holds one while it listens. -/
structure Stake.Orderly (stake : Stake) (started : Bool) : Prop where
  placed : stake.capture.isSome → stake.rxPin.isSome
  receives : stake.slot.isSome → stake.capture.isSome
  runs : stake.slot.isSome → started
  holds : stake.listening → stake.slot.isSome

namespace Stake.Orderly

variable {stake : Stake} {started : Bool}

/-- A port without a slot does not listen. -/
theorem silent (orderly : stake.Orderly started) (without : stake.slot = none) :
    stake.listening = false := by
  cases listening : stake.listening with
  | false => rfl
  | true =>
    have := orderly.holds listening
    rw [without] at this
    cases this

/-- A port that does not run holds no slot. -/
theorem slot_of_stopped (orderly : stake.Orderly false) : stake.slot = none := by
  cases own : stake.slot with
  | none => rfl
  | some slot => cases orderly.runs (by rw [own]; rfl)

/-- A port without a capture holds no slot. -/
theorem slot_of_captureless (orderly : stake.Orderly started) (without : stake.capture = none) :
    stake.slot = none := by
  cases own : stake.slot with
  | none => rfl
  | some slot =>
    have := orderly.receives (by rw [own]; rfl)
    rw [without] at this
    cases this

/-- A port without a receive pin holds no slot. -/
theorem slot_of_unplaced (orderly : stake.Orderly started) (unplaced : stake.rxPin = none) :
    stake.slot = none := by
  refine orderly.slot_of_captureless ?_
  cases captured : stake.capture with
  | none => rfl
  | some index =>
    have := orderly.placed (by rw [captured]; rfl)
    rw [unplaced] at this
    cases this

/-- Listening or not is of no concern to a port that holds its slot. -/
theorem relisten (orderly : stake.Orderly started) (own : stake.slot.isSome) (listening : Bool) :
    { stake with listening }.Orderly started :=
  ⟨orderly.placed, orderly.receives, orderly.runs, fun _ => own⟩

theorem mute (orderly : stake.Orderly started) :
    { stake with listening := false }.Orderly started :=
  ⟨orderly.placed, orderly.receives, orderly.runs, fun listens => by cases listens⟩

/-- A port that gave its slot back may run or not. -/
theorem vacate (orderly : stake.Orderly started) (silent : stake.listening = false)
    (running : Bool) : { stake with slot := none }.Orderly running := by
  refine ⟨orderly.placed, ?_, ?_, ?_⟩
  · intro held
    cases held
  · intro held
    cases held
  · intro listens
    cases silent.symm.trans listens

end Stake.Orderly

namespace Port

variable {port other : Port} {machine after : Machine}

def Orderly (port : Port) : Prop := port.stake.Orderly port.posture.started

theorem Orderly.of_same (orderly : port.Orderly) (stake : other.stake = port.stake)
    (started : other.posture.started = port.posture.started) : other.Orderly := by
  unfold Orderly
  rw [stake, started]
  exact orderly

theorem Orderly.setListening (orderly : port.Orderly) (machine : Machine) (on : Bool) :
    (port.setListening machine on).2.1.Orderly := by
  unfold Orderly
  rw [posture_setListening]
  rcases port.setListening_cases machine on with ⟨same, -⟩ | ⟨-, own, same⟩
  · rw [same]
    exact orderly
  · rw [same]
    exact Stake.Orderly.relisten orderly own on

/-- An orderly port that was disarmed does not listen, whatever it was before. -/
theorem Orderly.disarm (orderly : port.Orderly) (machine : Machine) :
    (port.setListening machine false).2.1.stake = { port.stake with listening := false } := by
  rcases port.setListening_cases machine false with ⟨same, without⟩ | ⟨-, -, same⟩
  · have free : port.stake.slot = none :=
      (without rfl).elim (Stake.Orderly.slot_of_unplaced orderly) id
    rw [same, ← Stake.Orderly.silent orderly free]
  · exact same

theorem Orderly.stop (orderly : port.Orderly) (machine : Machine) :
    (port.stop machine).1.stake = { port.stake with slot := none, listening := false } ∧
      (port.stop machine).1.posture = { port.posture with started := false } := by
  unfold Port.stop
  split
  · rename_i idle
    obtain ⟨stopped, free⟩ := Bool.and_eq_true_iff.mp idle
    rw [Bool.not_eq_true'] at stopped
    have without : port.stake.slot = none := Option.isNone_iff_eq_none.mp free
    constructor
    · rw [← without, ← Stake.Orderly.silent orderly without]
    · rw [← stopped]
      rfl
  · have silent := orderly.disarm machine
    have posture := port.posture_setListening machine false
    generalize port.setListening machine false = result at silent posture ⊢
    obtain ⟨answer, other, between⟩ := result
    have gave : (other.giveSlotBack between).1.stake = { other.stake with slot := none } := by
      unfold giveSlotBack
      cases own : other.slot with
      | none => exact congrArg (fun slot => { other.stake with slot }) own
      | some slot => rfl
    constructor
    · exact gave.trans (by rw [silent])
    · have kept := (other.posture_giveSlotBack between).trans posture
      exact congrArg (fun posture : Posture => { posture with started := false }) kept

/-- Turning the line does nothing without a shared pin. Else the port takes the mode, and
does not listen while it sends. -/
theorem Orderly.turnLine (orderly : port.Orderly) (machine : Machine) (on : Bool) :
    (port.turnLine machine on).2.1.Orderly ∧
      (port.sharedPin? = none ∧ (port.turnLine machine on).2 = (port, machine) ∨
        port.sharedPin?.isSome ∧ (port.turnLine machine on).2.1.posture =
            { port.posture with mode := if on then .transmit else .receive } ∧
          (on = true → (port.turnLine machine on).2.1.stake =
            { port.stake with listening := false })) := by
  cases shared : port.sharedPin? with
  | none =>
    rw [turnLine_unshared shared]
    exact ⟨orderly, .inl ⟨rfl, rfl⟩⟩
  | some pin =>
    cases on with
    | true =>
      obtain ⟨other, between, disarmed, same⟩ := turnLine_away shared machine
      have kept := orderly.setListening machine false
      have silent := orderly.disarm machine
      have posture := port.posture_setListening machine false
      rw [disarmed] at kept silent posture
      rw [same, if_pos rfl]
      refine ⟨kept.of_same rfl rfl, .inr ⟨rfl, ?_, fun _ => silent⟩⟩
      exact congrArg (fun posture : Posture => { posture with mode := .transmit }) posture
    | false =>
      obtain ⟨answer, other, between, log, armed, same⟩ := turnLine_back shared machine
      have turned : { port with mode := .receive }.Orderly := orderly.of_same rfl rfl
      have kept := turned.setListening ((machine.setPull pin .up).setDirection pin .input) true
      have posture := posture_setListening { port with mode := .receive }
        ((machine.setPull pin .up).setDirection pin .input) true
      rw [armed] at kept posture
      rw [same, if_neg Bool.false_ne_true]
      exact ⟨kept, .inr ⟨rfl, posture, fun on => by cases on⟩⟩

theorem Orderly.start (orderly : port.Orderly) (machine : Machine) (baud : UInt32) :
    (port.start machine baud).2.1.Orderly := by
  unfold Orderly
  rcases port.start_outcome machine baud with ⟨failure, -, refused⟩ | ⟨-, begun⟩
  · obtain ⟨mode, -, posture⟩ := refused.posture
    rw [posture]
    rcases refused.stake with same | ⟨silent, same⟩
    · rw [same]
      exact orderly
    · rw [same]
      exact Stake.Orderly.vacate orderly silent _
  · obtain ⟨mode, -, posture, -⟩ := begun.posture
    obtain ⟨slot, listening, same, keeps, gains, owns, listens⟩ := begun.stake
    rw [posture, same]
    refine ⟨orderly.placed, ?_, fun _ => rfl, ?_⟩
    · intro held
      rcases owns held with own | captured
      · exact orderly.receives own
      · exact captured
    · intro armed
      rcases listens with unchanged | held
      · rw [unchanged] at armed
        have own := orderly.holds armed
        rw [keeps own]
        exact own
      · exact held

/-- What arming, disarming and turning the line keep is kept by sending. -/
theorem write_induction {keeps : Port → Prop}
    (same : ∀ {port other : Port}, keeps port → other.stake = port.stake →
      other.posture = port.posture → keeps other)
    (turn : ∀ {port : Port}, keeps port → ∀ machine on, keeps (port.turnLine machine on).2.1)
    (kept : keeps port) (machine : Machine) (data : List UInt8) :
    keeps (port.write machine data).2.1 := by
  have turned : ∀ {port : Port}, keeps port → ∀ machine on,
      keeps (port.turnLineOrWarn machine on).1 := by
    intro port kept machine on
    have := turn kept machine on
    unfold turnLineOrWarn
    split
    · rename_i done
      rw [done] at this
      exact this
    · rename_i failed
      rw [failed] at this
      exact this
  have tends := port.tends_collect machine
  have collected := same kept tends.stake tends.posture
  unfold Port.write
  generalize port.collect machine = result at collected ⊢
  obtain ⟨other, between⟩ := result
  dsimp only
  split
  · exact collected
  · split
    · exact collected
    · split
      · exact turned (turned collected _ _) _ _
      · exact collected

/-- Operations that leave the posture of a port, and its stake, as they are. -/
def Operation.isPlain : Operation → Bool
  | .start _ | .stop | .write _ | .turnLine _ | .setListening _ => false
  | _ => true

theorem perform_plain (port : Port) (machine : Machine) {operation : Operation}
    (plain : operation.isPlain) :
    (port.perform machine operation).2.1.stake = port.stake ∧
      (port.perform machine operation).2.1.posture = port.posture := by
  have tends : ∀ {actions after}, port.Tends machine actions after →
      after.1.stake = port.stake ∧ after.1.posture = port.posture :=
    fun tends => ⟨tends.stake, tends.posture⟩
  cases operation with
  | setSpeed baud => exact tends (port.tends_setSpeed machine baud).choose_spec
  | read => exact tends (port.tends_read machine).choose_spec.1
  | peek => exact tends (port.tends_collect machine)
  | available => exact tends (port.tends_available machine).choose_spec
  | drain => exact tends (port.tends_drainWith machine _).choose_spec.2
  | flush => exact tends (port.tends_flush machine)
  | anyLost | takeLosses => exact tends (port.tends_takeLosses machine).1
  | serve => exact tends (port.tends_serve machine).choose_spec
  | useEnablePin pin =>
    exact ⟨(port.idles_useEnablePin machine pin).stake, port.posture_useEnablePin machine pin⟩
  | setCallback | setInterruptible | report | describe => exact ⟨rfl, rfl⟩
  | start | stop | write | turnLine | setListening => cases plain

theorem Orderly.perform (orderly : port.Orderly) (machine : Machine) (operation : Operation) :
    (port.perform machine operation).2.1.Orderly := by
  by_cases plain : operation.isPlain
  · obtain ⟨stake, posture⟩ := port.perform_plain machine plain
    exact orderly.of_same stake (by rw [posture])
  · cases operation with
    | start baud => exact orderly.start machine baud
    | stop =>
      obtain ⟨stake, posture⟩ := orderly.stop machine
      change Stake.Orderly _ _
      rw [show (port.perform machine .stop).2.1 = (port.stop machine).1 from rfl, stake, posture]
      exact Stake.Orderly.vacate (Stake.Orderly.mute orderly) rfl _
    | turnLine on => exact (orderly.turnLine machine on).1
    | setListening on => exact orderly.setListening machine on
    | write data =>
      exact @write_induction port Orderly
        (fun orderly stake posture => orderly.of_same stake (by rw [posture]))
        (fun orderly machine on => (orderly.turnLine machine on).1) orderly machine data
    | _ => exact absurd rfl plain

/-- Of the posture of a port only two things ever change: whether it runs, which takes a
counter to begin with, and the mode of its line. -/
theorem Orderly.posture_perform (orderly : port.Orderly) (machine : Machine)
    (operation : Operation) :
    ∃ started mode, (port.perform machine operation).2.1.posture =
        { port.posture with started, mode } ∧
      (started = true → port.posture.started = true ∨ machine.rate ≠ 0) := by
  by_cases plain : operation.isPlain
  · exact ⟨_, _, (port.perform_plain machine plain).2, .inl⟩
  · cases operation with
    | start baud =>
      rcases port.start_outcome machine baud with ⟨failure, -, refused⟩ | ⟨-, begun⟩
      · obtain ⟨mode, -, posture⟩ := refused.posture
        exact ⟨_, mode, posture, .inl⟩
      · obtain ⟨mode, -, posture, -⟩ := begun.posture
        exact ⟨true, mode, posture, fun _ => .inr begun.rate⟩
    | stop => exact ⟨false, _, (orderly.stop machine).2, fun runs => by cases runs⟩
    | turnLine on =>
      obtain ⟨-, ⟨-, same⟩ | ⟨-, posture, -⟩⟩ := orderly.turnLine machine on
      · exact ⟨_, _, congrArg (fun after : Port × Machine => after.1.posture) same, .inl⟩
      · exact ⟨_, _, posture, .inl⟩
    | setListening on => exact ⟨_, _, port.posture_setListening machine on, .inl⟩
    | write data =>
      obtain ⟨-, mode, posture⟩ := @write_induction port
        (fun other => other.Orderly ∧ ∃ mode, other.posture = { port.posture with mode })
        (fun both stake posture =>
          ⟨both.1.of_same stake (by rw [posture]), posture ▸ both.2⟩)
        (fun both machine on => by
          obtain ⟨kept, ⟨-, same⟩ | ⟨-, posture, -⟩⟩ := both.1.turnLine machine on
          · exact same ▸ both
          · obtain ⟨mode, before⟩ := both.2
            exact ⟨kept, _, posture.trans (by rw [before])⟩)
        ⟨orderly, port.posture.mode, rfl⟩ machine data
      exact ⟨_, mode, posture, .inl⟩
    | _ => exact absurd rfl plain

/-- The size of the byte ring is settled when a port is made. -/
theorem Orderly.byteCapacity_perform (orderly : port.Orderly) (machine : Machine)
    (operation : Operation) :
    (port.perform machine operation).2.1.config.byteCapacity = port.config.byteCapacity := by
  obtain ⟨started, mode, posture, -⟩ := orderly.posture_perform machine operation
  exact congrArg Posture.byteCapacity posture

theorem orderly_create (machine : Machine) (config : Config) :
    (create machine config).1.Orderly := by
  obtain ⟨-, free, fresh⟩ := create_stake machine config
  refine ⟨?_, ?_, ?_, ?_⟩
  · intro captured
    obtain ⟨index, capture⟩ := Option.isSome_iff_exists.mp captured
    obtain ⟨-, pin, placed, -⟩ := fresh index capture
    rw [placed]
    rfl
  · intro held
    rw [free] at held
    cases held
  · intro held
    rw [free] at held
    cases held
  · intro listens
    cases listens

end Port

namespace World

/-- Operations that neither open nor close a port, nor are carried out by one. -/
def Operation.sparesPorts : Operation → Bool
  | .openPort _ | .closePort _ | .port .. => false
  | _ => true

theorem ports_perform (world : World) {operation : Operation} (spares : operation.sparesPorts) :
    (world.perform operation).2.ports = world.ports := by
  cases operation with
  | machine | addTransmitter | setInterruptible | setBitPeriod => rfl
  | openTap pin capacity =>
    unfold perform openTap
    dsimp only
    split <;> rfl
  | tap index operation =>
    unfold perform performTap
    dsimp only
    split <;> rfl
  | transmitterReport | plan | send =>
    unfold perform
    dsimp only
    split <;> rfl
  | openPort | closePort | port => cases spares

/-- What an operation makes of the port at an index. -/
def Operation.follow (world : World) (index : Nat) : Operation → Option Port
  | .openPort config =>
    if index = world.ports.size then some (Port.create world.machine config).1
    else world.port? index
  | .closePort other => if other = index then none else world.port? index
  | .port other own =>
    if other = index then
      (world.port? index).map fun port => (port.perform world.machine own).2.1
    else world.port? index
  | _ => world.port? index

theorem port?_follow (world : World) (operation : Operation) (index : Nat) :
    (world.perform operation).2.port? index = operation.follow world index := by
  cases operation with
  | openPort config => exact port?_openPort config
  | closePort other =>
    unfold perform closePort Operation.follow
    dsimp only
    cases found : world.port? other with
    | none =>
      dsimp only
      split
      · rename_i same
        rw [← same]
        exact found
      · rfl
    | some port => exact port?_setIfInBounds found none index
  | port other own =>
    unfold perform performPort Operation.follow
    dsimp only
    cases found : world.port? other with
    | none =>
      dsimp only
      split
      · rename_i same
        rw [← same, found]
        rfl
      · rfl
    | some port =>
      refine (port?_setIfInBounds found _ index).trans ?_
      split
      · rename_i same
        rw [← same, found]
        rfl
      · rfl
  | machine | openTap | tap | addTransmitter | setInterruptible | setBitPeriod
  | transmitterReport | plan | send =>
    unfold port? Operation.follow
    rw [world.ports_perform rfl]
    rfl

theorem perform_port {world : World} {index : Nat} {port : Port}
    (live : world.port? index = some port) (own : Port.Operation) :
    (world.perform (.port index own)).2.port? index =
        some (port.perform world.machine own).2.1 ∧
      (world.perform (.port index own)).2.machine = (port.perform world.machine own).2.2 := by
  constructor
  · rw [port?_follow, Operation.follow, if_pos rfl, live]
    rfl
  · unfold perform performPort
    dsimp only
    rw [live]

/-- A port that is there after an operation was opened by it, or was there before and took
the operation or was left alone. -/
theorem port?_perform {world : World} {operation : Operation} {index : Nat} {after : Port}
    (live : (world.perform operation).2.port? index = some after) :
    (∃ config, operation = .openPort config ∧ after = (Port.create world.machine config).1) ∨
      ∃ before, world.port? index = some before ∧
        (after = before ∨ ∃ own, operation = .port index own ∧
          after = (before.perform world.machine own).2.1) := by
  rw [port?_follow] at live
  unfold Operation.follow at live
  cases operation with
  | openPort config =>
    dsimp only at live
    split at live
    · exact .inl ⟨config, rfl, (Option.some.inj live).symm⟩
    · exact .inr ⟨after, live, .inl rfl⟩
  | closePort other =>
    dsimp only at live
    split at live
    · cases live
    · exact .inr ⟨after, live, .inl rfl⟩
  | port other own =>
    dsimp only at live
    split at live
    · rename_i same
      subst same
      obtain ⟨port, found, came⟩ := Option.map_eq_some_iff.mp live
      exact .inr ⟨port, found, .inr ⟨own, rfl, came.symm⟩⟩
    · exact .inr ⟨after, live, .inl rfl⟩
  | machine | openTap | tap | addTransmitter | setInterruptible | setBitPeriod
  | transmitterReport | plan | send => exact .inr ⟨after, live, .inl rfl⟩

theorem answer_port {world : World} {index : Nat} {port : Port}
    (live : world.port? index = some port) (own : Port.Operation) :
    (world.perform (.port index own)).1 = (port.perform world.machine own).1 := by
  unfold perform performPort
  dsimp only
  rw [live]

theorem run_cons (world : World) (operation : Operation) (operations : List Operation) :
    (world.run (operation :: operations)).2 =
      ((world.perform operation).2.run operations).2 := rfl

theorem run_append (world : World) (earlier later : List Operation) :
    world.run (earlier ++ later) =
      ((world.run earlier).1 ++ ((world.run earlier).2.run later).1,
        ((world.run earlier).2.run later).2) := by
  induction earlier generalizing world with
  | nil => rfl
  | cons operation operations ih => simp only [List.cons_append, run, ih]

/-- What every new port has, and every operation of a port keeps, all ports have. -/
theorem run_keeps {keeps : Port → Prop} (made : ∀ machine config, keeps (Port.create machine config).1)
    (kept : ∀ port machine operation, keeps port → keeps (port.perform machine operation).2.1)
    {world : World} (start : ∀ index port, world.port? index = some port → keeps port)
    (operations : List Operation) {index : Nat} {port : Port}
    (live : (world.run operations).2.port? index = some port) : keeps port := by
  induction operations generalizing world with
  | nil => exact start index port live
  | cons operation operations ih =>
    refine ih ?_ live
    intro other found there
    rcases port?_perform there with ⟨config, -, rfl⟩ | ⟨before, held, rfl | ⟨own, -, rfl⟩⟩
    · exact made _ _
    · exact start other _ held
    · exact kept _ _ _ (start other before held)

theorem port?_of_no_ports {world : World} (none : world.ports = #[]) (index : Nat) :
    world.port? index = Option.none := by
  unfold port?
  rw [none]
  rfl

theorem fresh_empty : Fresh {} := by
  refine ⟨rfl, ?_, Slots.sink?_empty⟩
  intro pin handler entered
  rcases entered with attached | pending
  · have without := congrArg PinState.handler (@PinMap.get_fill PinState {} pin)
    cases without.symm.trans attached
  · cases pending

theorem run_orderly {world : World} (none : world.ports = #[]) {operations : List Operation}
    {index : Nat} {port : Port} (live : (world.run operations).2.port? index = some port) :
    port.Orderly := by
  refine run_keeps Port.orderly_create (fun port machine operation orderly =>
    orderly.perform machine operation) ?_ operations live
  intro other found there
  cases (port?_of_no_ports none other).symm.trans there

end World

/-- Fewer bound slots leave no fewer free. -/
theorem Slots.freeCount_le {before after : Slots}
    (bound : ∀ index, after.isBound index → before.isBound index) :
    before.freeCount ≤ after.freeCount := by
  refine List.countP_mono_left ?_
  intro index _ free
  rw [Bool.not_eq_true'] at free ⊢
  exact Bool.eq_false_iff.mpr fun taken => Bool.eq_false_iff.mp free (bound index taken)

namespace Port

/-- Stopped, without a slot, not listening, and with nothing attached to the receive pin. -/
structure Inert (port : Port) (machine : Machine) : Prop where
  stopped : port.started = false
  slot : port.slot = none
  silent : port.listening = false
  detached : ∀ pin, port.rxPin = some pin → machine.board.handler? pin = none

end Port

namespace World

/-- A start that fails leaves a port inert exactly if the port was stopped before and nothing
was attached to its pin. In any case it leaves no fewer slots free. -/
theorem failed_start_inert_iff {world : World} {operations : List Operation} {index : Nat}
    {port : Port} {baud : UInt32} {failure : PortError} {after : Port × Machine}
    (empty : world.ports = #[]) (live : (world.run operations).2.port? index = some port)
    (failed : port.start (world.run operations).2.machine baud = (.error failure, after)) :
    (after.1.Inert after.2 ↔ port.started = false ∧
        ∀ pin, port.rxPin = some pin →
          (world.run operations).2.machine.board.handler? pin = none) ∧
      (world.run operations).2.machine.slots.freeCount ≤ after.2.slots.freeCount := by
  have orderly := run_orderly empty live
  generalize (world.run operations).2.machine = machine at failed ⊢
  have outcome := port.start_outcome machine baud
  rw [failed] at outcome
  rcases outcome with ⟨_, -, refused⟩ | ⟨done, -⟩
  · obtain ⟨mode, -, posture⟩ := refused.posture
    have started : after.1.started = port.started := congrArg Posture.started posture
    have placed : after.1.rxPin = port.rxPin := by
      rcases refused.stake with same | ⟨-, same⟩
      · exact congrArg Stake.rxPin same
      · exact congrArg Stake.rxPin same
    refine ⟨⟨?_, ?_⟩, Slots.freeCount_le refused.bound⟩
    · intro inert
      refine ⟨started ▸ inert.stopped, fun pin receive => ?_⟩
      rw [← refused.handlers pin]
      exact inert.detached pin (placed.trans receive)
    · rintro ⟨stopped, detached⟩
      have free : port.stake.slot = none := by
        refine Stake.Orderly.slot_of_stopped ?_
        rw [← stopped]
        exact orderly
      have silent := Stake.Orderly.silent orderly free
      refine ⟨started.trans stopped, ?_, ?_, ?_⟩
      · rcases refused.stake with same | ⟨-, same⟩
        · exact (congrArg Stake.slot same).trans free
        · exact congrArg Stake.slot same
      · rcases refused.stake with same | ⟨-, same⟩
        · exact (congrArg Stake.listening same).trans silent
        · exact (congrArg Stake.listening same).trans silent
      · intro pin receive
        rw [refused.handlers pin]
        exact detached pin (placed.symm.trans receive)
  · cases done

/-- A receiver whose interrupt cannot be attached. -/
def unattachable : List Operation :=
  [.openPort { rxPin := some 5 }, .machine (.queueFault (.attach 5 "busy"))]

/-- The first start of a port fails, and leaves it inert. -/
theorem failed_first_start_inert :
    ∃ port failure after, (run {} unattachable).2.port? 0 = some port ∧
      port.start (run {} unattachable).2.machine 9600 = (.error failure, after) ∧
      after.1.Inert after.2 := by
  have before : ((run {} unattachable).2.port? 0).map (fun port => (port.rxPin, port.started,
      Answer.ofResult (port.start (run {} unattachable).2.machine 9600).1)) =
        some (some 5, false, .failed (.hardware (.attach 5 "busy"))) := by
    decide +kernel
  have detached : (run {} unattachable).2.machine.board.handler? 5 = none := by decide +kernel
  obtain ⟨port, live, same⟩ := Option.map_eq_some_iff.mp before
  obtain ⟨placed, same⟩ := Prod.mk.inj same
  obtain ⟨stopped, answered⟩ := Prod.mk.inj same
  cases result : port.start (run {} unattachable).2.machine 9600 with
  | mk answer after =>
    rw [result] at answered
    cases answer with
    | ok => cases answered
    | error failure =>
      refine ⟨port, failure, after, live, result, ?_⟩
      refine (failed_start_inert_iff rfl live result).1.mpr ⟨stopped, fun pin receive => ?_⟩
      cases placed.symm.trans receive
      exact detached

/-- A running receiver. -/
def running : List Operation :=
  [.openPort { rxPin := some 5, txPin := some 4 }, .port 0 (.start 9600)]

/-- A running port goes on running when it is started at an invalid speed. -/
theorem failed_restart_not_inert :
    ∃ port failure after, (run {} running).2.port? 0 = some port ∧
      port.start (run {} running).2.machine 0 = (.error failure, after) ∧
      ¬ after.1.Inert after.2 := by
  have before : ((run {} running).2.port? 0).map (fun port =>
      (Answer.ofResult (port.start (run {} running).2.machine 0).1,
        (port.start (run {} running).2.machine 0).2.1.started)) =
        some (.failed (.invalidBaud 0), true) := by
    decide +kernel
  obtain ⟨port, live, same⟩ := Option.map_eq_some_iff.mp before
  obtain ⟨answered, runs⟩ := Prod.mk.inj same
  cases result : port.start (run {} running).2.machine 0 with
  | mk answer after =>
    rw [result] at answered runs
    cases answer with
    | ok => cases answered
    | error failure =>
      refine ⟨port, failure, after, live, result, fun inert => ?_⟩
      cases inert.stopped.symm.trans runs

end World
end PinUart
