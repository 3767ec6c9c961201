import PinUart.Proofs.Bearing

/-! What sending a message leaves of the receive side of a port: the mode of the line, the slot,
whether the port listens, what is attached to its receive pin, and which way a shared pin goes.
All of it is restored, but that a one-wire receiver listens again that was told not to. -/
namespace PinUart

namespace Port

variable {port other : Port} {machine : Machine} {pin : Pin} {data : List UInt8}

/-- A message has a one-wire port that receives turn its line, and turn it back. -/
structure Switches (port : Port) (data : List UInt8) : Prop where
  started : port.started = true
  filled : data ≠ []
  shared : port.sharedPin?.isSome
  receives : port.mode = .receive

theorem Switches.of_posture (switches : port.Switches data)
    (posture : other.posture = port.posture) : other.Switches data := by
  have oneWire : other.config.oneWire = port.config.oneWire := congrArg Posture.oneWire posture
  have send : other.txPin = port.txPin := congrArg Posture.txPin posture
  refine ⟨(congrArg Posture.started posture).trans switches.started, switches.filled, ?_,
    (congrArg Posture.mode posture).trans switches.receives⟩
  unfold sharedPin?
  rw [oneWire, send]
  exact switches.shared

/-- A port that does not turn its line keeps its stake, and what is attached anywhere. -/
theorem write_still (still : ¬ port.Switches data) (machine : Machine) :
    (port.write machine data).2.1.stake = port.stake ∧
      (port.write machine data).2.1.posture = port.posture ∧
      machine.Quiet (port.write machine data).2.2 := by
  have idles := port.idles_collect machine
  have posture := port.posture_collect machine
  unfold Port.write
  generalize port.collect machine = result at idles posture ⊢
  obtain ⟨other, between⟩ := result
  dsimp only
  split
  · exact ⟨idles.stake, posture, idles.quiet⟩
  · rename_i pin send
    split
    · exact ⟨idles.stake, posture, idles.quiet⟩
    · rename_i ready
      split
      · rename_i turning
        obtain ⟨oneWire, receives⟩ := Bool.and_eq_true_iff.mp turning
        have turns : other.Switches data := by
          refine ⟨?_, ?_, ?_, eq_of_beq receives⟩
          · simp_all
          · rintro rfl
            simp at ready
          · rw [sharedPin?_eq_some.mpr ⟨oneWire, send⟩]
            rfl
        exact absurd (turns.of_posture posture.symm) still
      · exact ⟨idles.stake, posture, idles.quiet.trans (quiet_sendOn _ _ _ _)⟩

/-- Turning the line without a slot attaches and detaches nothing. -/
theorem turnLineOrWarn_slotless (free : port.slot = none) (machine : Machine) (on : Bool) :
    (port.turnLineOrWarn machine on).1.stake = port.stake ∧
      machine.Quiet (port.turnLineOrWarn machine on).2 := by
  unfold turnLineOrWarn
  cases shared : port.sharedPin? with
  | none =>
    rw [turnLine_unshared shared]
    exact ⟨rfl, .refl machine⟩
  | some pin =>
    cases on with
    | true =>
      obtain ⟨other, between, disarmed, same⟩ := turnLine_away shared machine
      cases (setListening_of_slotless free machine false).symm.trans disarmed
      rw [same]
      exact ⟨rfl, (machine.quiet_restLine _ _ _).trans (Machine.quiet_write _ _ _)⟩
    | false =>
      obtain ⟨answer, other, between, log, armed, same⟩ := turnLine_back shared machine
      cases (@setListening_of_slotless { port with mode := .receive } free _ true).symm.trans armed
      rw [same]
      refine ⟨rfl, (machine.quiet_setPull pin .up).trans ?_⟩
      exact (Machine.quiet_setDirection _ pin .input).trans
        ⟨.refl _, rfl, fun _ _ found => found⟩

/-- Turning back to receiving arms a port that holds a slot, if the hardware lets it. -/
theorem turnLine_back_armed {slot : SlotIndex} (shared : port.sharedPin? = some pin)
    (receive : port.rxPin = some pin) (own : port.slot = some slot)
    (granted : machine.rig.Grants pin) :
    (port.turnLine machine false).2.1.stake = { port.stake with listening := true } ∧
      ((port.turnLine machine false).2.2.rig.role pin).handler = some (.entry slot) := by
  obtain ⟨answer, other, between, log, armed, same⟩ := turnLine_back shared machine
  rcases @arm_cases { port with mode := .receive } pin slot receive own
    ((machine.setPull pin .up).setDirection pin .input) with ⟨-, stake, role⟩ | ⟨refused, -⟩
  · rw [armed] at stake role
    rw [same]
    exact ⟨stake, congrArg PinRole.handler role⟩
  · rw [Machine.rig_setInput] at refused
    exact absurd granted refused

/-- What a message comes to before its line is turned back: the port is as it was, but does not
listen, and sends. -/
structure Turned (port : Port) (machine : Machine) (after : Port × Machine) : Prop where
  orderly : after.1.Orderly
  outfit : after.1.outfit = port.outfit
  stake : after.1.stake = { port.stake with listening := false }
  posture : after.1.posture = { port.posture with mode := .transmit }
  grants : ∀ pin, machine.rig.Grants pin → after.2.rig.Grants pin
  quiet : port.slot = none → machine.Quiet after.2

theorem Orderly.turned (orderly : port.Orderly) (shared : port.sharedPin? = some pin)
    (machine : Machine) : port.Turned machine (port.turnLineOrWarn machine true) := by
  have works := port.works_turnLineOrWarn machine true
  obtain ⟨whole, -⟩ := port.turnLineOrWarn_eq machine true
  obtain ⟨kept, ⟨unshared, -⟩ | ⟨-, posture, silent⟩⟩ := orderly.turnLine machine true
  · cases shared.symm.trans unshared
  · rw [← whole] at kept posture silent
    exact ⟨kept, works.outfit, silent rfl, posture, works.grants,
      fun free => (turnLineOrWarn_slotless free machine true).2⟩

/-- A message between the two turns of the line. -/
theorem Orderly.write_of_switches (orderly : port.Orderly) (switches : port.Switches data)
    (machine : Machine) :
    ∃ other between, port.Turned machine (other, between) ∧
      (port.write machine data).2 = other.turnLineOrWarn between false := by
  have tends := port.tends_collect machine
  have idles := port.idles_collect machine
  have polls := port.polls_collect machine
  unfold Port.write
  generalize port.collect machine = result at tends idles polls ⊢
  obtain ⟨other, between⟩ := result
  have turns : other.Switches data := switches.of_posture tends.posture
  obtain ⟨pin, shared⟩ := Option.isSome_iff_exists.mp turns.shared
  obtain ⟨oneWire, send⟩ := sharedPin?_eq_some.mp shared
  have begun : ¬ (!other.started || data.isEmpty) = true := by
    rw [turns.started]
    simpa using turns.filled
  have turning : (other.config.oneWire && other.mode == .receive) = true := by
    rw [oneWire, turns.receives]
    rfl
  dsimp only
  rw [send]
  dsimp only
  rw [if_neg begun, if_pos turning]
  have collected : other.Orderly :=
    orderly.of_same tends.stake (congrArg Posture.started tends.posture)
  have turned := collected.turned shared between
  generalize other.turnLineOrWarn between true = result at turned ⊢
  obtain ⟨third, early⟩ := result
  refine ⟨third, (third.sendOn early pin data).2, ?_, rfl⟩
  have kept : third.txPin = other.txPin := congrArg Outfit.txPin turned.outfit
  have sent := works_sendOn (kept.trans send) early data
  have free : other.slot = port.slot := congrArg Stake.slot tends.stake
  refine ⟨turned.orderly, turned.outfit.trans polls.outfit, ?_, ?_, fun pin granted => ?_, ?_⟩
  · exact turned.stake.trans (by rw [tends.stake])
  · exact turned.posture.trans (by rw [tends.posture])
  · exact sent.grants pin (turned.grants pin (polls.works.grants pin granted))
  · intro without
    exact idles.quiet.trans ((turned.quiet (free.trans without)).trans (quiet_sendOn _ _ _ _))

theorem sharedPin?_of_design (design : other.outfit.design = port.outfit.design) :
    other.sharedPin? = port.sharedPin? := by
  have oneWire : other.config.oneWire = port.config.oneWire := congrArg Design.oneWire design
  have send : other.txPin = port.txPin := congrArg Design.txPin design
  unfold sharedPin?
  rw [oneWire, send]

/-- A message leaves whether the port runs, and the mode of its line. -/
theorem Orderly.posture_write (orderly : port.Orderly) (machine : Machine) (data : List UInt8) :
    (port.write machine data).2.1.posture = port.posture := by
  by_cases switches : port.Switches data
  · obtain ⟨other, between, turned, same⟩ := orderly.write_of_switches switches machine
    have receives : port.posture.mode = .receive := switches.receives
    rw [same, (other.turnLineOrWarn_eq between false).1]
    obtain ⟨-, ⟨unshared, -⟩ | ⟨-, posture, -⟩⟩ := turned.orderly.turnLine between false
    · have shared := switches.shared
      rw [← sharedPin?_of_design (congrArg Outfit.design turned.outfit), unshared] at shared
      cases shared
    · rw [posture, show other.posture = _ from turned.posture, if_neg Bool.false_ne_true,
        ← receives]
  · exact (write_still switches machine).2.1

/-- Without a slot a message attaches and detaches nothing. -/
theorem Orderly.write_slotless (orderly : port.Orderly) (free : port.slot = none)
    (machine : Machine) (data : List UInt8) :
    (port.write machine data).2.1.stake = port.stake ∧
      machine.Quiet (port.write machine data).2.2 := by
  by_cases switches : port.Switches data
  · obtain ⟨other, between, turned, same⟩ := orderly.write_of_switches switches machine
    have without : other.slot = none := (congrArg Stake.slot turned.stake).trans free
    obtain ⟨stake, quiet⟩ := turnLineOrWarn_slotless without between false
    rw [same]
    refine ⟨stake.trans (turned.stake.trans ?_), (turned.quiet free).trans quiet⟩
    rw [← Stake.Orderly.silent orderly free]
  · obtain ⟨stake, -, quiet⟩ := write_still switches machine
    exact ⟨stake, quiet⟩

/-- With a slot, the port listens after a message that turned the line. -/
theorem Orderly.write_rearms {slot : SlotIndex} (orderly : port.Orderly)
    (switches : port.Switches data) (receive : port.rxPin = some pin)
    (shared : port.sharedPin? = some pin) (own : port.slot = some slot)
    (granted : machine.rig.Grants pin) :
    (port.write machine data).2.1.stake = { port.stake with listening := true } ∧
      ((port.write machine data).2.2.rig.role pin).handler = some (.entry slot) := by
  obtain ⟨other, between, turned, same⟩ := orderly.write_of_switches switches machine
  have holds : other.slot = some slot := (congrArg Stake.slot turned.stake).trans own
  have place : other.rxPin = some pin := (congrArg Stake.rxPin turned.stake).trans receive
  have wired := (sharedPin?_of_design (congrArg Outfit.design turned.outfit)).trans shared
  obtain ⟨stake, handler⟩ :=
    turnLine_back_armed wired place holds (turned.grants pin granted)
  obtain ⟨whole, rig⟩ := other.turnLineOrWarn_eq between false
  rw [same, whole, rig]
  refine ⟨stake.trans ?_, handler⟩
  rw [show other.stake = _ from turned.stake]

/-- A one-wire receiver that holds a slot, but was told not to listen, listens again after a
message. -/
def Rearms (port : Port) (data : List UInt8) : Prop :=
  port.Switches data ∧ port.slot.isSome ∧ port.listening = false

/-- Unless it has a port listen again, a message leaves whether it listens. What is attached to
its receive pin stays too, if the right thing was attached there in the first place. -/
theorem Orderly.write_kept (orderly : port.Orderly) (fitted : port.Fitted)
    (granted : ∀ pin, port.rxPin = some pin → machine.rig.Grants pin)
    (still : ¬ port.Rearms data) :
    (port.write machine data).2.1.listening = port.listening ∧
      ∀ pin, (port.sharedPin? = some pin → port.Commands (machine.rig.role pin)) →
        port.rxPin = some pin → ((port.write machine data).2.2.rig.role pin).handler =
          (machine.rig.role pin).handler := by
  cases own : port.slot with
  | none =>
    obtain ⟨stake, quiet⟩ := orderly.write_slotless own machine data
    exact ⟨congrArg Stake.listening stake, fun pin _ _ => quiet.calm.handlers pin⟩
  | some slot =>
    by_cases switches : port.Switches data
    · obtain ⟨pin, shared⟩ := Option.isSome_iff_exists.mp switches.shared
      obtain ⟨oneWire, send⟩ := sharedPin?_eq_some.mp shared
      have receive := (fitted.shared oneWire).trans send
      have listens : port.listening = true := by
        refine eq_true_of_ne_false fun silent => still ⟨switches, ?_, silent⟩
        rw [own]
        rfl
      obtain ⟨stake, handler⟩ :=
        orderly.write_rearms switches receive shared own (granted pin receive)
      refine ⟨(congrArg Stake.listening stake).trans listens.symm, fun other commands place => ?_⟩
      cases receive.symm.trans place
      rw [handler, (commands shared).attached listens, own]
      rfl
    · obtain ⟨stake, -, quiet⟩ := write_still switches machine
      exact ⟨congrArg Stake.listening stake, fun pin _ _ => quiet.calm.handlers pin⟩

theorem board_create (machine : Machine) (config : Config) :
    (create machine config).2.board = machine.board := by
  obtain ⟨log, captures, made⟩ := create_shape machine config
  rw [made]

/-- A new port has yet to turn its pin, or to attach anything. -/
theorem commands_create (machine : Machine) (config : Config) (role : PinRole) :
    (create machine config).1.Commands role := by
  refine ⟨fun listens => ?_, fun turned => ?_⟩
  · cases listens
  · rcases turned with runs | sends
    · cases runs
    · cases sends

end Port

namespace World

/-- Operations that neither turn a pin from outside nor attach or detach a handler there. -/
def Operation.sparesPin (pin : Pin) : Operation → Bool
  | .machine operation => operation.sparesPin pin
  | .send _ other _ => other != pin
  | _ => true

/-- No other port has a use for a pin, and the port at the index does not enable a driver
with it. -/
structure Reserved (world : World) (index : Nat) (pin : Pin) : Prop where
  own : ∀ port, world.port? index = some port →
    port.enablePin ≠ some pin ∧ port.config.enablePin ≠ some pin
  others : ∀ other port, other ≠ index → world.port? other = some port → port.Spares pin

/-- Nothing but the port at the index works on a pin in the whole course of a run. -/
structure Devoted (world : World) (operations : List Operation) (index : Nat) (pin : Pin) :
    Prop where
  spared : ∀ operation ∈ operations, operation.sparesPin pin
  reserved : ∀ earlier, earlier <+: operations → (world.run earlier).2.Reserved index pin

variable {world : World} {operations : List Operation} {index : Nat} {pin : Pin}

/-- What is not done by the port itself leaves the role of its pin. -/
theorem Reserved.role_perform (before : world.Reserved index pin) {operation : Operation}
    (after : (world.perform operation).2.Reserved index pin) (spares : operation.sparesPin pin)
    (foreign : ∀ own, operation ≠ .port index own) (stays : operation ≠ .closePort index) :
    (world.perform operation).2.machine.rig.role pin = world.machine.rig.role pin := by
  cases operation with
  | machine operation => exact world.machine.role_perform spares
  | openPort config =>
    exact Rig.role_of_pins (congrArg Board.pins (Port.board_create world.machine config)) pin
  | closePort other =>
    unfold perform closePort
    dsimp only
    cases live : world.port? other with
    | none => rfl
    | some port =>
      have different : other ≠ index := fun same => stays (by rw [same])
      have spared := before.others other port different live
      exact Rig.role_of_get ((port.works_stop world.machine).elsewhere pin spared.1)
  | port other own =>
    have different : other ≠ index := fun same => foreign own (by rw [same])
    cases live : world.port? other with
    | none =>
      unfold perform performPort
      dsimp only
      rw [live]
    | some port =>
      obtain ⟨there, same⟩ := perform_port live own
      rw [same]
      exact Rig.role_of_get ((port.serves_perform world.machine own).elsewhere pin
        (before.others other port different live) (after.others other _ different there))
  | openTap other capacity =>
    unfold perform openTap
    dsimp only
    split <;> rfl
  | tap other operation =>
    unfold perform performTap
    dsimp only
    split
    · rfl
    · exact world.machine.role_performTap pin _ operation
  | send other line data =>
    unfold perform
    dsimp only
    split
    · rfl
    · rename_i transmitter _
      by_cases filled : data = []
      · subst filled
        rfl
      · change (transmitter.send world.machine line data).2.rig.role pin = _
        rw [transmitter.rig_send _ filled]
        exact Rig.role_modify_of_ne (bne_iff_ne.mp spares) _
  | addTransmitter | setInterruptible | setBitPeriod => rfl
  | transmitterReport | plan =>
    unfold perform
    dsimp only
    split <;> rfl

theorem run_fitted (empty : world.ports = #[]) {port : Port}
    (live : (world.run operations).2.port? index = some port) : port.Fitted := by
  refine (@run_keeps (fun port => port.Orderly ∧ port.Fitted) ?_ ?_ world ?_ operations index port
    live).2
  · exact fun machine config =>
      ⟨Port.orderly_create machine config, Port.fitted_create machine config⟩
  · exact fun port machine operation kept =>
      ⟨kept.1.perform machine operation, kept.2.perform kept.1 machine operation⟩
  · intro other found there
    cases (port?_of_no_ports empty other).symm.trans there

/-- A one-wire port on a pin that is reserved for it uses the pin for nothing else. -/
theorem Reserved.wired (reserved : world.Reserved index pin) {port : Port}
    (live : world.port? index = some port) (fitted : port.Fitted)
    (shared : port.sharedPin? = some pin) : port.outfit.Wired pin := by
  obtain ⟨oneWire, send⟩ := Port.sharedPin?_eq_some.mp shared
  obtain ⟨enable, configured⟩ := reserved.own port live
  exact ⟨oneWire, (fitted.shared oneWire).trans send, send, enable, configured⟩

/-- All through a run a pin that nothing else works on has the role that its port wants. -/
theorem run_commands (empty : world.ports = #[]) (devoted : world.Devoted operations index pin)
    {port : Port} (live : (world.run operations).2.port? index = some port)
    (shared : port.sharedPin? = some pin) :
    port.Commands ((world.run operations).2.machine.rig.role pin) := by
  induction operations using List.reverseRecOn generalizing port with
  | nil => cases (port?_of_no_ports empty index).symm.trans live
  | append_singleton earlier operation ih =>
    have began := List.prefix_append earlier [operation]
    have before := devoted.reserved earlier began
    have after := devoted.reserved _ (List.prefix_refl _)
    have spares := devoted.spared operation (by simp)
    have ih := fun {port} => @ih
      ⟨fun other member => devoted.spared other (by simp [member]),
        fun other first => devoted.reserved other (first.trans began)⟩ port
    rw [run_append] at live after ⊢
    by_cases own : ∃ mine, operation = .port index mine
    · obtain ⟨mine, rfl⟩ := own
      obtain ⟨old, there⟩ : ∃ old, (run world earlier).2.port? index = some old := by
        rcases @port?_perform (run world earlier).2 (.port index mine) index port live with
          ⟨config, opened, -⟩ | ⟨old, there, -⟩
        · cases opened
        · exact ⟨old, there⟩
      obtain ⟨now, machine⟩ := perform_port there mine
      cases live.symm.trans now
      have design := (old.serves_perform (run world earlier).2.machine mine).design
      have fitted := run_fitted empty there
      have shared := (Port.sharedPin?_of_design design).symm.trans shared
      have wired := before.wired there fitted shared
      change (old.perform _ mine).2.1.Commands
        (((run world earlier).2.perform (.port index mine)).2.machine.rig.role pin)
      rw [machine]
      refine (ih there shared).perform (run_orderly empty there) wired
        (fitted.equipped ?_) (after.own _ live).1
      exact Option.isSome_iff_exists.mpr ⟨pin, wired.receive⟩
    · by_cases closed : operation = .closePort index
      · subst closed
        have gone := port?_follow (run world earlier).2 (.closePort index) index
        rw [Operation.follow, if_pos rfl] at gone
        cases gone.symm.trans live
      · have role := before.role_perform after spares (fun mine same => own ⟨mine, same⟩) closed
        change port.Commands (((run world earlier).2.perform operation).2.machine.rig.role pin)
        rw [role]
        rcases port?_perform live with ⟨config, -, rfl⟩ | ⟨old, there, rfl | ⟨mine, same, -⟩⟩
        · exact Port.commands_create _ _ _
        · exact ih there shared
        · exact absurd ⟨mine, same⟩ own

/-- Where the hardware refuses no interrupt, a message that a started port sends leaves the mode
of its line, its slot, and whether it listens, but that it has a muted one-wire receiver listen
again. What is attached to the receive pin stays as well, and the way that a shared pin goes,
provided that nothing else has ever worked on a shared pin. -/
theorem run_write_restores (empty : world.ports = #[]) {port : Port}
    (live : (world.run operations).2.port? index = some port) (running : port.started = true)
    (granted : ∀ pin, port.rxPin = some pin → (world.run operations).2.machine.rig.Grants pin)
    (data : List UInt8) :
    let before := (world.run operations).2.machine
    let after := (port.write before data).2
    after.1.mode = port.mode ∧ after.1.slot = port.slot ∧
      (¬ port.Rearms data → after.1.listening = port.listening) ∧
      (port.Rearms data → after.1.listening = true ∧
        ∀ pin, port.rxPin = some pin → after.2.board.handler? pin = port.slot.map .entry) ∧
      ((∀ pin, port.sharedPin? = some pin → world.Devoted operations index pin) →
        (¬ port.Rearms data → ∀ pin, port.rxPin = some pin →
          after.2.board.handler? pin = before.board.handler? pin) ∧
        ∀ pin, port.sharedPin? = some pin →
          after.2.board.direction pin = before.board.direction pin) := by
  have orderly := run_orderly empty live
  have fitted := run_fitted empty live
  have posture := orderly.posture_write (world.run operations).2.machine data
  have mode : (port.write (world.run operations).2.machine data).2.1.mode = port.mode :=
    congrArg Posture.mode posture
  obtain ⟨listening, stake⟩ := port.stake_write (world.run operations).2.machine data
  refine ⟨mode, congrArg Stake.slot stake, ?_, ?_, ?_⟩
  · exact fun still => (orderly.write_kept fitted granted still).1
  · intro ⟨switches, held, silent⟩
    obtain ⟨slot, own⟩ := Option.isSome_iff_exists.mp held
    obtain ⟨pin, shared⟩ := Option.isSome_iff_exists.mp switches.shared
    obtain ⟨oneWire, send⟩ := Port.sharedPin?_eq_some.mp shared
    have receive := (fitted.shared oneWire).trans send
    obtain ⟨listens, handler⟩ :=
      orderly.write_rearms switches receive shared own (granted pin receive)
    refine ⟨congrArg Stake.listening listens, fun other place => ?_⟩
    cases receive.symm.trans place
    exact handler.trans (by rw [own]; rfl)
  · intro devoted
    have commands := fun pin shared => run_commands empty (devoted pin shared) live shared
    constructor
    · intro still pin receive
      exact (orderly.write_kept fitted granted still).2 pin (commands pin) receive
    · intro pin shared
      have reserved := (devoted pin shared).reserved operations (List.prefix_refl _)
      have wired := reserved.wired live fitted shared
      have outfit := (port.works_write (world.run operations).2.machine data).outfit
      have kept := (commands pin shared).write orderly wired data
      have runs := (congrArg Posture.started posture).trans running
      exact (kept.turned (.inl runs)).trans
        ((Port.bearing_of_same mode (congrArg Port.Outfit.design outfit)).trans
          ((commands pin shared).turned (.inl running)).symm)

/-- A one-wire port that listens. -/
def attentive : List Operation :=
  [.openPort { rxPin := some 5, txPin := some 5 }, .port 0 (.start 9600)]

/-- A message leaves it listening on an input, with the same entry attached. -/
theorem attentive_write_restores :
    let before := (run {} attentive).2.machine
    ∃ port, (run {} attentive).2.port? 0 = some port ∧ port.started = true ∧
      port.listening = true ∧ port.sharedPin? = some 5 ∧
      let after := (port.write before [0x55]).2
      after.1.mode = port.mode ∧ after.1.slot = port.slot ∧ after.1.listening = port.listening ∧
        after.2.board.handler? 5 = before.board.handler? 5 ∧
        after.2.board.direction 5 = before.board.direction 5 := by
  have started : ((run {} attentive).2.port? 0).map (fun port =>
      (port.started, port.listening, port.rxPin, port.sharedPin?)) =
        some (true, true, some 5, some 5) := by
    decide +kernel
  have refuses : (run {} attentive).2.machine.faults = [] ∧
      (run {} attentive).2.machine.board.usable = none := by
    decide +kernel
  have alone : ∀ place < 3, (run {} (attentive.take place)).2.ports.size ≤ 1 ∧
      ((run {} (attentive.take place)).2.port? 0).all (fun port =>
        port.enablePin = none && port.config.enablePin = none) := by
    decide +kernel
  have devoted : Devoted {} attentive 0 5 := by
    refine ⟨by decide, fun earlier began => ?_⟩
    have front : earlier = attentive.take earlier.length := List.prefix_iff_eq_take.mp began
    obtain ⟨single, disabled⟩ := alone earlier.length (Nat.lt_succ_of_le began.length_le)
    rw [← front] at single disabled
    refine ⟨fun port live => ?_, fun other port different live => ?_⟩
    · rw [live, Option.all_some] at disabled
      obtain ⟨enable, configured⟩ := Bool.and_eq_true_iff.mp disabled
      constructor
      · rw [of_decide_eq_true enable]
        exact fun enabled => by cases enabled
      · rw [of_decide_eq_true configured]
        exact fun enabled => by cases enabled
    · have inside := lt_of_port? live
      omega
  obtain ⟨port, live, same⟩ := Option.map_eq_some_iff.mp started
  obtain ⟨running, same⟩ := Prod.mk.inj same
  obtain ⟨listens, same⟩ := Prod.mk.inj same
  obtain ⟨receive, shared⟩ := Prod.mk.inj same
  have granted : ∀ pin, port.rxPin = some pin → (run {} attentive).2.machine.rig.Grants pin := by
    intro pin _
    refine ⟨refuses.1, ?_⟩
    rw [show (run {} attentive).2.machine.rig.usable = none from refuses.2]
    rfl
  have still : ¬ port.Rearms [0x55] := by
    rintro ⟨-, -, silent⟩
    cases listens.symm.trans silent
  obtain ⟨mode, slot, kept, -, restored⟩ := run_write_restores rfl live running granted [0x55]
  obtain ⟨attached, turned⟩ := restored fun pin place => by
    cases shared.symm.trans place
    exact devoted
  exact ⟨port, live, running, listens, shared, mode, slot, kept still, attached still 5 receive,
    turned 5 shared⟩

/-- A one-wire port that was told not to listen. -/
def muted : List Operation := attentive ++ [.port 0 (.setListening false)]

/-- A one-wire port that enables a driver with the pin of its line. -/
def selfEnabling : List Operation := attentive ++ [.port 0 (.useEnablePin 5)]

/-- A one-wire port on a pin that another port has listened on and left. -/
def crowded : List Operation :=
  attentive ++ [.openPort { rxPin := some 5 }, .port 1 (.start 9600), .port 1 .stop]

/-- What is told of the receive side of the port at the index 0, on pin 5: whether it was started,
the mode of its line, its slot, whether it listens, whether anything is attached, and which way
the pin goes. -/
def receiveSide (operations : List Operation) :
    Option (Bool × LineMode × Option Nat × Bool) × Bool × Direction :=
  let reached := (run {} operations).2
  ((reached.port? 0).map fun port =>
      (port.started, port.mode, port.slot.map (·.val), port.listening),
    (reached.machine.board.handler? 5).isSome, reached.machine.board.direction 5)

/-- A message has the muted port listen, turns the pin of the self-enabling one, and attaches
the crowded one anew. -/
theorem write_not_restoring :
    receiveSide muted = (some (true, .receive, some 0, false), false, .input) ∧
      receiveSide (muted ++ [.port 0 (.write [0x55])]) =
        (some (true, .receive, some 0, true), true, .input) ∧
      receiveSide selfEnabling = (some (true, .receive, some 0, true), true, .output) ∧
      receiveSide (selfEnabling ++ [.port 0 (.write [0x55])]) =
        (some (true, .receive, some 0, true), true, .input) ∧
      receiveSide crowded = (some (true, .receive, some 0, true), false, .input) ∧
      receiveSide (crowded ++ [.port 0 (.write [0x55])]) =
        (some (true, .receive, some 0, true), true, .input) := by
  refine ⟨?_, ?_, ?_, ?_, ?_, ?_⟩ <;> decide +kernel

end World
end PinUart
