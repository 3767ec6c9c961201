import PinUart.Proofs.Footprint
import PinUart.Proofs.Role

/-! Which way the shared pin of a one-wire port goes, and what is attached to it. While the port
receives, the pin is an input; while it sends, the pin rests ready for that. Every operation of
the port sees to it, as long as the pin is not the driver-enable pin of the port as well. -/
namespace PinUart

namespace Port

variable {port other : Port} {machine after : Machine} {pin : Pin} {role : PinRole}

/-- The way the shared pin of a port goes, by the mode of the line. -/
def bearing (port : Port) : Direction :=
  match port.mode with
  | .receive => .input
  | .transmit => port.transmitter.drive.bearing port.transmitter.markLevel

/-- A pin has the role that the port wants: the entry of the port's slot is attached while it
listens, and the pin goes the way of the line once the port was started or turned. -/
structure Commands (port : Port) (role : PinRole) : Prop where
  attached : port.listening → role.handler = port.slot.map .entry
  turned : port.started ∨ port.mode = .transmit → role.direction = port.bearing

theorem bearing_of_same (mode : other.mode = port.mode)
    (design : other.outfit.design = port.outfit.design) : other.bearing = port.bearing := by
  have drive : other.transmitter.drive = port.transmitter.drive := congrArg Design.drive design
  have invert : other.transmitter.invert = port.transmitter.invert :=
    congrArg Design.invert design
  unfold bearing Transmitter.markLevel
  rw [mode, drive, invert]

theorem bearing_of_receive (receives : port.mode = .receive) : port.bearing = .input := by
  rw [bearing, receives]

theorem Commands.of_same (commands : port.Commands role) (stake : other.stake = port.stake)
    (posture : other.posture = port.posture)
    (design : other.outfit.design = port.outfit.design) : other.Commands role := by
  have listening : other.listening = port.listening := congrArg Stake.listening stake
  have slot : other.slot = port.slot := congrArg Stake.slot stake
  have started : other.started = port.started := congrArg Posture.started posture
  have mode : other.mode = port.mode := congrArg Posture.mode posture
  refine ⟨?_, ?_⟩
  · rw [listening, slot]
    exact commands.attached
  · rw [started, mode, bearing_of_same mode design]
    exact commands.turned

/-- A one-wire port on the pin, which does not enable a driver as well. -/
structure Outfit.Wired (outfit : Outfit) (pin : Pin) : Prop where
  oneWire : outfit.config.oneWire = true
  receive : outfit.rxPin = some pin
  send : outfit.txPin = some pin
  enable : outfit.enablePin ≠ some pin
  configured : outfit.config.enablePin ≠ some pin

theorem Outfit.Wired.sharedPin? (wired : port.outfit.Wired pin) : port.sharedPin? = some pin :=
  sharedPin?_eq_some.mpr ⟨wired.oneWire, wired.send⟩

theorem Outfit.Wired.of_same (wired : port.outfit.Wired pin)
    (outfit : other.outfit = port.outfit) : other.outfit.Wired pin := by
  rw [outfit]
  exact wired

/-- Without a slot nothing is armed or disarmed. -/
theorem setListening_of_slotless (free : port.slot = none) (machine : Machine) (on : Bool) :
    port.setListening machine on = (.ok (), port, machine) := by
  unfold setListening
  split
  · rename_i own
    cases free.symm.trans own
  · rfl

/-- Arming attaches the entry of the slot, unless the hardware refuses. -/
theorem arm_cases {slot : SlotIndex} (receive : port.rxPin = some pin)
    (own : port.slot = some slot) (machine : Machine) :
    ((port.setListening machine true).1 = .ok () ∧
        (port.setListening machine true).2.1.stake = { port.stake with listening := true } ∧
        (port.setListening machine true).2.2.rig.role pin =
          { machine.rig.role pin with handler := some (.entry slot) }) ∨
      ¬ machine.rig.Grants pin ∧
        (port.setListening machine true).2.1.stake = port.stake ∧
        (port.setListening machine true).2.2.rig.role pin = machine.rig.role pin := by
  unfold setListening
  split
  · rename_i place held there holds
    cases receive.symm.trans there
    cases own.symm.trans holds
    rw [if_pos rfl]
    dsimp only
    split
    · rename_i failed
      refine .inr ⟨fun granted => ?_, rfl, Rig.role_of_pins (Machine.rig_attach_error failed).1 pin⟩
      rw [← machine.rig_readClock] at granted
      cases (congrArg Prod.fst failed).symm.trans ((Machine.grants_iff _ pin).mp granted _)
    · rename_i granted
      refine .inl ⟨rfl, rfl, ?_⟩
      rw [Machine.rig_attach granted, machine.rig_readClock, Rig.role_modify]
      rfl
  · rename_i without
    exact absurd own (without pin slot receive)

theorem role_disarm {slot : SlotIndex} (receive : port.rxPin = some pin)
    (own : port.slot = some slot) (machine : Machine) :
    (port.setListening machine false).2.2.rig.role pin =
      { machine.rig.role pin with handler := none } := by
  rw [rig_disarm receive own, Rig.role_modify]
  rfl

/-- Arming and disarming turn no pin. -/
theorem direction_setListening (receive : port.rxPin = some pin) (machine : Machine)
    (on : Bool) : ((port.setListening machine on).2.2.rig.role pin).direction =
      (machine.rig.role pin).direction := by
  cases own : port.slot with
  | none => rw [setListening_of_slotless own]
  | some slot =>
    cases on with
    | false => rw [role_disarm receive own]
    | true =>
      rcases arm_cases receive own machine with ⟨-, -, same⟩ | ⟨-, -, same⟩
      · rw [same]
      · rw [same]

/-- Arming and disarming keep the way that a pin goes. -/
theorem Commands.turned_setListening (commands : port.Commands (machine.rig.role pin))
    (receive : port.rxPin = some pin) (on : Bool)
    (turned : (port.setListening machine on).2.1.started ∨
      (port.setListening machine on).2.1.mode = .transmit) :
    ((port.setListening machine on).2.2.rig.role pin).direction =
      (port.setListening machine on).2.1.bearing := by
  have posture := port.posture_setListening machine on
  have outfit := (port.works_setListening machine on).outfit
  have mode := congrArg Posture.mode posture
  rw [direction_setListening receive, bearing_of_same mode (congrArg Outfit.design outfit)]
  refine commands.turned ?_
  rcases turned with runs | sends
  · exact .inl ((congrArg Posture.started posture).symm.trans runs)
  · exact .inr (mode.symm.trans sends)

theorem Commands.arm (commands : port.Commands (machine.rig.role pin))
    (receive : port.rxPin = some pin) :
    (port.setListening machine true).2.1.Commands
      ((port.setListening machine true).2.2.rig.role pin) := by
  refine ⟨fun listens => ?_, commands.turned_setListening receive true⟩
  cases own : port.slot with
  | none =>
    rw [setListening_of_slotless own] at listens ⊢
    exact commands.attached listens
  | some slot =>
    rcases arm_cases receive own machine with ⟨-, stake, same⟩ | ⟨-, stake, same⟩
    · have holds : (port.setListening machine true).2.1.slot = port.slot :=
        congrArg Stake.slot stake
      rw [same, holds, own]
      rfl
    · have holds : (port.setListening machine true).2.1.slot = port.slot :=
        congrArg Stake.slot stake
      have before : port.listening = true :=
        (congrArg Stake.listening stake).symm.trans listens
      rw [same, holds]
      exact commands.attached before

theorem Commands.disarm (commands : port.Commands (machine.rig.role pin))
    (orderly : port.Orderly) (receive : port.rxPin = some pin) :
    (port.setListening machine false).2.1.Commands
      ((port.setListening machine false).2.2.rig.role pin) := by
  refine ⟨fun listens => ?_, commands.turned_setListening receive false⟩
  have silent := congrArg Stake.listening (orderly.disarm machine)
  cases silent.symm.trans listens

/-- The pin goes the new way before a port that receives again is armed. -/
theorem Commands.turnLine (commands : port.Commands (machine.rig.role pin))
    (orderly : port.Orderly) (wired : port.outfit.Wired pin) (on : Bool) :
    (port.turnLine machine on).2.1.Commands ((port.turnLine machine on).2.2.rig.role pin) := by
  cases on with
  | true =>
    obtain ⟨other, between, disarmed, same⟩ := turnLine_away wired.sharedPin? machine
    have silent := congrArg Stake.listening (orderly.disarm machine)
    rw [disarmed] at silent
    rw [same]
    refine ⟨fun listens => ?_, fun _ => ?_⟩
    · cases silent.symm.trans listens
    · change ((between.restLine pin other.transmitter.markLevel
        other.transmitter.drive).rig.role pin).direction = _
      rw [Machine.rig_restLine, Rig.role_modify]
      exact (Drive.rest_role _ _ _).1
  | false =>
    obtain ⟨answer, other, between, log, armed, same⟩ := turnLine_back wired.sharedPin? machine
    have turned : { port with mode := .receive }.Commands
        (((machine.setPull pin .up).setDirection pin .input).rig.role pin) := by
      rw [Machine.rig_setInput, Rig.role_modify]
      exact ⟨commands.attached, fun _ => rfl⟩
    have kept := turned.arm wired.receive
    rw [armed] at kept
    rw [same]
    exact kept

/-- What a fault of the turn puts into the log is of no concern here. -/
theorem turnLineOrWarn_eq (port : Port) (machine : Machine) (on : Bool) :
    (port.turnLineOrWarn machine on).1 = (port.turnLine machine on).2.1 ∧
      (port.turnLineOrWarn machine on).2.rig = (port.turnLine machine on).2.2.rig := by
  unfold turnLineOrWarn
  split
  · rename_i done
    rw [done]
    exact ⟨rfl, rfl⟩
  · rename_i failed
    rw [failed]
    exact ⟨rfl, rfl⟩

/-- The driver is enabled on another pin. -/
theorem role_setEnable (aside : port.enablePin ≠ some pin) (machine : Machine) (on : Bool) :
    (port.setEnable machine on).rig.role pin = machine.rig.role pin := by
  unfold setEnable
  split
  · rfl
  · rename_i enable own
    rw [Machine.rig_setLine]
    refine Rig.role_modify_of_ne ?_ _
    rintro rfl
    exact aside own

/-- Sending leaves a pin that is ready for it ready. -/
theorem role_sendOn (aside : port.enablePin ≠ some pin)
    (ready : (machine.rig.role pin).direction =
      port.transmitter.drive.bearing port.transmitter.markLevel) (data : List UInt8) :
    (port.sendOn machine pin data).2.rig.role pin = machine.rig.role pin := by
  have enabled := role_setEnable aside machine true
  have sent : (port.transmitter.send (port.setEnable machine true) pin data).2.rig.role pin =
      (port.setEnable machine true).rig.role pin := by
    by_cases filled : data = []
    · subst filled
      rfl
    · rw [← enabled] at ready
      obtain ⟨direction, handler⟩ := Drive.turn_role ready
      rw [Transmitter.rig_send _ _ filled, Rig.role_modify, direction, handler, ← ready]
      rfl
  exact (role_setEnable aside _ false).trans (sent.trans enabled)

theorem Commands.write (commands : port.Commands (machine.rig.role pin))
    (orderly : port.Orderly) (wired : port.outfit.Wired pin) (data : List UInt8) :
    (port.write machine data).2.1.Commands ((port.write machine data).2.2.rig.role pin) := by
  have polls := port.polls_collect machine
  have tends := port.tends_collect machine
  unfold Port.write
  generalize port.collect machine = result at polls tends ⊢
  obtain ⟨other, between⟩ := result
  have wired := wired.of_same polls.outfit
  have orderly : other.Orderly :=
    orderly.of_same tends.stake (congrArg Posture.started tends.posture)
  have collected : other.Commands (between.rig.role pin) := by
    rw [polls.rig]
    exact commands.of_same tends.stake tends.posture (congrArg Outfit.design polls.outfit)
  dsimp only
  rw [show other.txPin = some pin from wired.send]
  dsimp only
  split
  · exact collected
  · split
    · have sending : (other.turnLine between true).2.1.mode = .transmit := by
        obtain ⟨-, ⟨unshared, -⟩ | ⟨-, posture, -⟩⟩ := orderly.turnLine between true
        · cases unshared.symm.trans wired.sharedPin?
        · exact congrArg Posture.mode posture
      have turned := collected.turnLine orderly wired true
      have kept := (orderly.turnLine between true).1
      have wired := wired.of_same (other.works_turnLine between true).outfit
      obtain ⟨third, early⟩ := other.turnLineOrWarn_eq between true
      rw [← early] at turned
      rw [← third] at turned sending kept wired
      generalize other.turnLineOrWarn between true = result at turned sending kept wired ⊢
      obtain ⟨third, early⟩ := result
      have ready := turned.turned (.inr sending)
      rw [bearing, show third.mode = .transmit from sending] at ready
      rw [← role_sendOn wired.enable ready data] at turned
      obtain ⟨same, rig⟩ := third.turnLineOrWarn_eq (third.sendOn early pin data).2 false
      dsimp only at turned ⊢
      rw [same, rig]
      exact turned.turnLine kept wired false
    · rename_i sending
      have sending : other.mode = .transmit := by
        have oneWire : other.config.oneWire = true := wired.oneWire
        rw [oneWire] at sending
        cases turned : other.mode with
        | transmit => rfl
        | receive =>
          rw [turned] at sending
          exact absurd rfl sending
      have ready := collected.turned (.inr sending)
      rw [bearing, sending] at ready
      dsimp only
      rw [role_sendOn wired.enable ready data]
      exact collected

/-- A port that stopped has nothing attached, and its pin goes as before. -/
theorem Commands.stop (commands : port.Commands (machine.rig.role pin))
    (orderly : port.Orderly) (receive : port.rxPin = some pin) :
    (port.stop machine).1.Commands ((port.stop machine).2.rig.role pin) := by
  have silent := congrArg Stake.listening (orderly.stop machine).1
  refine ⟨fun listens => ?_, fun turned => ?_⟩
  · cases silent.symm.trans listens
  · have sends : (port.stop machine).1.mode = .transmit := by
      rcases turned with runs | sends
      · have stopped := congrArg Posture.started (orderly.stop machine).2
        cases stopped.symm.trans runs
      · exact sends
    have mode : (port.stop machine).1.mode = port.mode :=
      congrArg Posture.mode (orderly.stop machine).2
    have outfit := (port.works_stop machine).outfit
    rw [bearing_of_same mode (congrArg Outfit.design outfit),
      ← commands.turned (.inr (mode.symm.trans sends))]
    unfold Port.stop
    split
    · rfl
    · have disarmed := direction_setListening receive machine false
      generalize port.setListening machine false = result at disarmed ⊢
      obtain ⟨answer, other, between⟩ := result
      refine Eq.trans ?_ disarmed
      dsimp only
      unfold giveSlotBack
      split
      · rfl
      · unfold Machine.release
        split <;> rfl

/-- The driver-enable pin of the configuration is another one. -/
theorem role_startEnablePin (configured : port.config.enablePin ≠ some pin)
    (machine : Machine) :
    (port.startEnablePin machine).2.2.rig.role pin = machine.rig.role pin := by
  unfold startEnablePin
  split
  · rename_i enable _ own
    unfold useEnablePin
    split
    · change (machine.restLine enable false port.transmitter.drive).rig.role pin = _
      rw [Machine.rig_restLine]
      refine Rig.role_modify_of_ne ?_ _
      rintro rfl
      exact configured own
    · rfl
  · rfl

theorem role_giveSlotBack (port : Port) (machine : Machine) (pin : Pin) :
    (port.giveSlotBack machine).2.rig.role pin = machine.rig.role pin := by
  unfold giveSlotBack
  split
  · rfl
  · unfold Machine.release
    split <;> rfl

/-- A port that listens has its slot already. -/
theorem Commands.startSlot (commands : port.Commands (machine.rig.role pin))
    (orderly : port.Orderly) :
    (port.startSlot machine).2.1.Commands ((port.startSlot machine).2.2.rig.role pin) := by
  rcases port.startSlot_cases machine with ⟨same, -⟩ | ⟨free, -, ⟨failure, same, -⟩ |
    ⟨slot, bound, same, board, -⟩⟩
  · rw [same]
    exact commands
  · rw [same]
    exact commands
  · rw [same]
    have pins : bound.rig.pins = machine.rig.pins := congrArg Board.pins board
    dsimp only
    rw [Rig.role_of_pins pins pin]
    refine ⟨fun listens => ?_, commands.turned⟩
    cases (Stake.Orderly.silent orderly free).symm.trans listens

/-- The shared pin of a one-wire port is not set up for sending. -/
theorem startSending_eq (oneWire : port.config.oneWire = true) (machine : Machine) :
    port.startSending machine = machine := by
  unfold startSending
  split
  · rfl
  · rw [if_pos oneWire]

theorem Commands.startReception (commands : port.Commands (machine.rig.role pin))
    (receive : port.rxPin = some pin) (captured : port.stake.capture.isSome) :
    (port.startReception machine).1.mode = .receive ∧
      ((port.startReception machine).2.rig.role pin).direction = .input ∧
      (port.startReception machine).1.Commands
        ((port.startReception machine).2.rig.role pin) := by
  obtain ⟨reception, held⟩ := Option.isSome_iff_exists.mp (port.reception_isSome ▸ captured)
  unfold Port.startReception
  split
  · rename_i place _ there
    cases receive.symm.trans there
    rw [Machine.rig_setInput, Rig.role_modify]
    exact ⟨rfl, rfl, commands.attached, fun _ => rfl⟩
  · rename_i without
    exact absurd receive (without reception pin held)

/-- A one-wire receiver that is made ready for a start listens to an input. -/
theorem Commands.refresh (commands : port.Commands (machine.rig.role pin))
    (oneWire : port.config.oneWire = true) (receive : port.rxPin = some pin)
    (captured : port.stake.capture.isSome) (baud period : UInt32) :
    (port.refresh machine baud period).1.mode = .receive ∧
      ((port.refresh machine baud period).2.rig.role pin).direction = .input ∧
      (port.refresh machine baud period).1.Commands
        ((port.refresh machine baud period).2.rig.role pin) := by
  have timed : (port.withSpeed baud period).Commands (machine.rig.role pin) :=
    commands.of_same rfl rfl rfl
  obtain ⟨receives, listens, received⟩ := timed.startReception receive captured
  have outfit := ((port.withSpeed baud period).works_startReception machine).outfit
  unfold Port.refresh
  generalize (port.withSpeed baud period).startReception machine = result
    at receives listens received outfit ⊢
  obtain ⟨other, between⟩ := result
  have config : other.config = (port.withSpeed baud period).config :=
    congrArg Outfit.config outfit
  have oneWire : other.config.oneWire = true := by
    rw [config]
    exact oneWire
  dsimp only
  rw [@startSending_eq { other with losses := {}, decoder := _ } oneWire]
  exact ⟨receives, listens, received.of_same rfl rfl rfl⟩

/-- Arming at the end of a start turns no pin; a fault leaves the port silent. -/
theorem Commands.startListening (commands : port.Commands (machine.rig.role pin))
    (receive : port.rxPin = some pin) :
    ((port.startListening machine).2.2.rig.role pin).direction =
        (machine.rig.role pin).direction ∧
      ((port.startListening machine).2.1.listening →
        ((port.startListening machine).2.2.rig.role pin).handler =
          (port.startListening machine).2.1.slot.map .entry) := by
  have armed := commands.arm receive
  have turned := direction_setListening receive machine true
  unfold Port.startListening
  split
  · exact ⟨rfl, commands.attached⟩
  · rename_i silent
    split
    · rename_i done
      rw [done] at armed turned
      exact ⟨turned, armed.attached⟩
    · rename_i failure other between failed
      have still := listening_of_arm_error failed
      rw [failed] at turned
      dsimp only
      rw [role_giveSlotBack]
      refine ⟨turned, fun listens => ?_⟩
      have same : (other.giveSlotBack between).1.listening = other.listening := by
        unfold giveSlotBack
        split <;> rfl
      exact absurd (still.symm.trans (same.symm.trans listens)) silent

theorem Commands.start (commands : port.Commands (machine.rig.role pin))
    (orderly : port.Orderly) (wired : port.outfit.Wired pin)
    (equipped : port.stake.capture.isSome ∨ port.refused.isSome) (baud : UInt32) :
    (port.start machine baud).2.1.Commands ((port.start machine baud).2.2.rig.role pin) := by
  have idles := port.idles_startEnablePin machine
  have told := port.posture_startEnablePin machine
  have design := port.design_startEnablePin machine
  have enabled := role_startEnablePin wired.configured machine
  have prepared : (port.startEnablePin machine).2.1.Commands
      ((port.startEnablePin machine).2.2.rig.role pin) := by
    rw [enabled]
    exact commands.of_same idles.stake told design
  rcases port.start_cases machine baud with ⟨failure, -, same⟩ | ⟨failure, -, same⟩ |
    ⟨period, first, between, second, bound, buffers, -, ready, claimed, same⟩
  · rw [same]
    exact commands
  · rw [same]
    exact prepared
  · rw [ready] at prepared design idles told
    rw [same]
    have settled := prepared.startSlot (orderly.of_same idles.stake (by rw [told]))
    have slotted := (first.works_startSlot between).outfit
    rw [claimed] at settled slotted
    obtain ⟨-, -, slot, stake, -⟩ := startSlot_ok claimed
    have captured : second.stake.capture.isSome := by
      rw [stake, show first.stake = port.stake from idles.stake]
      rcases equipped with receives | refused
      · exact receives
      · rw [buffers] at refused
        cases refused
    have made : second.outfit.design = port.outfit.design :=
      (congrArg Outfit.design slotted).trans design
    have receive : second.rxPin = some pin := (congrArg Design.rxPin made).trans wired.receive
    have oneWire : second.config.oneWire = true :=
      (congrArg Design.oneWire made).trans wired.oneWire
    obtain ⟨receives, listens, renewed⟩ := settled.refresh oneWire receive captured baud period
    have place : (second.refresh bound baud period).1.rxPin = some pin := by
      have same := (second.works_refresh bound baud period).outfit
      exact (congrArg Outfit.rxPin same).trans receive
    generalize second.refresh bound baud period = result at receives listens renewed place ⊢
    obtain ⟨third, fresh⟩ := result
    obtain ⟨turned, attached⟩ := renewed.startListening place
    have still := congrArg Posture.mode (third.posture_startListening fresh)
    unfold launch
    split
    · rename_i failed
      rw [failed] at turned attached still
      exact ⟨attached, fun _ => (turned.trans listens).trans
        (bearing_of_receive (still.trans receives)).symm⟩
    · rename_i done
      rw [done] at turned attached still
      exact ⟨attached, fun _ => (turned.trans listens).trans
        (bearing_of_receive (still.trans receives)).symm⟩

/-- Whatever does not touch the interrupt or the line sets up at most a driver-enable pin. -/
theorem role_perform_plain {operation : Operation} (plain : operation.isPlain)
    (aside : (port.perform machine operation).2.1.enablePin ≠ some pin) :
    (port.perform machine operation).2.2.rig.role pin = machine.rig.role pin := by
  have polled : ∀ {after}, port.Polls machine after → after.2.rig.role pin = machine.rig.role pin :=
    fun polls => by rw [polls.rig]
  cases operation with
  | setSpeed baud =>
    change (port.setSpeed machine baud).2.2.rig.role pin = _
    unfold setSpeed
    split <;> rfl
  | read => exact polled (port.polls_read machine)
  | peek => exact polled (port.polls_collect machine)
  | available => exact polled (port.polls_available machine)
  | drain => exact polled (port.polls_drainWith machine _)
  | flush => exact polled (port.polls_flush machine)
  | anyLost | takeLosses => exact polled (port.polls_takeLosses machine)
  | serve => exact polled (port.polls_serve machine)
  | useEnablePin enable =>
    change (port.useEnablePin machine enable).2.1.enablePin ≠ some pin at aside
    change (port.useEnablePin machine enable).2.2.rig.role pin = _
    unfold useEnablePin at aside ⊢
    split
    · rename_i useful
      rw [if_pos useful] at aside
      change (machine.restLine enable false port.transmitter.drive).rig.role pin = _
      rw [Machine.rig_restLine]
      refine Rig.role_modify_of_ne ?_ _
      rintro rfl
      exact aside rfl
    · rfl
  | setCallback | setInterruptible | report | describe => rfl
  | start | stop | write | turnLine | setListening => cases plain

/-- Every operation of the port keeps its pin as it wants it. -/
theorem Commands.perform (commands : port.Commands (machine.rig.role pin))
    (orderly : port.Orderly) (wired : port.outfit.Wired pin)
    (equipped : port.stake.capture.isSome ∨ port.refused.isSome) {operation : Operation}
    (aside : (port.perform machine operation).2.1.enablePin ≠ some pin) :
    (port.perform machine operation).2.1.Commands
      ((port.perform machine operation).2.2.rig.role pin) := by
  by_cases plain : operation.isPlain
  · obtain ⟨stake, posture⟩ := port.perform_plain machine plain
    rw [role_perform_plain plain aside]
    exact commands.of_same stake posture (port.serves_perform machine operation).design
  · cases operation with
    | start baud => exact commands.start orderly wired equipped baud
    | stop => exact commands.stop orderly wired.receive
    | turnLine on => exact commands.turnLine orderly wired on
    | setListening on =>
      cases on with
      | true => exact commands.arm wired.receive
      | false => exact commands.disarm orderly wired.receive
    | write data => exact commands.write orderly wired data
    | _ => exact absurd rfl plain

/-- A receive pin has its buffers, or they were refused, and a one-wire port sends on it. -/
structure Fitted (port : Port) : Prop where
  equipped : port.rxPin.isSome → port.stake.capture.isSome ∨ port.refused.isSome
  shared : port.config.oneWire → port.rxPin = port.txPin

theorem openReception_equipped (machine : Machine) (config : Config)
    (receives : (usablePins machine config).1.isSome) :
    (openReception machine config).1.isSome ∨ (openReception machine config).2.1.isSome := by
  unfold openReception
  split
  · rename_i without
    rw [without] at receives
    cases receives
  · split
    · exact .inl rfl
    · exact .inr rfl

theorem fitted_create (machine : Machine) (config : Config) :
    (create machine config).1.Fitted := by
  have board : (noteUnusablePins machine config).board = machine.board := by
    unfold noteUnusablePins
    split <;> rfl
  constructor
  · intro receives
    have receives : (usablePins (noteUnusablePins machine config) config).1.isSome := by
      unfold usablePins
      rw [board]
      exact receives
    rw [← reception_isSome]
    exact openReception_equipped _ _ receives
  · intro shared
    have both : (config.rxPin == config.txPin) = true := (Bool.and_eq_true_iff.mp shared).2
    exact congrArg (Option.filter machine.board.isUsable) (eq_of_beq both)

/-- Of its stake a port only ever listens or not when it is armed, disarmed or turned. -/
theorem stake_setListening (port : Port) (machine : Machine) (on : Bool) :
    ∃ listening, (port.setListening machine on).2.1.stake = { port.stake with listening } := by
  rcases port.setListening_cases machine on with ⟨same, -⟩ | ⟨-, -, same⟩
  · exact ⟨_, same⟩
  · exact ⟨_, same⟩

theorem stake_turnLine (port : Port) (machine : Machine) (on : Bool) :
    ∃ listening, (port.turnLine machine on).2.1.stake = { port.stake with listening } := by
  cases shared : port.sharedPin? with
  | none =>
    rw [turnLine_unshared shared]
    exact ⟨_, rfl⟩
  | some pin =>
    cases on with
    | true =>
      obtain ⟨other, between, disarmed, same⟩ := turnLine_away shared machine
      have kept := port.stake_setListening machine false
      rw [disarmed] at kept
      rw [same]
      exact kept
    | false =>
      obtain ⟨answer, other, between, log, armed, same⟩ := turnLine_back shared machine
      have kept := stake_setListening { port with mode := .receive }
        ((machine.setPull pin .up).setDirection pin .input) true
      rw [armed] at kept
      rw [same]
      exact kept

theorem stake_write (port : Port) (machine : Machine) (data : List UInt8) :
    ∃ listening, (port.write machine data).2.1.stake = { port.stake with listening } := by
  refine @write_induction port
    (fun other => ∃ listening, other.stake = { port.stake with listening }) ?_ ?_ ⟨_, rfl⟩
    machine data
  · intro other later kept stake _
    rw [stake]
    exact kept
  · intro other kept machine on
    obtain ⟨before, kept⟩ := kept
    obtain ⟨listening, same⟩ := other.stake_turnLine machine on
    exact ⟨listening, same.trans (by rw [kept])⟩

/-- The capture of a port is its own for good. -/
theorem Orderly.capture_perform (orderly : port.Orderly) (machine : Machine)
    (operation : Operation) :
    (port.perform machine operation).2.1.stake.capture = port.stake.capture := by
  by_cases plain : operation.isPlain
  · rw [(port.perform_plain machine plain).1]
  · cases operation with
    | start baud =>
      change (port.start machine baud).2.1.stake.capture = _
      rcases port.start_outcome machine baud with ⟨failure, -, refused⟩ | ⟨-, begun⟩
      · rcases refused.stake with same | ⟨-, same⟩
        · rw [same]
        · rw [same]
      · obtain ⟨slot, listening, same, -⟩ := begun.stake
        rw [same]
    | stop =>
      change (port.stop machine).1.stake.capture = _
      rw [(orderly.stop machine).1]
    | turnLine on =>
      obtain ⟨listening, same⟩ := port.stake_turnLine machine on
      change (port.turnLine machine on).2.1.stake.capture = _
      rw [same]
    | setListening on =>
      obtain ⟨listening, same⟩ := port.stake_setListening machine on
      change (port.setListening machine on).2.1.stake.capture = _
      rw [same]
    | write data =>
      obtain ⟨listening, same⟩ := port.stake_write machine data
      change (port.write machine data).2.1.stake.capture = _
      rw [same]
    | _ => exact absurd rfl plain

theorem Fitted.perform (fitted : port.Fitted) (orderly : port.Orderly) (machine : Machine)
    (operation : Operation) : (port.perform machine operation).2.1.Fitted := by
  have design := (port.serves_perform machine operation).design
  have captured := orderly.capture_perform machine operation
  generalize (port.perform machine operation).2.1 = other at design captured ⊢
  have receive : other.rxPin = port.rxPin := congrArg Design.rxPin design
  have send : other.txPin = port.txPin := congrArg Design.txPin design
  have refused : other.refused = port.refused := congrArg Design.refused design
  have oneWire : other.config.oneWire = port.config.oneWire := congrArg Design.oneWire design
  constructor
  · rw [receive, captured, refused]
    exact fitted.equipped
  · rw [oneWire, receive, send]
    exact fitted.shared

end Port
end PinUart
