import PinUart.Proofs.Deeds
import PinUart.Proofs.Punctuality
import PinUart.Proofs.Reporting
import PinUart.Proofs.Restoration

/-! The pin that switches an external line driver on. A port sets it up low and turns it for
messages only, so that between operations it is low, and a message is framed: the pin rises before
anything happens on the line, and falls after all has happened there. -/
namespace PinUart

namespace Machine

/-- Operations that leave a pin as it is set up. -/
def Operation.leavesPin (pin : Pin) : Operation → Bool
  | .inject other _ | .forceMessage other .. | .setDirection other _ | .setPull other _
  | .setOutput other _ | .attach other _ | .detach other | .attachSlot other _ => other != pin
  | _ => true

variable (machine : Machine) {pin : Pin}

theorem pins_modify {after : Machine} {other : Pin} {act : PinState → PinState}
    (rig : after.rig = machine.rig.modify other act) (different : other ≠ pin) :
    after.rig.pins.get pin = machine.rig.pins.get pin := by
  rw [rig]
  exact PinMap.get_modify_of_ne different ..

theorem pins_forceHolds {other : Pin} (different : other ≠ pin) (holds : List Hold) :
    (machine.forceHolds other holds).rig.pins.get pin = machine.rig.pins.get pin := by
  unfold forceHolds
  induction holds generalizing machine with
  | nil => rfl
  | cons hold holds ih =>
    exact (ih _).trans (machine.pins_modify (machine.rig_inject other _) different)

theorem pins_attachAnswering {other : Pin} (different : other ≠ pin) (handler : Handler) :
    (machine.attachAnswering other handler).2.rig.pins.get pin = machine.rig.pins.get pin := by
  unfold attachAnswering
  split
  · rename_i granted
    exact machine.pins_modify (rig_attach granted) different
  · rename_i failed
    rw [(rig_attach_error failed).1]

theorem pins_perform {operation : Operation} (leaves : operation.leavesPin pin) :
    (machine.perform operation).2.rig.pins.get pin = machine.rig.pins.get pin := by
  cases operation with
  | connect one other =>
    change (machine.connect one other).rig.pins.get pin = _
    rw [rig_connect]
  | inject other level =>
    exact machine.pins_modify (machine.rig_inject other level) (bne_iff_ne.mp leaves)
  | forceMessage other => exact machine.pins_forceHolds (bne_iff_ne.mp leaves) _
  | setDirection other direction =>
    exact machine.pins_modify (machine.rig_setDirection other direction) (bne_iff_ne.mp leaves)
  | setPull other pull =>
    exact machine.pins_modify (machine.rig_setPull other pull) (bne_iff_ne.mp leaves)
  | setOutput other high =>
    exact machine.pins_modify (machine.rig_setOutput other high) (bne_iff_ne.mp leaves)
  | unmask => exact congrArg (fun rig : Rig => rig.pins.get pin) machine.rig_unmask
  | attach other handler => exact machine.pins_attachAnswering (bne_iff_ne.mp leaves) handler
  | detach other =>
    have detached : (machine.detach other).rig =
        machine.rig.modify other ({ · with handler := none }) := rfl
    exact machine.pins_modify detached (bne_iff_ne.mp leaves)
  | attachSlot other slot =>
    unfold perform
    dsimp only
    split
    · rfl
    · exact machine.pins_attachAnswering (bne_iff_ne.mp leaves) _
  | claim sink =>
    obtain ⟨slots, claimed⟩ := machine.rig_claimAnswering sink
    change (machine.claimAnswering sink).2.rig.pins.get pin = _
    rw [claimed]
  | release slot =>
    unfold perform
    dsimp only
    split
    · rfl
    · rename_i slot _
      obtain ⟨slots, released⟩ := machine.rig_release slot
      rw [released]
  | dispatch slot | entry slot =>
    unfold perform
    dsimp only
    split
    · rfl
    · exact congrArg (fun rig : Rig => rig.pins.get pin) (machine.rig_enter (.entry _))
  | advance | level | readClock | rate | sleep | mask | isMasked | isUsable | hasHandler
  | direction | transitions | forgetTransitions | queueFault | isBound | slotTally => rfl

/-- What works on one pin adds to the records of its net, and to no others. -/
structure Records (before : Machine) (pin : Pin) (after : Machine) : Prop where
  nets : after.board.nets = before.board.nets
  grows : ∀ one, before.board.transitions one <+: after.board.transitions one
  elsewhere : ∀ one, one ∉ before.board.net pin →
    after.board.transitions one = before.board.transitions one

variable {before between after : Machine}

theorem net_of_nets (nets : after.board.nets = before.board.nets) (pin : Pin) :
    after.board.net pin = before.board.net pin := by
  unfold Board.net
  rw [nets]

theorem Records.of_history (nets : after.board.nets = before.board.nets)
    (history : after.board.history = before.board.history) (pin : Pin) :
    before.Records pin after := by
  have same (one : Pin) : after.board.transitions one = before.board.transitions one := by
    unfold Board.transitions
    rw [history]
  exact ⟨nets, fun one => (same one).symm ▸ List.prefix_refl _, fun one _ => same one⟩

theorem Records.trans (first : before.Records pin between) (second : between.Records pin after) :
    before.Records pin after := by
  refine ⟨second.nets.trans first.nets, fun one => (first.grows one).trans (second.grows one),
    fun one foreign => (second.elsewhere one ?_).trans (first.elsewhere one foreign)⟩
  rw [net_of_nets first.nets]
  exact foreign

theorem Elapses.records (elapses : before.Elapses after) (pin : Pin) :
    before.Records pin after := by
  obtain ⟨clock, same⟩ := elapses
  exact .of_history (by rw [same]) (by rw [same]) pin

theorem records_setUp (parted : machine.board.Parted) (pin : Pin) (act : PinState → PinState) :
    machine.Records pin (machine.settle (machine.board.setUp pin act)) := by
  have added (one : Pin) := (machine.transitions_settle (machine.board.setUp pin act) one).trans
    (Board.transitions_setUp parted pin act one)
  refine ⟨congrArg Fixture.nets (machine.fixture_setUp pin act), fun one => ?_,
    fun one foreign => ?_⟩
  · rw [added]
    exact List.prefix_append _ _
  · rw [added, if_neg fun changed => foreign changed.1, List.append_nil]

theorem records_unmask (pin : Pin) : machine.Records pin machine.unmask := by
  obtain ⟨clock, same⟩ := machine.board_settle machine.board.unmask
  have opened : machine.unmask.board = { machine.board.unmask.1 with clock } := same
  exact .of_history (by rw [opened]; rfl) (by rw [opened]; rfl) pin

end Machine

namespace Transmitter

variable (transmitter : Transmitter) (machine : Machine) (pin : Pin)

theorem records_hush : machine.Records pin (transmitter.hush machine) := by
  unfold hush
  split
  · exact .of_history rfl rfl pin
  · exact @Machine.Records.of_history machine machine.mask rfl rfl pin

theorem records_unhush : machine.Records pin (transmitter.unhush machine) := by
  unfold unhush
  split
  · exact .of_history rfl rfl pin
  · exact machine.records_unmask pin

theorem records_awaitDeadline (deadline : Cycle) :
    machine.Records pin (transmitter.awaitDeadline machine deadline) := by
  have read := machine.elapses_readClock.records pin
  unfold awaitDeadline
  dsimp only
  generalize machine.readClock.2 = between at read ⊢
  refine Machine.Records.trans ?_ ((Machine.elapses_spinUntil _ deadline).records pin)
  split
  · have opened := transmitter.records_unhush between pin
    have slept := Machine.elapses_sleep (transmitter.unhush between)
    exact read.trans (opened.trans (((slept _).records pin).trans (transmitter.records_hush _ pin)))
  · exact read

theorem records_setLine {machine : Machine} (parted : machine.board.Parted) (high : Bool) :
    machine.Records pin (machine.setLine pin high transmitter.drive) := by
  rw [Machine.setLine_eq]
  exact Machine.records_setUp machine parted pin _

theorem records_sendHolds {machine : Machine} (parted : machine.board.Parted) (deadline : Cycle)
    (holds : List Hold) :
    machine.Records pin (transmitter.sendHolds pin machine deadline holds) := by
  induction holds generalizing machine deadline with
  | nil => exact .of_history rfl rfl pin
  | cons hold holds ih =>
    have turned := transmitter.records_setLine pin parted hold.high
    have held := turned.trans (transmitter.records_awaitDeadline _ pin (deadline + hold.cycles))
    exact held.trans (ih (parted.of_nets held.nets) _)

/-- A message is recorded on the net of its line and nowhere else. -/
theorem records_send {machine : Machine} (parted : machine.board.Parted) (data : List UInt8) :
    machine.Records pin (transmitter.send machine pin data).2 := by
  unfold send
  split
  · exact .of_history rfl rfl pin
  · have rested := transmitter.records_setLine pin parted transmitter.markLevel
    dsimp only
    generalize machine.setLine pin transmitter.markLevel transmitter.drive = marked at rested ⊢
    have hushed := transmitter.records_hush marked pin
    generalize transmitter.hush marked = ready at hushed ⊢
    have read := ready.elapses_readClock.records pin
    generalize ready.readClock = reading at read ⊢
    have began := rested.trans (hushed.trans read)
    have sent := transmitter.records_sendHolds pin (parted.of_nets began.nets) reading.1
      (transmitter.plan data).holds
    exact began.trans (sent.trans (transmitter.records_unhush _ pin))

end Transmitter

namespace Machine

variable {machine : Machine} {pin : Pin}

/-- A pin on its own that is turned to the other level has one record more, and no other pin
has. -/
theorem setLine_records (parted : machine.board.Parted) (alone : machine.board.net pin = [pin])
    {drive : Drive} {high : Bool} (holds : drive.Holds (!high) (machine.board.pins.get pin)) :
    let after := machine.setLine pin high drive
    after.board.transitions pin =
        machine.board.transitions pin ++ [⟨machine.board.clock, high⟩] ∧
      ∀ one, one ≠ pin → after.board.transitions one = machine.board.transitions one := by
  have nobody (pins : PinMap PinState) : ∀ other ∈ machine.board.net pin, other ≠ pin →
      (pins.get other).drives? = none := by
    intro other member different
    rw [alone] at member
    exact absurd (List.mem_singleton.mp member) different
  have turned : drive.Holds high ((machine.board.pins.modify pin (drive.turn high)).get pin) := by
    rw [PinMap.get_modify_self]
    exact holds.turn high
  have level : { machine.board with
      pins := machine.board.pins.modify pin (drive.turn high) }.netLevel
        (machine.board.net pin) = high :=
    Board.level_of_holds turned (nobody _)
  have differs : machine.board.level pin ≠ high := by
    rw [Board.level_of_holds holds (nobody _)]
    cases high <;> decide
  have added (one : Pin) : (machine.setLine pin high drive).board.transitions one =
      machine.board.transitions one ++
        if one = pin then [⟨machine.board.clock, high⟩] else [] := by
    rw [setLine_eq, transitions_settle, Board.transitions_setUp parted, level, alone]
    simp [differs]
  refine ⟨(added pin).trans (by rw [if_pos rfl]), fun one different => (added one).trans ?_⟩
  rw [if_neg different, List.append_nil]

end Machine

namespace Port

variable {port other : Port} {machine : Machine} {pin : Pin}

/-- The pin is no line of the port. -/
structure Apart (port : Port) (pin : Pin) : Prop where
  receives : port.rxPin ≠ some pin
  sends : port.txPin ≠ some pin
  unshared : port.config.oneWire = false

theorem Apart.of_design (apart : port.Apart pin)
    (design : other.outfit.design = port.outfit.design) : other.Apart pin := by
  have receive : other.rxPin = port.rxPin := congrArg Design.rxPin design
  have send : other.txPin = port.txPin := congrArg Design.txPin design
  have oneWire : other.config.oneWire = port.config.oneWire := congrArg Design.oneWire design
  exact ⟨receive ▸ apart.receives, send ▸ apart.sends, oneWire.trans apart.unshared⟩

theorem pins_setListening (receives : port.rxPin ≠ some pin) (machine : Machine) (on : Bool) :
    (port.setListening machine on).2.2.rig.pins.get pin = machine.rig.pins.get pin := by
  cases receive : port.rxPin with
  | none =>
    unfold setListening
    rw [receive]
  | some line =>
    have different : line ≠ pin := fun same => receives (same ▸ receive)
    cases own : port.slot with
    | none =>
      rw [setListening_of_slotless own]
    | some slot =>
      cases on with
      | false =>
        rw [rig_disarm receive own]
        exact PinMap.get_modify_of_ne different ..
      | true =>
        unfold setListening
        rw [receive, own]
        dsimp only
        rw [if_pos rfl]
        split
        · rename_i failed
          rw [(Machine.rig_attach_error failed).1, machine.rig_readClock]
        · rename_i granted
          rw [Machine.rig_attach granted, machine.rig_readClock]
          exact PinMap.get_modify_of_ne different ..

theorem pins_of_board {after : Machine} (board : after.board = machine.board) (pin : Pin) :
    after.rig.pins.get pin = machine.rig.pins.get pin :=
  congrArg (fun board : Board => board.pins.get pin) board

theorem pins_stop (receives : port.rxPin ≠ some pin) (machine : Machine) :
    (port.stop machine).2.rig.pins.get pin = machine.rig.pins.get pin := by
  have disarmed := pins_setListening receives machine false
  unfold stop
  split
  · rfl
  · generalize port.setListening machine false = result at disarmed ⊢
    obtain ⟨answer, other, between⟩ := result
    exact (pins_of_board (other.board_giveSlotBack between) pin).trans disarmed

theorem pins_startListening (receives : port.rxPin ≠ some pin) (machine : Machine) :
    (port.startListening machine).2.2.rig.pins.get pin = machine.rig.pins.get pin := by
  have armed := pins_setListening receives machine true
  unfold startListening
  split
  · rfl
  · split
    · rename_i done
      rw [done] at armed
      exact armed
    · rename_i failed
      rw [failed] at armed
      exact (pins_of_board (board_giveSlotBack _ _) pin).trans armed

theorem pins_startReception (receives : port.rxPin ≠ some pin) (machine : Machine) :
    (port.startReception machine).2.rig.pins.get pin = machine.rig.pins.get pin := by
  unfold startReception
  split
  · rename_i reception line _ receive
    have different : line ≠ pin := fun same => receives (same ▸ receive)
    dsimp only
    rw [Machine.rig_setInput]
    exact PinMap.get_modify_of_ne different ..
  · rfl

theorem pins_startSending (sends : port.txPin ≠ some pin) (machine : Machine) :
    (port.startSending machine).rig.pins.get pin = machine.rig.pins.get pin := by
  unfold startSending
  split
  · rfl
  · rename_i line send
    have different : line ≠ pin := fun same => sends (same ▸ send)
    split
    · rfl
    · rw [Machine.rig_restLine]
      exact PinMap.get_modify_of_ne different ..

theorem pins_refresh (apart : port.Apart pin) (machine : Machine) (baud period : UInt32) :
    (port.refresh machine baud period).2.rig.pins.get pin = machine.rig.pins.get pin := by
  have works := (port.withSpeed baud period).works_startReception machine
  have received := @pins_startReception (port.withSpeed baud period) pin apart.receives machine
  unfold refresh
  generalize (port.withSpeed baud period).startReception machine = result at works received ⊢
  obtain ⟨other, between⟩ := result
  have send : other.txPin = port.txPin := congrArg Outfit.txPin works.outfit
  refine Eq.trans (pins_startSending ?_ _) received
  exact send ▸ apart.sends

/-- What a port keeps of the set-up of a pin that is no line of it: it rests low if it enables the
driver. -/
structure Enables (port : Port) (pin : Pin) (state : PinState) : Prop where
  unforced : state.forced = none
  deaf : state.handler = none
  low : port.enablePin = some pin → port.transmitter.drive.Holds false state

theorem Enables.of_same {state after : PinState} (enables : port.Enables pin state)
    (enable : other.enablePin = port.enablePin)
    (drive : other.transmitter.drive = port.transmitter.drive) (same : after = state) :
    other.Enables pin after := by
  rw [same]
  exact ⟨enables.unforced, enables.deaf, fun own => drive ▸ enables.low (enable ▸ own)⟩

theorem Enables.of_outfit {state after : PinState} (enables : port.Enables pin state)
    (outfit : other.outfit = port.outfit) (same : after = state) : other.Enables pin after :=
  enables.of_same (congrArg Outfit.enablePin outfit)
    (congrArg (fun outfit : Outfit => outfit.transmitter.drive) outfit) same

/-- A pin that rests low does so again once it was turned for a message. -/
theorem Enables.turn {state : PinState} (enables : port.Enables pin state)
    (own : port.enablePin = some pin) :
    port.Enables pin (port.transmitter.drive.turn false state) := by
  have lowered := (enables.low own).turn false
  exact ⟨lowered.unforced, lowered.deaf, fun _ => lowered⟩

theorem rig_setEnable {enable : Pin} (own : port.enablePin = some enable) (machine : Machine)
    (on : Bool) : (port.setEnable machine on).rig =
      machine.rig.modify enable (port.transmitter.drive.turn on) := by
  unfold setEnable
  rw [own]
  exact machine.rig_setLine enable on _

theorem pins_send {line : Pin} (different : line ≠ pin) (transmitter : Transmitter)
    (machine : Machine) (data : List UInt8) :
    (transmitter.send machine line data).2.rig.pins.get pin = machine.rig.pins.get pin := by
  by_cases filled : data = []
  · subst filled
    rfl
  · rw [transmitter.rig_send machine filled]
    exact PinMap.get_modify_of_ne different ..

/-- A message on another pin turns the enable pin, and turns it back. -/
theorem pins_sendOn {line : Pin} (own : port.enablePin = some pin) (different : line ≠ pin)
    (machine : Machine) (data : List UInt8) :
    (port.sendOn machine line data).2.rig.pins.get pin =
      port.transmitter.drive.turn false (machine.rig.pins.get pin) := by
  have raised : (port.setEnable machine true).rig.pins.get pin =
      port.transmitter.drive.turn true (machine.rig.pins.get pin) := by
    rw [rig_setEnable own]
    exact PinMap.get_modify_self ..
  have lowered (sent : Machine) : (port.setEnable sent false).rig.pins.get pin =
      port.transmitter.drive.turn false (sent.rig.pins.get pin) := by
    rw [rig_setEnable own]
    exact PinMap.get_modify_self ..
  unfold sendOn
  dsimp only
  rw [lowered, pins_send different, raised]
  exact congrFun (port.transmitter.drive.turn_comp_turn true false) _

theorem Apart.spared (apart : port.Apart pin) (foreign : port.enablePin ≠ some pin) :
    ¬ port.outfit.WorksOn pin := by
  rintro (receives | sends | enables)
  · exact apart.receives receives
  · exact apart.sends sends
  · exact foreign enables

/-- A port that is not one-wire sends with its line as it is, if it can send at all. -/
theorem write_cases (unshared : port.config.oneWire = false) (machine : Machine)
    (data : List UInt8) :
    let polled := port.collect machine
    (port.started = true → data ≠ [] → port.txPin = none) ∧
        (port.write machine data).2 = polled ∨
      ∃ line, port.txPin = some line ∧
        (port.write machine data).2 = (polled.1, (polled.1.sendOn polled.2 line data).2) := by
  have tends := port.tends_collect machine
  have polls := port.polls_collect machine
  unfold write
  generalize port.collect machine = result at tends polls ⊢
  obtain ⟨other, between⟩ := result
  have send : other.txPin = port.txPin := congrArg Outfit.txPin polls.outfit
  have runs : other.started = port.started := congrArg Posture.started tends.posture
  have oneWire : other.config.oneWire = false :=
    (congrArg (fun outfit : Outfit => outfit.config.oneWire) polls.outfit).trans unshared
  dsimp only
  rw [send, runs]
  cases port.txPin with
  | none => exact .inl ⟨fun _ _ => rfl, rfl⟩
  | some line =>
    dsimp only
    split
    · rename_i idle
      refine .inl ⟨fun running filled => ?_, rfl⟩
      simp [running, filled] at idle
    · rw [if_neg (by simp [oneWire])]
      exact .inr ⟨line, rfl, rfl⟩

theorem Enables.write (enables : port.Enables pin (machine.rig.pins.get pin))
    (apart : port.Apart pin) (data : List UInt8) :
    (port.write machine data).2.1.Enables pin
      ((port.write machine data).2.2.rig.pins.get pin) := by
  have works := port.works_write machine data
  by_cases own : port.enablePin = some pin
  · have polls := port.polls_collect machine
    have polled : (port.collect machine).2.rig.pins.get pin = machine.rig.pins.get pin := by
      rw [polls.rig]
    rcases write_cases apart.unshared machine data with ⟨-, same⟩ | ⟨line, send, same⟩
    · rw [same]
      exact enables.of_outfit polls.outfit polled
    · have different : line ≠ pin := fun shared => apart.sends (shared ▸ send)
      have enable := (congrArg Outfit.enablePin polls.outfit).trans own
      have turned := pins_sendOn enable different (port.collect machine).2 data
      rw [same]
      rw [polled] at turned
      have kept : (port.collect machine).1.Enables pin (machine.rig.pins.get pin) :=
        enables.of_outfit polls.outfit rfl
      exact (kept.turn enable).of_outfit rfl turned
  · exact enables.of_outfit works.outfit (works.elsewhere pin (apart.spared own))

theorem Enables.useEnablePin (enables : port.Enables pin (machine.rig.pins.get pin))
    (enable : Pin) :
    (port.useEnablePin machine enable).2.1.Enables pin
      ((port.useEnablePin machine enable).2.2.rig.pins.get pin) := by
  unfold Port.useEnablePin
  split
  · change Port.Enables _ pin
      ((machine.restLine enable false port.transmitter.drive).rig.pins.get pin)
    rw [Machine.rig_restLine]
    by_cases same : enable = pin
    · subst same
      have rested := port.transmitter.drive.holds_rest false enables.unforced enables.deaf
      change Port.Enables _ enable ((PinMap.modify _ _ _).get enable)
      rw [PinMap.get_modify_self]
      exact ⟨rested.unforced, rested.deaf, fun _ => rested⟩
    · change Port.Enables _ pin ((PinMap.modify _ _ _).get pin)
      rw [PinMap.get_modify_of_ne same]
      exact ⟨enables.unforced, enables.deaf, fun own => absurd (Option.some.inj own) same⟩
  · exact ⟨enables.unforced, enables.deaf, nofun⟩

theorem Enables.startEnablePin (enables : port.Enables pin (machine.rig.pins.get pin)) :
    (port.startEnablePin machine).2.1.Enables pin
      ((port.startEnablePin machine).2.2.rig.pins.get pin) := by
  unfold Port.startEnablePin
  split
  · exact enables.useEnablePin _
  · exact enables

theorem Enables.start (enables : port.Enables pin (machine.rig.pins.get pin))
    (apart : port.Apart pin) (baud : UInt32) :
    (port.start machine baud).2.1.Enables pin
      ((port.start machine baud).2.2.rig.pins.get pin) := by
  have set := enables.startEnablePin
  have told := port.design_startEnablePin machine
  rcases port.start_cases machine baud with ⟨failure, -, same⟩ | ⟨failure, -, same⟩ |
    ⟨period, first, between, second, bound, -, -, ready, claimed, same⟩
  · rw [same]
    exact enables
  · rw [same]
    exact set
  · rw [ready] at set told
    have slotted := first.works_startSlot between
    have placed := pins_of_board (first.board_startSlot between) pin
    rw [claimed] at slotted placed
    have apart : second.Apart pin :=
      apart.of_design ((congrArg Outfit.design slotted.outfit).trans told)
    have timed : (second.withSpeed baud period).Enables pin (bound.rig.pins.get pin) :=
      (set.of_outfit slotted.outfit placed).of_same rfl rfl rfl
    have renewed := second.works_refresh bound baud period
    have kept := pins_refresh apart bound baud period
    rw [same]
    generalize second.refresh bound baud period = result at renewed kept ⊢
    obtain ⟨third, fresh⟩ := result
    have receive : third.rxPin = second.rxPin := congrArg Outfit.rxPin renewed.outfit
    have listened := third.works_startListening fresh
    have armed := @pins_startListening third pin (receive ▸ apart.receives) fresh
    have ends := (timed.of_outfit renewed.outfit kept).of_outfit listened.outfit armed
    unfold launch
    split
    · rename_i failed
      rw [failed] at ends
      exact ends
    · rename_i done
      rw [done] at ends
      exact ends.of_same rfl rfl rfl

/-- What one operation of the port does. -/
theorem Enables.perform (enables : port.Enables pin (machine.rig.pins.get pin))
    (apart : port.Apart pin) (operation : Operation) :
    (port.perform machine operation).2.1.Enables pin
      ((port.perform machine operation).2.2.rig.pins.get pin) := by
  have polled {after : Port × Machine} (polls : port.Polls machine after) :
      after.1.Enables pin (after.2.rig.pins.get pin) :=
    enables.of_outfit polls.outfit (by rw [polls.rig])
  cases operation with
  | start baud => exact enables.start apart baud
  | stop =>
    exact enables.of_outfit (port.works_stop machine).outfit (pins_stop apart.receives machine)
  | setSpeed baud =>
    change (port.setSpeed machine baud).2.1.Enables pin
      ((port.setSpeed machine baud).2.2.rig.pins.get pin)
    unfold setSpeed
    split
    · exact enables
    · exact enables.of_same rfl rfl rfl
  | read => exact polled (port.polls_read machine)
  | peek => exact polled (port.polls_collect machine)
  | available => exact polled (port.polls_available machine)
  | drain => exact polled (port.polls_drainWith machine _)
  | flush => exact polled (port.polls_flush machine)
  | write data => exact enables.write apart data
  | anyLost | takeLosses => exact polled (port.polls_takeLosses machine)
  | serve => exact polled (port.polls_serve machine)
  | turnLine on =>
    have unshared : port.sharedPin? = none := by
      unfold sharedPin?
      rw [apart.unshared]
      rfl
    change (port.turnLine machine on).2.1.Enables pin
      ((port.turnLine machine on).2.2.rig.pins.get pin)
    rw [turnLine_unshared unshared]
    exact enables
  | setListening on =>
    exact enables.of_outfit (port.works_setListening machine on).outfit
      (pins_setListening apart.receives machine on)
  | useEnablePin enable => exact enables.useEnablePin enable
  | setCallback | setInterruptible | report | describe => exact enables.of_same rfl rfl rfl

/-- A message in the frame of the pin that enables the driver. Before the pin rises nothing is
recorded on the line, and once it has fallen nothing more is; in between the pin itself stays. -/
structure Framed (idle raised sent after : Machine) (enable line : Pin) : Prop where
  rises : raised.board.transitions enable =
    idle.board.transitions enable ++ [⟨idle.board.clock, true⟩]
  waits : raised.board.transitions line = idle.board.transitions line
  stays : sent.board.transitions enable = raised.board.transitions enable
  sends : raised.board.transitions line <+: sent.board.transitions line
  falls : after.board.transitions enable =
    sent.board.transitions enable ++ [⟨sent.board.clock, false⟩]
  ends : after.board.transitions line = sent.board.transitions line

/-- All that the pin records of a message is that it rises and falls. -/
theorem Framed.frame {idle raised sent after : Machine} {enable line : Pin}
    (framed : Framed idle raised sent after enable line) :
    after.board.transitions enable = idle.board.transitions enable ++
      [⟨idle.board.clock, true⟩, ⟨sent.board.clock, false⟩] := by
  rw [framed.falls, framed.stays, framed.rises, List.append_assoc]
  rfl

theorem framed_sendOn {enable line : Pin} (parted : machine.board.Parted)
    (own : port.enablePin = some enable) (alone : machine.board.net enable = [enable])
    (low : port.transmitter.drive.Holds false (machine.board.pins.get enable))
    (different : line ≠ enable) (data : List UInt8) :
    let raised := port.setEnable machine true
    let sent := (port.transmitter.send raised line data).2
    Framed machine raised sent (port.setEnable sent false) enable line := by
  intro raised sent
  have sets (machine : Machine) (on : Bool) : port.setEnable machine on =
      machine.setLine enable on port.transmitter.drive := by
    unfold setEnable
    rw [own]
  have rise := @Machine.setLine_records machine enable parted alone _ true low
  have set := port.transmitter.records_setLine enable parted true
  rw [← sets] at rise set
  have ready : raised.board.Parted := parted.of_nets set.nets
  have alone : raised.board.net enable = [enable] :=
    (Machine.net_of_nets set.nets enable).trans alone
  have records := port.transmitter.records_send line ready data
  have foreign : enable ∉ raised.board.net line := by
    intro shared
    have inside := raised.board.mem_net line
    rw [← ready.net_eq shared, alone] at inside
    exact different (List.mem_singleton.mp inside)
  -- The message works on another net, so that what lowers the pin still finds it high.
  have high : port.transmitter.drive.Holds true (sent.board.pins.get enable) := by
    have kept : sent.rig.pins.get enable = raised.rig.pins.get enable :=
      pins_send different port.transmitter raised data
    have turned : raised.rig.pins.get enable =
        port.transmitter.drive.turn true (machine.rig.pins.get enable) := by
      rw [rig_setEnable own]
      exact PinMap.get_modify_self ..
    exact (kept.trans turned) ▸ low.turn true
  have fall := @Machine.setLine_records sent enable (ready.of_nets records.nets)
    ((Machine.net_of_nets records.nets enable).trans alone) _ false high
  rw [← sets] at fall
  exact ⟨rise.1, rise.2 line different, records.elsewhere enable foreign, records.grows line,
    fall.1, fall.2 line different⟩

theorem setEnable_of_outfit (outfit : other.outfit = port.outfit) (machine : Machine) (on : Bool) :
    other.setEnable machine on = port.setEnable machine on := by
  have enable : other.enablePin = port.enablePin := congrArg Outfit.enablePin outfit
  have transmitter : other.transmitter = port.transmitter := congrArg Outfit.transmitter outfit
  unfold setEnable
  rw [enable, transmitter]

/-- A started port that is not one-wire sends between a rise and a fall of the pin that enables
its driver. -/
theorem write_enabling {line : Pin} {data : List UInt8} (unshared : port.config.oneWire = false)
    (running : port.started = true) (send : port.txPin = some line) (filled : data ≠ [])
    (machine : Machine) :
    let raised := port.setEnable (port.collect machine).2 true
    (port.write machine data).2.2 =
      port.setEnable (port.transmitter.send raised line data).2 false := by
  have polls := port.polls_collect machine
  have transmitter : (port.collect machine).1.transmitter = port.transmitter :=
    congrArg Outfit.transmitter polls.outfit
  rcases write_cases unshared machine data with ⟨idle, -⟩ | ⟨pin, same, wrote⟩
  · cases send.symm.trans (idle running filled)
  · cases send.symm.trans same
    rw [wrote]
    unfold sendOn
    dsimp only
    rw [transmitter, setEnable_of_outfit polls.outfit, setEnable_of_outfit polls.outfit]

theorem framed_write {enable line : Pin} {data : List UInt8} (parted : machine.board.Parted)
    (unshared : port.config.oneWire = false) (running : port.started = true)
    (own : port.enablePin = some enable) (alone : machine.board.net enable = [enable])
    (low : port.transmitter.drive.Holds false (machine.board.pins.get enable))
    (send : port.txPin = some line) (different : line ≠ enable) (filled : data ≠ []) :
    let idle := (port.collect machine).2
    let raised := port.setEnable idle true
    let sent := (port.transmitter.send raised line data).2
    Framed idle raised sent (port.write machine data).2.2 enable line := by
  obtain ⟨clock, polled⟩ := port.elapses_collect machine
  rw [write_enabling unshared running send filled machine]
  generalize (port.collect machine).2 = idle at polled ⊢
  have nets : idle.board.nets = machine.board.nets := by rw [polled]
  have pins : idle.board.pins = machine.board.pins := by rw [polled]
  exact framed_sendOn (parted.of_nets nets) own ((Machine.net_of_nets nets enable).trans alone)
    (pins ▸ low) different data

end Port

namespace World

/-- Operations that leave a pin as it is set up, whatever ports may do. -/
def Operation.leavesPin (pin : Pin) : Operation → Bool
  | .machine operation => operation.leavesPin pin
  | .send _ other _ => other != pin
  | _ => true

/-- Nothing but the port at the index touches a pin in the whole course of a run. -/
structure Exclusive (world : World) (operations : List Operation) (index : Nat) (pin : Pin) :
    Prop where
  spared : ∀ operation ∈ operations, operation.leavesPin pin
  others : ∀ earlier, earlier <+: operations → ∀ other port, other ≠ index →
    (world.run earlier).2.port? other = some port → port.Spares pin

variable {world : World} {operations : List Operation} {index : Nat} {pin : Pin}

/-- What is not done by the port itself leaves the pin as it is set up. -/
theorem pins_perform {operation : Operation} (leaves : operation.leavesPin pin)
    (before : ∀ other port, other ≠ index → world.port? other = some port → port.Spares pin)
    (after : ∀ other port, other ≠ index →
      (world.perform operation).2.port? other = some port → port.Spares pin)
    (foreign : ∀ own port, world.port? index = some port → operation ≠ .port index own)
    (stays : ∀ port, world.port? index = some port → operation ≠ .closePort index) :
    (world.perform operation).2.machine.rig.pins.get pin = world.machine.rig.pins.get pin := by
  cases operation with
  | machine operation => exact world.machine.pins_perform leaves
  | openPort config => exact Port.pins_of_board (Port.board_create world.machine config) pin
  | closePort other =>
    unfold perform closePort
    dsimp only
    cases live : world.port? other with
    | none => rfl
    | some port =>
      have different : other ≠ index := fun same => stays port (same ▸ live) (by rw [same])
      exact (port.works_stop world.machine).elsewhere pin (before other port different live).1
  | port other own =>
    cases live : world.port? other with
    | none =>
      unfold perform performPort
      dsimp only
      rw [live]
    | some port =>
      have different : other ≠ index := fun same => foreign own port (same ▸ live) (by rw [same])
      obtain ⟨there, same⟩ := perform_port live own
      rw [same]
      exact (port.serves_perform world.machine own).elsewhere pin
        (before other port different live) (after other _ different there)
  | openTap other capacity =>
    unfold perform openTap
    dsimp only
    split <;> rfl
  | tap other operation =>
    unfold perform performTap
    dsimp only
    split
    · rfl
    · rename_i capture _
      obtain ⟨slots, performed⟩ := world.machine.rig_performTap capture operation
      change (world.machine.performTap capture operation).2.rig.pins.get pin = _
      rw [performed]
  | send other line data =>
    unfold perform
    dsimp only
    split
    · rfl
    · exact Port.pins_send (bne_iff_ne.mp leaves) _ world.machine data
  | addTransmitter | setInterruptible | setBitPeriod => rfl
  | transmitterReport | plan =>
    unfold perform
    dsimp only
    split <;> rfl

theorem size_perform (world : World) (operation : Operation) :
    world.ports.size ≤ (world.perform operation).2.ports.size := by
  cases operation with
  | openPort config => exact Nat.le_of_lt (Nat.lt_of_lt_of_eq (Nat.lt_succ_self _)
      (Array.size_push _).symm)
  | closePort index =>
    unfold perform closePort
    dsimp only
    split
    · exact Nat.le_refl _
    · exact Nat.le_of_eq Array.size_setIfInBounds.symm
  | port index own =>
    unfold perform performPort
    dsimp only
    split
    · exact Nat.le_refl _
    · exact Nat.le_of_eq Array.size_setIfInBounds.symm
  | machine | openTap | tap | addTransmitter | setInterruptible | setBitPeriod
  | transmitterReport | plan | send => exact Nat.le_of_eq (by rw [world.ports_perform rfl])

/-- A pin is left alone as long as the port at the index is not there, and is set up as that port
would have it from then on. -/
structure Rests (world : World) (index : Nat) (pin : Pin) : Prop where
  unopened : world.ports.size ≤ index →
    (world.machine.rig.pins.get pin).forced = none ∧
      (world.machine.rig.pins.get pin).handler = none
  opened : ∀ port, world.port? index = some port → port.Apart pin →
    port.Enables pin (world.machine.rig.pins.get pin)

theorem Rests.perform (rests : world.Rests index pin) {operation : Operation}
    (leaves : operation.leavesPin pin)
    (before : ∀ other port, other ≠ index → world.port? other = some port → port.Spares pin)
    (after : ∀ other port, other ≠ index →
      (world.perform operation).2.port? other = some port → port.Spares pin) :
    (world.perform operation).2.Rests index pin := by
  constructor
  · intro outside
    have absent : world.ports.size ≤ index := (world.size_perform operation).trans outside
    have nobody port (live : world.port? index = some port) : False :=
      Nat.not_lt.mpr absent (lt_of_port? live)
    rw [pins_perform leaves before after (fun _ port live => (nobody port live).elim)
      fun port live => (nobody port live).elim]
    exact rests.unopened absent
  · intro port live apart
    by_cases own : ∃ mine, operation = .port index mine
    · obtain ⟨mine, rfl⟩ := own
      obtain ⟨old, there⟩ : ∃ old, world.port? index = some old := by
        rcases port?_perform live with ⟨config, opened, -⟩ | ⟨old, there, -⟩
        · cases opened
        · exact ⟨old, there⟩
      obtain ⟨now, machine⟩ := perform_port there mine
      cases live.symm.trans now
      have before : old.Apart pin :=
        apart.of_design (old.serves_perform world.machine mine).design.symm
      rw [machine]
      exact (rests.opened old there before).perform before mine
    · by_cases closed : operation = .closePort index
      · subst closed
        rw [port?_follow, Operation.follow, if_pos rfl] at live
        cases live
      · rw [pins_perform leaves before after (fun mine _ _ same => own ⟨mine, same⟩)
          fun _ _ => closed]
        rcases port?_perform live with ⟨config, rfl, -⟩ | ⟨old, there, rfl | ⟨mine, same, -⟩⟩
        -- A port that was opened elsewhere leaves the one at the index.
        · rw [port?_follow] at live
          dsimp only [Operation.follow] at live
          split at live
          · rename_i fresh
            obtain ⟨unforced, deaf⟩ := rests.unopened (Nat.le_of_eq fresh.symm)
            cases live
            exact ⟨unforced, deaf, fun enabled => by cases enabled⟩
          · exact rests.opened port live apart
        · exact rests.opened port there apart
        · exact absurd ⟨mine, same⟩ own

/-- All through a run a pin that nothing else touches is as its port would have it. -/
theorem run_rests (empty : world.ports = #[])
    (unforced : (world.machine.board.pins.get pin).forced = none)
    (deaf : world.machine.board.handler? pin = none)
    (exclusive : world.Exclusive operations index pin) :
    (world.run operations).2.Rests index pin := by
  induction operations using List.reverseRecOn with
  | nil =>
    refine ⟨fun _ => ⟨unforced, deaf⟩, fun port live => ?_⟩
    cases (port?_of_no_ports empty index).symm.trans live
  | append_singleton earlier operation ih =>
    have began := List.prefix_append earlier [operation]
    have rests := ih ⟨fun other member => exclusive.spared other (by simp [member]),
      fun other first => exclusive.others other (first.trans began)⟩
    have after := exclusive.others _ (List.prefix_refl _)
    rw [run_append] at after ⊢
    exact rests.perform (exclusive.spared operation (by simp)) (exclusive.others earlier began)
      after

/-- A pin that nothing but its port touches, and that is no line of the port, is low between all
operations if it enables the driver. A message raises it before anything happens on the line,
and lowers it when all has happened there. -/
theorem run_write_framed (bare : world.machine.board.nets = []) (empty : world.ports = #[])
    (unforced : (world.machine.board.pins.get pin).forced = none)
    (deaf : world.machine.board.handler? pin = none) {port : Port}
    (live : (world.run operations).2.port? index = some port) (running : port.started = true)
    (enables : port.enablePin = some pin) (apart : port.Apart pin)
    (alone : (world.run operations).2.machine.board.net pin = [pin])
    (exclusive : world.Exclusive operations index pin) :
    let before := (world.run operations).2.machine
    before.board.level pin = false ∧
      ∀ line data, port.txPin = some line → data ≠ [] →
        let idle := (port.collect before).2
        let raised := port.setEnable idle true
        let sent := (port.transmitter.send raised line data).2
        let after := (port.write before data).2.2
        after = port.setEnable sent false ∧
          (∀ one, idle.board.transitions one = before.board.transitions one) ∧
          after.board.transitions pin = before.board.transitions pin ++
            [⟨idle.board.clock, true⟩, ⟨sent.board.clock, false⟩] ∧
          Port.Framed idle raised sent after pin line := by
  intro before
  have parted : before.board.Parted := parted_run (Board.parted_of_bare bare) operations
  have low : port.transmitter.drive.Holds false (before.board.pins.get pin) :=
    ((run_rests empty unforced deaf exclusive).opened port live apart).low enables
  refine ⟨Board.level_of_holds low fun other member different => ?_, ?_⟩
  · rw [alone] at member
    exact absurd (List.mem_singleton.mp member) different
  · intro line data send filled idle raised sent after
    have different : line ≠ pin := fun same => apart.sends (same ▸ send)
    have untold (one : Pin) : idle.board.transitions one = before.board.transitions one := by
      obtain ⟨clock, polled⟩ := port.elapses_collect before
      change (port.collect before).2.board.transitions one = _
      rw [polled]
      rfl
    have framed : Port.Framed idle raised sent after pin line :=
      Port.framed_write parted apart.unshared running enables alone low send different filled
    exact ⟨Port.write_enabling apart.unshared running send filled before, untold,
      framed.frame.trans (by rw [untold]), framed⟩

/-- A port with a pin that enables its driver has sent one message. -/
def keyed : List Operation :=
  [.openPort { rxPin := some 5, txPin := some 4, enablePin := some 12, drive := .pullUpRelease },
    .port 0 (.start 9600), .port 0 (.write [0x0F])]

/-- It frames the next. -/
theorem keyed_write_framed :
    let before := (run {} keyed).2.machine
    before.board.level 12 = false ∧ ∃ port, (run {} keyed).2.port? 0 = some port ∧
      port.started = true ∧ port.enablePin = some 12 ∧
      let idle := (port.collect before).2
      let raised := port.setEnable idle true
      let sent := (port.transmitter.send raised 4 [0x55]).2
      let after := (port.write before [0x55]).2.2
      after.board.transitions 12 = before.board.transitions 12 ++
          [⟨idle.board.clock, true⟩, ⟨sent.board.clock, false⟩] ∧
        Port.Framed idle raised sent after 12 4 := by
  have started : ((run {} keyed).2.port? 0).map (fun port =>
      (port.started, port.enablePin, port.rxPin, port.txPin, port.config.oneWire)) =
        some (true, some 12, some 5, some 4, false) := by
    decide +kernel
  have alone : (run {} keyed).2.machine.board.net 12 = [12] := by
    decide +kernel
  have single : ∀ place < 4, (run {} (keyed.take place)).2.ports.size ≤ 1 := by
    decide +kernel
  have exclusive : Exclusive {} keyed 0 12 := by
    refine ⟨by decide, fun earlier began other port different live => ?_⟩
    have front : earlier = keyed.take earlier.length := List.prefix_iff_eq_take.mp began
    have few := single earlier.length (Nat.lt_succ_of_le began.length_le)
    rw [← front] at few
    have inside := lt_of_port? live
    omega
  obtain ⟨port, live, same⟩ := Option.map_eq_some_iff.mp started
  obtain ⟨running, same⟩ := Prod.mk.inj same
  obtain ⟨enables, same⟩ := Prod.mk.inj same
  obtain ⟨receive, same⟩ := Prod.mk.inj same
  obtain ⟨send, unshared⟩ := Prod.mk.inj same
  have apart : port.Apart 12 := ⟨by rw [receive]; decide, by rw [send]; decide, unshared⟩
  obtain ⟨low, frames⟩ :=
    @run_write_framed {} keyed 0 12 rfl rfl rfl rfl port live running enables apart alone exclusive
  obtain ⟨-, -, frame, framed⟩ := frames 4 [0x55] send (by decide)
  exact ⟨low, port, live, running, enables, frame, framed⟩

end World
end PinUart
