import PinUart.Proofs.Lifecycle
import PinUart.Proofs.Rig

/-! Which pins a port works on. Polls work on none. Every other operation sets up pins of the
port's own, and leaves what the port is made with. -/
namespace PinUart.Port

/-- How a port was configured, as far as its operations care. -/
structure Outfit where
  config : Config
  rxPin : Option Pin
  txPin : Option Pin
  enablePin : Option Pin
  transmitter : Transmitter
  refused : Option UInt64

def outfit (port : Port) : Outfit :=
  ⟨port.config, port.rxPin, port.txPin, port.enablePin, port.transmitter, port.refused⟩

/-- What a poll leaves as it is. -/
structure Polls (port : Port) (machine : Machine) (after : Port × Machine) : Prop where
  outfit : after.1.outfit = port.outfit
  stake : after.1.stake = port.stake
  polled : Machine.Polled port.stake.capture machine after.2

variable {port other : Port} {machine between : Machine} {after : Port × Machine}

theorem Polls.rig (polls : port.Polls machine after) : after.2.rig = machine.rig := polls.polled.rig

theorem Polls.refl (port : Port) (machine : Machine) : port.Polls machine (port, machine) :=
  ⟨rfl, rfl, .refl _ machine⟩

theorem Polls.trans (first : port.Polls machine (other, between))
    (second : other.Polls between after) : port.Polls machine after := by
  have polled := second.polled
  rw [show other.stake = port.stake from first.stake] at polled
  exact ⟨second.outfit.trans first.outfit, second.stake.trans first.stake,
    first.polled.trans polled⟩

theorem Polls.of_polled (polled : Machine.Polled port.stake.capture machine between) :
    port.Polls machine (port, between) :=
  ⟨rfl, rfl, polled⟩

theorem polls_noteLostEdges {capture : Nat} (own : port.stake.capture = some capture)
    (machine : Machine) : port.Polls machine (port.noteLostEdges machine capture) := by
  have taken := machine.polled_takeLost own
  unfold noteLostEdges
  split
  · rename_i same
    rw [same] at taken
    exact ⟨rfl, rfl, taken⟩
  · rename_i same
    rw [same] at taken
    exact ⟨rfl, rfl, taken.trans (.of_rig rfl rfl rfl rfl)⟩

theorem polls_noteDroppedBytes (port : Port) (machine : Machine) (dropped : Nat) :
    port.Polls machine (port.noteDroppedBytes machine dropped) := by
  unfold noteDroppedBytes
  split
  · exact .refl port machine
  · exact ⟨rfl, rfl, .of_rig rfl rfl rfl rfl⟩

theorem polls_collect (port : Port) (machine : Machine) :
    port.Polls machine (port.collect machine) := by
  unfold collect
  split
  · exact .refl port machine
  · rename_i reception held
    have own := stake_capture held
    have noted := polls_noteLostEdges own machine
    generalize port.noteLostEdges machine reception.capture = result at noted ⊢
    obtain ⟨other, between⟩ := result
    dsimp only
    generalize other.decoder.decodeAll _ _ = decoded
    obtain ⟨refused, decoder, bytes⟩ := decoded
    dsimp only
    generalize decoder.poll _ _ = polled
    obtain ⟨late, decoder, bytes⟩ := polled
    have same : other.stake.capture = some reception.capture := by
      rw [noted.stake, own]
    refine noted.trans (Polls.trans ⟨?_, ?_, ?_⟩ (polls_noteDroppedBytes _ _ _))
    · rfl
    · exact stake_refill same bytes
    · exact (between.polled_modifyQueue same _).trans (.of_rig rfl rfl rfl rfl)

theorem polls_available (port : Port) (machine : Machine) :
    port.Polls machine (port.available machine).2 := by
  unfold available
  split
  · exact .refl port machine
  · have collected := port.polls_collect machine
    generalize port.collect machine = result at collected ⊢
    obtain ⟨other, between⟩ := result
    dsimp only
    split
    · exact collected.trans
        ((Polls.of_polled (between.polled_sleep _)).trans (other.polls_collect _))
    · exact collected

theorem polls_takeByte (port : Port) (machine : Machine) :
    port.Polls machine (port.takeByte.2, machine) := by
  refine ⟨?_, (port.idles_takeByte machine).stake, .refl _ machine⟩
  unfold takeByte
  split <;> rfl

theorem polls_read (port : Port) (machine : Machine) :
    port.Polls machine (port.read machine).2 := by
  unfold read
  dsimp only
  split
  · exact (port.polls_collect machine).trans (polls_takeByte _ _)
  · exact port.polls_takeByte machine

theorem polls_drainWith (port : Port) (machine : Machine) (fuel : Nat) :
    port.Polls machine (port.drainWith machine fuel).2 := by
  induction fuel generalizing port machine with
  | zero => exact .refl port machine
  | succ fuel ih =>
    unfold drainWith
    dsimp only
    split
    · exact port.polls_available machine
    · exact (port.polls_available machine).trans ((polls_read _ _).trans (ih _ _))

theorem polls_flush (port : Port) (machine : Machine) :
    port.Polls machine (port.flush machine) := by
  have stake := (port.idles_flush machine).stake
  unfold flush at stake ⊢
  cases held : port.reception with
  | none => exact ⟨rfl, rfl, .of_rig rfl rfl rfl rfl⟩
  | some reception =>
    rw [held] at stake
    exact ⟨rfl, stake, (machine.polled_modifyQueue (stake_capture held) _).trans
      (.of_rig rfl rfl rfl rfl)⟩

theorem polls_takeLosses (port : Port) (machine : Machine) :
    port.Polls machine (port.takeLosses machine).2 := by
  refine ⟨rfl, rfl, ?_⟩
  unfold takeLosses
  dsimp only
  split
  · exact .refl _ machine
  · rename_i reception held
    exact machine.polled_takeLost (stake_capture held)

theorem polls_serve (port : Port) (machine : Machine) :
    port.Polls machine (port.serve machine) := by
  unfold serve
  split
  · dsimp only
    split
    · exact port.polls_collect machine
    · exact (port.polls_collect machine).trans ⟨rfl, rfl, .of_rig rfl rfl rfl rfl⟩
  · exact .refl port machine

/-- The pins that a port works on. -/
def Outfit.WorksOn (outfit : Outfit) (pin : Pin) : Prop :=
  outfit.rxPin = some pin ∨ outfit.txPin = some pin ∨ outfit.enablePin = some pin

/-- The outfit of a port stays, and so does the wiring. No pins are set up but those that the port
works on, and the hardware does not come to refuse an interrupt. -/
structure Works (port : Port) (machine : Machine) (after : Port × Machine) : Prop where
  outfit : after.1.outfit = port.outfit
  elsewhere : ∀ pin, ¬ port.outfit.WorksOn pin →
    after.2.rig.pins.get pin = machine.rig.pins.get pin
  grants : ∀ pin, machine.rig.Grants pin → after.2.rig.Grants pin
  fixture : after.2.rig.fixture = machine.rig.fixture

theorem Works.trans (first : port.Works machine (other, between))
    (second : other.Works between after) : port.Works machine after := by
  refine ⟨second.outfit.trans first.outfit, fun pin outside => ?_, ?_,
    second.fixture.trans first.fixture⟩
  · have still : ¬ other.outfit.WorksOn pin := by
      rw [first.outfit]
      exact outside
    exact (second.elsewhere pin still).trans (first.elsewhere pin outside)
  · exact fun pin granted => second.grants pin (first.grants pin granted)

/-- What keeps the rig keeps all pins. -/
theorem Works.of_rig (outfit : after.1.outfit = port.outfit) (rig : after.2.rig = machine.rig) :
    port.Works machine after :=
  ⟨outfit, fun _ _ => by rw [rig], fun _ => by rw [rig]; exact id, by rw [rig]⟩

theorem Works.of_modify {pin : Pin} {act : PinState → PinState}
    (outfit : after.1.outfit = port.outfit) (rig : after.2.rig = machine.rig.modify pin act)
    (own : port.outfit.WorksOn pin) : port.Works machine after := by
  refine ⟨outfit, fun elsewhere outside => ?_, fun elsewhere granted => ?_, ?_⟩
  · rw [rig]
    refine PinMap.get_modify_of_ne ?_ ..
    rintro rfl
    exact outside own
  · rw [rig]
    exact granted
  · rw [rig, Rig.fixture_modify]

theorem Polls.works (polls : port.Polls machine after) : port.Works machine after :=
  .of_rig polls.outfit polls.rig

/-- Disarming takes the handler off the receive pin of a port that holds a slot. -/
theorem rig_disarm {pin : Pin} {slot : SlotIndex} (receive : port.rxPin = some pin)
    (own : port.slot = some slot) (machine : Machine) :
    (port.setListening machine false).2.2.rig =
      machine.rig.modify pin ({ · with handler := none }) := by
  unfold setListening
  rw [receive, own]
  dsimp only
  rw [if_neg Bool.false_ne_true]
  exact (port.polls_collect _).rig

theorem works_disarm (port : Port) (machine : Machine) :
    port.Works machine (port.setListening machine false).2 := by
  cases receive : port.rxPin with
  | none =>
    unfold setListening
    rw [receive]
    exact .of_rig rfl rfl
  | some pin =>
    cases own : port.slot with
    | none =>
      unfold setListening
      rw [receive, own]
      exact .of_rig rfl rfl
    | some slot =>
      refine .of_modify ?_ (rig_disarm receive own machine) (.inl receive)
      unfold setListening
      rw [receive, own]
      dsimp only
      rw [if_neg Bool.false_ne_true]
      exact (port.polls_collect _).outfit

theorem works_arm (port : Port) (machine : Machine) :
    port.Works machine (port.setListening machine true).2 := by
  unfold setListening
  split
  · rename_i pin slot receive own
    rw [if_pos rfl]
    dsimp only
    have fixture := machine.readClock.2.fixture_attach pin (.entry slot)
    split
    · rename_i failed
      obtain ⟨pins, granted⟩ := Machine.rig_attach_error failed
      rw [failed] at fixture
      exact ⟨rfl, fun _ _ => by rw [pins, machine.rig_readClock], granted, fixture⟩
    · rename_i after granted
      have attached := Machine.rig_attach granted
      rw [machine.rig_readClock] at attached
      exact .of_modify rfl attached (.inl receive)
  · exact .of_rig rfl rfl

theorem works_setListening (port : Port) (machine : Machine) (on : Bool) :
    port.Works machine (port.setListening machine on).2 := by
  cases on with
  | true => exact port.works_arm machine
  | false => exact port.works_disarm machine

theorem works_turnLine (port : Port) (machine : Machine) (on : Bool) :
    port.Works machine (port.turnLine machine on).2 := by
  cases shared : port.sharedPin? with
  | none =>
    rw [turnLine_unshared shared]
    exact .of_rig rfl rfl
  | some pin =>
    have own := (sharedPin?_eq_some.mp shared).2
    cases on with
    | true =>
      obtain ⟨other, between, disarmed, same⟩ := turnLine_away shared machine
      have works := port.works_disarm machine
      rw [disarmed] at works
      rw [same]
      have kept : other.txPin = port.txPin := congrArg Outfit.txPin works.outfit
      refine works.trans (.of_modify rfl (Machine.rig_restLine _ pin _ _) (.inr (.inl ?_)))
      exact kept.trans own
    | false =>
      obtain ⟨answer, other, between, log, armed, same⟩ := turnLine_back shared machine
      have turned : port.Works machine
          ({ port with mode := .receive }, (machine.setPull pin .up).setDirection pin .input) :=
        .of_modify rfl (machine.rig_setInput pin) (.inr (.inl own))
      have works := turned.trans (works_arm _ _)
      rw [armed] at works
      rw [same]
      exact works.trans (.of_rig rfl rfl)

theorem works_turnLineOrWarn (port : Port) (machine : Machine) (on : Bool) :
    port.Works machine (port.turnLineOrWarn machine on) := by
  have turned := port.works_turnLine machine on
  unfold turnLineOrWarn
  split
  · rename_i done
    rw [done] at turned
    exact turned
  · rename_i failed
    rw [failed] at turned
    exact turned.trans (.of_rig rfl rfl)

theorem works_setEnable (port : Port) (machine : Machine) (on : Bool) :
    port.Works machine (port, port.setEnable machine on) := by
  unfold setEnable
  split
  · exact .of_rig rfl rfl
  · rename_i pin own
    exact .of_modify rfl (machine.rig_setLine pin on _) (.inr (.inr own))

theorem works_sendOn {pin : Pin} (own : port.txPin = some pin) (machine : Machine)
    (data : List UInt8) : port.Works machine (port, (port.sendOn machine pin data).2) := by
  have sent : port.Works (port.setEnable machine true)
      (port, (port.transmitter.send (port.setEnable machine true) pin data).2) := by
    by_cases filled : data = []
    · subst filled
      exact .of_rig rfl rfl
    · exact .of_modify rfl (port.transmitter.rig_send _ filled pin) (.inr (.inl own))
  exact ((port.works_setEnable machine true).trans sent).trans (port.works_setEnable _ false)

theorem works_write (port : Port) (machine : Machine) (data : List UInt8) :
    port.Works machine (port.write machine data).2 := by
  have collected := (port.polls_collect machine).works
  unfold write
  generalize port.collect machine = result at collected ⊢
  obtain ⟨other, between⟩ := result
  dsimp only
  split
  · exact collected
  · rename_i pin own
    split
    · exact collected
    · split
      · have turned := other.works_turnLineOrWarn between true
        generalize other.turnLineOrWarn between true = result at turned ⊢
        obtain ⟨third, early⟩ := result
        have kept : third.txPin = other.txPin := congrArg Outfit.txPin turned.outfit
        exact (collected.trans turned).trans
          ((works_sendOn (kept.trans own) early data).trans (third.works_turnLineOrWarn _ false))
      · exact collected.trans (works_sendOn own between data)

theorem works_giveSlotBack (port : Port) (machine : Machine) :
    port.Works machine (port.giveSlotBack machine) := by
  unfold giveSlotBack
  split
  · exact .of_rig rfl rfl
  · unfold Machine.release
    split
    · exact ⟨rfl, fun _ _ => rfl, fun _ => id, rfl⟩
    · exact .of_rig rfl rfl

theorem works_stop (port : Port) (machine : Machine) : port.Works machine (port.stop machine) := by
  unfold stop
  split
  · exact .of_rig rfl rfl
  · have disarmed := port.works_disarm machine
    generalize port.setListening machine false = result at disarmed ⊢
    obtain ⟨answer, other, between⟩ := result
    have gave := other.works_giveSlotBack between
    dsimp only
    generalize other.giveSlotBack between = result at gave ⊢
    exact disarmed.trans (gave.trans (.of_rig rfl rfl))

theorem works_startSlot (port : Port) (machine : Machine) :
    port.Works machine (port.startSlot machine).2 := by
  unfold startSlot
  split
  · unfold Machine.claim
    split
    · rename_i refused
      split at refused
      · cases refused
        exact .of_rig rfl rfl
      · cases refused
    · rename_i claimed
      split at claimed
      · cases claimed
      · cases claimed
        exact ⟨rfl, fun _ _ => rfl, fun _ => id, rfl⟩
  · exact .of_rig rfl rfl

theorem works_startListening (port : Port) (machine : Machine) :
    port.Works machine (port.startListening machine).2 := by
  have armed := port.works_arm machine
  unfold startListening
  split
  · exact .of_rig rfl rfl
  · split
    · rename_i done
      rw [done] at armed
      exact armed
    · rename_i failed
      rw [failed] at armed
      exact armed.trans (works_giveSlotBack _ _)

theorem works_startReception (port : Port) (machine : Machine) :
    port.Works machine (port.startReception machine) := by
  unfold startReception
  split
  · rename_i reception pin held receive
    exact .of_modify rfl (Machine.rig_setInput _ pin) (.inl receive)
  · exact .of_rig rfl rfl

theorem works_startSending (port : Port) (machine : Machine) :
    port.Works machine (port, port.startSending machine) := by
  unfold startSending
  split
  · exact .of_rig rfl rfl
  · rename_i pin own
    split
    · exact .of_rig rfl rfl
    · exact .of_modify rfl (machine.rig_restLine pin _ _) (.inr (.inl own))

theorem works_refresh (port : Port) (machine : Machine) (baud period : UInt32) :
    (port.withSpeed baud period).Works machine (port.refresh machine baud period) := by
  have received := (port.withSpeed baud period).works_startReception machine
  unfold refresh
  generalize (port.withSpeed baud period).startReception machine = result at received ⊢
  obtain ⟨other, between⟩ := result
  refine received.trans (Works.trans (.of_rig ?_ ?_) (works_startSending _ _))
  · rfl
  · exact between.rig_readClock

/-- What a port is made with. -/
structure Design where
  rxPin : Option Pin
  txPin : Option Pin
  oneWire : Bool
  drive : Drive
  invert : Bool
  refused : Option UInt64

def Outfit.design (outfit : Outfit) : Design where
  rxPin := outfit.rxPin
  txPin := outfit.txPin
  oneWire := outfit.config.oneWire
  drive := outfit.transmitter.drive
  invert := outfit.transmitter.invert
  refused := outfit.refused

/-- A pin that a port neither works on nor is configured to work on. -/
def Spares (port : Port) (pin : Pin) : Prop :=
  ¬ port.outfit.WorksOn pin ∧ port.config.enablePin ≠ some pin

/-- What the port is made with stays, and so does the wiring. No pins are set up but those that the
port does not spare. -/
structure Serves (port : Port) (machine : Machine) (after : Port × Machine) : Prop where
  design : after.1.outfit.design = port.outfit.design
  elsewhere : ∀ pin, port.Spares pin → after.1.Spares pin →
    after.2.rig.pins.get pin = machine.rig.pins.get pin
  fixture : after.2.rig.fixture = machine.rig.fixture

theorem Works.serves (works : port.Works machine after) : port.Serves machine after :=
  ⟨congrArg Outfit.design works.outfit, fun pin spared _ => works.elsewhere pin spared.1,
    works.fixture⟩

theorem serves_useEnablePin (port : Port) (machine : Machine) (pin : Pin) :
    port.Serves machine (port.useEnablePin machine pin).2 := by
  unfold useEnablePin
  split
  · have rested := machine.rig_restLine pin false port.transmitter.drive
    have wired := congrArg Rig.fixture rested
    rw [Rig.fixture_modify] at wired
    refine ⟨rfl, fun other _ spared => ?_, wired⟩
    change (machine.restLine pin false port.transmitter.drive).rig.pins.get other = _
    rw [rested]
    refine PinMap.get_modify_of_ne ?_ ..
    rintro rfl
    exact spared.2 rfl
  · exact ⟨rfl, fun _ _ _ => rfl, rfl⟩

/-- The configured enable pin is not spared in the first place. -/
theorem Spares.startEnablePin {pin : Pin} (spared : port.Spares pin) (machine : Machine) :
    (port.startEnablePin machine).2.1.Spares pin ∧
      (port.startEnablePin machine).2.2.rig.pins.get pin = machine.rig.pins.get pin := by
  unfold Port.startEnablePin
  split
  · rename_i enable _ configured
    unfold Port.useEnablePin
    split
    · have different : enable ≠ pin := fun same => spared.2 (same ▸ configured)
      refine ⟨⟨?_, fun same => different (Option.some.inj same)⟩, ?_⟩
      · rintro (receives | sends | enables)
        · exact spared.1 (.inl receives)
        · exact spared.1 (.inr (.inl sends))
        · exact different (Option.some.inj enables)
      · change (machine.restLine enable false port.transmitter.drive).rig.pins.get pin = _
        rw [Machine.rig_restLine]
        exact PinMap.get_modify_of_ne different ..
    · refine ⟨⟨?_, fun same => by cases same⟩, rfl⟩
      rintro (receives | sends | enables)
      · exact spared.1 (.inl receives)
      · exact spared.1 (.inr (.inl sends))
      · cases enables
  · exact ⟨spared, rfl⟩

theorem design_startEnablePin (port : Port) (machine : Machine) :
    (port.startEnablePin machine).2.1.outfit.design = port.outfit.design := by
  unfold startEnablePin
  split
  · exact (port.serves_useEnablePin machine _).design
  · rfl

theorem fixture_startEnablePin (port : Port) (machine : Machine) :
    (port.startEnablePin machine).2.2.rig.fixture = machine.rig.fixture := by
  unfold startEnablePin
  split
  · exact (port.serves_useEnablePin machine _).fixture
  · rfl

theorem serves_start (port : Port) (machine : Machine) (baud : UInt32) :
    port.Serves machine (port.start machine baud).2 := by
  have told := port.design_startEnablePin machine
  have wired := port.fixture_startEnablePin machine
  have spares := fun pin spared => @Spares.startEnablePin port pin spared machine
  rcases port.start_cases machine baud with ⟨failure, -, same⟩ | ⟨failure, -, same⟩ |
    ⟨period, first, between, second, bound, -, -, ready, claimed, same⟩
  · rw [same]
    exact ⟨rfl, fun _ _ _ => rfl, rfl⟩
  · rw [same]
    exact ⟨told, fun pin spared _ => (spares pin spared).2, wired⟩
  · rw [ready] at told spares wired
    have slotted := first.works_startSlot between
    rw [claimed] at slotted
    have renewed := second.works_refresh bound baud period
    rw [same]
    generalize second.refresh bound baud period = result at renewed ⊢
    obtain ⟨third, fresh⟩ := result
    have listened := renewed.trans (third.works_startListening fresh)
    have launched : (second.withSpeed baud period).Works bound (third.launch fresh).2 := by
      unfold launch
      split
      · rename_i failed
        rw [failed] at listened
        exact listened
      · rename_i done
        rw [done] at listened
        exact listened.trans (.of_rig rfl rfl)
    refine ⟨?_, fun pin spared _ => ?_, launched.fixture.trans (slotted.fixture.trans wired)⟩
    · have timed : (second.withSpeed baud period).outfit.design = second.outfit.design := rfl
      rw [← told, ← congrArg Outfit.design slotted.outfit]
      exact (congrArg Outfit.design launched.outfit).trans timed
    · obtain ⟨still, early⟩ := spares pin spared
      have outside : ¬ (second.withSpeed baud period).outfit.WorksOn pin := by
        change ¬ second.outfit.WorksOn pin
        rw [slotted.outfit]
        exact still.1
      exact (launched.elsewhere pin outside).trans ((slotted.elsewhere pin still.1).trans early)

/-- Every operation serves: an enable pin that is new is not spared afterwards. -/
theorem serves_perform (port : Port) (machine : Machine) (operation : Operation) :
    port.Serves machine (port.perform machine operation).2 := by
  cases operation with
  | start baud => exact port.serves_start machine baud
  | stop => exact (port.works_stop machine).serves
  | setSpeed baud =>
    change port.Serves machine (port.setSpeed machine baud).2
    unfold setSpeed
    split <;> exact ⟨rfl, fun _ _ _ => rfl, rfl⟩
  | read => exact (port.polls_read machine).works.serves
  | peek => exact (port.polls_collect machine).works.serves
  | available => exact (port.polls_available machine).works.serves
  | drain => exact (port.polls_drainWith machine _).works.serves
  | flush => exact (port.polls_flush machine).works.serves
  | write data => exact (port.works_write machine data).serves
  | anyLost | takeLosses => exact (port.polls_takeLosses machine).works.serves
  | serve => exact (port.polls_serve machine).works.serves
  | turnLine on => exact (port.works_turnLine machine on).serves
  | setListening on => exact (port.works_setListening machine on).serves
  | useEnablePin pin => exact port.serves_useEnablePin machine pin
  | setCallback | setInterruptible | report | describe => exact ⟨rfl, fun _ _ _ => rfl, rfl⟩

/-- All that making a port leaves behind in the machine is a capture and what it logs. -/
theorem create_shape (machine : Machine) (config : Config) :
    ∃ log captures, (create machine config).2 = { machine with log, captures } := by
  have noted : ∃ log, noteUnusablePins machine config = { machine with log } := by
    unfold noteUnusablePins
    split
    · exact ⟨machine.log, rfl⟩
    · exact ⟨_, rfl⟩
  obtain ⟨log, noted⟩ := noted
  unfold create openReception reserveBuffers
  dsimp only
  rw [noted]
  cases (usablePins { machine with log } config).1 with
  | none => exact ⟨log, machine.captures, rfl⟩
  | some pin =>
    cases EdgeQueue.reserve config.edgeSlots with
    | error refusal => exact ⟨_, machine.captures, rfl⟩
    | ok queue =>
      cases ByteRing.reserve config.byteCapacity with
      | error refusal => exact ⟨_, machine.captures, rfl⟩
      | ok bytes => exact ⟨log, _, rfl⟩

end PinUart.Port
