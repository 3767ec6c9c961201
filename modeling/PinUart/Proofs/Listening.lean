import PinUart.Proofs.Stake

/-! How a port comes by its slot and its handler, and how it gives them up again: every
operation of a sound port is made of guarded steps. -/
namespace PinUart

namespace Machine

/-- An interrupt is attached, or a refusal changes nothing that handlers or captures
depend on. -/
theorem attach_cases (machine : Machine) (pin : Pin) (handler : Handler) :
    machine.attach pin handler =
        (.ok (), { machine with board := machine.board.attach pin handler }) ∨
      ∃ fault refused, machine.attach pin handler = (.error fault, refused) ∧
        machine.Quiet refused ∧ refused.captures = machine.captures ∧
        refused.rate = machine.rate := by
  unfold attach
  split
  · exact .inr ⟨_, _, rfl, ⟨.refl _, rfl, fun _ _ found => found⟩, rfl, rfl⟩
  · split
    · exact .inl rfl
    · exact .inr ⟨_, _, rfl, .refl machine, rfl, rfl⟩

end Machine

namespace Stake.Sound

variable {stake : Stake} {machine : Machine} {slot : SlotIndex} {pin : Pin} {index : Nat}

/-- What leaves captures and bindings alone keeps a stake sound, if it keeps the machine
routed and answers for the handlers of a port that does not listen. -/
theorem relisten {after : Machine} (sound : stake.Sound machine) (listening : Bool)
    (routed : after.Routed) (captures : after.captures = machine.captures)
    (slots : after.slots = machine.slots)
    (unheard : listening = false → ∀ slot, stake.slot = some slot → after.Unheard slot) :
    { stake with listening }.Sound after := by
  refine ⟨routed, ?_, sound.held, ?_, unheard⟩
  · intro index capture
    obtain ⟨pin, same, placed⟩ := sound.placed index capture
    exact ⟨pin, same, by rw [Machine.capturePin?, captures]; exact placed⟩
  · intro index slot capture
    rw [slots]
    exact sound.bound index slot capture

/-- Attaching the entry of its slot to its pin keeps a stake sound. -/
theorem attach (sound : stake.Sound machine) (receive : stake.rxPin = some pin)
    (own : stake.slot = some slot) :
    { stake with listening := true }.Sound
        { machine with board := machine.board.attach pin (.entry slot) } ∧
      Machine.Steps stake.capture machine
        { machine with board := machine.board.attach pin (.entry slot) } := by
  obtain ⟨index, capture⟩ := sound.held slot own
  obtain ⟨place, same, placed⟩ := sound.placed index capture
  cases receive.symm.trans same
  have step := Machine.Step.attach ((sound.bound index slot capture).mpr own) placed
  refine ⟨sound.relisten true (step.routed sound.routed) rfl rfl ?_, ?_⟩
  · intro silent
    cases silent
  · rw [capture]
    exact .single step

/-- Once the pin is detached, nothing leads to the slot. -/
theorem detach (sound : stake.Sound machine) (receive : stake.rxPin = some pin) :
    { stake with listening := false }.Sound (machine.detach pin) := by
  have step := @Machine.Step.detach none machine pin
  refine sound.relisten false (step.routed sound.routed) rfl rfl ?_
  intro _ slot own other entered
  obtain ⟨different, before⟩ := Machine.reaches_detach entered
  cases receive.symm.trans (sound.pin own before)
  exact different rfl

/-- A slot that nothing leads to can be given back. -/
theorem release (sound : stake.Sound machine) (own : stake.slot = some slot)
    (silent : stake.listening = false) :
    { stake with slot := none }.Sound { machine with slots := machine.slots.release slot } ∧
      Machine.Steps stake.capture machine
        { machine with slots := machine.slots.release slot } := by
  obtain ⟨index, capture⟩ := sound.held slot own
  have step := Machine.Step.release ((sound.bound index slot capture).mpr own)
    (sound.unheard silent slot own)
  refine ⟨⟨step.routed sound.routed, sound.placed, ?_, ?_, ?_⟩, ?_⟩
  · intro other free
    cases free
  · intro index other capture
    change (machine.slots.set slot none).sink? other = _ ↔ _
    rw [Slots.sink?_set]
    split
    · simp
    · rename_i different
      rw [sound.bound index other capture, own]
      simpa using different
  · intro _ other free
    cases free
  · rw [capture]
    exact .single step

/-- A slot that was free is bound to the capture, and nothing leads to it yet. -/
theorem claim {slots : Slots} (sound : stake.Sound machine) (capture : stake.capture = some index)
    (without : stake.slot = none)
    (found : machine.slots.claim? (.capture index) = some (slot, slots)) :
    { stake with slot := some slot }.Sound { machine with slots } ∧
      Machine.Steps stake.capture machine { machine with slots } := by
  have step := Machine.Step.claim found
  obtain ⟨free, lookup⟩ := Machine.sink?_claim found
  refine ⟨⟨step.routed sound.routed, sound.placed, fun _ _ => ⟨index, capture⟩, ?_, ?_⟩, ?_⟩
  · intro other place same
    cases capture.symm.trans same
    rw [lookup]
    split
    · simp_all
    · rename_i different
      rw [sound.bound index place capture, without]
      simpa using different
  · intro _ other own pin entered
    cases own
    obtain ⟨_, _, led, bound, _⟩ := sound.routed pin _ entered
    cases led
    cases free.symm.trans bound
  · rw [capture]
    exact .single step

end Stake.Sound

/-- A refusal that comes from the hardware. -/
def PortError.isFault : PortError → Bool
  | .hardware _ => true
  | _ => false

namespace Port

/-- Arming ends with a listening port, or with one that is as it was. -/
theorem goes_arm (port : Port) (machine : Machine) :
    port.Goes machine (port.setListening machine true).2 := by
  unfold setListening
  split
  · rename_i pin slot receive own
    rw [if_pos rfl]
    have quiet := machine.quiet_readClock
    generalize machine.readClock = result at quiet ⊢
    obtain ⟨now, between⟩ := result
    dsimp only at quiet ⊢
    rcases between.attach_cases pin (.entry slot) with done | ⟨fault, refused, failed, calm, -⟩
    · rw [done]
      intro sound
      obtain ⟨attached, steps⟩ := (sound.quiet quiet).attach receive own
      exact ⟨attached, rfl, .head (.quiet quiet) steps⟩
    · rw [failed]
      exact Idles.goes ⟨rfl, quiet.trans calm⟩
  · exact (Idles.refl port machine).goes

/-- A port that could not be armed listens no more than before. -/
theorem listening_of_arm_error {port other : Port} {machine after : Machine} {failure : PortError}
    (failed : port.setListening machine true = (.error failure, other, after)) :
    other.listening = port.listening := by
  unfold setListening at failed
  split at failed
  · rw [if_pos rfl] at failed
    dsimp only at failed
    split at failed
    · cases failed
      rfl
    · cases failed
  · cases failed

theorem goes_disarm (port : Port) (machine : Machine) :
    port.Goes machine (port.setListening machine false).2 := by
  unfold setListening
  split
  · rename_i pin slot receive own
    rw [if_neg (by simp)]
    have idles := port.idles_collect (machine.detach pin)
    generalize port.collect (machine.detach pin) = result at idles ⊢
    obtain ⟨other, after⟩ := result
    intro sound
    have silent := (sound.detach receive).quiet idles.quiet
    have same : other.stake.capture = port.stake.capture := congrArg Stake.capture idles.stake
    refine ⟨?_, same, .head (.detach machine pin) (Machine.Steps.of_quiet idles.quiet)⟩
    change { other.stake with listening := false }.Sound after
    rw [idles.stake]
    exact silent
  · exact (Idles.refl port machine).goes

/-- A sound port that was disarmed listens on no slot. -/
theorem listening_disarm {port : Port} {machine : Machine} {slot : SlotIndex}
    (sound : port.stake.Sound machine)
    (own : (port.setListening machine false).2.1.slot = some slot) :
    (port.setListening machine false).2.1.listening = false := by
  unfold setListening at own ⊢
  split
  · rfl
  · rename_i without
    split at own
    · rename_i pin held receive bound
      exact absurd bound (without pin held receive)
    · obtain ⟨index, capture⟩ := sound.held slot own
      obtain ⟨pin, receive, -⟩ := sound.placed index capture
      exact absurd own (without pin slot receive)

theorem goes_giveSlotBack {port : Port} (machine : Machine)
    (silent : ∀ slot, port.slot = some slot → port.listening = false) :
    port.Goes machine (port.giveSlotBack machine) := by
  unfold giveSlotBack
  split
  · exact (Idles.refl port machine).goes
  · rename_i slot own
    intro sound
    obtain ⟨index, capture⟩ := sound.held slot own
    have bound := (sound.bound index slot capture).mpr own
    obtain ⟨freed, steps⟩ := sound.release own (silent slot own)
    have quiet := Machine.quiet_write { machine with slots := machine.slots.release slot } .debug
      s!"Released interrupt slot {slot.val}"
    unfold Machine.release
    rw [if_pos (by rw [Slots.isBound, bound]; rfl)]
    exact ⟨freed.quiet quiet, rfl, steps.tail (.quiet quiet)⟩

theorem goes_startSlot (port : Port) (machine : Machine) :
    port.Goes machine (port.startSlot machine).2 := by
  unfold startSlot
  split
  · rename_i reception without held
    unfold Machine.claim
    cases found : machine.slots.claim? (.capture reception.capture) with
    | none => exact (Idles.refl port machine).goes
    | some result =>
      obtain ⟨slot, slots⟩ := result
      intro sound
      obtain ⟨claimed, steps⟩ := sound.claim (stake_capture held) without found
      have quiet := Machine.quiet_write { machine with slots } .debug
        s!"Claimed interrupt slot {slot.val}"
      exact ⟨claimed.quiet quiet, rfl, steps.tail (.quiet quiet)⟩
  · exact (Idles.refl port machine).goes

/-- The steps of which a port makes up what it does about its interrupt. A slot is given back by a
port that does not listen, if need be once it has been disarmed. -/
inductive Move : Port × Machine → Port × Machine → Prop
  | idle {port : Port} {machine : Machine} {after : Port × Machine}
      (idles : port.Idles machine after) : Move (port, machine) after
  | listen (port : Port) (machine : Machine) (on : Bool) :
      Move (port, machine) (port.setListening machine on).2
  | claim (port : Port) (machine : Machine) : Move (port, machine) (port.startSlot machine).2
  | giveBack {port : Port} (machine : Machine)
      (silent : ∀ slot, port.slot = some slot → port.listening = false) :
      Move (port, machine) (port.giveSlotBack machine)
  | withdraw (port : Port) (machine : Machine) :
      Move (port, machine)
        ((port.setListening machine false).2.1.giveSlotBack (port.setListening machine false).2.2)

theorem Move.goes {before after : Port × Machine} (move : Move before after) :
    before.1.Goes before.2 after := by
  cases move with
  | idle idles => exact idles.goes
  | listen port machine on =>
    cases on with
    | true => exact port.goes_arm machine
    | false => exact port.goes_disarm machine
  | claim port machine => exact port.goes_startSlot machine
  | giveBack machine silent => exact goes_giveSlotBack machine silent
  | withdraw port machine =>
    intro sound
    have silent := fun slot => @listening_disarm port machine slot sound
    exact (Goes.trans (port.goes_disarm machine) (goes_giveSlotBack _ silent)) sound

/-- A port that takes such steps, one after the other. -/
def Moves (port : Port) (machine : Machine) (after : Port × Machine) : Prop :=
  Relation.ReflTransGen Move (port, machine) after

section

variable {port other : Port} {machine between : Machine} {after : Port × Machine}

theorem Moves.refl (port : Port) (machine : Machine) : port.Moves machine (port, machine) :=
  Relation.ReflTransGen.refl

theorem Moves.trans (first : port.Moves machine (other, between))
    (second : other.Moves between after) : port.Moves machine after :=
  Relation.ReflTransGen.trans first second

theorem Move.moves (move : Move (port, machine) after) : port.Moves machine after := .single move

theorem Idles.moves (idles : port.Idles machine after) : port.Moves machine after :=
  (Move.idle idles).moves

theorem Moves.goes (moves : port.Moves machine after) : port.Goes machine after := by
  induction moves with
  | refl => exact (Idles.refl port machine).goes
  | tail _ move ih => exact ih.trans move.goes

end

theorem moves_startListening (port : Port) (machine : Machine) :
    port.Moves machine (port.startListening machine).2 := by
  unfold startListening
  split
  · exact .refl port machine
  · rename_i silent
    have armed := (Move.listen port machine true).moves
    split
    · rename_i done
      rw [done] at armed
      exact armed
    · rename_i failure other after failed
      rw [failed] at armed
      refine armed.trans (Move.giveBack after ?_).moves
      intro _ _
      rw [listening_of_arm_error failed]
      simpa using silent

/-- A slot is claimed for a receiver that has none, if one is free. -/
theorem startSlot_cases (port : Port) (machine : Machine) :
    port.startSlot machine = (.ok (), port, machine) ∧
        (port.slot.isSome ∨ port.stake.capture = none) ∨
      port.slot = none ∧ port.stake.capture.isSome ∧
        ((∃ failure, port.startSlot machine = (.error failure, port, machine) ∧
            failure.isFault = false) ∨
          ∃ slot after, port.startSlot machine = (.ok (), { port with slot := some slot }, after) ∧
            after.board = machine.board ∧
            ∀ index, after.slots.isBound index → index = slot ∨ machine.slots.isBound index) := by
  unfold startSlot
  split
  · rename_i reception without held
    refine .inr ⟨without, by rw [stake_capture held]; rfl, ?_⟩
    unfold Machine.claim
    cases found : machine.slots.claim? (.capture reception.capture) with
    | none => exact .inl ⟨_, rfl, rfl⟩
    | some result =>
      obtain ⟨slot, slots⟩ := result
      refine .inr ⟨slot, _, rfl, rfl, ?_⟩
      intro index bound
      change (slots.sink? index).isSome = true at bound
      rw [(Machine.sink?_claim found).2] at bound
      split at bound
      · rename_i same
        exact .inl same.symm
      · exact .inr bound
  · rename_i without
    refine .inl ⟨rfl, ?_⟩
    cases own : port.slot with
    | some slot => exact .inl rfl
    | none =>
      cases held : port.reception with
      | none => exact .inr (by rw [stake, held]; rfl)
      | some reception => exact absurd held (without reception own)

/-- What a start does once the port has its slot and before it arms the interrupt. -/
def refresh (port : Port) (machine : Machine) (baud bitPeriod : UInt32) : Port × Machine :=
  let (port, machine) := (port.withSpeed baud bitPeriod).startReception machine
  let (now, machine) := machine.readClock
  let port := { port with losses := {}, decoder := port.decoder.reset now }
  (port, port.startSending machine)

/-- The end of a start: the interrupt is armed, and the port runs. -/
def launch (port : Port) (machine : Machine) : Except PortError Unit × Port × Machine :=
  match port.startListening machine with
  | (.error failure, port, machine) => (.error failure, port, machine)
  | (.ok (), port, machine) => (.ok (), { port with started := true },
      { port with started := true }.noteStarted machine)

theorem startEnablePin_error {port : Port} {failure : PortError} {after : Port × Machine}
    (failed : port.startEnablePin machine = (.error failure, after)) :
    failure.isFault = false := by
  unfold startEnablePin at failed
  split at failed
  · unfold useEnablePin at failed
    split at failed
    · cases failed
    · cases failed
      rfl
  · cases failed

/-- A start fails at once, or fails with no more than the enable pin set up, or gets as far
as the interrupt. Only there the hardware can fail. -/
theorem start_cases (port : Port) (machine : Machine) (baud : UInt32) :
    (∃ failure, failure.isFault = false ∧
        port.start machine baud = (.error failure, port, machine)) ∨
      (∃ failure, failure.isFault = false ∧
        port.start machine baud = (.error failure, (port.startEnablePin machine).2)) ∨
      ∃ period first between second bound, port.refused = none ∧
        periodFor machine baud = .ok period ∧
        port.startEnablePin machine = (.ok (), first, between) ∧
        first.startSlot between = (.ok (), second, bound) ∧
        port.start machine baud =
          (second.refresh bound baud period).1.launch (second.refresh bound baud period).2 := by
  unfold start
  split
  · rename_i failure failed
    refine .inl ⟨failure, ?_, rfl⟩
    unfold periodFor at failed
    split at failed
    · cases failed
      rfl
    · cases failed
  · rename_i period fits
    split
    · exact .inl ⟨_, rfl, rfl⟩
    · rename_i equipped
      split
      · rename_i failed
        exact .inr (.inl ⟨_, startEnablePin_error failed, by rw [failed]⟩)
      · rename_i first between ready
        split
        · rename_i failure other after failed
          refine .inr (.inl ⟨failure, ?_⟩)
          rw [ready]
          rcases first.startSlot_cases between with
            ⟨same, -⟩ | ⟨-, -, ⟨failure, same, plain⟩ | ⟨slot, bound, same, -⟩⟩
          · cases failed.symm.trans same
          · cases failed.symm.trans same
            exact ⟨plain, rfl⟩
          · cases failed.symm.trans same
        · rename_i second bound claimed
          exact .inr (.inr ⟨period, first, between, second, bound, equipped, fits, ready, claimed,
            rfl⟩)

theorem idles_refresh (port : Port) (machine : Machine) (baud period : UInt32) :
    port.Idles machine (port.refresh machine baud period) := by
  have emptied := (port.withSpeed baud period).idles_startReception machine
  unfold refresh
  generalize (port.withSpeed baud period).startReception machine = result at emptied ⊢
  obtain ⟨other, between⟩ := result
  refine ⟨emptied.stake, emptied.quiet.trans (between.quiet_readClock.trans ?_)⟩
  exact quiet_startSending _ _

theorem moves_start (port : Port) (machine : Machine) (baud : UInt32) :
    port.Moves machine (port.start machine baud).2 := by
  have enabled := (port.idles_startEnablePin machine).moves
  rcases port.start_cases machine baud with ⟨failure, -, same⟩ | ⟨failure, -, same⟩ |
    ⟨period, first, between, second, bound, -, -, ready, claimed, same⟩
  · rw [same]
    exact .refl port machine
  · rw [same]
    exact enabled
  · rw [ready] at enabled
    have slotted := enabled.trans (Move.claim first between).moves
    rw [claimed] at slotted
    have fresh := slotted.trans (second.idles_refresh bound baud period).moves
    rw [same]
    generalize second.refresh bound baud period = result at fresh ⊢
    obtain ⟨third, prepared⟩ := result
    have armed := fresh.trans (third.moves_startListening prepared)
    unfold launch
    split
    · rename_i failed
      rw [failed] at armed
      exact armed
    · rename_i done
      rw [done] at armed
      exact armed.trans (Idles.moves ⟨rfl, Machine.quiet_write _ _ _⟩)

/-- Stopping disarms the port before it gives the slot back. -/
theorem moves_stop (port : Port) (machine : Machine) :
    port.Moves machine (port.stop machine) := by
  unfold stop
  split
  · exact .refl port machine
  · have withdrawn := (Move.withdraw port machine).moves
    exact withdrawn.trans (Idles.moves ⟨rfl, Machine.quiet_write _ _ _⟩)

theorem disarm_ok (port : Port) (machine : Machine) :
    (port.setListening machine false).1 = .ok () := by
  unfold setListening
  split
  · rw [if_neg Bool.false_ne_true]
  · rfl

theorem sharedPin?_eq_some {port : Port} {pin : Pin} :
    port.sharedPin? = some pin ↔ port.config.oneWire = true ∧ port.txPin = some pin := by
  unfold sharedPin?
  split <;> simp [*]

/-- Without a shared pin there is no line to turn. -/
theorem turnLine_unshared {port : Port} (unshared : port.sharedPin? = none) (machine : Machine)
    (on : Bool) : port.turnLine machine on = (.ok (), port, machine) := by
  unfold turnLine
  rw [unshared]

/-- A port that turns to sending is disarmed before its pin is put to rest. -/
theorem turnLine_away {port : Port} {pin : Pin} (shared : port.sharedPin? = some pin)
    (machine : Machine) :
    ∃ other between, port.setListening machine false = (.ok (), other, between) ∧
      port.turnLine machine true = (.ok (), { other with mode := .transmit },
        { other with mode := .transmit }.noteMode
          (between.restLine pin other.transmitter.markLevel other.transmitter.drive) pin) := by
  have done := port.disarm_ok machine
  unfold turnLine
  rw [shared]
  generalize port.setListening machine false = result at done
  obtain ⟨answer, other, between⟩ := result
  cases done
  exact ⟨other, between, rfl, rfl⟩

/-- A port that turns back to receiving is armed once its pin is an input; a success is logged. -/
theorem turnLine_back {port : Port} {pin : Pin} (shared : port.sharedPin? = some pin)
    (machine : Machine) :
    ∃ answer other between log, { port with mode := .receive }.setListening
          ((machine.setPull pin .up).setDirection pin .input) true = (answer, other, between) ∧
      port.turnLine machine false = (answer, other, { between with log }) := by
  unfold turnLine
  rw [shared]
  dsimp only
  rw [if_neg Bool.false_ne_true]
  split
  · rename_i failure other between failed
    exact ⟨_, other, between, between.log, failed, rfl⟩
  · rename_i other between done
    exact ⟨_, other, between, _, done, rfl⟩

theorem moves_turnLine (port : Port) (machine : Machine) (on : Bool) :
    port.Moves machine (port.turnLine machine on).2 := by
  cases shared : port.sharedPin? with
  | none =>
    rw [turnLine_unshared shared]
    exact .refl port machine
  | some pin =>
    cases on with
    | true =>
      obtain ⟨other, between, disarmed, same⟩ := turnLine_away shared machine
      have gone := (Move.listen port machine false).moves
      rw [disarmed] at gone
      rw [same]
      refine gone.trans (Idles.moves ⟨rfl, ?_⟩)
      exact (between.quiet_restLine _ _ _).trans (Machine.quiet_write _ _ _)
    | false =>
      obtain ⟨answer, other, between, log, armed, same⟩ := turnLine_back shared machine
      have prepared : port.Moves machine ({ port with mode := .receive },
          (machine.setPull pin .up).setDirection pin .input) :=
        Idles.moves ⟨rfl, (machine.quiet_setPull _ _).trans (Machine.quiet_setDirection _ _ _)⟩
      have gone := prepared.trans (Move.listen _ _ true).moves
      rw [armed] at gone
      rw [same]
      exact gone.trans (Idles.moves ⟨rfl, .refl _, rfl, fun _ _ found => found⟩)

theorem moves_turnLineOrWarn (port : Port) (machine : Machine) (transmit : Bool) :
    port.Moves machine (port.turnLineOrWarn machine transmit) := by
  have turned := port.moves_turnLine machine transmit
  unfold turnLineOrWarn
  split
  · rename_i done
    rw [done] at turned
    exact turned
  · rename_i failed
    rw [failed] at turned
    exact turned.trans (Idles.moves ⟨rfl, Machine.quiet_write _ _ _⟩)

theorem moves_write (port : Port) (machine : Machine) (data : List UInt8) :
    port.Moves machine (port.write machine data).2 := by
  unfold write
  have collected := (port.idles_collect machine).moves
  generalize port.collect machine = result at collected ⊢
  obtain ⟨other, between⟩ := result
  dsimp only
  split
  · exact collected
  · rename_i pin sends
    split
    · exact collected
    · split
      · exact collected.trans ((other.moves_turnLineOrWarn between true).trans
          ((Idles.of_quiet (quiet_sendOn _ _ pin data)).moves.trans
            (moves_turnLineOrWarn _ _ false)))
      · exact collected.trans (Idles.of_quiet (quiet_sendOn _ _ pin data)).moves

end Port
end PinUart
