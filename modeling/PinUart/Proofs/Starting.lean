import PinUart.Proofs.Tending

/-! What arming and starting a port come to: which slot it holds then, which way its line
is turned, and what is left of it if some step fails. -/
namespace PinUart

namespace Port

variable {port other : Port} {machine after : Machine}

theorem posture_useEnablePin (port : Port) (machine : Machine) (pin : Pin) :
    (port.useEnablePin machine pin).2.1.posture = port.posture := by
  unfold useEnablePin
  split <;> rfl

theorem posture_startEnablePin (port : Port) (machine : Machine) :
    (port.startEnablePin machine).2.1.posture = port.posture := by
  unfold startEnablePin
  split
  · exact port.posture_useEnablePin machine _
  · rfl

theorem posture_setListening (port : Port) (machine : Machine) (on : Bool) :
    (port.setListening machine on).2.1.posture = port.posture := by
  unfold setListening
  split
  · split
    · dsimp only
      split <;> rfl
    · exact port.posture_collect _
  · rfl

theorem posture_giveSlotBack (port : Port) (machine : Machine) :
    (port.giveSlotBack machine).1.posture = port.posture := by
  unfold giveSlotBack
  split <;> rfl

/-- Arming and disarming do as they are told, but for a port without a slot or a pin and
for an interrupt that cannot be attached. -/
theorem setListening_cases (port : Port) (machine : Machine) (on : Bool) :
    ((port.setListening machine on).2.1.stake = port.stake ∧
        (on = false → port.rxPin = none ∨ port.slot = none)) ∨
      port.rxPin.isSome ∧ port.slot.isSome ∧
        (port.setListening machine on).2.1.stake = { port.stake with listening := on } := by
  unfold setListening
  split
  · rename_i pin slot receive own
    have present : port.rxPin.isSome ∧ port.slot.isSome := by
      rw [receive, own]
      exact ⟨rfl, rfl⟩
    cases on with
    | true =>
      rw [if_pos rfl]
      dsimp only
      split
      · exact .inl ⟨rfl, fun disarmed => by cases disarmed⟩
      · exact .inr ⟨present.1, present.2, rfl⟩
    | false =>
      rw [if_neg Bool.false_ne_true]
      refine .inr ⟨present.1, present.2, ?_⟩
      have same := (port.idles_collect (machine.detach pin)).stake
      exact congrArg (fun stake : Stake => { stake with listening := false }) same
  · rename_i without
    refine .inl ⟨rfl, fun _ => ?_⟩
    cases receive : port.rxPin with
    | none => exact .inl rfl
    | some pin =>
      cases own : port.slot with
      | none => exact .inr rfl
      | some slot => exact absurd own (without pin slot receive)

/-- A fault in arming leaves the stake, the handlers and the slots as they are. -/
theorem arm_error {failure : PortError}
    (failed : port.setListening machine true = (.error failure, other, after)) :
    port.slot.isSome ∧ other.stake = port.stake ∧ machine.Quiet after := by
  unfold setListening at failed
  split at failed
  · rename_i pin slot receive own
    rw [if_pos rfl] at failed
    have quiet := machine.quiet_readClock
    generalize machine.readClock = result at quiet failed
    obtain ⟨now, between⟩ := result
    dsimp only at quiet failed
    rcases between.attach_cases pin (.entry slot) with done | ⟨fault, refused, fails, calm, -⟩
    · rw [done] at failed
      cases failed
    · rw [fails] at failed
      cases failed
      exact ⟨by rw [own]; rfl, rfl, quiet.trans calm⟩
  · cases failed

/-- A slot that was given back is not bound, and the others are as before. -/
theorem isBound_release {slot index : SlotIndex}
    (bound : (machine.release slot).slots.isBound index) :
    index ≠ slot ∧ machine.slots.isBound index := by
  unfold Machine.release at bound
  split at bound
  · change ((machine.slots.set slot none).sink? index).isSome at bound
    rw [Slots.sink?_set] at bound
    split at bound
    · cases bound
    · rename_i different
      exact ⟨fun same => different same.symm, bound⟩
  · rename_i free
    refine ⟨?_, bound⟩
    rintro rfl
    exact free bound

theorem handler?_release (machine : Machine) (slot : SlotIndex) (pin : Pin) :
    (machine.release slot).board.handler? pin = machine.board.handler? pin := by
  unfold Machine.release
  split <;> rfl

/-- The interrupt of a receiver is armed unless it is so already; a fault costs the slot. -/
theorem startListening_cases (port : Port) (machine : Machine) :
    ((port.startListening machine).1 = .ok () ∧
        ((port.startListening machine).2.1.stake = port.stake ∨
          port.slot.isSome ∧ (port.startListening machine).2.1.stake =
            { port.stake with listening := true })) ∨
      ∃ failure slot, (port.startListening machine).1 = .error failure ∧ port.slot = some slot ∧
        port.listening = false ∧
        (port.startListening machine).2.1.stake = { port.stake with slot := none } ∧
        (∀ pin, (port.startListening machine).2.2.board.handler? pin =
          machine.board.handler? pin) ∧
        ∀ index, (port.startListening machine).2.2.slots.isBound index →
          index ≠ slot ∧ machine.slots.isBound index := by
  unfold startListening
  split
  · exact .inl ⟨rfl, .inl rfl⟩
  · rename_i silent
    have armed := port.setListening_cases machine true
    split
    · rename_i done
      rw [done] at armed
      rcases armed with ⟨same, -⟩ | ⟨-, own, same⟩
      · exact .inl ⟨rfl, .inl same⟩
      · exact .inl ⟨rfl, .inr ⟨own, same⟩⟩
    · rename_i failure other after failed
      obtain ⟨own, same, quiet⟩ := arm_error failed
      obtain ⟨slot, own⟩ := Option.isSome_iff_exists.mp own
      have gave : other.giveSlotBack after = ({ other with slot := none }, after.release slot) := by
        have still : other.slot = some slot := (congrArg Stake.slot same).trans own
        rw [giveSlotBack, still]
      rw [gave]
      refine .inr ⟨failure, slot, rfl, own, by simpa using silent, ?_, ?_, ?_⟩
      · exact congrArg (fun stake : Stake => { stake with slot := none }) same
      · intro pin
        exact (handler?_release after slot pin).trans (quiet.calm.handlers pin)
      · intro index bound
        rw [← quiet.slots]
        exact isBound_release bound

theorem posture_startListening (port : Port) (machine : Machine) :
    (port.startListening machine).2.1.posture = port.posture := by
  unfold startListening
  split
  · rfl
  · have armed := port.posture_setListening machine true
    split
    · rename_i done
      rw [done] at armed
      exact armed
    · rename_i failed
      rw [failed] at armed
      exact (posture_giveSlotBack _ _).trans armed

/-- A receiver that is started anew listens to the line, whatever that was turned to. -/
theorem posture_refresh (port : Port) (machine : Machine) (baud period : UInt32) :
    ∃ mode, (mode = port.mode ∨ mode = .receive) ∧
      (port.refresh machine baud period).1.posture = { port.posture with mode } ∧
      (port.stake.capture.isSome → port.rxPin.isSome → mode = .receive) := by
  unfold refresh startReception
  dsimp only
  split
  · exact ⟨.receive, .inr rfl, rfl, fun _ _ => rfl⟩
  · rename_i without
    refine ⟨port.mode, .inl rfl, rfl, ?_⟩
    intro receives receive
    obtain ⟨index, capture⟩ := Option.isSome_iff_exists.mp receives
    obtain ⟨reception, held, -⟩ := Option.map_eq_some_iff.mp capture
    obtain ⟨pin, receive⟩ := Option.isSome_iff_exists.mp receive
    exact absurd receive (without reception pin held)

/-- What a start that is refused leaves behind: handlers as they were, no more slots in use,
and at most the slot of a port given back that did not listen. -/
structure Refused (port : Port) (machine : Machine) (after : Port × Machine) : Prop where
  posture : ∃ mode, (mode = port.mode ∨ mode = .receive) ∧
    after.1.posture = { port.posture with mode }
  stake : after.1.stake = port.stake ∨
    port.listening = false ∧ after.1.stake = { port.stake with slot := none }
  handlers : ∀ pin, after.2.board.handler? pin = machine.board.handler? pin
  bound : ∀ index, after.2.slots.isBound index → machine.slots.isBound index

/-- What a start that succeeds makes of a port. A receiver has a slot from then on. -/
structure Begun (port : Port) (machine : Machine) (after : Port) : Prop where
  rate : machine.rate ≠ 0
  posture : ∃ mode, (mode = port.mode ∨ mode = .receive) ∧
    after.posture = { port.posture with started := true, mode } ∧
    (port.stake.capture.isSome → port.rxPin.isSome → mode = .receive)
  stake : ∃ slot listening, after.stake = { port.stake with slot, listening } ∧
    (port.slot.isSome → slot = port.slot) ∧ (port.stake.capture.isSome → slot.isSome) ∧
    (slot.isSome → port.slot.isSome ∨ port.stake.capture.isSome) ∧
    (listening = port.listening ∨ slot.isSome)

/-- Only a counter that counts has a bit period for a line speed. -/
theorem rate_ne_of_periodFor {baud period : UInt32} (fits : periodFor machine baud = .ok period) :
    machine.rate ≠ 0 := by
  unfold periodFor at fits
  split at fits
  · cases fits
  · rename_i within
    intro stopped
    rw [stopped, not_or] at within
    exact within.1 (UInt32.toNat_inj.mp
      (Nat.le_zero.mp (UInt32.le_iff_toNat_le.mp (UInt32.not_lt.mp within.2))))

/-- A receiver has a slot once one was claimed for it. -/
theorem startSlot_ok (claimed : port.startSlot machine = (.ok (), other, after)) :
    other.posture = port.posture ∧ after.board = machine.board ∧
      ∃ slot, other.stake = { port.stake with slot } ∧ (port.slot.isSome → slot = port.slot) ∧
        (port.stake.capture.isSome → slot.isSome) ∧
        (slot.isSome → port.slot.isSome ∨ port.stake.capture.isSome) ∧
        ∀ index, after.slots.isBound index →
          machine.slots.isBound index ∨ port.slot = none ∧ slot = some index := by
  rcases port.startSlot_cases machine with ⟨same, held⟩ | ⟨without, receives, same⟩
  · cases claimed.symm.trans same
    refine ⟨rfl, rfl, port.slot, rfl, fun _ => rfl, ?_, .inl, fun _ bound => .inl bound⟩
    intro receives
    rcases held with own | silent
    · exact own
    · rw [silent] at receives
      cases receives
  · rcases same with ⟨failure, same, -⟩ | ⟨slot, bound, same, board, slots⟩
    · cases claimed.symm.trans same
    · cases claimed.symm.trans same
      refine ⟨rfl, board, some slot, rfl, ?_, fun _ => rfl, fun _ => .inr receives, ?_⟩
      · intro own
        rw [without] at own
        cases own
      · intro index taken
        rcases slots index taken with rfl | before
        · exact .inr ⟨without, rfl⟩
        · exact .inl before

/-- What a start has made of a port once everything but the interrupt is ready: a receiver
has a slot, and its line is turned to it. -/
structure Prepared (port : Port) (machine : Machine) (slot : Option SlotIndex) (mode : LineMode)
    (after : Port × Machine) : Prop where
  stake : after.1.stake = { port.stake with slot }
  posture : after.1.posture = { port.posture with mode }
  handlers : ∀ pin, after.2.board.handler? pin = machine.board.handler? pin
  bound : ∀ index, after.2.slots.isBound index →
    machine.slots.isBound index ∨ port.slot = none ∧ slot = some index
  turned : mode = port.mode ∨ mode = .receive
  receives : port.stake.capture.isSome → port.rxPin.isSome → mode = .receive
  keeps : port.slot.isSome → slot = port.slot
  gains : port.stake.capture.isSome → slot.isSome
  owns : slot.isSome → port.slot.isSome ∨ port.stake.capture.isSome

theorem prepared_refresh {first second : Port} {between bound : Machine}
    (ready : port.startEnablePin machine = (.ok (), first, between))
    (claimed : first.startSlot between = (.ok (), second, bound)) (baud period : UInt32) :
    ∃ slot mode, port.Prepared machine slot mode (second.refresh bound baud period) := by
  have enabled := port.idles_startEnablePin machine
  have told := port.posture_startEnablePin machine
  rw [ready] at enabled told
  have mine : first.stake = port.stake := enabled.stake
  have whole : first.posture = port.posture := told
  obtain ⟨kept, board, slot, shared, keeps, gains, owns, slots⟩ := startSlot_ok claimed
  obtain ⟨mode, turned, posture, receives⟩ := second.posture_refresh bound baud period
  have fresh := second.idles_refresh bound baud period
  have place : first.slot = port.slot := congrArg Stake.slot mine
  rw [mine] at shared gains owns
  rw [place] at keeps owns slots
  have pin : second.rxPin = port.rxPin := congrArg Stake.rxPin shared
  have line : second.mode = port.mode := congrArg Posture.mode (kept.trans whole)
  rw [shared, pin] at receives
  rw [line] at turned
  refine ⟨slot, mode, fresh.stake.trans shared, ?_, ?_, ?_, turned, receives, keeps, gains, owns⟩
  · rw [posture, kept, whole]
  · intro pin
    refine (fresh.quiet.calm.handlers pin).trans ?_
    rw [board]
    exact enabled.quiet.calm.handlers pin
  · intro index taken
    rw [fresh.quiet.slots] at taken
    rcases slots index taken with held | gained
    · exact .inl (enabled.quiet.slots ▸ held)
    · exact .inr gained

/-- A fault of the interrupt costs the slot that the port had just been given, or had. -/
theorem Prepared.refused {slot : Option SlotIndex} {mode : LineMode} {third fourth : Port}
    {between : Machine} {failure : PortError}
    (prepared : port.Prepared machine slot mode (third, between))
    (failed : third.startListening between = (.error failure, fourth, after)) :
    port.Refused machine (fourth, after) := by
  have armed := third.startListening_cases between
  have still := third.posture_startListening between
  rw [failed] at armed still
  rcases armed with ⟨done, -⟩ | ⟨other, lost, -, holds, silent, without, same, freed⟩
  · cases done
  · refine ⟨⟨mode, prepared.turned, still.trans prepared.posture⟩, .inr ⟨?_, ?_⟩, ?_, ?_⟩
    · exact (congrArg Stake.listening prepared.stake).symm.trans silent
    · exact without.trans
        (congrArg (fun stake : Stake => { stake with slot := none }) prepared.stake)
    · exact fun pin => (same pin).trans (prepared.handlers pin)
    · intro index taken
      obtain ⟨different, before⟩ := freed index taken
      rcases prepared.bound index before with held | ⟨-, gained⟩
      · exact held
      · have own : slot = some lost := (congrArg Stake.slot prepared.stake).symm.trans holds
        exact absurd (Option.some.inj (gained.symm.trans own)) different

theorem Prepared.begun {slot : Option SlotIndex} {mode : LineMode} {third fourth : Port}
    {between : Machine} (prepared : port.Prepared machine slot mode (third, between))
    (rate : machine.rate ≠ 0)
    (done : third.startListening between = (.ok (), fourth, after)) :
    port.Begun machine { fourth with started := true } := by
  have armed := third.startListening_cases between
  have still := third.posture_startListening between
  rw [done] at armed still
  have holds : third.slot = slot := congrArg Stake.slot prepared.stake
  have whole : fourth.posture = { port.posture with mode } := still.trans prepared.posture
  refine ⟨rate, ⟨mode, prepared.turned, ?_, prepared.receives⟩, slot, ?_⟩
  · exact congrArg (fun posture : Posture => { posture with started := true }) whole
  · rcases armed with ⟨-, unchanged | ⟨own, listens⟩⟩ | ⟨_, _, refused, -⟩
    · exact ⟨port.listening, unchanged.trans prepared.stake, prepared.keeps, prepared.gains,
        prepared.owns, .inl rfl⟩
    · exact ⟨true, listens.trans (congrArg (fun stake : Stake => { stake with listening := true })
        prepared.stake), prepared.keeps, prepared.gains, prepared.owns, .inr (holds ▸ own)⟩
    · cases refused

/-- A start succeeds or is refused. -/
theorem start_outcome (port : Port) (machine : Machine) (baud : UInt32) :
    (∃ failure, (port.start machine baud).1 = .error failure ∧
        port.Refused machine (port.start machine baud).2) ∨
      (port.start machine baud).1 = .ok () ∧
        port.Begun machine (port.start machine baud).2.1 := by
  rcases port.start_cases machine baud with ⟨failure, -, same⟩ | ⟨failure, -, same⟩ |
    ⟨period, first, between, second, bound, -, fits, ready, claimed, same⟩
  · rw [same]
    exact .inl ⟨failure, rfl, ⟨port.mode, .inl rfl, rfl⟩, .inl rfl, fun _ => rfl,
      fun _ bound => bound⟩
  · have enabled := port.idles_startEnablePin machine
    have told := port.posture_startEnablePin machine
    rw [same]
    exact .inl ⟨failure, rfl, ⟨port.mode, .inl rfl, told⟩, .inl enabled.stake,
      enabled.quiet.calm.handlers, fun _ bound => enabled.quiet.slots ▸ bound⟩
  · rw [same]
    obtain ⟨slot, mode, prepared⟩ := prepared_refresh ready claimed baud period
    generalize second.refresh bound baud period = result at prepared ⊢
    obtain ⟨third, between⟩ := result
    unfold launch
    split
    · rename_i failure fourth after failed
      exact .inl ⟨failure, rfl, prepared.refused failed⟩
    · rename_i fourth after done
      exact .inr ⟨rfl, prepared.begun (rate_ne_of_periodFor fits) done⟩

end Port
end PinUart
