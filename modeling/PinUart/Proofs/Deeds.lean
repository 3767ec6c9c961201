import PinUart.Proofs.Nets

/-! What is done to a board. Ports, transmitters and whoever else works on a machine do one thing
to its board after the other, and the handlers that run in between only let time pass. What every
single deed preserves is preserved by a whole run. -/
namespace PinUart

namespace Board

/-- One thing that is done to a board, or time that passes. -/
inductive Deed : Board → Board → Prop
  | pass (board : Board) (clock : Cycle) : Deed board { board with clock }
  | setUp (board : Board) (pin : Pin) {act : PinState → PinState}
      (spares : ∀ state, (act state).handler = state.handler) : Deed board (board.setUp pin act).1
  | connect (board : Board) (one other : Pin) : Deed board (board.connect one other).1
  | attach (board : Board) (pin : Pin) (handler : Handler) :
      Deed board (board.attach pin handler)
  | detach (board : Board) (pin : Pin) : Deed board (board.detach pin)
  | mask (board : Board) : Deed board board.mask
  | unmask (board : Board) : Deed board board.unmask.1
  | forget (board : Board) : Deed board board.forgetTransitions

/-- Any number of deeds, one after the other. -/
abbrev Deeds : Board → Board → Prop := Relation.ReflTransGen Deed

/-- What a run keeps, if every deed keeps it. -/
theorem Deeds.keep {kept : Board → Prop} {before after : Board} (deeds : before.Deeds after)
    (step : ∀ {early late : Board}, early.Deed late → kept early → kept late)
    (start : kept before) : kept after := by
  induction deeds with
  | refl => exact start
  | tail _ deed ih => exact step deed ih

end Board

namespace Machine

/-- Of the board nothing changes but its clock. -/
def Elapses (before after : Machine) : Prop :=
  ∃ clock, after.board = { before.board with clock }

variable {before between after : Machine}

theorem Elapses.of_board (same : after.board = before.board) : before.Elapses after := ⟨_, same⟩

theorem Elapses.trans (first : before.Elapses between) (second : between.Elapses after) :
    before.Elapses after := by
  obtain ⟨early, first⟩ := first
  obtain ⟨late, second⟩ := second
  exact ⟨late, second.trans (by rw [first])⟩

theorem Elapses.deeds (elapses : before.Elapses after) : before.board.Deeds after.board := by
  obtain ⟨clock, same⟩ := elapses
  rw [same]
  exact .single (.pass before.board clock)

theorem deeds_of_board (same : after.board = before.board) : before.board.Deeds after.board :=
  (Elapses.of_board same).deeds

variable (machine : Machine)

theorem elapses_advance (cycles : UInt32) : machine.Elapses (machine.advance cycles) := ⟨_, rfl⟩

theorem elapses_sleep (micros : UInt32) : machine.Elapses (machine.sleep micros) := ⟨_, rfl⟩

theorem elapses_readClock : machine.Elapses machine.readClock.2 := ⟨_, rfl⟩

theorem elapses_spinUntil (deadline : Cycle) : machine.Elapses (machine.spinUntil deadline) :=
  ⟨_, rfl⟩

/-- The handlers that run once a deed is done only let time pass. -/
theorem deeds_settle {result : Board × List Handler} (deed : machine.board.Deed result.1) :
    machine.board.Deeds (machine.settle result).board := by
  obtain ⟨clock, same⟩ := machine.board_settle result
  rw [same]
  exact .tail (.single deed) (.pass result.1 clock)

theorem deeds_setUp (pin : Pin) {act : PinState → PinState}
    (spares : ∀ state, (act state).handler = state.handler) :
    machine.board.Deeds (machine.settle (machine.board.setUp pin act)).board :=
  machine.deeds_settle (.setUp machine.board pin spares)

theorem deeds_setDirection (pin : Pin) (direction : Direction) :
    machine.board.Deeds (machine.setDirection pin direction).board :=
  machine.deeds_setUp pin fun _ => rfl

theorem deeds_setPull (pin : Pin) (pull : Pull) :
    machine.board.Deeds (machine.setPull pin pull).board :=
  machine.deeds_setUp pin fun _ => rfl

theorem deeds_setOutput (pin : Pin) (high : Bool) :
    machine.board.Deeds (machine.setOutput pin high).board :=
  machine.deeds_setUp pin fun _ => rfl

theorem deeds_inject (pin : Pin) (level : Option Bool) :
    machine.board.Deeds (machine.inject pin level).board :=
  machine.deeds_setUp pin fun _ => rfl

theorem deeds_restLine (pin : Pin) (high : Bool) (drive : Drive) :
    machine.board.Deeds (machine.restLine pin high drive).board := by
  cases drive with
  | pushPull => exact (machine.deeds_setOutput pin high).trans (deeds_setDirection _ pin _)
  | pullUpRelease =>
    refine (machine.deeds_setOutput pin false).trans ((deeds_setPull _ pin .up).trans ?_)
    exact deeds_setDirection _ pin _

theorem deeds_setLine (pin : Pin) (high : Bool) (drive : Drive) :
    machine.board.Deeds (machine.setLine pin high drive).board := by
  cases drive with
  | pushPull => exact machine.deeds_setOutput pin high
  | pullUpRelease => exact machine.deeds_setDirection pin _

theorem deeds_unmask : machine.board.Deeds machine.unmask.board :=
  machine.deeds_settle (.unmask machine.board)

theorem deeds_attach (pin : Pin) (handler : Handler) :
    machine.board.Deeds (machine.attach pin handler).2.board := by
  unfold attach
  split
  · exact .refl
  · split
    · exact .single (.attach machine.board pin handler)
    · exact .refl

theorem deeds_attachAnswering (pin : Pin) (handler : Handler) :
    machine.board.Deeds (machine.attachAnswering pin handler).2.board := by
  have attached := machine.deeds_attach pin handler
  unfold attachAnswering
  split
  · rename_i done
    rw [done] at attached
    exact attached
  · rename_i failed
    rw [failed] at attached
    exact attached

theorem deeds_forceHolds (pin : Pin) (holds : List Hold) :
    machine.board.Deeds (machine.forceHolds pin holds).board := by
  induction holds generalizing machine with
  | nil => exact .refl
  | cons hold holds ih =>
    let injected := machine.inject pin (some hold.high)
    have forced : machine.board.Deeds (injected.advance hold.cycles).board :=
      (machine.deeds_inject pin _).trans (injected.elapses_advance hold.cycles).deeds
    exact forced.trans (ih (injected.advance hold.cycles))

theorem elapses_captureEdge (index : Nat) : machine.Elapses (machine.captureEdge index) := by
  unfold captureEdge
  split
  · exact ⟨_, rfl⟩
  · exact ⟨_, rfl⟩

theorem elapses_takeLost (index : Nat) : machine.Elapses (machine.takeLost index).2 := by
  unfold takeLost
  split
  · exact .of_board rfl
  · exact .of_board rfl

theorem board_claim (sink : Sink) : (machine.claim sink).2.board = machine.board := by
  unfold claim
  split
  · rfl
  · rfl

theorem board_claimAnswering (sink : Sink) :
    (machine.claimAnswering sink).2.board = machine.board := by
  have claimed := machine.board_claim sink
  unfold claimAnswering
  split
  · rename_i done
    rw [done] at claimed
    exact claimed
  · rename_i failed
    rw [failed] at claimed
    exact claimed

theorem board_release (slot : SlotIndex) : (machine.release slot).board = machine.board := by
  unfold release
  split
  · rfl
  · rfl

theorem deeds_perform (operation : Operation) :
    machine.board.Deeds (machine.perform operation).2.board := by
  cases operation with
  | connect one other => exact machine.deeds_settle (.connect machine.board one other)
  | inject pin level => exact machine.deeds_inject pin level
  | forceMessage pin data bitPeriod invert => exact machine.deeds_forceHolds pin _
  | setDirection pin direction => exact machine.deeds_setDirection pin direction
  | setPull pin pull => exact machine.deeds_setPull pin pull
  | setOutput pin high => exact machine.deeds_setOutput pin high
  | advance | readClock | sleep => exact .single (.pass machine.board _)
  | mask => exact .single (.mask machine.board)
  | unmask => exact machine.deeds_unmask
  | attach pin handler => exact machine.deeds_attachAnswering pin handler
  | detach pin => exact .single (.detach machine.board pin)
  | forgetTransitions => exact .single (.forget machine.board)
  | claim sink => exact deeds_of_board (machine.board_claimAnswering sink)
  | release slot =>
    unfold perform
    dsimp only
    split
    · exact .refl
    · exact deeds_of_board (machine.board_release _)
  | dispatch slot | entry slot =>
    unfold perform
    dsimp only
    split
    · exact .refl
    · exact Elapses.deeds (machine.board_enter (.entry _))
  | attachSlot pin slot =>
    unfold perform
    dsimp only
    split
    · exact .refl
    · exact machine.deeds_attachAnswering pin _
  | level | rate | isMasked | isUsable | hasHandler | direction | transitions | queueFault
  | isBound | slotTally => exact .refl

theorem elapses_performTap (index : Nat) (operation : Tap.Operation) :
    machine.Elapses (machine.performTap index operation).2 := by
  cases operation with
  | takeEdge => exact machine.elapses_captureEdge index
  | claim => exact .of_board (machine.board_claimAnswering _)
  | pop =>
    unfold performTap popEdge
    dsimp only
    split
    · exact .of_board rfl
    · exact .of_board rfl
  | report =>
    unfold performTap captureReport
    dsimp only
    split
    · exact .of_board rfl
    · exact machine.elapses_takeLost index

end Machine

namespace Transmitter

variable (transmitter : Transmitter) (machine : Machine)

theorem deeds_hush : machine.board.Deeds (transmitter.hush machine).board := by
  unfold hush
  split
  · exact .refl
  · exact .single (.mask machine.board)

theorem deeds_unhush : machine.board.Deeds (transmitter.unhush machine).board := by
  unfold unhush
  split
  · exact .refl
  · exact machine.deeds_unmask

theorem deeds_awaitDeadline (deadline : Cycle) :
    machine.board.Deeds (transmitter.awaitDeadline machine deadline).board := by
  have read := machine.elapses_readClock.deeds
  unfold awaitDeadline
  dsimp only
  generalize machine.readClock.2 = between at read ⊢
  refine Relation.ReflTransGen.trans ?_ (Machine.elapses_spinUntil _ deadline).deeds
  split
  · have opened := transmitter.deeds_unhush between
    have slept := Machine.elapses_sleep (transmitter.unhush between)
    exact read.trans (opened.trans ((slept _).deeds.trans (transmitter.deeds_hush _)))
  · exact read

theorem deeds_sendHolds (pin : Pin) (deadline : Cycle) (holds : List Hold) :
    machine.board.Deeds (transmitter.sendHolds pin machine deadline holds).board := by
  induction holds generalizing machine deadline with
  | nil => exact .refl
  | cons hold holds ih =>
    exact (machine.deeds_setLine pin _ _).trans
      ((transmitter.deeds_awaitDeadline _ _).trans (ih _ _))

theorem deeds_send (pin : Pin) (data : List UInt8) :
    machine.board.Deeds (transmitter.send machine pin data).2.board := by
  unfold send
  split
  · exact .refl
  · have rested := machine.deeds_setLine pin transmitter.markLevel transmitter.drive
    dsimp only
    generalize machine.setLine pin transmitter.markLevel transmitter.drive = marked at rested ⊢
    have hushed := transmitter.deeds_hush marked
    generalize transmitter.hush marked = ready at hushed ⊢
    have read := ready.elapses_readClock.deeds
    generalize ready.readClock = reading at read ⊢
    have sent := transmitter.deeds_sendHolds reading.2 pin reading.1 (transmitter.plan data).holds
    exact rested.trans (hushed.trans (read.trans (sent.trans (transmitter.deeds_unhush _))))

end Transmitter

namespace Port

variable (port : Port) (machine : Machine)

theorem elapses_noteLostEdges (capture : Nat) :
    machine.Elapses (port.noteLostEdges machine capture).2 := by
  have taken := machine.elapses_takeLost capture
  unfold noteLostEdges
  split
  · rename_i same
    rw [same] at taken
    exact taken
  · rename_i same
    rw [same] at taken
    exact taken.trans (.of_board rfl)

theorem elapses_noteDroppedBytes (dropped : Nat) :
    machine.Elapses (port.noteDroppedBytes machine dropped).2 := by
  unfold noteDroppedBytes
  split
  · exact .of_board rfl
  · exact .of_board rfl

/-- A look at the captured edges reads the clock, and that is all it does to the board. -/
theorem elapses_collect : machine.Elapses (port.collect machine).2 := by
  unfold collect
  split
  · exact .of_board rfl
  · rename_i reception _
    have noted := port.elapses_noteLostEdges machine reception.capture
    generalize port.noteLostEdges machine reception.capture = result at noted ⊢
    obtain ⟨other, between⟩ := result
    dsimp only
    generalize other.decoder.decodeAll _ _ = decoded
    obtain ⟨refused, decoder, bytes⟩ := decoded
    dsimp only
    generalize decoder.poll _ _ = polled
    obtain ⟨late, decoder, bytes⟩ := polled
    have emptied : between.Elapses (between.modifyQueue reception.capture EdgeQueue.discard) :=
      .of_board rfl
    exact noted.trans (emptied.trans ((Machine.elapses_readClock _).trans
      (elapses_noteDroppedBytes _ _ _)))

theorem elapses_available : machine.Elapses (port.available machine).2.2 := by
  unfold available
  split
  · exact .of_board rfl
  · have collected := port.elapses_collect machine
    generalize port.collect machine = result at collected ⊢
    obtain ⟨other, between⟩ := result
    dsimp only
    split
    · have slept : between.Elapses (between.sleep (other.patienceMicros between)) := ⟨_, rfl⟩
      exact collected.trans (slept.trans (other.elapses_collect _))
    · exact collected

theorem elapses_read : machine.Elapses (port.read machine).2.2 := by
  unfold read
  dsimp only
  split
  · exact port.elapses_collect machine
  · exact .of_board rfl

theorem elapses_drainWith (fuel : Nat) : machine.Elapses (port.drainWith machine fuel).2.2 := by
  induction fuel generalizing port machine with
  | zero => exact .of_board rfl
  | succ fuel ih =>
    unfold drainWith
    dsimp only
    split
    · exact port.elapses_available machine
    · exact (port.elapses_available machine).trans ((elapses_read _ _).trans (ih _ _))

theorem elapses_flush : machine.Elapses (port.flush machine).2 := by
  unfold flush
  cases port.reception with
  | none => exact machine.elapses_readClock
  | some reception =>
    have emptied : machine.Elapses (machine.modifyQueue reception.capture EdgeQueue.discard) :=
      .of_board rfl
    exact emptied.trans (Machine.elapses_readClock _)

theorem elapses_takeLosses : machine.Elapses (port.takeLosses machine).2.2 := by
  unfold takeLosses
  dsimp only
  split
  · exact .of_board rfl
  · exact machine.elapses_takeLost _

theorem elapses_serve : machine.Elapses (port.serve machine).2 := by
  unfold serve
  split
  · dsimp only
    split
    · exact port.elapses_collect machine
    · exact (port.elapses_collect machine).trans (.of_board rfl)
  · exact .of_board rfl

theorem deeds_setListening (on : Bool) :
    machine.board.Deeds (port.setListening machine on).2.2.board := by
  unfold setListening
  split
  · rename_i pin slot _ _
    split
    · have attached := machine.readClock.2.deeds_attach pin (.entry slot)
      dsimp only
      split
      · rename_i failed
        rw [failed] at attached
        exact .head (.pass machine.board _) attached
      · rename_i done
        rw [done] at attached
        exact .head (.pass machine.board _) attached
    · exact .head (.detach machine.board pin) (port.elapses_collect (machine.detach pin)).deeds
  · exact .refl

theorem deeds_turnLine (on : Bool) :
    machine.board.Deeds (port.turnLine machine on).2.2.board := by
  cases shared : port.sharedPin? with
  | none =>
    rw [turnLine_unshared shared]
  | some pin =>
    cases on with
    | true =>
      obtain ⟨other, between, disarmed, same⟩ := turnLine_away shared machine
      have gone := port.deeds_setListening machine false
      rw [disarmed] at gone
      rw [same]
      exact gone.trans (between.deeds_restLine pin _ _)
    | false =>
      obtain ⟨answer, other, between, log, armed, same⟩ := turnLine_back shared machine
      have gone := deeds_setListening { port with mode := .receive }
        ((machine.setPull pin .up).setDirection pin .input) true
      rw [armed] at gone
      rw [same]
      exact (machine.deeds_setPull pin .up).trans ((Machine.deeds_setDirection _ pin _).trans gone)

theorem deeds_turnLineOrWarn (on : Bool) :
    machine.board.Deeds (port.turnLineOrWarn machine on).2.board := by
  have turned := port.deeds_turnLine machine on
  unfold turnLineOrWarn
  split
  · rename_i done
    rw [done] at turned
    exact turned
  · rename_i failed
    rw [failed] at turned
    exact turned

theorem deeds_setEnable (on : Bool) : machine.board.Deeds (port.setEnable machine on).board := by
  unfold setEnable
  split
  · exact .refl
  · exact machine.deeds_setLine _ _ _

theorem deeds_sendOn (pin : Pin) (data : List UInt8) :
    machine.board.Deeds (port.sendOn machine pin data).2.board :=
  (port.deeds_setEnable machine true).trans
    ((port.transmitter.deeds_send _ pin data).trans (port.deeds_setEnable _ false))

theorem deeds_write (data : List UInt8) :
    machine.board.Deeds (port.write machine data).2.2.board := by
  have collected := (port.elapses_collect machine).deeds
  unfold write
  generalize port.collect machine = result at collected ⊢
  obtain ⟨other, between⟩ := result
  dsimp only
  split
  · exact collected
  · rename_i pin _
    split
    · exact collected
    · split
      · exact collected.trans ((other.deeds_turnLineOrWarn between true).trans
          ((deeds_sendOn _ _ pin data).trans (deeds_turnLineOrWarn _ _ false)))
      · exact collected.trans (deeds_sendOn _ _ pin data)

theorem board_giveSlotBack : (port.giveSlotBack machine).2.board = machine.board := by
  unfold giveSlotBack
  split
  · rfl
  · exact machine.board_release _

theorem deeds_stop : machine.board.Deeds (port.stop machine).2.board := by
  unfold stop
  split
  · exact .refl
  · have disarmed := port.deeds_setListening machine false
    generalize port.setListening machine false = result at disarmed ⊢
    obtain ⟨answer, other, between⟩ := result
    exact disarmed.trans (Machine.deeds_of_board (other.board_giveSlotBack between))

theorem deeds_useEnablePin (pin : Pin) :
    machine.board.Deeds (port.useEnablePin machine pin).2.2.board := by
  unfold useEnablePin
  split
  · exact machine.deeds_restLine pin false _
  · exact .refl

theorem deeds_startEnablePin : machine.board.Deeds (port.startEnablePin machine).2.2.board := by
  unfold startEnablePin
  split
  · exact port.deeds_useEnablePin machine _
  · exact .refl

theorem board_startSlot : (port.startSlot machine).2.2.board = machine.board := by
  rcases port.startSlot_cases machine with ⟨same, -⟩ | ⟨-, -, ⟨failure, same, -⟩ |
    ⟨slot, bound, same, board, -⟩⟩
  · rw [same]
  · rw [same]
  · rw [same]
    exact board

theorem deeds_startReception :
    machine.board.Deeds (port.startReception machine).2.board := by
  unfold startReception
  split
  · rename_i reception pin _ _
    have emptied : machine.Elapses
        (machine.modifyQueue reception.capture fun queue => queue.discard.takeLost.2) :=
      .of_board rfl
    dsimp only
    generalize machine.modifyQueue reception.capture _ = between at emptied ⊢
    exact emptied.deeds.trans
      ((between.deeds_setPull pin .up).trans (Machine.deeds_setDirection _ pin .input))
  · exact .refl

theorem deeds_startSending : machine.board.Deeds (port.startSending machine).board := by
  unfold startSending
  split
  · exact .refl
  · split
    · exact .refl
    · exact machine.deeds_restLine _ _ _

theorem deeds_refresh (baud period : UInt32) :
    machine.board.Deeds (port.refresh machine baud period).2.board := by
  have received := (port.withSpeed baud period).deeds_startReception machine
  unfold refresh
  generalize (port.withSpeed baud period).startReception machine = result at received ⊢
  obtain ⟨other, between⟩ := result
  have read := between.elapses_readClock.deeds
  exact received.trans (read.trans (deeds_startSending _ between.readClock.2))

theorem deeds_startListening :
    machine.board.Deeds (port.startListening machine).2.2.board := by
  have armed := port.deeds_setListening machine true
  unfold startListening
  split
  · exact .refl
  · split
    · rename_i done
      rw [done] at armed
      exact armed
    · rename_i failed
      rw [failed] at armed
      exact armed.trans (Machine.deeds_of_board (board_giveSlotBack _ _))

theorem deeds_start (baud : UInt32) :
    machine.board.Deeds (port.start machine baud).2.2.board := by
  have enabled := port.deeds_startEnablePin machine
  rcases port.start_cases machine baud with ⟨failure, -, same⟩ | ⟨failure, -, same⟩ |
    ⟨period, first, between, second, bound, -, -, ready, claimed, same⟩
  · rw [same]
  · rw [same]
    exact enabled
  · rw [ready] at enabled
    have slotted := first.board_startSlot between
    rw [claimed] at slotted
    have fresh := enabled.trans ((Machine.deeds_of_board slotted).trans
      (second.deeds_refresh bound baud period))
    rw [same]
    generalize second.refresh bound baud period = result at fresh ⊢
    obtain ⟨third, prepared⟩ := result
    have armed := fresh.trans (third.deeds_startListening prepared)
    unfold launch
    split
    · rename_i failed
      rw [failed] at armed
      exact armed
    · rename_i done
      rw [done] at armed
      exact armed

theorem deeds_perform (operation : Operation) :
    machine.board.Deeds (port.perform machine operation).2.2.board := by
  cases operation with
  | start baud => exact port.deeds_start machine baud
  | stop => exact port.deeds_stop machine
  | setSpeed baud =>
    change machine.board.Deeds (port.setSpeed machine baud).2.2.board
    unfold setSpeed
    split
    · exact .refl
    · exact .refl
  | read => exact (port.elapses_read machine).deeds
  | peek => exact (port.elapses_collect machine).deeds
  | available => exact (port.elapses_available machine).deeds
  | drain => exact (port.elapses_drainWith machine _).deeds
  | flush => exact (port.elapses_flush machine).deeds
  | write data => exact port.deeds_write machine data
  | anyLost | takeLosses => exact (port.elapses_takeLosses machine).deeds
  | serve => exact (port.elapses_serve machine).deeds
  | turnLine on => exact port.deeds_turnLine machine on
  | setListening on => exact port.deeds_setListening machine on
  | useEnablePin pin => exact port.deeds_useEnablePin machine pin
  | setCallback | setInterruptible | report | describe => exact .refl

end Port

namespace World

variable (world : World)

/-- What one operation does. -/
theorem deeds_perform (operation : Operation) :
    world.machine.board.Deeds (world.perform operation).2.machine.board := by
  cases operation with
  | machine operation => exact world.machine.deeds_perform operation
  | openPort config =>
    obtain ⟨log, captures, made⟩ := Port.create_shape world.machine config
    refine Machine.deeds_of_board ?_
    unfold perform openPort
    dsimp only
    rw [made]
  | closePort index =>
    unfold perform closePort
    dsimp only
    split
    · exact .refl
    · exact Port.deeds_stop _ world.machine
  | port index operation =>
    unfold perform performPort
    dsimp only
    split
    · exact .refl
    · exact Port.deeds_perform _ world.machine operation
  | openTap pin capacity =>
    unfold perform openTap
    dsimp only
    split
    · exact .refl
    · exact .refl
  | tap index operation =>
    unfold perform performTap
    dsimp only
    split
    · exact .refl
    · exact (world.machine.elapses_performTap _ operation).deeds
  | send index pin data =>
    unfold perform
    dsimp only
    split
    · exact .refl
    · exact Transmitter.deeds_send _ world.machine pin data
  | transmitterReport | plan =>
    unfold perform
    dsimp only
    split
    · exact .refl
    · exact .refl
  | addTransmitter | setInterruptible | setBitPeriod => exact .refl

/-- What a whole run does. -/
theorem deeds_run (operations : List Operation) :
    world.machine.board.Deeds (world.run operations).2.machine.board := by
  induction operations generalizing world with
  | nil => exact .refl
  | cons operation operations ih => exact (world.deeds_perform operation).trans (ih _)

end World
end PinUart
