import PinUart.Proofs.Levels
import PinUart.Transmitter

/-! What a machine is rigged with: its wires, the set-up of its pins, the slot table, and what
the hardware refuses. Time passes and handlers run without changing any of it, and a message
that was clocked out leaves its line at mark. -/
namespace PinUart

theorem PinMap.modify_modify (map : PinMap α) (pin : Pin) (first second : α → α) :
    (map.modify pin first).modify pin second = map.modify pin (second ∘ first) := by
  simp [modify, get, set]

/-- What a line, its handlers and the passing of time leave as they are. -/
structure Rig where
  timebase : Timebase
  statedRate : Option UInt32
  usable : Option (List Pin)
  nets : List (List Pin)
  pins : PinMap PinState
  slots : Slots
  faults : List Fault

/-- The part of the rig that nothing changes but the wiring of pins. -/
structure Fixture where
  timebase : Timebase
  statedRate : Option UInt32
  usable : Option (List Pin)
  nets : List (List Pin)

def Rig.fixture (rig : Rig) : Fixture := ⟨rig.timebase, rig.statedRate, rig.usable, rig.nets⟩

/-- Changes the set-up of one pin. -/
def Rig.modify (rig : Rig) (pin : Pin) (act : PinState → PinState) : Rig :=
  { rig with pins := rig.pins.modify pin act }

theorem Rig.modify_modify (rig : Rig) (pin : Pin) (first second : PinState → PinState) :
    (rig.modify pin first).modify pin second = rig.modify pin (second ∘ first) := by
  rw [modify, modify, PinMap.modify_modify]
  rfl

@[simp] theorem Rig.fixture_modify (rig : Rig) (pin : Pin) (act : PinState → PinState) :
    (rig.modify pin act).fixture = rig.fixture := rfl

/-- Nothing keeps an interrupt from being attached to the pin. -/
def Rig.Grants (rig : Rig) (pin : Pin) : Prop :=
  rig.faults = [] ∧ rig.usable.all (·.contains pin)

namespace Drive

/-- What putting a pin to rest for sending does to its set-up. -/
def rest (drive : Drive) (high : Bool) (state : PinState) : PinState :=
  match drive with
  | .pushPull => { state with output := high, direction := .output }
  | .pullUpRelease =>
    { state with
      output := false
      pull := .up
      direction := if high then .input else .output }

/-- What a change of level does to the set-up of the sending pin. -/
def turn (drive : Drive) (high : Bool) (state : PinState) : PinState :=
  match drive with
  | .pushPull => { state with output := high }
  | .pullUpRelease => { state with direction := if high then .input else .output }

theorem turn_comp_turn (drive : Drive) (high next : Bool) :
    drive.turn next ∘ drive.turn high = drive.turn next := by
  cases drive <;> rfl

end Drive

namespace Board

theorem noteEdge_shape (board : Board) (level : Bool) (pins : List Pin) :
    ∃ history pending, (board.noteEdge level pins).1 = { board with history, pending } := by
  induction pins generalizing board with
  | nil => exact ⟨board.history, board.pending, rfl⟩
  | cons pin pins ih =>
    have noted : ∃ history pending,
        (board.notePin pin level).1 = { board with history, pending } := by
      unfold notePin
      dsimp only
      split
      · exact ⟨_, board.pending, rfl⟩
      · split
        · split
          · exact ⟨_, board.pending, rfl⟩
          · exact ⟨_, _, rfl⟩
        · exact ⟨_, board.pending, rfl⟩
    obtain ⟨history, pending, same⟩ := noted
    obtain ⟨later, waiting, whole⟩ := ih (board.notePin pin level).1
    refine ⟨later, waiting, whole.trans ?_⟩
    rw [same]

/-- A change of one net touches no more than it is told to, but for records and what waits. -/
theorem change_shape (board : Board) (pin : Pin) (act : Board → Board) :
    ∃ levels history pending, (board.change pin act).1 =
      { act board with levels, history, pending } := by
  unfold change
  dsimp only
  split
  · obtain ⟨history, pending, noted⟩ := noteEdge_shape
      { act board with levels := (act board).levels.set _ _ }
      ((act board).netLevel ((act board).net pin)) ((act board).net pin)
    exact ⟨_, history, pending, noted⟩
  · exact ⟨_, (act board).history, (act board).pending, rfl⟩

theorem join_shape (board : Board) (one other : Pin) :
    board.join one other = { board with nets := (board.join one other).nets } := by
  unfold join
  dsimp only
  split <;> rfl

end Board

namespace Machine

def rig (machine : Machine) : Rig where
  timebase := machine.board.timebase
  statedRate := machine.statedRate
  usable := machine.board.usable
  nets := machine.board.nets
  pins := machine.board.pins
  slots := machine.slots
  faults := machine.faults

variable (machine : Machine)

theorem rig_readClock : machine.readClock.2.rig = machine.rig := rfl

theorem rig_takeLost (index : Nat) : (machine.takeLost index).2.rig = machine.rig := by
  unfold takeLost
  split <;> rfl

theorem rig_captureEdge (index : Nat) : (machine.captureEdge index).rig = machine.rig := by
  unfold captureEdge
  split <;> rfl

theorem rig_enter (handler : Handler) : (machine.enter handler).rig = machine.rig := by
  cases handler with
  | probe index => rfl
  | entry slot =>
    unfold enter dispatch
    dsimp only
    split
    · rfl
    · rename_i sink _
      cases sink with
      | capture index => exact machine.rig_captureEdge index
      | probe index => rfl

/-- Handlers that run leave the rig as the board's operation has made it. -/
theorem rig_settle (result : Board × List Handler) :
    (machine.settle result).rig = { machine with board := result.1 }.rig := by
  obtain ⟨board, handlers⟩ := result
  unfold settle
  dsimp only
  generalize { machine with board } = settled
  induction handlers generalizing settled with
  | nil => rfl
  | cons handler handlers ih => exact (ih _).trans (settled.rig_enter handler)

/-- Wiring two pins changes nothing of the rig but the nets. -/
theorem rig_connect (one other : Pin) :
    (machine.connect one other).rig =
      { machine.rig with nets := (machine.board.join one other).nets } := by
  obtain ⟨levels, history, pending, changed⟩ := machine.board.change_shape one (·.join one other)
  rw [connect, rig_settle, Board.connect, changed, Board.join_shape]
  rfl

theorem rig_setUp (pin : Pin) (act : PinState → PinState) :
    (machine.settle (machine.board.setUp pin act)).rig = machine.rig.modify pin act := by
  obtain ⟨levels, history, pending, changed⟩ := machine.board.change_shape pin
    fun board => { board with pins := board.pins.modify pin act }
  rw [rig_settle, Board.setUp, changed]
  rfl

theorem rig_setDirection (pin : Pin) (direction : Direction) :
    (machine.setDirection pin direction).rig = machine.rig.modify pin ({ · with direction }) :=
  machine.rig_setUp pin _

theorem rig_setPull (pin : Pin) (pull : Pull) :
    (machine.setPull pin pull).rig = machine.rig.modify pin ({ · with pull }) :=
  machine.rig_setUp pin _

/-- A pin is set up to be listened to. -/
theorem rig_setInput (pin : Pin) :
    ((machine.setPull pin .up).setDirection pin .input).rig =
      machine.rig.modify pin ({ · with pull := .up, direction := .input }) := by
  rw [rig_setDirection, rig_setPull, Rig.modify_modify]
  rfl

theorem rig_setOutput (pin : Pin) (output : Bool) :
    (machine.setOutput pin output).rig = machine.rig.modify pin ({ · with output }) :=
  machine.rig_setUp pin _

theorem rig_restLine (pin : Pin) (high : Bool) (drive : Drive) :
    (machine.restLine pin high drive).rig = machine.rig.modify pin (drive.rest high) := by
  cases drive with
  | pushPull =>
    rw [restLine, rig_setDirection, rig_setOutput, Rig.modify_modify]
    rfl
  | pullUpRelease =>
    rw [restLine, rig_setDirection, rig_setPull, rig_setOutput, Rig.modify_modify,
      Rig.modify_modify]
    rfl

theorem setLine_eq (pin : Pin) (high : Bool) (drive : Drive) :
    machine.setLine pin high drive =
      machine.settle (machine.board.setUp pin (drive.turn high)) := by
  cases drive <;> rfl

theorem rig_setLine (pin : Pin) (high : Bool) (drive : Drive) :
    (machine.setLine pin high drive).rig = machine.rig.modify pin (drive.turn high) := by
  rw [setLine_eq]
  exact machine.rig_setUp pin _

theorem rig_inject (pin : Pin) (forced : Option Bool) :
    (machine.inject pin forced).rig = machine.rig.modify pin ({ · with forced }) :=
  machine.rig_setUp pin _

theorem rig_unmask : machine.unmask.rig = machine.rig := by
  unfold unmask
  rw [rig_settle]
  rfl

/-- What polling a capture leaves of a machine: its rig, what waits for the mask to be lifted, and
all other captures. -/
structure Polled (own : Option Nat) (before after : Machine) : Prop where
  rig : after.rig = before.rig
  masked : after.board.masked = before.board.masked
  pending : after.board.pending = before.board.pending
  captures : ∀ index, own ≠ some index → after.captures[index]? = before.captures[index]?

theorem Polled.refl (own : Option Nat) (machine : Machine) : Polled own machine machine :=
  ⟨rfl, rfl, rfl, fun _ _ => rfl⟩

theorem Polled.trans {own : Option Nat} {before middle after : Machine}
    (first : Polled own before middle) (second : Polled own middle after) :
    Polled own before after :=
  ⟨second.rig.trans first.rig, second.masked.trans first.masked,
    second.pending.trans first.pending,
    fun index apart => (second.captures index apart).trans (first.captures index apart)⟩

/-- Time passes, or something is noted. -/
theorem Polled.of_rig {own : Option Nat} {before after : Machine} (rig : after.rig = before.rig)
    (masked : after.board.masked = before.board.masked)
    (pending : after.board.pending = before.board.pending)
    (captures : after.captures = before.captures) : Polled own before after :=
  ⟨rig, masked, pending, fun _ _ => by rw [captures]⟩

theorem polled_sleep {own : Option Nat} (micros : UInt32) :
    Polled own machine (machine.sleep micros) :=
  .of_rig rfl rfl rfl rfl

theorem polled_modifyQueue {own : Option Nat} {index : Nat} (mine : own = some index)
    (act : EdgeQueue → EdgeQueue) : Polled own machine (machine.modifyQueue index act) := by
  refine ⟨rfl, rfl, rfl, fun other apart => ?_⟩
  have different : index ≠ other := fun same => apart (by rw [mine, same])
  exact (Array.getElem?_modify ..).trans (if_neg different)

theorem polled_takeLost {own : Option Nat} {index : Nat} (mine : own = some index) :
    Polled own machine (machine.takeLost index).2 := by
  unfold takeLost
  split
  · exact .refl own machine
  · exact machine.polled_modifyQueue mine fun queue => queue.takeLost.2

/-- The hardware refuses an interrupt only when a fault is due, or on a pin that is no use. -/
theorem grants_iff (pin : Pin) :
    machine.rig.Grants pin ↔ ∀ handler, (machine.attach pin handler).1 = .ok () := by
  have useful : machine.board.isUsable pin = machine.rig.usable.all (·.contains pin) := by
    unfold Board.isUsable rig
    cases machine.board.usable <;> rfl
  unfold Rig.Grants attach
  rw [← useful]
  change machine.faults = [] ∧ _ ↔ _
  cases machine.faults with
  | cons fault faults =>
    refine iff_of_false (fun granted => by cases granted.1) fun granted => ?_
    cases granted (.probe 0)
  | nil =>
    cases machine.board.isUsable pin with
    | true => simp
    | false =>
      refine iff_of_false (fun granted => by cases granted.2) fun granted => ?_
      cases granted (.probe 0)

theorem fixture_attach (pin : Pin) (handler : Handler) :
    (machine.attach pin handler).2.rig.fixture = machine.rig.fixture := by
  unfold attach
  split
  · rfl
  · split <;> rfl

variable {machine}

theorem rig_attach {pin : Pin} {handler : Handler} {after : Machine}
    (granted : machine.attach pin handler = (.ok (), after)) :
    after.rig = machine.rig.modify pin ({ · with handler := some handler }) := by
  unfold attach at granted
  split at granted
  · cases granted
  · split at granted
    · cases granted
      rfl
    · cases granted

/-- A refusal leaves all pins as they are, and uses up a fault if there is one. -/
theorem rig_attach_error {fault : Fault} {pin : Pin} {handler : Handler} {after : Machine}
    (failed : machine.attach pin handler = (.error fault, after)) :
    after.rig.pins = machine.rig.pins ∧ ∀ pin, machine.rig.Grants pin → after.rig.Grants pin := by
  unfold attach at failed
  split at failed
  · rename_i due
    cases failed
    refine ⟨rfl, fun _ granted => ?_⟩
    cases due.symm.trans granted.1
  · split at failed
    · cases failed
    · cases failed
      exact ⟨rfl, fun _ => id⟩

end Machine

namespace Transmitter

variable (transmitter : Transmitter) (machine : Machine)

theorem rig_hush : (transmitter.hush machine).rig = machine.rig := by
  unfold hush
  split <;> rfl

theorem rig_unhush : (transmitter.unhush machine).rig = machine.rig := by
  unfold unhush
  split
  · rfl
  · exact machine.rig_unmask

theorem rig_awaitDeadline (deadline : Cycle) :
    (transmitter.awaitDeadline machine deadline).rig = machine.rig := by
  unfold awaitDeadline
  dsimp only
  split
  · exact (transmitter.rig_hush _).trans (transmitter.rig_unhush machine.readClock.2)
  · rfl

/-- Of all holds the last one counts. -/
theorem rig_sendHolds {holds : List Hold} {last : Hold} (pin : Pin)
    (ends : holds.getLast? = some last) (deadline : Cycle) :
    (transmitter.sendHolds pin machine deadline holds).rig =
      machine.rig.modify pin (transmitter.drive.turn last.high) := by
  induction holds generalizing machine deadline with
  | nil => cases ends
  | cons hold holds ih =>
    rw [sendHolds]
    cases holds with
    | nil =>
      cases ends
      rw [sendHolds, rig_awaitDeadline, Machine.rig_setLine]
      rfl
    | cons next holds =>
      rw [List.getLast?_cons_cons] at ends
      rw [ih _ ends, rig_awaitDeadline, Machine.rig_setLine, Rig.modify_modify,
        Drive.turn_comp_turn]

/-- A message leaves the line at mark. -/
theorem rig_send {data : List UInt8} (filled : data ≠ []) (pin : Pin) :
    (transmitter.send machine pin data).2.rig =
      machine.rig.modify pin (transmitter.drive.turn transmitter.markLevel) := by
  obtain ⟨last, ends, high⟩ :=
    Plan.getLast?_ofData filled transmitter.bitPeriod transmitter.invert
  rw [send, if_neg (by simpa using filled), plan]
  dsimp only
  rw [rig_unhush, transmitter.rig_sendHolds _ pin ends, Machine.rig_readClock, rig_hush,
    Machine.rig_setLine, Rig.modify_modify, Drive.turn_comp_turn, high]
  rfl

theorem fixture_send (pin : Pin) (data : List UInt8) :
    (transmitter.send machine pin data).2.rig.fixture = machine.rig.fixture := by
  by_cases filled : data = []
  · subst filled
    rfl
  · rw [transmitter.rig_send machine filled, Rig.fixture_modify]

end Transmitter
end PinUart
