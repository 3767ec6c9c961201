import PinUart.World

/-! Most of what happens to a machine neither attaches a handler nor touches the slot
table. A handler can be entered afterwards only if it could be before, and a capture
stays on its pin. -/
namespace PinUart

namespace Board

/-- The handler is attached to the pin, or pending for it. -/
def Reaches (board : Board) (pin : Pin) (handler : Handler) : Prop :=
  board.handler? pin = some handler ∨ (pin, handler) ∈ board.pending

/-- No handler is attached or taken off, and only attached ones become pending. -/
structure Calm (before after : Board) : Prop where
  handlers : ∀ pin, after.handler? pin = before.handler? pin
  pending : ∀ pin handler, (pin, handler) ∈ after.pending → before.Reaches pin handler

variable {before middle after : Board}

theorem Calm.refl (board : Board) : board.Calm board :=
  ⟨fun _ => rfl, fun _ _ member => .inr member⟩

theorem Calm.reaches (calm : before.Calm after) {pin : Pin} {handler : Handler}
    (entered : after.Reaches pin handler) : before.Reaches pin handler := by
  rcases entered with attached | pending
  · exact .inl (calm.handlers pin ▸ attached)
  · exact calm.pending pin handler pending

theorem Calm.trans (first : before.Calm middle) (second : middle.Calm after) :
    before.Calm after := by
  refine ⟨fun pin => (second.handlers pin).trans (first.handlers pin), ?_⟩
  intro pin handler member
  exact first.reaches (second.pending pin handler member)

/-- What keeps the handlers of all pins, and what is pending, is calm. -/
theorem Calm.of_eq (handlers : ∀ pin, after.handler? pin = before.handler? pin)
    (pending : after.pending = before.pending) : before.Calm after :=
  ⟨handlers, fun _ _ member => .inr (pending ▸ member)⟩

theorem calm_notePin (board : Board) (pin : Pin) (level : Bool) :
    board.Calm (board.notePin pin level).1 := by
  unfold notePin
  dsimp only
  split
  · exact .of_eq (fun _ => rfl) rfl
  · rename_i handler attached
    split
    · split
      · exact .of_eq (fun _ => rfl) rfl
      · refine ⟨fun _ => rfl, ?_⟩
        intro other entered member
        rcases List.mem_append.mp member with before | added
        · exact .inr before
        · obtain ⟨rfl, rfl⟩ := Prod.mk.inj (List.mem_singleton.mp added)
          exact .inl attached
    · exact .of_eq (fun _ => rfl) rfl

theorem calm_noteEdge (board : Board) (level : Bool) (pins : List Pin) :
    board.Calm (board.noteEdge level pins).1 := by
  induction pins generalizing board with
  | nil => exact .refl board
  | cons pin pins ih => exact (board.calm_notePin pin level).trans (ih _)

/-- A change of one net is as calm as what it does. -/
theorem calm_change {act : Board → Board} (board : Board) (pin : Pin)
    (calm : board.Calm (act board)) : board.Calm (board.change pin act).1 := by
  unfold change
  dsimp only
  split
  · refine calm.trans ((Calm.of_eq ?_ ?_).trans (calm_noteEdge _ _ _))
    · exact fun _ => rfl
    · rfl
  · exact calm.trans (.of_eq (fun _ => rfl) rfl)

theorem calm_connect (board : Board) (one other : Pin) :
    board.Calm (board.connect one other).1 := by
  refine board.calm_change one ?_
  unfold join
  dsimp only
  split
  · exact .refl board
  · exact .of_eq (fun _ => rfl) rfl

theorem calm_setUp {act : PinState → PinState} (board : Board) (pin : Pin)
    (spares : ∀ state, (act state).handler = state.handler) :
    board.Calm (board.setUp pin act).1 := by
  refine board.calm_change pin (.of_eq ?_ rfl)
  intro other
  unfold handler?
  rw [PinMap.get_modify]
  split
  · exact spares _
  · rfl

theorem calm_unmask (board : Board) : board.Calm board.unmask.1 :=
  ⟨fun _ => rfl, fun _ _ member => by cases member⟩

end Board

namespace Machine

/-- The pin of a capture. -/
def capturePin? (machine : Machine) (index : Nat) : Option Pin :=
  (machine.captures[index]?).map (·.pin)

/-- Neither the slot table nor the attached handlers change. -/
structure Quiet (before after : Machine) : Prop where
  calm : before.board.Calm after.board
  slots : after.slots = before.slots
  pins : ∀ index pin, before.capturePin? index = some pin → after.capturePin? index = some pin

variable {before middle after : Machine}

theorem Quiet.refl (machine : Machine) : machine.Quiet machine :=
  ⟨.refl _, rfl, fun _ _ found => found⟩

theorem Quiet.trans (first : before.Quiet middle) (second : middle.Quiet after) :
    before.Quiet after :=
  ⟨first.calm.trans second.calm, second.slots.trans first.slots,
    fun index pin found => second.pins index pin (first.pins index pin found)⟩

/-- Only the board changes, and that calmly. -/
theorem Quiet.of_board (machine : Machine) {board : Board} (calm : machine.board.Calm board) :
    machine.Quiet { machine with board } :=
  ⟨calm, rfl, fun _ _ found => found⟩

theorem quiet_readClock (machine : Machine) : machine.Quiet machine.readClock.2 :=
  .of_board machine (.of_eq (fun _ => rfl) rfl)

theorem quiet_captureEdge (machine : Machine) (index : Nat) :
    machine.Quiet (machine.captureEdge index) := by
  unfold captureEdge
  split
  · rename_i known
    refine ⟨.of_eq (fun _ => rfl) rfl, rfl, ?_⟩
    intro other pin found
    unfold capturePin? at found ⊢
    rw [Array.getElem?_set]
    by_cases same : index = other
    · subst same
      rw [Array.getElem?_eq_getElem known] at found
      rw [if_pos rfl]
      exact found
    · rw [if_neg same]
      exact found
  · exact .refl machine

theorem quiet_note (machine : Machine) (event : Event) : machine.Quiet (machine.note event) :=
  ⟨.refl _, rfl, fun _ _ found => found⟩

theorem quiet_signal (machine : Machine) (sink : Sink) : machine.Quiet (machine.signal sink) := by
  cases sink with
  | capture index => exact machine.quiet_captureEdge index
  | probe index => exact machine.quiet_note _

theorem quiet_dispatch (machine : Machine) (slot : SlotIndex) :
    machine.Quiet (machine.dispatch slot) := by
  unfold dispatch
  split
  · exact .refl machine
  · exact machine.quiet_signal _

theorem quiet_enter (machine : Machine) (handler : Handler) :
    machine.Quiet (machine.enter handler) := by
  cases handler with
  | probe index => exact machine.quiet_note _
  | entry slot => exact machine.quiet_dispatch slot

theorem quiet_settle (machine : Machine) {result : Board × List Handler}
    (calm : machine.board.Calm result.1) : machine.Quiet (machine.settle result) := by
  obtain ⟨board, handlers⟩ := result
  have entered : ∀ (handlers : List Handler) (machine : Machine),
      machine.Quiet (handlers.foldl enter machine) := by
    intro handlers
    induction handlers with
    | nil => exact .refl
    | cons handler handlers ih =>
      intro machine
      exact (machine.quiet_enter handler).trans (ih _)
  exact (Quiet.of_board machine calm).trans (entered handlers _)

theorem quiet_connect (machine : Machine) (one other : Pin) :
    machine.Quiet (machine.connect one other) :=
  machine.quiet_settle (machine.board.calm_connect one other)

theorem quiet_setDirection (machine : Machine) (pin : Pin) (direction : Direction) :
    machine.Quiet (machine.setDirection pin direction) :=
  machine.quiet_settle (machine.board.calm_setUp pin fun _ => rfl)

theorem quiet_setPull (machine : Machine) (pin : Pin) (pull : Pull) :
    machine.Quiet (machine.setPull pin pull) :=
  machine.quiet_settle (machine.board.calm_setUp pin fun _ => rfl)

theorem quiet_setOutput (machine : Machine) (pin : Pin) (high : Bool) :
    machine.Quiet (machine.setOutput pin high) :=
  machine.quiet_settle (machine.board.calm_setUp pin fun _ => rfl)

theorem quiet_inject (machine : Machine) (pin : Pin) (level : Option Bool) :
    machine.Quiet (machine.inject pin level) :=
  machine.quiet_settle (machine.board.calm_setUp pin fun _ => rfl)

theorem quiet_mask (machine : Machine) : machine.Quiet machine.mask :=
  .of_board machine (.of_eq (fun _ => rfl) rfl)

theorem quiet_unmask (machine : Machine) : machine.Quiet machine.unmask :=
  machine.quiet_settle machine.board.calm_unmask

theorem quiet_advance (machine : Machine) (cycles : UInt32) :
    machine.Quiet (machine.advance cycles) :=
  .of_board machine (.of_eq (fun _ => rfl) rfl)

theorem quiet_sleep (machine : Machine) (micros : UInt32) :
    machine.Quiet (machine.sleep micros) :=
  .of_board machine (.of_eq (fun _ => rfl) rfl)

theorem quiet_write (machine : Machine) (level : Log.Level) (text : String) :
    machine.Quiet (machine.write level text) :=
  ⟨.refl _, rfl, fun _ _ found => found⟩

theorem quiet_modifyQueue (machine : Machine) (index : Nat) (act : EdgeQueue → EdgeQueue) :
    machine.Quiet (machine.modifyQueue index act) := by
  refine ⟨.refl _, rfl, ?_⟩
  intro other pin found
  unfold capturePin? at found ⊢
  rw [modifyQueue, Array.getElem?_modify]
  split
  · rw [Option.map_map]
    exact found
  · exact found

theorem quiet_takeLost (machine : Machine) (index : Nat) :
    machine.Quiet (machine.takeLost index).2 := by
  unfold takeLost
  split
  · exact .refl machine
  · exact machine.quiet_modifyQueue index fun queue => queue.takeLost.2

theorem quiet_addCapture (machine : Machine) (pin : Pin) (queue : EdgeQueue) :
    machine.Quiet (machine.addCapture pin queue).2 := by
  refine ⟨.refl _, rfl, ?_⟩
  intro index other found
  unfold capturePin? at found ⊢
  obtain ⟨capture, inside, rfl⟩ := Option.map_eq_some_iff.mp found
  have known := (Array.getElem?_eq_some_iff.mp inside).1
  rw [addCapture, Array.getElem?_push_lt known, ← Array.getElem?_eq_getElem known, inside]
  rfl

theorem quiet_restLine (machine : Machine) (pin : Pin) (high : Bool) (drive : Drive) :
    machine.Quiet (machine.restLine pin high drive) := by
  cases drive with
  | pushPull => exact (machine.quiet_setOutput pin high).trans (quiet_setDirection _ pin _)
  | pullUpRelease =>
    refine (machine.quiet_setOutput pin false).trans ((quiet_setPull _ pin .up).trans ?_)
    exact quiet_setDirection _ pin _

theorem quiet_setLine (machine : Machine) (pin : Pin) (high : Bool) (drive : Drive) :
    machine.Quiet (machine.setLine pin high drive) := by
  cases drive with
  | pushPull => exact machine.quiet_setOutput pin high
  | pullUpRelease => exact machine.quiet_setDirection pin _

theorem quiet_spinUntil (machine : Machine) (deadline : Cycle) :
    machine.Quiet (machine.spinUntil deadline) :=
  .of_board machine (.of_eq (fun _ => rfl) rfl)

theorem quiet_forceHolds (machine : Machine) (pin : Pin) (holds : List Hold) :
    machine.Quiet (machine.forceHolds pin holds) := by
  induction holds generalizing machine with
  | nil => exact .refl machine
  | cons hold holds ih =>
    exact (machine.quiet_inject pin _).trans ((quiet_advance _ _).trans (ih _))

theorem quiet_popEdge (machine : Machine) (index : Nat) :
    machine.Quiet (machine.popEdge index).2 := by
  unfold popEdge
  split
  · exact .refl machine
  · exact machine.quiet_modifyQueue index fun queue => queue.pop?.2

theorem quiet_captureReport (machine : Machine) (index : Nat) :
    machine.Quiet (machine.captureReport index).2 := by
  unfold captureReport
  split
  · exact .refl machine
  · exact machine.quiet_takeLost index

end Machine

namespace Transmitter

variable (transmitter : Transmitter)

theorem quiet_hush (machine : Machine) : machine.Quiet (transmitter.hush machine) := by
  unfold hush
  split
  · exact .refl machine
  · exact machine.quiet_mask

theorem quiet_unhush (machine : Machine) : machine.Quiet (transmitter.unhush machine) := by
  unfold unhush
  split
  · exact .refl machine
  · exact machine.quiet_unmask

theorem quiet_awaitDeadline (machine : Machine) (deadline : Cycle) :
    machine.Quiet (transmitter.awaitDeadline machine deadline) := by
  unfold awaitDeadline
  refine machine.quiet_readClock.trans (.trans ?_ (Machine.quiet_spinUntil _ deadline))
  split
  · exact (transmitter.quiet_unhush _).trans
      ((Machine.quiet_sleep _ _).trans (transmitter.quiet_hush _))
  · exact .refl _

theorem quiet_sendHolds (pin : Pin) (machine : Machine) (deadline : Cycle) (holds : List Hold) :
    machine.Quiet (transmitter.sendHolds pin machine deadline holds) := by
  induction holds generalizing machine deadline with
  | nil => exact .refl machine
  | cons hold holds ih =>
    exact (machine.quiet_setLine pin _ _).trans
      ((transmitter.quiet_awaitDeadline _ _).trans (ih _ _))

theorem quiet_send (machine : Machine) (pin : Pin) (data : List UInt8) :
    machine.Quiet (transmitter.send machine pin data).2 := by
  unfold send
  split
  · exact .refl machine
  · have prepared := machine.quiet_setLine pin transmitter.markLevel transmitter.drive
    have read := prepared.trans ((transmitter.quiet_hush _).trans (Machine.quiet_readClock _))
    exact read.trans ((transmitter.quiet_sendHolds pin _ _ _).trans (transmitter.quiet_unhush _))

end Transmitter
end PinUart
