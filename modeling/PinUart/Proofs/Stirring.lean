import PinUart.Proofs.Routing

/-! Where queued edges come from. Whatever stirs a machine without touching a handler
enters only handlers that were attached or pending before, so that a capture takes in
edges only if some pin leads to a slot that is bound to it. -/
namespace PinUart

namespace Board

/-- The outcome of something that keeps the handlers as they are and raises none that
could not be entered before. -/
structure Rouses (board : Board) (result : Board × List Handler) : Prop where
  calm : board.Calm result.1
  raised : ∀ handler ∈ result.2, ∃ pin, board.Reaches pin handler
  timebase : result.1.timebase = board.timebase

theorem handler?_of_notePin {board : Board} {pin : Pin} {level : Bool} {handler : Handler}
    (raised : (board.notePin pin level).2 = some handler) :
    board.handler? pin = some handler := by
  unfold notePin at raised
  dsimp only at raised
  split at raised
  · cases raised
  · rename_i attached
    split at raised
    · split at raised <;> cases raised
    · cases raised
      exact attached

theorem timebase_notePin (board : Board) (pin : Pin) (level : Bool) :
    (board.notePin pin level).1.timebase = board.timebase := by
  unfold notePin
  dsimp only
  split
  · rfl
  · split
    · split <;> rfl
    · rfl

theorem rouses_noteEdge (board : Board) (level : Bool) (pins : List Pin) :
    board.Rouses (board.noteEdge level pins) := by
  induction pins generalizing board with
  | nil => exact ⟨.refl board, fun _ member => (by cases member), rfl⟩
  | cons pin pins ih =>
    have first := board.calm_notePin pin level
    obtain ⟨calm, raised, same⟩ := ih (board.notePin pin level).1
    refine ⟨first.trans calm, ?_, same.trans (board.timebase_notePin pin level)⟩
    intro handler member
    rcases List.mem_append.mp member with own | others
    · exact ⟨pin, .inl (handler?_of_notePin (Option.mem_toList.mp own))⟩
    · obtain ⟨other, entered⟩ := raised handler others
      exact ⟨other, first.reaches entered⟩

/-- A change of one net rouses no more than what it does. -/
theorem rouses_change {act : Board → Board} (board : Board) (pin : Pin)
    (calm : board.Calm (act board)) (timebase : (act board).timebase = board.timebase) :
    board.Rouses (board.change pin act) := by
  refine ⟨board.calm_change pin calm, ?_, ?_⟩
  · intro handler member
    unfold change at member
    dsimp only at member
    split at member
    · obtain ⟨other, entered⟩ := (rouses_noteEdge _ _ _).raised handler member
      exact ⟨other, calm.reaches entered⟩
    · cases member
  · unfold change
    dsimp only
    split
    · exact (rouses_noteEdge _ _ _).timebase.trans timebase
    · exact timebase

theorem rouses_connect (board : Board) (one other : Pin) :
    board.Rouses (board.connect one other) := by
  refine board.rouses_change one ?_ ?_
  all_goals
    unfold join
    dsimp only
    split
  · exact .refl board
  · exact .of_eq (fun _ => rfl) rfl
  · rfl
  · rfl

theorem rouses_setUp {act : PinState → PinState} (board : Board) (pin : Pin)
    (spares : ∀ state, (act state).handler = state.handler) :
    board.Rouses (board.setUp pin act) := by
  refine board.rouses_change pin (.of_eq ?_ rfl) rfl
  intro other
  unfold handler?
  rw [PinMap.get_modify]
  split
  · exact spares _
  · rfl

theorem rouses_unmask (board : Board) : board.Rouses board.unmask := by
  refine ⟨board.calm_unmask, ?_, rfl⟩
  intro handler member
  obtain ⟨⟨pin, entered⟩, pending, rfl⟩ := List.mem_map.mp member
  exact ⟨pin, .inr pending⟩

end Board

/-- Appends edges one after the other. -/
def EdgeQueue.pushAll (queue : EdgeQueue) (edges : List Edge) : EdgeQueue :=
  edges.foldl (fun queue edge => (queue.push edge).2) queue

theorem EdgeQueue.pushAll_append (queue : EdgeQueue) (earlier later : List Edge) :
    queue.pushAll (earlier ++ later) = (queue.pushAll earlier).pushAll later :=
  List.foldl_append

namespace Machine

/-- The queue of a capture. -/
def queue? (machine : Machine) (index : Nat) : Option EdgeQueue :=
  (machine.captures[index]?).map (·.queue)

/-- No pin leads to a slot that is bound to the capture. -/
def Unreached (machine : Machine) (index : Nat) : Prop :=
  ∀ slot, machine.slots.sink? slot = some (.capture index) → machine.Unheard slot

variable {before middle after : Machine} {index : Nat}

theorem queue?_of_captures (same : after.captures = before.captures) (index : Nat) :
    after.queue? index = before.queue? index := by
  unfold queue?
  rw [same]

theorem Quiet.unreached (quiet : before.Quiet after) (unreached : before.Unreached index) :
    after.Unreached index := by
  intro slot bound pin entered
  exact unreached slot (quiet.slots ▸ bound) pin (quiet.calm.reaches entered)

/-- All that a capture sees of a time in which its owner does nothing: edges come in, and
none if nothing leads to it. -/
def Fed (index : Nat) (before after : Machine) : Prop :=
  ∃ edges, after.queue? index = (before.queue? index).map (·.pushAll edges) ∧
    (before.Unreached index → edges = [])

theorem Fed.of_same (same : after.queue? index = before.queue? index) :
    Fed index before after := by
  refine ⟨[], ?_, fun _ => rfl⟩
  rw [same]
  exact Option.map_id'.symm

theorem Fed.trans (first : Fed index before middle) (second : Fed index middle after)
    (stays : before.Unreached index → middle.Unreached index) : Fed index before after := by
  obtain ⟨early, grown, none⟩ := first
  obtain ⟨late, grownLater, noneLater⟩ := second
  refine ⟨early ++ late, ?_, ?_⟩
  · rw [grownLater, grown, Option.map_map]
    congr 1
    funext queue
    exact (queue.pushAll_append early late).symm
  · intro unreached
    rw [none unreached, noneLater (stays unreached)]
    rfl

theorem queue?_captureEdge (machine : Machine) (index other : Nat) :
    ∃ edges, (machine.captureEdge other).queue? index =
        (machine.queue? index).map (·.pushAll edges) ∧ (other ≠ index → edges = []) := by
  unfold captureEdge
  split
  · rename_i known
    by_cases same : other = index
    · subst same
      refine ⟨[Edge.ofLevel machine.board.readClock.1
        (machine.board.readClock.2.level machine.captures[other].pin)], ?_,
        fun different => absurd rfl different⟩
      unfold queue?
      rw [Array.getElem?_set, if_pos rfl, Array.getElem?_eq_getElem known]
      rfl
    · refine ⟨[], ?_, fun _ => rfl⟩
      unfold queue?
      rw [Array.getElem?_set, if_neg same]
      exact Option.map_id'.symm
  · exact ⟨[], Option.map_id'.symm, fun _ => rfl⟩

/-- A handler feeds only the capture that its slot is bound to. -/
theorem queue?_enter (machine : Machine) (index : Nat) (handler : Handler) :
    ∃ edges, (machine.enter handler).queue? index =
        (machine.queue? index).map (·.pushAll edges) ∧
      ((∀ slot, handler = .entry slot →
        machine.slots.sink? slot ≠ some (.capture index)) → edges = []) := by
  have still : machine.queue? index = (machine.queue? index).map (·.pushAll []) :=
    Option.map_id'.symm
  cases handler with
  | probe number => exact ⟨[], still, fun _ => rfl⟩
  | entry slot =>
    unfold enter dispatch
    dsimp only
    split
    · exact ⟨[], still, fun _ => rfl⟩
    · rename_i sink bound
      cases sink with
      | probe number => exact ⟨[], still, fun _ => rfl⟩
      | capture other =>
        obtain ⟨edges, grown, none⟩ := machine.queue?_captureEdge index other
        refine ⟨edges, grown, fun elsewhere => none ?_⟩
        rintro rfl
        exact elsewhere slot rfl bound

theorem queue?_foldl_enter (machine : Machine) (index : Nat) (handlers : List Handler) :
    ∃ edges, (handlers.foldl enter machine).queue? index =
        (machine.queue? index).map (·.pushAll edges) ∧
      ((∀ slot, .entry slot ∈ handlers →
        machine.slots.sink? slot ≠ some (.capture index)) → edges = []) := by
  induction handlers generalizing machine with
  | nil => exact ⟨[], Option.map_id'.symm, fun _ => rfl⟩
  | cons handler handlers ih =>
    obtain ⟨early, grown, none⟩ := machine.queue?_enter index handler
    obtain ⟨late, grownLater, noneLater⟩ := ih (machine.enter handler)
    refine ⟨early ++ late, ?_, ?_⟩
    · rw [List.foldl_cons, grownLater, grown, Option.map_map]
      congr 1
      funext queue
      exact (queue.pushAll_append early late).symm
    · intro elsewhere
      rw [none fun slot same => elsewhere slot (by simp [same]), noneLater]
      · rfl
      · intro slot member
        rw [(machine.quiet_enter handler).slots]
        exact elsewhere slot (List.mem_cons_of_mem _ member)

/-- Something happens that leaves slots, handlers and the owners of captures alone: the
board settles, or neither the captures nor the counter rate are concerned. -/
inductive Stir : Machine → Machine → Prop
  | settle {machine : Machine} {result : Board × List Handler}
      (rouses : machine.board.Rouses result) : Stir machine (machine.settle result)
  | aside {before after : Machine} (quiet : before.Quiet after)
      (captures : after.captures = before.captures) (rate : after.rate = before.rate) :
      Stir before after

/-- Any number of such events. -/
abbrev Stirs : Machine → Machine → Prop := Relation.ReflTransGen Stir

theorem Stir.quiet (stir : before.Stir after) : before.Quiet after := by
  cases stir with
  | settle rouses => exact before.quiet_settle rouses.calm
  | aside quiet => exact quiet

theorem rate_foldl_enter (machine : Machine) (handlers : List Handler) :
    (handlers.foldl enter machine).rate = machine.rate := by
  have entered : ∀ (machine : Machine) (handler : Handler),
      (machine.enter handler).rate = machine.rate := by
    intro machine handler
    cases handler with
    | probe number => rfl
    | entry slot =>
      unfold enter dispatch
      dsimp only
      split
      · rfl
      · rename_i sink _
        cases sink with
        | probe number => rfl
        | capture index =>
          unfold signal captureEdge
          dsimp only
          split <;> rfl
  induction handlers generalizing machine with
  | nil => rfl
  | cons handler handlers ih => exact (ih _).trans (entered machine handler)

theorem Stir.rate (stir : before.Stir after) : after.rate = before.rate := by
  cases stir with
  | settle rouses =>
    refine (rate_foldl_enter _ _).trans ?_
    unfold Machine.rate
    rw [rouses.timebase]
  | aside _ _ rate => exact rate

theorem Stir.fed (stir : before.Stir after) (index : Nat) : Fed index before after := by
  cases stir with
  | @settle result rouses =>
    obtain ⟨edges, grown, none⟩ :=
      queue?_foldl_enter { before with board := result.1 } index result.2
    refine ⟨edges, grown, fun unreached => none ?_⟩
    intro slot member bound
    obtain ⟨pin, entered⟩ := rouses.raised _ member
    exact unreached slot bound pin entered
  | aside _ captures => exact .of_same (queue?_of_captures captures index)

theorem Stirs.quiet (stirs : before.Stirs after) : before.Quiet after := by
  induction stirs with
  | refl => exact .refl before
  | tail _ stir ih => exact ih.trans stir.quiet

theorem Stirs.rate (stirs : before.Stirs after) : after.rate = before.rate := by
  induction stirs with
  | refl => rfl
  | tail _ stir ih => exact stir.rate.trans ih

theorem Stirs.fed (stirs : before.Stirs after) (index : Nat) : Fed index before after := by
  induction stirs with
  | refl => exact .of_same rfl
  | tail earlier stir ih =>
    exact ih.trans (stir.fed index) (Stirs.quiet earlier).unreached

/-- Nothing but the board changes, and of the board only what leads to no handler. -/
theorem Stirs.of_board (machine : Machine) {board : Board} (calm : machine.board.Calm board)
    (timebase : board.timebase = machine.board.timebase) :
    machine.Stirs { machine with board } := by
  refine .single (.aside (.of_board machine calm) rfl ?_)
  unfold Machine.rate
  rw [timebase]

theorem stirs_readClock (machine : Machine) : machine.Stirs machine.readClock.2 :=
  .of_board machine (.of_eq (fun _ => rfl) rfl) rfl

theorem stirs_advance (machine : Machine) (cycles : UInt32) :
    machine.Stirs (machine.advance cycles) :=
  .of_board machine (.of_eq (fun _ => rfl) rfl) rfl

theorem stirs_sleep (machine : Machine) (micros : UInt32) :
    machine.Stirs (machine.sleep micros) :=
  .of_board machine (.of_eq (fun _ => rfl) rfl) rfl

theorem stirs_spinUntil (machine : Machine) (deadline : Cycle) :
    machine.Stirs (machine.spinUntil deadline) :=
  .of_board machine (.of_eq (fun _ => rfl) rfl) rfl

theorem stirs_mask (machine : Machine) : machine.Stirs machine.mask :=
  .of_board machine (.of_eq (fun _ => rfl) rfl) rfl

theorem stirs_unmask (machine : Machine) : machine.Stirs machine.unmask :=
  .single (.settle machine.board.rouses_unmask)

theorem stirs_write (machine : Machine) (level : Log.Level) (text : String) :
    machine.Stirs (machine.write level text) :=
  .single (.aside (machine.quiet_write level text) rfl rfl)

theorem stirs_note (machine : Machine) (event : Event) : machine.Stirs (machine.note event) :=
  .single (.aside (machine.quiet_note event) rfl rfl)

theorem stirs_connect (machine : Machine) (one other : Pin) :
    machine.Stirs (machine.connect one other) :=
  .single (.settle (machine.board.rouses_connect one other))

theorem stirs_setDirection (machine : Machine) (pin : Pin) (direction : Direction) :
    machine.Stirs (machine.setDirection pin direction) :=
  .single (.settle (machine.board.rouses_setUp pin fun _ => rfl))

theorem stirs_setPull (machine : Machine) (pin : Pin) (pull : Pull) :
    machine.Stirs (machine.setPull pin pull) :=
  .single (.settle (machine.board.rouses_setUp pin fun _ => rfl))

theorem stirs_setOutput (machine : Machine) (pin : Pin) (high : Bool) :
    machine.Stirs (machine.setOutput pin high) :=
  .single (.settle (machine.board.rouses_setUp pin fun _ => rfl))

theorem stirs_inject (machine : Machine) (pin : Pin) (level : Option Bool) :
    machine.Stirs (machine.inject pin level) :=
  .single (.settle (machine.board.rouses_setUp pin fun _ => rfl))

theorem stirs_restLine (machine : Machine) (pin : Pin) (high : Bool) (drive : Drive) :
    machine.Stirs (machine.restLine pin high drive) := by
  cases drive with
  | pushPull => exact (machine.stirs_setOutput pin high).trans (stirs_setDirection _ pin _)
  | pullUpRelease =>
    refine (machine.stirs_setOutput pin false).trans ((stirs_setPull _ pin .up).trans ?_)
    exact stirs_setDirection _ pin _

theorem stirs_setLine (machine : Machine) (pin : Pin) (high : Bool) (drive : Drive) :
    machine.Stirs (machine.setLine pin high drive) := by
  cases drive with
  | pushPull => exact machine.stirs_setOutput pin high
  | pullUpRelease => exact machine.stirs_setDirection pin _

theorem stirs_forceHolds (machine : Machine) (pin : Pin) (holds : List Hold) :
    machine.Stirs (machine.forceHolds pin holds) := by
  induction holds generalizing machine with
  | nil => exact .refl
  | cons hold holds ih =>
    exact (machine.stirs_inject pin _).trans ((stirs_advance _ _).trans (ih _))

theorem queue?_modifyQueue (machine : Machine) (index other : Nat) (act : EdgeQueue → EdgeQueue) :
    (machine.modifyQueue other act).queue? index =
      if other = index then (machine.queue? index).map act else machine.queue? index := by
  unfold queue? modifyQueue
  rw [Array.getElem?_modify]
  split <;> cases machine.captures[index]? <;> rfl

theorem queue?_addCapture (machine : Machine) (pin : Pin) (queue : EdgeQueue) {index : Nat}
    (known : index < machine.captures.size) :
    (machine.addCapture pin queue).2.queue? index = machine.queue? index := by
  unfold queue? addCapture
  rw [Array.getElem?_push_lt known, Array.getElem?_eq_getElem known]

theorem queue?_addCapture_new (machine : Machine) (pin : Pin) (queue : EdgeQueue) :
    (machine.addCapture pin queue).2.queue? machine.captures.size = some queue := by
  unfold queue? addCapture
  rw [Array.getElem?_push_size]
  rfl

variable {owner : Option Nat}

/-- What comes of an owner's work on a machine: it stirs, the owner takes from its own
queue, and slots and handlers change by guarded steps. -/
inductive Deed (owner : Option Nat) : Machine → Machine → Prop
  | stir {before after : Machine} (stir : before.Stir after) : Deed owner before after
  | queue {index : Nat} (machine : Machine) (act : EdgeQueue → EdgeQueue)
      (own : owner = some index) : Deed owner machine (machine.modifyQueue index act)
  | turn {before after : Machine} (steps : Steps owner before after)
      (captures : after.captures = before.captures) (rate : after.rate = before.rate) :
      Deed owner before after

/-- Any number of deeds of one owner. -/
abbrev Deeds (owner : Option Nat) : Machine → Machine → Prop :=
  Relation.ReflTransGen (Deed owner)

theorem Stirs.deeds (stirs : before.Stirs after) : Deeds owner before after := by
  induction stirs with
  | refl => exact .refl
  | tail _ stir ih => exact ih.tail (.stir stir)

theorem Deed.steps (deed : Deed owner before after) : Steps owner before after := by
  cases deed with
  | stir stir => exact .of_quiet stir.quiet
  | queue _ act => exact .of_quiet (before.quiet_modifyQueue _ act)
  | turn steps => exact steps

theorem Deeds.steps (deeds : Deeds owner before after) : Steps owner before after := by
  induction deeds with
  | refl => exact .refl
  | tail _ deed ih => exact ih.trans deed.steps

theorem Deed.rate (deed : Deed owner before after) : after.rate = before.rate := by
  cases deed with
  | stir stir => exact stir.rate
  | queue => rfl
  | turn _ _ rate => exact rate

theorem Deeds.rate (deeds : Deeds owner before after) : after.rate = before.rate := by
  induction deeds with
  | refl => rfl
  | tail _ deed ih => exact deed.rate.trans ih

/-- An owner does not come to lead to a capture that is not its own. -/
theorem Steps.unreached (steps : Steps owner before after) (foreign : owner ≠ some index)
    (unreached : before.Unreached index) : after.Unreached index := by
  have apart : ∀ other, owner = some other → Sink.capture index ≠ .capture other := by
    rintro other own ⟨⟩
    exact foreign own
  intro slot bound
  have held := (Steps.sink? steps slot apart).mp bound
  exact Steps.unheard steps held apart (unreached slot held)

theorem Deed.fed (deed : Deed owner before after) (foreign : owner ≠ some index) :
    Fed index before after := by
  cases deed with
  | stir stir => exact stir.fed index
  | @queue other _ act own =>
    refine .of_same ((before.queue?_modifyQueue index other act).trans (if_neg ?_))
    rintro rfl
    exact foreign own
  | turn _ captures => exact .of_same (queue?_of_captures captures index)

/-- Of the work of another owner a capture sees only edges that come in. -/
theorem Deeds.fed (deeds : Deeds owner before after) (foreign : owner ≠ some index) :
    Fed index before after := by
  induction deeds with
  | refl => exact .of_same rfl
  | @tail middle after earlier deed ih =>
    exact ih.trans (deed.fed foreign) (Steps.unreached (Deeds.steps earlier) foreign)

end Machine

namespace Transmitter

variable (transmitter : Transmitter)

theorem stirs_hush (machine : Machine) : machine.Stirs (transmitter.hush machine) := by
  unfold hush
  split
  · exact .refl
  · exact machine.stirs_mask

theorem stirs_unhush (machine : Machine) : machine.Stirs (transmitter.unhush machine) := by
  unfold unhush
  split
  · exact .refl
  · exact machine.stirs_unmask

theorem stirs_awaitDeadline (machine : Machine) (deadline : Cycle) :
    machine.Stirs (transmitter.awaitDeadline machine deadline) := by
  unfold awaitDeadline
  refine machine.stirs_readClock.trans (.trans ?_ (Machine.stirs_spinUntil _ deadline))
  split
  · exact (transmitter.stirs_unhush _).trans
      ((Machine.stirs_sleep _ _).trans (transmitter.stirs_hush _))
  · exact .refl

theorem stirs_sendHolds (pin : Pin) (machine : Machine) (deadline : Cycle) (holds : List Hold) :
    machine.Stirs (transmitter.sendHolds pin machine deadline holds) := by
  induction holds generalizing machine deadline with
  | nil => exact .refl
  | cons hold holds ih =>
    exact (machine.stirs_setLine pin _ _).trans
      ((transmitter.stirs_awaitDeadline _ _).trans (ih _ _))

theorem stirs_send (machine : Machine) (pin : Pin) (data : List UInt8) :
    machine.Stirs (transmitter.send machine pin data).2 := by
  unfold send
  split
  · exact .refl
  · have prepared := machine.stirs_setLine pin transmitter.markLevel transmitter.drive
    have read := prepared.trans ((transmitter.stirs_hush _).trans (Machine.stirs_readClock _))
    exact read.trans ((transmitter.stirs_sendHolds pin _ _ _).trans (transmitter.stirs_unhush _))

end Transmitter
end PinUart
