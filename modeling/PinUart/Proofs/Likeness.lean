import PinUart.Proofs.Observation
import PinUart.World.Tap

/-! Machines that nobody can tell apart. Where in its slots the elements of a ring lie does not
show, and so two machines may differ in the rings of their captures. -/
namespace PinUart

/-- The same elements, and the same room. -/
structure Ring.Alike {α : Type} (one other : Ring α) : Prop where
  items : other.toList = one.toList
  room : other.capacity = one.capacity

namespace Ring

variable {α : Type} {one other : Ring α}

theorem Alike.refl (ring : Ring α) : ring.Alike ring := ⟨rfl, rfl⟩

theorem Alike.size (alike : one.Alike other) : other.size = one.size := by
  rw [← length_toList, ← length_toList, alike.items]

theorem Alike.push (alike : one.Alike other) (value : α) :
    (other.push value).1 = (one.push value).1 ∧ (one.push value).2.Alike (other.push value).2 := by
  refine ⟨?_, ?_, ?_⟩
  · rw [push_fst, push_fst, alike.size, alike.room]
  · rw [toList_push, toList_push, alike.size, alike.room, alike.items]
  · rw [capacity_push, capacity_push, alike.room]

theorem Alike.peek? (alike : one.Alike other) : other.peek? = one.peek? := by
  rw [peek?_eq, peek?_eq, alike.items]

theorem Alike.pop? (alike : one.Alike other) :
    other.pop?.1 = one.pop?.1 ∧ one.pop?.2.Alike other.pop?.2 := by
  refine ⟨?_, ?_, ?_⟩
  · rw [pop?_fst, pop?_fst, alike.items]
  · rw [toList_pop, toList_pop, alike.items]
  · rw [capacity_pop, capacity_pop, alike.room]

/-- Emptied rings are alike, whatever was in them. -/
theorem alike_clear (room : other.capacity = one.capacity) : one.clear.Alike other.clear :=
  ⟨rfl, room⟩

theorem alike_discard (room : other.capacity = one.capacity) : one.discard.Alike other.discard :=
  ⟨by rw [toList_discard, toList_discard], room⟩

end Ring

namespace ByteRing

variable {one other : ByteRing}

theorem alike_store (alike : Ring.Alike one other) (finding : Finding) :
    (other.store finding).1 = (one.store finding).1 ∧
      Ring.Alike (one.store finding).2 (other.store finding).2 := by
  cases finding with
  | spurious => exact ⟨rfl, alike⟩
  | progress => exact ⟨rfl, alike⟩
  | completed byte =>
    rw [store_completed, store_completed, alike.size, alike.room]
    exact ⟨rfl, (alike.push byte).2⟩

theorem alike_storeAll (alike : Ring.Alike one other) (findings : List Finding) :
    (other.storeAll findings).1 = (one.storeAll findings).1 ∧
      Ring.Alike (one.storeAll findings).2 (other.storeAll findings).2 := by
  induction findings generalizing one other with
  | nil => exact ⟨rfl, alike⟩
  | cons finding findings ih =>
    obtain ⟨same, stored⟩ := alike_store alike finding
    obtain ⟨others, storedAll⟩ := ih stored
    exact ⟨congrArg₂ List.cons same others, storedAll⟩

end ByteRing

/-- What is decoded does not depend on the ring, but for the bytes that are refused. -/
theorem Decoder.alike_observe {one other : ByteRing} (alike : Ring.Alike one other)
    (decoder : Decoder) (sights : List Sight) :
    (decoder.observe other sights).1 = (decoder.observe one sights).1 ∧
      (decoder.observe other sights).2.1 = (decoder.observe one sights).2.1 ∧
      Ring.Alike (decoder.observe one sights).2.2 (decoder.observe other sights).2.2 := by
  rw [observe_eq, observe_eq]
  obtain ⟨same, stored⟩ := ByteRing.alike_storeAll alike (decoder.hear sights).1
  exact ⟨same, rfl, stored⟩

structure EdgeQueue.Alike (one other : EdgeQueue) : Prop where
  ring : one.ring.Alike other.ring
  lost : other.lost = one.lost

namespace EdgeQueue

variable {one other : EdgeQueue}

theorem Alike.refl (queue : EdgeQueue) : queue.Alike queue := ⟨.refl _, rfl⟩

theorem Alike.push (alike : one.Alike other) (edge : Edge) :
    (one.push edge).2.Alike (other.push edge).2 := by
  have size : other.size = one.size := alike.ring.size
  have room : other.capacity = one.capacity := alike.ring.room
  have items : other.toList = one.toList := alike.ring.items
  refine ⟨⟨?_, ?_⟩, ?_⟩
  · exact (toList_push other edge).trans (by rw [size, room, items, ← toList_push]; rfl)
  · exact (capacity_push other edge).trans (room.trans (capacity_push one edge).symm)
  · rw [lost_push, lost_push, push_fst, push_fst, size, room, alike.lost]

theorem Alike.pop? (alike : one.Alike other) :
    other.pop?.1 = one.pop?.1 ∧ one.pop?.2.Alike other.pop?.2 :=
  ⟨alike.ring.pop?.1, alike.ring.pop?.2, alike.lost⟩

theorem Alike.discard (alike : one.Alike other) : one.discard.Alike other.discard :=
  ⟨Ring.alike_discard alike.ring.room, alike.lost⟩

theorem Alike.takeLost (alike : one.Alike other) : one.takeLost.2.Alike other.takeLost.2 :=
  ⟨alike.ring, rfl⟩

end EdgeQueue

/-- The same pin, and queues that are alike. Of a spared queue only the room counts. -/
structure Capture.Alike (spared : Prop) (one other : Capture) : Prop where
  pin : other.pin = one.pin
  room : other.queue.capacity = one.queue.capacity
  queue : ¬ spared → one.queue.Alike other.queue

/-- An edge comes in alike. -/
theorem Capture.Alike.takeEdge {spared : Prop} {one other : Capture}
    (alike : Capture.Alike spared one other) (board : Board) :
    Capture.Alike spared (one.takeEdge board).1 (other.takeEdge board).1 := by
  unfold Capture.takeEdge
  rw [alike.pin]
  refine ⟨rfl, ?_, fun counts => (alike.queue counts).push _⟩
  exact (EdgeQueue.capacity_push ..).trans (alike.room.trans (EdgeQueue.capacity_push ..).symm)

namespace Machine

/-- The machine with other captures. -/
def withCaptures (machine : Machine) (captures : Array Capture) : Machine :=
  { machine with captures }

/-- Nothing differs but captures, which are alike. One of them may be spared. -/
inductive Alike (spared : Option Nat) (one : Machine) : Machine → Prop
  | intro {captures : Array Capture} (size : captures.size = one.captures.size)
      (alike : ∀ index : Nat, Option.Rel (Capture.Alike (spared = some index))
        one.captures[index]? captures[index]?) :
      Alike spared one (one.withCaptures captures)

/-- The same answer, and machines that are alike. -/
structure Agrees {β : Type} (spared : Option Nat) (one other : β × Machine) : Prop where
  answer : other.1 = one.1
  machine : Alike spared one.2 other.2

theorem Agrees.split {β : Type} {spared : Option Nat} {one other : β × Machine}
    (agrees : Agrees spared one other) :
    ∃ answer before after, one = (answer, before) ∧ other = (answer, after) ∧
      Alike spared before after :=
  ⟨one.1, one.2, other.2, rfl, Prod.ext agrees.answer rfl, agrees.machine⟩

variable {spared : Option Nat} {one other : Machine}

theorem Alike.refl (machine : Machine) : Alike none machine machine := by
  refine @Alike.intro none machine machine.captures rfl fun index => ?_
  cases machine.captures[index]? with
  | none => exact .none
  | some capture => exact .some ⟨rfl, rfl, fun _ => .refl _⟩

/-- Anything may be in a queue that is spared. -/
theorem alike_spared (machine : Machine) (index : Nat) (queue : EdgeQueue)
    (room : ∀ capture, machine.captures[index]? = some capture →
      queue.capacity = capture.queue.capacity) :
    Alike (some index) machine (machine.modifyQueue index fun _ => queue) := by
  refine @Alike.intro (some index) machine
    (machine.captures.modify index fun capture => { capture with queue }) Array.size_modify
    fun place => ?_
  rw [Array.getElem?_modify]
  split
  · rename_i here
    subst here
    cases found : machine.captures[index]? with
    | none => exact .none
    | some capture => exact .some ⟨rfl, room capture found, fun kept => absurd rfl kept⟩
  · cases machine.captures[place]? with
    | none => exact .none
    | some capture => exact .some ⟨rfl, rfl, fun _ => .refl _⟩

theorem Alike.board (alike : Alike spared one other) : other.board = one.board := by
  cases alike
  rfl

theorem Alike.events (alike : Alike spared one other) : other.events = one.events := by
  cases alike
  rfl

theorem Alike.log (alike : Alike spared one other) : other.log = one.log := by
  cases alike
  rfl

/-- Captures go in pairs. -/
theorem Alike.captures (alike : Alike spared one other) (index : Nat) :
    (one.captures[index]? = none ∧ other.captures[index]? = none) ∨
      ∃ first second, one.captures[index]? = some first ∧ other.captures[index]? = some second ∧
        Capture.Alike (spared = some index) first second := by
  cases alike with
  | @intro captures size alike =>
    have pair := alike index
    unfold withCaptures
    dsimp only
    generalize one.captures[index]? = first at pair ⊢
    generalize captures[index]? = second at pair ⊢
    cases pair with
    | none => exact .inl ⟨rfl, rfl⟩
    | some like => exact .inr ⟨_, _, rfl, rfl, like⟩

theorem Alike.rate (alike : Alike spared one other) : other.rate = one.rate := by
  cases alike
  rfl

theorem Alike.size (alike : Alike spared one other) :
    other.captures.size = one.captures.size := by
  obtain ⟨size, -⟩ := alike
  exact size

/-- What leaves captures alone answers alike, and keeps machines alike. -/
theorem Alike.ask {β : Type} (alike : Alike spared one other) (act : Machine → β × Machine)
    (blind : ∀ machine captures, act (machine.withCaptures captures) =
      ((act machine).1, (act machine).2.withCaptures captures)) :
    Agrees spared (act one) (act other) := by
  cases alike with
  | @intro captures size alike =>
    have kept : (act one).2.captures = one.captures :=
      (congrArg (fun result => result.2.captures) (blind one one.captures) :)
    rw [blind]
    exact ⟨rfl, .intro (kept ▸ size) fun index => kept ▸ alike index⟩

theorem Alike.map (alike : Alike spared one other) (act : Machine → Machine)
    (blind : ∀ machine captures, act (machine.withCaptures captures) =
      (act machine).withCaptures captures) : Alike spared (act one) (act other) :=
  (alike.ask (fun machine => ((), act machine)) fun machine captures =>
    congrArg (Prod.mk ()) (blind machine captures)).machine

theorem Alike.write (alike : Alike spared one other) (level : Log.Level) (text : String) :
    Alike spared (one.write level text) (other.write level text) :=
  alike.map (·.write level text) fun _ _ => rfl

theorem Alike.note (alike : Alike spared one other) (event : Event) :
    Alike spared (one.note event) (other.note event) :=
  alike.map (·.note event) fun _ _ => rfl

theorem Alike.captureEdge (alike : Alike spared one other) (index : Nat) :
    Alike spared (one.captureEdge index) (other.captureEdge index) := by
  cases alike with
  | @intro captures size alike =>
    have pair := alike index
    unfold Machine.captureEdge
    by_cases known : index < one.captures.size
    · have there : index < captures.size := size ▸ known
      rw [dif_pos known,
        dif_pos (show index < (one.withCaptures captures).captures.size from there)]
      rw [Array.getElem?_eq_getElem known, Array.getElem?_eq_getElem there] at pair
      obtain ⟨like⟩ := pair
      refine @Alike.intro spared { one with
        board := one.board.readClock.2
        captures := one.captures.set index (one.captures[index].takeEdge one.board).1 known }
        (captures.set index (captures[index].takeEdge one.board).1 there) ?_ fun place => ?_
      · simp only [Array.size_set, size]
      · dsimp only
        rw [Array.getElem?_set, Array.getElem?_set]
        split
        · rename_i here
          exact .some (here ▸ like.takeEdge one.board)
        · exact alike place
    · have none : ¬ index < (one.withCaptures captures).captures.size := size ▸ known
      rw [dif_neg known, dif_neg none]
      exact .intro size alike

theorem Alike.dispatch (alike : Alike spared one other) (slot : SlotIndex) :
    Alike spared (one.dispatch slot) (other.dispatch slot) := by
  have bound : other.slots.sink? slot = one.slots.sink? slot := by
    cases alike
    rfl
  unfold Machine.dispatch
  rw [bound]
  cases one.slots.sink? slot with
  | none => exact alike
  | some sink =>
    cases sink with
    | capture index => exact alike.captureEdge index
    | probe index => exact alike.note _

theorem Alike.enter (alike : Alike spared one other) (handler : Handler) :
    Alike spared (one.enter handler) (other.enter handler) := by
  cases handler with
  | probe index => exact alike.note _
  | entry slot => exact alike.dispatch slot

/-- The board settles alike. -/
theorem Alike.settle (alike : Alike spared one other) (result : Board × List Handler) :
    Alike spared (one.settle result) (other.settle result) := by
  have begun : Alike spared { one with board := result.1 } { other with board := result.1 } :=
    alike.map ({ · with board := result.1 }) fun _ _ => rfl
  unfold Machine.settle
  generalize { one with board := result.1 } = first at begun ⊢
  generalize { other with board := result.1 } = second at begun ⊢
  induction result.2 generalizing first second with
  | nil => exact begun
  | cons handler handlers ih => exact ih _ _ (begun.enter handler)

theorem Alike.settleWith (alike : Alike spared one other)
    (act : Board → Board × List Handler) :
    Alike spared (one.settle (act one.board)) (other.settle (act other.board)) := by
  rw [alike.board]
  exact alike.settle _

theorem Alike.onBoard (alike : Alike spared one other) (act : Board → Board) :
    Alike spared { one with board := act one.board } { other with board := act other.board } :=
  alike.map (fun machine => { machine with board := act machine.board }) fun _ _ => rfl

theorem Alike.connect (alike : Alike spared one other) (pin wired : Pin) :
    Alike spared (one.connect pin wired) (other.connect pin wired) :=
  alike.settleWith (·.connect pin wired)

theorem Alike.setDirection (alike : Alike spared one other) (pin : Pin) (direction : Direction) :
    Alike spared (one.setDirection pin direction) (other.setDirection pin direction) :=
  alike.settleWith (·.setDirection pin direction)

theorem Alike.setPull (alike : Alike spared one other) (pin : Pin) (pull : Pull) :
    Alike spared (one.setPull pin pull) (other.setPull pin pull) :=
  alike.settleWith (·.setPull pin pull)

theorem Alike.setOutput (alike : Alike spared one other) (pin : Pin) (high : Bool) :
    Alike spared (one.setOutput pin high) (other.setOutput pin high) :=
  alike.settleWith (·.setOutput pin high)

theorem Alike.inject (alike : Alike spared one other) (pin : Pin) (level : Option Bool) :
    Alike spared (one.inject pin level) (other.inject pin level) :=
  alike.settleWith (·.inject pin level)

theorem Alike.unmask (alike : Alike spared one other) : Alike spared one.unmask other.unmask :=
  alike.settleWith (·.unmask)

theorem Alike.readClock (alike : Alike spared one other) :
    Agrees spared one.readClock other.readClock := by
  refine ⟨?_, alike.onBoard (·.readClock.2)⟩
  unfold Machine.readClock
  rw [alike.board]

theorem Alike.attach (alike : Alike spared one other) (pin : Pin) (handler : Handler) :
    Agrees spared (one.attach pin handler) (other.attach pin handler) := by
  refine alike.ask (·.attach pin handler) fun ⟨_, _, _, _, faults, _, _, _⟩ captures => ?_
  unfold Machine.attach withCaptures
  cases faults with
  | nil =>
    dsimp only
    split <;> rfl
  | cons fault faults => rfl

theorem Alike.claim (alike : Alike spared one other) (sink : Sink) :
    Agrees spared (one.claim sink) (other.claim sink) := by
  refine alike.ask (·.claim sink) fun machine captures => ?_
  unfold Machine.claim withCaptures
  dsimp only
  cases machine.slots.claim? sink <;> rfl

theorem Alike.release (alike : Alike spared one other) (slot : SlotIndex) :
    Alike spared (one.release slot) (other.release slot) := by
  refine alike.map (·.release slot) fun machine captures => ?_
  unfold Machine.release withCaptures
  dsimp only
  split <;> rfl

/-- A new capture has the same index. -/
theorem Alike.addCapture (alike : Alike spared one other) (pin : Pin) (queue : EdgeQueue) :
    Agrees spared (one.addCapture pin queue) (other.addCapture pin queue) := by
  cases alike with
  | @intro captures size alike =>
    refine ⟨size, ?_⟩
    refine @Alike.intro spared { one with captures := one.captures.push ⟨pin, queue⟩ }
      (captures.push ⟨pin, queue⟩) (by simp only [Array.size_push, size]) fun index => ?_
    dsimp only
    rw [Array.getElem?_push, Array.getElem?_push, size]
    split
    · exact .some ⟨rfl, rfl, fun _ => .refl queue⟩
    · exact alike index

/-- The queues of one capture are changed. If only these were spared, none are any more. -/
theorem Alike.modifyQueue (alike : Alike spared one other) (index : Nat)
    (act : EdgeQueue → EdgeQueue) (covers : ∀ other, spared = some other → other = index)
    (acts : ∀ {queue twin : EdgeQueue}, twin.capacity = queue.capacity →
      (spared ≠ some index → queue.Alike twin) → (act queue).Alike (act twin)) :
    Alike none (one.modifyQueue index act) (other.modifyQueue index act) := by
  cases alike with
  | @intro captures size alike =>
    refine @Alike.intro none (one.modifyQueue index act)
      (captures.modify index fun capture => { capture with queue := act capture.queue })
      ?_ fun place => ?_
    · unfold Machine.modifyQueue
      simp only [Array.size_modify, size]
    · have pair := alike place
      unfold Machine.modifyQueue
      dsimp only
      rw [Array.getElem?_modify, Array.getElem?_modify]
      generalize one.captures[place]? = first at pair ⊢
      generalize captures[place]? = second at pair ⊢
      cases pair with
      | none => split <;> exact .none
      | some like =>
        split
        · rename_i here
          subst here
          have acted := acts like.room like.queue
          exact .some ⟨like.pin, acted.ring.room, fun _ => acted⟩
        · rename_i elsewhere
          have counts : ¬ spared = some place := fun same => elsewhere (covers place same).symm
          exact .some ⟨like.pin, like.room, fun _ => like.queue counts⟩

theorem Alike.changeQueue {act : EdgeQueue → EdgeQueue} (alike : Alike none one other)
    (index : Nat) (acts : ∀ {queue twin : EdgeQueue}, queue.Alike twin →
      (act queue).Alike (act twin)) :
    Alike none (one.modifyQueue index act) (other.modifyQueue index act) :=
  alike.modifyQueue index act (by simp) fun _ like => acts (like (by simp))

theorem Alike.queued (alike : Alike none one other) (index : Nat) :
    other.queued index = one.queued index := by
  unfold Machine.queued
  obtain ⟨first, second⟩ | ⟨capture, twin, first, second, like⟩ := alike.captures index
  · rw [first, second]
  · rw [first, second]
    exact (like.queue (by simp)).ring.items

theorem Alike.takeLost (alike : Alike none one other) (index : Nat) :
    Agrees none (one.takeLost index) (other.takeLost index) := by
  unfold Machine.takeLost
  obtain ⟨first, second⟩ | ⟨capture, twin, first, second, like⟩ := alike.captures index
  · rw [first, second]
    exact ⟨rfl, alike⟩
  · rw [first, second]
    exact ⟨(like.queue (by simp)).lost, alike.changeQueue index fun like => like.takeLost⟩

theorem Alike.popEdge (alike : Alike none one other) (index : Nat) :
    Agrees none (one.popEdge index) (other.popEdge index) := by
  unfold Machine.popEdge
  obtain ⟨first, second⟩ | ⟨capture, twin, first, second, like⟩ := alike.captures index
  · rw [first, second]
    exact ⟨rfl, alike⟩
  · rw [first, second]
    exact ⟨(like.queue (by simp)).pop?.1, alike.changeQueue index fun like => like.pop?.2⟩

theorem Alike.captureReport (alike : Alike none one other) (index : Nat) :
    Agrees none (one.captureReport index) (other.captureReport index) := by
  obtain ⟨lost, taken⟩ := alike.takeLost index
  unfold Machine.captureReport
  obtain ⟨first, second⟩ | ⟨capture, twin, first, second, like⟩ := alike.captures index
  · rw [first, second]
    exact ⟨rfl, alike⟩
  · rw [first, second]
    have queue := like.queue (by simp)
    dsimp only
    rw [lost, like.pin, like.room, show twin.queue.size = capture.queue.size from queue.ring.size]
    exact ⟨rfl, taken⟩

theorem Alike.claimAnswering (alike : Alike spared one other) (sink : Sink) :
    Agrees spared (one.claimAnswering sink) (other.claimAnswering sink) := by
  obtain ⟨answer, before, after, first, second, later⟩ := (alike.claim sink).split
  unfold Machine.claimAnswering
  rw [first, second]
  cases answer <;> exact ⟨rfl, later⟩

theorem Alike.attachAnswering (alike : Alike spared one other) (pin : Pin) (handler : Handler) :
    Agrees spared (one.attachAnswering pin handler) (other.attachAnswering pin handler) := by
  obtain ⟨answer, before, after, first, second, later⟩ := (alike.attach pin handler).split
  unfold Machine.attachAnswering
  rw [first, second]
  cases answer <;> exact ⟨rfl, later⟩

theorem Alike.performTap (alike : Alike none one other) (index : Nat)
    (operation : Tap.Operation) :
    Agrees none (one.performTap index operation) (other.performTap index operation) := by
  cases operation with
  | takeEdge => exact ⟨rfl, alike.captureEdge index⟩
  | claim => exact alike.claimAnswering (.capture index)
  | pop =>
    obtain ⟨same, popped⟩ := alike.popEdge index
    refine ⟨?_, popped⟩
    unfold Machine.performTap
    dsimp only
    rw [same]
  | report => exact alike.captureReport index

theorem Alike.forceHolds (alike : Alike spared one other) (pin : Pin) (holds : List Hold) :
    Alike spared (one.forceHolds pin holds) (other.forceHolds pin holds) := by
  unfold Machine.forceHolds
  induction holds generalizing one other with
  | nil => exact alike
  | cons hold holds ih =>
    exact ih ((alike.inject pin _).onBoard (·.advance hold.cycles))

/-- All that is done to a machine is answered alike. -/
theorem Alike.perform (alike : Alike spared one other) (operation : Operation) :
    Agrees spared (one.perform operation) (other.perform operation) := by
  cases operation with
  | connect pin wired => exact ⟨rfl, alike.connect pin wired⟩
  | inject pin level => exact ⟨rfl, alike.inject pin level⟩
  | forceMessage pin data bitPeriod invert => exact ⟨rfl, alike.forceHolds pin _⟩
  | advance cycles => exact ⟨rfl, alike.onBoard (·.advance cycles)⟩
  | setDirection pin direction => exact ⟨rfl, alike.setDirection pin direction⟩
  | setPull pin pull => exact ⟨rfl, alike.setPull pin pull⟩
  | setOutput pin high => exact ⟨rfl, alike.setOutput pin high⟩
  | level pin => exact alike.ask (·.perform (.level pin)) fun _ _ => rfl
  | readClock =>
    obtain ⟨same, read⟩ := alike.readClock
    exact ⟨congrArg (fun now : Cycle => Answer.count now.toNat) same, read⟩
  | rate => exact alike.ask (·.perform .rate) fun _ _ => rfl
  | sleep micros => exact ⟨rfl, alike.onBoard (·.sleep micros)⟩
  | mask => exact ⟨rfl, alike.onBoard (·.mask)⟩
  | unmask => exact ⟨rfl, alike.unmask⟩
  | isMasked => exact alike.ask (·.perform .isMasked) fun _ _ => rfl
  | isUsable pin => exact alike.ask (·.perform (.isUsable pin)) fun _ _ => rfl
  | attach pin handler => exact alike.attachAnswering pin handler
  | detach pin => exact ⟨rfl, alike.onBoard (·.detach pin)⟩
  | hasHandler pin => exact alike.ask (·.perform (.hasHandler pin)) fun _ _ => rfl
  | direction pin => exact alike.ask (·.perform (.direction pin)) fun _ _ => rfl
  | transitions pin => exact alike.ask (·.perform (.transitions pin)) fun _ _ => rfl
  | forgetTransitions => exact ⟨rfl, alike.onBoard (·.forgetTransitions)⟩
  | queueFault fault => exact alike.ask (·.perform (.queueFault fault)) fun _ _ => rfl
  | claim sink => exact alike.claimAnswering sink
  | release slot =>
    refine ⟨rfl, ?_⟩
    unfold Machine.perform
    dsimp only
    split
    · exact alike
    · exact alike.release _
  | dispatch slot =>
    refine ⟨rfl, ?_⟩
    unfold Machine.perform
    dsimp only
    split
    · exact alike
    · exact alike.dispatch _
  | entry slot =>
    unfold Machine.perform
    dsimp only
    split
    · exact ⟨rfl, alike⟩
    · rename_i slot _
      exact ⟨rfl, alike.enter (.entry slot)⟩
  | attachSlot pin slot =>
    unfold Machine.perform
    dsimp only
    split
    · exact ⟨rfl, alike⟩
    · exact alike.attachAnswering pin _
  | isBound slot => exact alike.ask (·.perform (.isBound slot)) fun _ _ => rfl
  | slotTally => exact alike.ask (·.perform .slotTally) fun _ _ => rfl

theorem Alike.restLine (alike : Alike spared one other) (pin : Pin) (high : Bool) (drive : Drive) :
    Alike spared (one.restLine pin high drive) (other.restLine pin high drive) := by
  cases drive with
  | pushPull => exact (alike.setOutput pin high).setDirection pin _
  | pullUpRelease => exact ((alike.setOutput pin false).setPull pin .up).setDirection pin _

theorem Alike.setLine (alike : Alike spared one other) (pin : Pin) (high : Bool) (drive : Drive) :
    Alike spared (one.setLine pin high drive) (other.setLine pin high drive) := by
  cases drive with
  | pushPull => exact alike.setOutput pin high
  | pullUpRelease => exact alike.setDirection pin _

end Machine

namespace Transmitter

open Machine

variable {spared : Option Nat} {one other : Machine} (transmitter : Transmitter)

theorem alike_hush (alike : Alike spared one other) :
    Alike spared (transmitter.hush one) (transmitter.hush other) := by
  unfold hush
  split
  · exact alike
  · exact alike.onBoard (·.mask)

theorem alike_unhush (alike : Alike spared one other) :
    Alike spared (transmitter.unhush one) (transmitter.unhush other) := by
  unfold unhush
  split
  · exact alike
  · exact alike.unmask

theorem alike_awaitDeadline (alike : Alike spared one other) (deadline : Cycle) :
    Alike spared (transmitter.awaitDeadline one deadline)
      (transmitter.awaitDeadline other deadline) := by
  obtain ⟨now, before, after, first, second, later⟩ := alike.readClock.split
  have rate : after.perMicrosecond = before.perMicrosecond := by
    unfold perMicrosecond
    rw [later.rate]
  unfold awaitDeadline
  rw [first, second]
  dsimp only
  rw [rate]
  split
  · exact (transmitter.alike_hush ((transmitter.alike_unhush later).onBoard (·.sleep _))).onBoard
      (·.spinUntil deadline)
  · exact later.onBoard (·.spinUntil deadline)

theorem alike_sendHolds (alike : Alike spared one other) (pin : Pin) (deadline : Cycle)
    (holds : List Hold) :
    Alike spared (transmitter.sendHolds pin one deadline holds)
      (transmitter.sendHolds pin other deadline holds) := by
  induction holds generalizing one other deadline with
  | nil => exact alike
  | cons hold holds ih =>
    exact ih (transmitter.alike_awaitDeadline (alike.setLine pin _ _) _) _

theorem alike_send (alike : Alike spared one other) (pin : Pin) (data : List UInt8) :
    Agrees spared (transmitter.send one pin data) (transmitter.send other pin data) := by
  unfold send
  split
  · exact ⟨rfl, alike⟩
  · have begun := transmitter.alike_hush
      (alike.setLine pin transmitter.markLevel transmitter.drive)
    obtain ⟨now, before, after, first, second, later⟩ := begun.readClock.split
    dsimp only
    rw [first, second]
    exact ⟨rfl, transmitter.alike_unhush (transmitter.alike_sendHolds later pin now _)⟩

end Transmitter
end PinUart
