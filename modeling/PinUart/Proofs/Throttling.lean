import Mathlib.Algebra.Ring.Nat
import Mathlib.Data.List.Basic
import PinUart.Log.Throttle

/-! What a throttle lets through, and what becomes of the rest. It is used for a while, at times
that its callers choose; a record of the calls and their answers tells where windows opened, and
what was held back in them. -/
namespace PinUart.Log

/-- The notice that so many messages were held back. -/
def notice (count : UInt32) : Line := ⟨.warn, s!"{count} similar message(s) suppressed"⟩

namespace Throttle

/-- What may be asked of a throttle. -/
inductive Call
  | allow
  | takeHeldBack
  | reset
  deriving DecidableEq, Repr

/-- A call that was answered, with its time. -/
inductive Event
  | allowed (now : Nat) (verdict : Verdict)
  | taken (count : UInt32)
  | reset (now : Nat)
  deriving DecidableEq, Repr

def serve (throttle : Throttle) (now : Nat) : Call → Event × Throttle
  | .allow =>
    let (verdict, throttle) := throttle.allow now
    (.allowed now verdict, throttle)
  | .takeHeldBack =>
    let (count, throttle) := throttle.takeHeldBack
    (.taken count, throttle)
  | .reset => (.reset now, throttle.reset now)

/-- Serves calls in order, each at its time. -/
def serveAll (throttle : Throttle) : List (Nat × Call) → List Event × Throttle
  | [] => ([], throttle)
  | (now, call) :: calls =>
    let (event, throttle) := throttle.serve now call
    let (events, throttle) := throttle.serveAll calls
    (event :: events, throttle)

namespace Event

/-- Whether the message passed, if it was one. -/
def verdict? : Event → Option Bool
  | .allowed _ verdict => some verdict.passes
  | _ => none

/-- The count that the log is told, if it is told one. -/
def told? : Event → Option UInt32
  | .allowed _ verdict => if verdict.heldBack = 0 then none else some verdict.heldBack
  | _ => none

def taken? : Event → Option UInt32
  | .taken count => some count
  | _ => none

/-- What the log is told. -/
def lines : Event → List Line
  | .allowed _ verdict => verdict.notices
  | _ => []

theorem lines_eq (event : Event) : event.lines = event.told?.toList.map notice := by
  cases event with
  | allowed now verdict =>
    rw [lines, told?, Verdict.notices]
    split
    · rfl
    · rfl
  | taken | reset => rfl

theorem flatMap_lines (events : List Event) :
    events.flatMap lines = (events.filterMap told?).map notice := by
  rw [List.filterMap_eq_flatMap_toList, List.map_flatMap]
  exact congrArg events.flatMap (funext lines_eq)

theorem told?_ne_zero {event : Event} {count : UInt32} (told : event.told? = some count) :
    count ≠ 0 := by
  unfold told? at told
  split at told
  · split at told
    · cases told
    · rename_i some
      cases told
      exact some
  · cases told

end Event

/-- The verdicts of the window that is open, and those of each later one. A window opens with a
reset, or with a message that comes more than the length of a window after the last opening. -/
def windows (window opened : Nat) : List Event → List Bool × List (List Bool)
  | [] => ([], [])
  | .allowed now verdict :: events =>
    if window < now - opened then
      let (first, later) := windows window now events
      ([], (verdict.passes :: first) :: later)
    else
      let (first, later) := windows window opened events
      (verdict.passes :: first, later)
  | .taken _ :: events => windows window opened events
  | .reset now :: events =>
    let (first, later) := windows window now events
    ([], first :: later)

/-- All messages pass while there is room, and none does after. -/
def Capped (room : Nat) (verdicts : List Bool) : Prop :=
  verdicts = List.replicate (min verdicts.length room) true ++
    List.replicate (verdicts.length - room) false

theorem Capped.nil (room : Nat) : Capped room [] := by
  rw [Capped, List.length_nil, Nat.zero_min, Nat.zero_sub]
  rfl

theorem Capped.cons {room : Nat} {verdicts : List Bool} (capped : Capped (room - 1) verdicts) :
    Capped room (decide (0 < room) :: verdicts) := by
  unfold Capped at capped ⊢
  rw [List.length_cons]
  cases room with
  | zero =>
    rw [Nat.zero_sub, Nat.min_zero, Nat.sub_zero] at capped
    rw [Nat.min_zero, Nat.sub_zero, List.replicate_succ]
    exact congrArg (false :: ·) capped
  | succ room =>
    rw [Nat.succ_sub_one] at capped
    rw [Nat.add_min_add_right, Nat.add_sub_add_right, List.replicate_succ]
    exact congrArg (true :: ·) capped

/-- How many more messages pass in the window that is open. -/
def room (throttle : Throttle) : Nat := throttle.cap - throttle.count

/-- A message takes a place of its window. It passes if there is room, and else it is held. -/
theorem accept_eq (throttle : Throttle) :
    ∃ heldBack, throttle.accept = (decide (0 < throttle.room),
        { throttle with count := throttle.count + 1, heldBack }) ∧
      (throttle.heldBack.toNat + 1 < 2 ^ 32 →
        (decide (0 < throttle.room)).toNat + heldBack.toNat = throttle.heldBack.toNat + 1) := by
  unfold accept
  by_cases room : 0 < throttle.room
  · have free : throttle.count + 1 ≤ throttle.cap := Nat.lt_of_sub_pos room
    rw [decide_eq_true room]
    dsimp only
    rw [if_pos free]
    exact ⟨throttle.heldBack, rfl, fun _ => Nat.add_comm _ _⟩
  · have full : ¬ throttle.count + 1 ≤ throttle.cap := fun less => room (Nat.sub_pos_of_lt less)
    rw [decide_eq_false room]
    dsimp only
    rw [if_neg full]
    refine ⟨_, rfl, fun few => ?_⟩
    have more : (throttle.heldBack + 1).toNat = throttle.heldBack.toNat + 1 := by
      rw [UInt32.toNat_add]
      exact Nat.mod_eq_of_lt few
    rw [if_neg, more]
    · exact Nat.zero_add _
    · intro none
      rw [none] at more
      cases more

/-- Windows of a run, from any throttle on: the open one has what room is left. -/
theorem capped_serveAll (throttle : Throttle) (calls : List (Nat × Call)) :
    let cut := windows throttle.window throttle.opened (throttle.serveAll calls).1
    Capped throttle.room cut.1 ∧ ∀ verdicts ∈ cut.2, Capped throttle.cap verdicts := by
  induction calls generalizing throttle with
  | nil => exact ⟨.nil _, fun _ member => absurd member List.not_mem_nil⟩
  | cons timed calls ih =>
    obtain ⟨now, call⟩ := timed
    cases call with
    | takeHeldBack => exact ih { throttle with heldBack := 0 }
    | reset =>
      obtain ⟨first, later⟩ := ih (throttle.reset now)
      exact ⟨.nil _, List.forall_mem_cons.mpr ⟨first, later⟩⟩
    | allow =>
      rw [serveAll, serve, allow, roll]
      by_cases late : throttle.window < now - throttle.opened
      · rw [if_pos late]
        obtain ⟨heldBack, same, -⟩ :=
          accept_eq { throttle with opened := now, count := 0, heldBack := 0 }
        dsimp only at same ⊢
        rw [same]
        obtain ⟨first, later⟩ := ih { throttle with opened := now, count := 0 + 1, heldBack }
        dsimp only [windows] at first later ⊢
        rw [if_pos late]
        exact ⟨.nil _, List.forall_mem_cons.mpr ⟨.cons first, later⟩⟩
      · rw [if_neg late]
        obtain ⟨heldBack, same, -⟩ := throttle.accept_eq
        dsimp only
        rw [same]
        obtain ⟨first, later⟩ := ih { throttle with count := throttle.count + 1, heldBack }
        dsimp only [windows] at first later ⊢
        rw [if_neg late]
        exact ⟨.cons first, later⟩

/-- Every verdict belongs to one window. -/
theorem flatten_windows (window opened : Nat) (events : List Event) :
    (windows window opened events).1 ++ (windows window opened events).2.flatten =
      events.filterMap Event.verdict? := by
  induction events generalizing opened with
  | nil => rfl
  | cons event events ih =>
    cases event with
    | allowed now verdict =>
      have noted : (Event.allowed now verdict :: events).filterMap Event.verdict? =
          verdict.passes :: events.filterMap Event.verdict? := rfl
      rw [windows, noted]
      split
      · exact congrArg (verdict.passes :: ·) (ih now)
      · exact congrArg (verdict.passes :: ·) (ih opened)
    | taken => exact ih opened
    | reset now => exact ih now

/-- The messages that an event settles: it lets them pass, or tells of them. -/
def Event.settled : Event → Nat
  | .allowed _ verdict => verdict.passes.toNat + verdict.heldBack.toNat
  | .taken count => count.toNat
  | .reset _ => 0

/-- The messages that are settled passed, or were asked for, or the log was told of them. -/
theorem sum_settled (events : List Event) :
    (events.map Event.settled).sum =
      events.countP (·.verdict? = some true) +
        ((events.filterMap Event.taken?).map UInt32.toNat).sum +
        ((events.filterMap Event.told?).map UInt32.toNat).sum := by
  induction events with
  | nil => rfl
  | cons event events ih =>
    rw [List.map_cons, List.sum_cons, ih, List.countP_cons]
    cases event with
    | allowed now verdict =>
      obtain ⟨passes, heldBack⟩ := verdict
      have told : (((Event.allowed now ⟨passes, heldBack⟩ :: events).filterMap Event.told?).map
          UInt32.toNat).sum =
            heldBack.toNat + ((events.filterMap Event.told?).map UInt32.toNat).sum := by
        by_cases none : heldBack = 0 <;> simp [Event.told?, none]
      have taken : (Event.allowed now ⟨passes, heldBack⟩ :: events).filterMap Event.taken? =
          events.filterMap Event.taken? := rfl
      rw [told, taken]
      cases passes <;> simp [Event.settled, Event.verdict?] <;> omega
    | taken count =>
      have taken : (Event.taken count :: events).filterMap Event.taken? =
          count :: events.filterMap Event.taken? := rfl
      have told : (Event.taken count :: events).filterMap Event.told? =
          events.filterMap Event.told? := rfl
      rw [told, taken]
      simp [Event.settled, Event.verdict?]
      omega
    | reset now => exact Nat.zero_add _

/-- What one call preserves: a message that comes in is settled or held. -/
theorem tally_serve {throttle : Throttle} {call : Call}
    (few : throttle.heldBack.toNat + 1 < 2 ^ 32) (kept : call ≠ .reset) (now : Nat) :
    throttle.heldBack.toNat + (if call = .allow then 1 else 0) =
      (throttle.serve now call).1.settled + (throttle.serve now call).2.heldBack.toNat := by
  cases call with
  | allow =>
    rw [serve, allow, roll, if_pos rfl]
    by_cases late : throttle.window < now - throttle.opened
    · rw [if_pos late]
      obtain ⟨heldBack, same, tally⟩ :=
        accept_eq { throttle with opened := now, count := 0, heldBack := 0 }
      have held := tally (show (0 : UInt32).toNat + 1 < 2 ^ 32 by decide)
      dsimp only at same held ⊢
      rw [same]
      dsimp only [Event.settled]
      rw [UInt32.toNat_zero] at held
      omega
    · rw [if_neg late]
      obtain ⟨heldBack, same, tally⟩ := throttle.accept_eq
      have held := tally few
      dsimp only
      rw [same]
      dsimp only [Event.settled]
      rw [UInt32.toNat_zero]
      omega
  | takeHeldBack => rfl
  | reset => exact absurd rfl kept

/-- What a run without resets preserves. -/
theorem tally_serveAll {throttle : Throttle} {calls : List (Nat × Call)}
    (few : throttle.heldBack.toNat + calls.length < 2 ^ 32)
    (kept : ∀ call ∈ calls, call.2 ≠ .reset) :
    throttle.heldBack.toNat + calls.countP (·.2 = .allow) =
      ((throttle.serveAll calls).1.map Event.settled).sum +
        (throttle.serveAll calls).2.heldBack.toNat := by
  induction calls generalizing throttle with
  | nil => exact (Nat.zero_add _).symm
  | cons timed calls ih =>
    obtain ⟨now, call⟩ := timed
    obtain ⟨first, later⟩ := List.forall_mem_cons.mp kept
    have served := tally_serve (Nat.lt_of_le_of_lt (Nat.add_le_add_left (Nat.succ_pos _) _) few)
      first now
    rw [List.countP_cons, serveAll]
    simp only [decide_eq_true_eq, List.map_cons, List.sum_cons, List.length_cons] at few ⊢
    generalize throttle.serve now call = result at served ⊢
    obtain ⟨event, after⟩ := result
    have rest : after.heldBack.toNat + _ = _ := ih ?_ later
    · dsimp only at served ⊢
      omega
    · dsimp only at served
      split at served <;> omega

/-- What is owed to those who call a throttle, and to those who read the log. -/
structure Fair (window cap start : Nat) (calls : List (Nat × Call)) (events : List Event)
    (after : Throttle) : Prop where
  /-- Every verdict belongs to one window. -/
  whole : (windows window start events).1 ++ (windows window start events).2.flatten =
    events.filterMap Event.verdict?
  /-- In each window as many messages pass as the cap allows, and these are the first. -/
  capped : ∀ verdicts ∈ (windows window start events).1 :: (windows window start events).2,
    Capped cap verdicts
  /-- The log is told of messages that were held back, and of nothing else. -/
  told : events.flatMap Event.lines = (events.filterMap Event.told?).map notice
  nonzero : ∀ count ∈ events.filterMap Event.told?, count ≠ 0
  /-- Without resets, every message passed, or was asked for, or was told of, or is still held. -/
  tally : (∀ call ∈ calls, call.2 ≠ .reset) → calls.countP (·.2 = .allow) =
    events.countP (·.verdict? = some true) +
      ((events.filterMap Event.taken?).map UInt32.toNat).sum +
      ((events.filterMap Event.told?).map UInt32.toNat).sum + after.heldBack.toNat

/-- A throttle is fair, at whatever times it is called, as long as its counters last. -/
theorem serveAll_fair (window cap start : Nat) {calls : List (Nat × Call)}
    (few : calls.length < 2 ^ 32) :
    Fair window cap start calls ((create window cap start).serveAll calls).1
      ((create window cap start).serveAll calls).2 := by
  obtain ⟨first, later⟩ := (create window cap start).capped_serveAll calls
  refine ⟨flatten_windows _ _ _, List.forall_mem_cons.mpr ⟨first, later⟩, Event.flatMap_lines _,
    fun count member => ?_, fun kept => ?_⟩
  · obtain ⟨event, -, told⟩ := List.mem_filterMap.mp member
    exact Event.told?_ne_zero told
  · have started : (create window cap start).heldBack.toNat + calls.length < 2 ^ 32 := by
      change 0 + calls.length < 2 ^ 32
      omega
    have tally := tally_serveAll started kept
    rw [sum_settled] at tally
    exact (Nat.zero_add _).symm.trans tally

/-- Two windows of two messages each: one message is asked for, two are told of, one is held. -/
def busy : List (Nat × Call) :=
  [(0, .allow), (1, .allow), (2, .allow), (3, .takeHeldBack), (4, .allow), (5, .allow),
    (2000, .allow), (2000, .allow), (3000, .allow)]

theorem fair_busy :
    busy.length < 2 ^ 32 ∧
      Fair 1000 2 0 busy ((create 1000 2 0).serveAll busy).1 ((create 1000 2 0).serveAll busy).2 ∧
      windows 1000 0 ((create 1000 2 0).serveAll busy).1 =
        ([true, true, false, false, false], [[true, true, false]]) ∧
      ((create 1000 2 0).serveAll busy).1.filterMap Event.told? = [2] ∧
      ((create 1000 2 0).serveAll busy).2.heldBack = 1 :=
  ⟨by decide, serveAll_fair 1000 2 0 (by decide), by decide, by decide, by decide⟩

end Throttle
end PinUart.Log
