import Mathlib.Data.List.DropRight
import PinUart.Port
import PinUart.Proofs.Observation
import PinUart.Proofs.Stirring

/-! Reception as a machine of its own. Edges are queued while the interrupt is armed,
looks decode what is queued, and the owner takes bytes and asks for losses. Every byte
that is completed is either kept or refused, and both leave a trace. -/
namespace PinUart

/-- What has been received and not been handed out yet. -/
structure Intake where
  queue : EdgeQueue
  decoder : Decoder
  bytes : ByteRing
  losses : Losses
  listening : Bool

namespace Intake

inductive Action
  | edge (edge : Edge)
  | look (now : Cycle)
  | take
  | ask
  | rest (now : Cycle)
  | listen
  | mute
  | pace (bitPeriod : UInt32)
  | discard
  deriving DecidableEq

/-- What can be told of an action: an edge or a byte that came in, and whether there was
room for it; a byte that was handed out; and that losses were asked for. -/
inductive Happening
  | captured (edge : Edge) (kept : Bool)
  | completed (byte : UInt8) (kept : Bool)
  | given (byte : UInt8)
  | asked
  deriving DecidableEq

namespace Happening

def keptByte? : Happening → Option UInt8
  | .completed byte true => some byte
  | _ => none

def givenByte? : Happening → Option UInt8
  | .given byte => some byte
  | _ => none

def isRefusedEdge : Happening → Bool
  | .captured _ kept => !kept
  | _ => false

def isRefusedByte : Happening → Bool
  | .completed _ kept => !kept
  | _ => false

end Happening

/-- The bytes that were completed and found room, in order. -/
def keptBytes (story : List Happening) : List UInt8 := story.filterMap Happening.keptByte?

/-- The bytes that were handed out, in order. -/
def givenBytes (story : List Happening) : List UInt8 := story.filterMap Happening.givenByte?

/-- What was refused, edges or bytes. -/
def refusals (story : List Happening) : Losses :=
  { edge := story.any Happening.isRefusedEdge, byte := story.any Happening.isRefusedByte }

/-- What was refused since losses were last asked for. -/
def lossesSince (story : List Happening) : Losses :=
  refusals (story.rtakeWhile (· != .asked))

/-- Puts completed bytes into a ring, one after the other. -/
def deposit (bytes : ByteRing) : List UInt8 → List Happening × ByteRing
  | [] => ([], bytes)
  | byte :: later =>
    let (kept, bytes) := bytes.push byte
    let (story, bytes) := deposit bytes later
    (.completed byte kept :: story, bytes)

/-- What a look at the time shows to the decoder. -/
def sights (intake : Intake) (now : Cycle) : List Sight :=
  intake.queue.toList.map .edge ++ [.look now]

/-- The bytes that a look completes. -/
def brought (intake : Intake) (now : Cycle) : List UInt8 :=
  completions (intake.decoder.hear (intake.sights now)).1

def act (intake : Intake) : Action → List Happening × Intake
  | .edge edge =>
    let (kept, queue) := intake.queue.push edge
    ([.captured edge kept], { intake with queue })
  | .look now =>
    let (story, bytes) := deposit intake.bytes (intake.brought now)
    (story,
      { intake with
        queue := intake.queue.takeLost.2.discard
        decoder := (intake.decoder.hear (intake.sights now)).2
        bytes
        losses :=
          { edge := intake.losses.edge || intake.queue.lost
            byte := intake.losses.byte || (refusals story).byte } })
  | .take =>
    let (byte, bytes) := intake.bytes.pop?
    (byte.toList.map .given, { intake with bytes })
  | .ask => ([.asked], { intake with queue := intake.queue.takeLost.2, losses := {} })
  | .rest now => ([], { intake with decoder := intake.decoder.reset now })
  | .listen => ([], { intake with listening := true })
  | .mute => ([], { intake with listening := false })
  | .pace bitPeriod => ([], { intake with decoder := intake.decoder.withPeriod bitPeriod })
  | .discard =>
    ([], { intake with queue := intake.queue.discard, bytes := intake.bytes.clear })

/-- Edges are queued only while the interrupt is armed, and it is disarmed only once the
queue has been decoded. -/
def Admits (intake : Intake) : Action → Prop
  | .edge _ => intake.listening = true
  | .mute => intake.queue.toList = []
  | _ => True

def run (intake : Intake) : List Action → List Happening × Intake
  | [] => ([], intake)
  | action :: actions =>
    let (first, intake) := intake.act action
    let (later, intake) := intake.run actions
    (first ++ later, intake)

/-- Every action is admitted when its turn comes. -/
def Legal (intake : Intake) : List Action → Prop
  | [] => True
  | action :: actions => intake.Admits action ∧ (intake.act action).2.Legal actions

/-- The bytes that wait to be taken. -/
def received (intake : Intake) : List UInt8 := intake.bytes.toList

/-- What a question for losses would be answered now. -/
def pending (intake : Intake) : Losses :=
  { intake.losses with edge := intake.losses.edge || intake.queue.lost }

theorem run_append (intake : Intake) (earlier later : List Action) :
    intake.run (earlier ++ later) =
      ((intake.run earlier).1 ++ ((intake.run earlier).2.run later).1,
        ((intake.run earlier).2.run later).2) := by
  induction earlier generalizing intake with
  | nil => rfl
  | cons action actions ih => simp only [List.cons_append, run, ih, List.append_assoc]

theorem run_singleton (intake : Intake) (action : Action) :
    intake.run [action] = intake.act action := by
  simp only [run, List.append_nil]

theorem legal_append {intake : Intake} {earlier later : List Action} :
    intake.Legal (earlier ++ later) ↔
      intake.Legal earlier ∧ (intake.run earlier).2.Legal later := by
  induction earlier generalizing intake with
  | nil => simp [Legal, run]
  | cons action actions ih => simp only [List.cons_append, Legal, run, ih, and_assoc]

/-- A run of edges only fills the queue. -/
theorem run_edges (intake : Intake) (edges : List Edge) :
    (intake.run (edges.map .edge)).2 = { intake with queue := intake.queue.pushAll edges } := by
  induction edges generalizing intake with
  | nil => rfl
  | cons edge edges ih =>
    simp only [List.map_cons, run, ih]
    rfl

variable {before : Intake} {actions : List Action}

@[simp] theorem keptBytes_append (earlier later : List Happening) :
    keptBytes (earlier ++ later) = keptBytes earlier ++ keptBytes later :=
  List.filterMap_append

@[simp] theorem givenBytes_append (earlier later : List Happening) :
    givenBytes (earlier ++ later) = givenBytes earlier ++ givenBytes later :=
  List.filterMap_append

/-- A deposit appends what it keeps, and hands nothing out. -/
theorem toList_deposit (bytes : ByteRing) (data : List UInt8) :
    (deposit bytes data).2.toList = bytes.toList ++ keptBytes (deposit bytes data).1 ∧
      givenBytes (deposit bytes data).1 = [] := by
  induction data generalizing bytes with
  | nil => exact ⟨(List.append_nil _).symm, rfl⟩
  | cons byte later ih =>
    obtain ⟨stored, none⟩ := ih (bytes.push byte).2
    refine ⟨?_, none⟩
    have pushed := bytes.toList_push byte
    have accepted := bytes.push_fst byte
    unfold deposit
    dsimp only
    rw [stored, pushed]
    split
    · rename_i room
      rw [accepted, decide_eq_true room, List.append_assoc]
      rfl
    · rename_i full
      rw [accepted, decide_eq_false full]
      rfl

theorem act_take (intake : Intake) :
    (intake.act .take).1 = intake.received.head?.toList.map .given :=
  congrArg (·.toList.map Happening.given) intake.bytes.pop?_fst

theorem received_take (intake : Intake) :
    (intake.act .take).2.received = intake.received.tail := intake.bytes.toList_pop

/-- Bytes come in at the end and go out at the front; nothing else happens to them, unless
they are discarded. -/
theorem received_act (intake : Intake) {action : Action} (keeps : action ≠ .discard) :
    intake.received ++ keptBytes (intake.act action).1 =
      givenBytes (intake.act action).1 ++ (intake.act action).2.received := by
  cases action with
  | look now =>
    obtain ⟨stored, none⟩ := toList_deposit intake.bytes (intake.brought now)
    simp only [act, none, List.nil_append]
    exact stored.symm
  | take =>
    rw [act_take, received_take]
    cases intake.received with
    | nil => rfl
    | cons byte later => exact List.append_nil _
  | discard => exact absurd rfl keeps
  | edge | ask | rest | listen | mute | pace =>
    simp only [act]
    exact List.append_nil _

/-- Over a run without a discard, what was there and what came in is what was handed out
and what is left, in order. -/
theorem received_run (keeps : .discard ∉ actions) :
    before.received ++ keptBytes (before.run actions).1 =
      givenBytes (before.run actions).1 ++ (before.run actions).2.received := by
  induction actions generalizing before with
  | nil => exact List.append_nil _
  | cons action actions ih =>
    rw [List.mem_cons, not_or] at keeps
    have first := before.received_act fun same => keeps.1 same.symm
    have later := @ih (before.act action).2 keeps.2
    unfold run
    dsimp only
    rw [keptBytes_append, givenBytes_append, ← List.append_assoc, first, List.append_assoc, later,
      List.append_assoc]

theorem capacity_deposit (bytes : ByteRing) (data : List UInt8) :
    (deposit bytes data).2.capacity = bytes.capacity := by
  induction data generalizing bytes with
  | nil => rfl
  | cons byte later ih => exact (ih _).trans (bytes.capacity_push byte)

theorem capacity_act (intake : Intake) (action : Action) :
    (intake.act action).2.bytes.capacity = intake.bytes.capacity := by
  cases action with
  | look now => exact capacity_deposit _ _
  | take => exact intake.bytes.capacity_pop
  | discard => exact intake.bytes.capacity_clear
  | edge | ask | rest | listen | mute | pace => rfl

theorem capacity_run (intake : Intake) (actions : List Action) :
    (intake.run actions).2.bytes.capacity = intake.bytes.capacity := by
  induction actions generalizing intake with
  | nil => rfl
  | cons action actions ih => exact (ih _).trans (intake.capacity_act action)

end Intake

def Losses.or (one other : Losses) : Losses :=
  { edge := one.edge || other.edge, byte := one.byte || other.byte }

namespace Intake

variable {before : Intake} {actions : List Action}

theorem refusals_append (earlier later : List Happening) :
    refusals (earlier ++ later) = (refusals earlier).or (refusals later) := by
  simp only [refusals, List.any_append, Losses.or]

theorem edge_refusals_deposit (bytes : ByteRing) (data : List UInt8) :
    (refusals (deposit bytes data).1).edge = false := by
  induction data generalizing bytes with
  | nil => rfl
  | cons byte later ih => exact ih _

theorem asked_notMem_deposit (bytes : ByteRing) (data : List UInt8) :
    .asked ∉ (deposit bytes data).1 := by
  induction data generalizing bytes with
  | nil => exact List.not_mem_nil
  | cons byte later ih =>
    intro member
    rcases List.mem_cons.mp member with same | further
    · cases same
    · exact ih _ further

/-- A question clears what is pending, and any other action adds what it refuses. -/
theorem pending_act (intake : Intake) (action : Action) :
    (action = .ask ∧ (intake.act action).1 = [.asked] ∧ (intake.act action).2.pending = {}) ∨
      .asked ∉ (intake.act action).1 ∧
        (intake.act action).2.pending = intake.pending.or (refusals (intake.act action).1) := by
  have unchanged : intake.pending = intake.pending.or (refusals []) := by
    simp [Losses.or, refusals]
  cases action with
  | ask => exact .inl ⟨rfl, rfl, rfl⟩
  | edge edge =>
    refine .inr ⟨by simp [act], ?_⟩
    have raised := intake.queue.lost_push edge
    simp only [act, pending, Losses.or, refusals, raised, List.any_cons, List.any_nil,
      Happening.isRefusedEdge, Happening.isRefusedByte, Bool.or_false, Bool.or_assoc]
  | look now =>
    refine .inr ⟨asked_notMem_deposit _ _, ?_⟩
    have none := edge_refusals_deposit intake.bytes (intake.brought now)
    simp only [act, pending, Losses.or, none, EdgeQueue.discard, EdgeQueue.takeLost,
      Bool.or_false]
  | take =>
    refine .inr ⟨?_, ?_⟩
    · rw [act_take]
      cases intake.received <;> simp
    · rw [act_take]
      cases intake.received <;> exact unchanged
  | rest | listen | mute | pace | discard => exact .inr ⟨List.not_mem_nil, unchanged⟩

theorem lossesSince_asked (story : List Happening) : lossesSince (story ++ [.asked]) = {} := by
  rw [lossesSince, List.rtakeWhile_concat_neg]
  · rfl
  · simp

theorem lossesSince_append {story later : List Happening} (silent : .asked ∉ later) :
    lossesSince (story ++ later) = (lossesSince story).or (refusals later) := by
  have kept : (story ++ later).rtakeWhile (· != .asked) =
      story.rtakeWhile (· != .asked) ++ later := by
    rw [List.rtakeWhile, List.reverse_append, List.takeWhile_append_of_pos, List.reverse_append,
      List.reverse_reverse]
    · rfl
    · intro happening member
      rw [bne_iff_ne]
      rintro rfl
      exact silent (List.mem_reverse.mp member)
  rw [lossesSince, kept, refusals_append]
  rfl

/-- What is pending is what was refused since the last question, if nothing was pending at
the start. -/
theorem pending_run (clear : before.pending = {}) (actions : List Action) :
    (before.run actions).2.pending = lossesSince (before.run actions).1 := by
  -- From the end, as it is the last question that counts.
  induction actions using List.reverseRecOn with
  | nil => exact clear
  | append_singleton actions action ih =>
    rw [run_append, run_singleton]
    dsimp only
    rcases pending_act (before.run actions).2 action with ⟨-, told, none⟩ | ⟨silent, added⟩
    · rw [told, none, lossesSince_asked]
    · rw [added, lossesSince_append silent, ih]

/-- An intake that does not listen has no edge queued. -/
def Hushed (intake : Intake) : Prop := intake.listening = false → intake.queue.toList = []

theorem Hushed.act {intake : Intake} (hushed : intake.Hushed) {action : Action}
    (admitted : intake.Admits action) : (intake.act action).2.Hushed := by
  cases action with
  | edge edge =>
    intro silent
    cases silent.symm.trans admitted
  | look now => exact fun _ => EdgeQueue.toList_discard _
  | discard => exact fun _ => EdgeQueue.toList_discard _
  | mute => exact fun _ => admitted
  | listen =>
    intro silent
    cases silent
  | take | ask | rest | pace => exact hushed

theorem Hushed.run {intake : Intake} (hushed : intake.Hushed) (legal : intake.Legal actions) :
    (intake.run actions).2.Hushed := by
  induction actions generalizing intake with
  | nil => exact hushed
  | cons action actions ih => exact ih (hushed.act legal.1) legal.2

end Intake
end PinUart
