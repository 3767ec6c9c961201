import PinUart.Proofs.Course

/-! What becomes of the bytes that a port receives, from a start on. An account of a run
tells, operation by operation, what came in, what found no room and what was handed out. -/
namespace PinUart

namespace Intake

variable {intake : Intake} {actions : List Action}

theorem givenBytes_act {action : Action} (keeps : action ≠ .take) :
    givenBytes (intake.act action).1 = [] := by
  cases action with
  | look now => exact (toList_deposit _ _).2
  | take => exact absurd rfl keeps
  | edge | ask | rest | listen | mute | pace | discard => rfl

/-- Only taking hands bytes out. -/
theorem givenBytes_run (keeps : .take ∉ actions) : givenBytes (intake.run actions).1 = [] := by
  induction actions generalizing intake with
  | nil => rfl
  | cons action actions ih =>
    rw [List.mem_cons, not_or] at keeps
    unfold run
    dsimp only
    rw [givenBytes_append, givenBytes_act fun same => keeps.1 same.symm, ih keeps.2]
    rfl

/-- After some looks, taking hands out the first byte. -/
theorem givenBytes_taken (looks : List Cycle) :
    givenBytes (intake.run (looks.map .look ++ [.take])).1 =
      (intake.run (looks.map .look)).2.received.head?.toList := by
  rw [run_append, givenBytes_append, givenBytes_run (by simp), run_singleton, act_take]
  cases (intake.run (looks.map .look)).2.received <;> rfl

/-- Nothing is queued, buffered or lost. -/
structure Blank (intake : Intake) : Prop where
  queue : intake.queue.toList = []
  received : intake.received = []
  pending : intake.pending = {}

/-- Actions that drop nothing, and take one byte after some looks, if `reads` is so, or else
none. -/
def Takes (reads : Prop) (actions : List Action) : Prop :=
  .discard ∉ actions ∧
    ((reads ∧ ∃ looks : List Cycle, actions = looks.map .look ++ [.take]) ∨
      ¬ reads ∧ .take ∉ actions)

theorem Mild.takes {reads : Prop} (mild : Mild actions) (never : ¬ reads) :
    Takes reads actions := by
  refine ⟨fun member => ?_, .inr ⟨never, fun member => ?_⟩⟩
  · cases mild _ member
  · cases mild _ member

end Intake

namespace Port

/-- Operations that neither start or stop a port, nor hand out or drop more than one byte. -/
def Operation.leavesReceived : Operation → Bool
  | .start _ | .stop | .drain | .flush => false
  | _ => true

/-- Of these only a read takes a byte. -/
theorem Operation.takes_of_fits {operation : Operation} {mode : LineMode}
    {actions : List Intake.Action} (stays : operation.leavesReceived)
    (fits : operation.Fits mode actions) : Intake.Takes (operation = .read) actions := by
  cases operation with
  | start | stop | drain | flush => cases stays
  | read =>
    obtain ⟨looks, rfl⟩ := fits
    exact ⟨by simp, .inl ⟨rfl, looks, rfl⟩⟩
  | turnLine | setListening => exact Intake.Mild.takes fits nofun
  | write => exact fits.1.takes nofun
  | useEnablePin => exact (Intake.OnlyEdges.mild fits).takes nofun
  | peek | available | serve | setSpeed =>
    obtain ⟨choice, rfl⟩ := fits
    simp [Intake.Takes]
  | anyLost | takeLosses | setCallback | setInterruptible | report | describe =>
    rw [fits]
    simp [Intake.Takes]

end Port

namespace World

open Intake

variable {world : World} {operation : Operation} {operations : List Operation} {index : Nat}
  {port : Port}

theorem Operation.takes_of_fits {mode : LineMode} {actions : List Action}
    (stays : operation.keepsTo index Port.Operation.leavesReceived)
    (fits : operation.Fits index mode actions) :
    Takes (operation = .port index .read) actions := by
  cases operation with
  | port other own =>
    unfold Fits at fits
    dsimp only at fits
    split at fits
    · rename_i same
      subst same
      rw [show (Operation.port other own = .port other .read) = (own = .read) by simp]
      exact Port.Operation.takes_of_fits (allowed_of_keepsTo stays) fits
    · rename_i different
      exact (OnlyEdges.mild fits).takes fun same => different (Operation.port.inj same).1
  | _ => exact (OnlyEdges.mild fits).takes nofun

/-- What an operation does to the intake of a port, as a story. Each operation acts in its
own way, and what a read hands out is what it answers. -/
def Tells (world : World) (index : Nat) (operation : Operation) (story : List Happening) : Prop :=
  ∃ port before actions, world.port? index = some port ∧
    port.intake? world.machine = some before ∧ before.Legal actions ∧
    operation.Fits index port.mode actions ∧
    (world.perform operation).2.intake? index = some (before.run actions).2 ∧
    story = (before.run actions).1 ∧
    (operation = .port index .read →
      (world.perform operation).1 = .found ((givenBytes story).head?.map UInt8.toNat))

/-- What has happened to a port since its buffers were emptied by a start. -/
def Opens (world : World) (index : Nat) (story : List Happening) : Prop :=
  ∃ (blank : Intake) (actions : List Action), blank.Blank ∧ Mild actions ∧
    blank.Legal actions ∧ world.intake? index = some (blank.run actions).2 ∧
    story = (blank.run actions).1

/-- An account of a run: what has happened to the intake of a port since its start. -/
inductive Recounts (begun : World) (index : Nat) : List Operation → List Happening → Prop
  | opening {story : List Happening} (opens : begun.Opens index story) :
      Recounts begun index [] story
  | next {operations : List Operation} {operation : Operation} {earlier later : List Happening}
      (told : Recounts begun index operations earlier)
      (tells : (begun.run operations).2.Tells index operation later) :
      Recounts begun index (operations ++ [operation]) (earlier ++ later)

/-- The byte that a port has answered to a read. -/
def readByte? (index : Nat) : Operation × Answer → Option Nat
  | (.port other .read, .found (some byte)) => if other = index then some byte else none
  | _ => none

/-- The bytes that were read from a port in a run. -/
def bytesRead (index : Nat) (operations : List Operation) (answers : List Answer) : List Nat :=
  (operations.zip answers).filterMap (readByte? index)

theorem length_answers (world : World) (operations : List Operation) :
    (world.run operations).1.length = operations.length := by
  induction operations generalizing world with
  | nil => rfl
  | cons operation operations ih => exact congrArg (· + 1) (ih _)

theorem bytesRead_append_singleton (world : World) (index : Nat) (operations : List Operation)
    (operation : Operation) :
    bytesRead index (operations ++ [operation]) (world.run (operations ++ [operation])).1 =
      bytesRead index operations (world.run operations).1 ++
        (readByte? index (operation, ((world.run operations).2.perform operation).1)).toList := by
  unfold bytesRead
  rw [run_append, List.zip_append (world.length_answers operations).symm, List.filterMap_append]
  rfl

theorem readByte?_read (found : Option Nat) :
    readByte? index (.port index .read, .found found) = found := by
  cases found with
  | none => rfl
  | some byte => exact if_pos rfl

theorem readByte?_of_ne {answer : Answer} (different : operation ≠ .port index .read) :
    readByte? index (operation, answer) = none := by
  unfold readByte?
  split
  · rename_i other byte same
    obtain ⟨rfl, rfl⟩ := Prod.mk.inj same
    exact if_neg fun own => different (by rw [own])
  · rfl

/-- The read bytes of an account are those that were answered. -/
theorem Tells.given {story : List Happening} (tells : world.Tells index operation story)
    (stays : operation.keepsTo index Port.Operation.leavesReceived) :
    (givenBytes story).map UInt8.toNat =
      (readByte? index (operation, (world.perform operation).1)).toList := by
  obtain ⟨port, before, actions, -, -, -, fits, -, rfl, answered⟩ := tells
  obtain ⟨-, ⟨rfl, looks, rfl⟩ | ⟨different, left⟩⟩ := Operation.takes_of_fits stays fits
  · rw [answered rfl, givenBytes_taken, readByte?_read]
    cases (before.run (looks.map .look)).2.received.head? <;> rfl
  · rw [readByte?_of_ne different, givenBytes_run left]
    rfl

/-- What an account says came from an empty intake. -/
theorem Recounts.traced {story : List Happening} (told : world.Recounts index operations story)
    (allowed : ∀ operation ∈ operations,
      operation.keepsTo index Port.Operation.leavesReceived) :
    ∃ (blank : Intake) (actions : List Action), blank.Blank ∧ .discard ∉ actions ∧
      (world.run operations).2.intake? index = some (blank.run actions).2 ∧
      story = (blank.run actions).1 ∧
      (givenBytes story).map UInt8.toNat = bytesRead index operations (world.run operations).1 := by
  induction told with
  | opening opens =>
    obtain ⟨blank, actions, empty, mild, -, found, rfl⟩ := opens
    refine ⟨blank, actions, empty, fun member => ?_, found, rfl, ?_⟩
    · cases mild _ member
    · rw [givenBytes_run fun member => ?_]
      · rfl
      · cases mild _ member
  | @next operations operation earlier later told tells ih =>
    obtain ⟨blank, actions, empty, kept, found, rfl, given⟩ :=
      ih fun other member => allowed other (List.mem_append_left _ member)
    have stays := allowed operation (by simp)
    have answered := tells.given stays
    obtain ⟨port, before, more, live, known, -, fits, after, rfl, -⟩ := tells
    cases found.symm.trans ((intake?_of_live live).trans known)
    refine ⟨blank, actions ++ more, empty, ?_, ?_, ?_, ?_⟩
    · rw [List.mem_append, not_or]
      exact ⟨kept, (Operation.takes_of_fits stays fits).1⟩
    · rw [World.run_append, Intake.run_append]
      exact after
    · rw [Intake.run_append]
    · rw [bytesRead_append_singleton, givenBytes_append, List.map_append, given, answered]

/-- There is a story to tell of every operation. -/
theorem Sound.exists_tells (sound : world.Sound)
    (stays : operation.keepsTo index Port.Operation.leavesReceived) {before : Intake}
    (found : world.intake? index = some before) :
    ∃ story, world.Tells index operation story := by
  obtain ⟨port, live, known⟩ := intake?_eq_some.mp found
  by_cases reads : operation = .port index .read
  · subst reads
    obtain ⟨looks, tends, answered⟩ := port.tends_read world.machine
    obtain ⟨there, machine⟩ := perform_port live .read
    refine ⟨_, port, before, looks.map .look ++ [.take], live, known, ?_, ?_, ?_, rfl, ?_⟩
    · refine legal_of_free ?_
      simp only [List.forall_mem_append, List.forall_mem_map, List.forall_mem_singleton]
      exact ⟨fun _ _ => rfl, rfl⟩
    · unfold Operation.Fits
      exact (if_pos rfl).mpr ⟨looks, rfl⟩
    · rw [intake?_of_live there, machine]
      exact tends.intake before known
    · intro _
      rw [answer_port live, givenBytes_taken, Option.head?_toList, ← answered before known]
      rfl
  · obtain ⟨after, actions, there, fits, legal, acts⟩ := perform_fits sound
      (Operation.sparesReception_of_keepsTo stays) (Operation.ne_closePort stays) live known
    exact ⟨_, port, before, actions, live, known, legal, fits,
      (intake?_of_live there).trans acts, rfl, fun same => absurd same reads⟩

/-- A start that succeeds empties the buffers of a port. -/
theorem Sound.exists_opens {baud : UInt32} {begun : World} (sound : world.Sound)
    (live : world.port? index = some port) (receives : port.reception.isSome)
    (begins : world.perform (.port index (.start baud)) = (.done, begun)) :
    ∃ story, begun.Opens index story := by
  have mine := sound.ports index port live
  obtain ⟨before, known⟩ := Port.exists_intake mine (by
    rw [show port.stake.capture = port.reception.map (·.capture) from rfl, Option.isSome_map]
    exact receives)
  obtain ⟨-, actions, renews, acts⟩ := port.does_start world.machine baud mine
  obtain ⟨legal, acted⟩ := acts before known
  have done : (port.start world.machine baud).1 = .ok () := by
    have answered := answer_port live (.start baud)
    rw [begins] at answered
    change Answer.done = Answer.ofResult (port.start world.machine baud).1 at answered
    cases result : (port.start world.machine baud).1 with
    | ok => rfl
    | error failure =>
      rw [result] at answered
      cases answered
  obtain ⟨earlier, later, rfl, mild⟩ := renews done
  -- What happened before the buffers were emptied has left no trace in them.
  have split : earlier ++ .discard :: .ask :: later = (earlier ++ [.discard, .ask]) ++ later := by
    simp
  rw [split] at legal acted
  rw [Intake.run_append] at acted
  refine ⟨_, (before.run (earlier ++ [.discard, .ask])).2, later, ?_, mild,
    (legal_append.mp legal).2, ?_, rfl⟩
  · rw [Intake.run_append]
    exact ⟨EdgeQueue.toList_discard _, Ring.toList_clear _, rfl⟩
  · obtain ⟨there, machine⟩ := perform_port live (.start baud)
    rw [begins] at there machine
    rw [intake?_of_live there, machine]
    exact acted

/-- There is an account of every run. -/
theorem Sound.exists_recounts (sound : world.Sound) {opening : List Happening}
    (opens : world.Opens index opening)
    (allowed : ∀ operation ∈ operations,
      operation.keepsTo index Port.Operation.leavesReceived) :
    ∃ story, world.Recounts index operations story := by
  induction operations using List.reverseRecOn with
  | nil => exact ⟨opening, .opening opens⟩
  | append_singleton operations operation ih =>
    have before := fun other member => allowed other (List.mem_append_left [operation] member)
    obtain ⟨earlier, told⟩ := ih before
    obtain ⟨blank, actions, -, -, found, -⟩ := told.traced before
    have reached : (world.run operations).2.Sound := sound.run fun other member =>
      Operation.sparesInterrupts_of_reception
        (Operation.sparesReception_of_keepsTo (before other member))
    obtain ⟨later, tells⟩ := reached.exists_tells (allowed operation (by simp)) found
    exact ⟨_, .next told tells⟩

/-- With bytes to read, a read answers the first. -/
theorem answer_read {intake : Intake} (found : world.intake? index = some intake)
    (filled : 0 < intake.received.length) :
    ∃ byte, (world.perform (.port index .read)).1 = .found (some byte) := by
  obtain ⟨port, live, known⟩ := intake?_eq_some.mp found
  obtain ⟨looks, -, answered⟩ := port.tends_read world.machine
  have grown := @received_run intake (looks.map .look) (by simp)
  rw [givenBytes_run (by simp), List.nil_append] at grown
  obtain ⟨byte, later, same⟩ := List.exists_cons_of_length_pos filled
  refine ⟨byte.toNat, ?_⟩
  rw [answer_port live]
  change Answer.found ((port.read world.machine).1.map UInt8.toNat) = _
  rw [answered intake known, ← grown, same]
  rfl

/-- Questions for losses are answered by what is pending. -/
theorem answer_takeLosses {intake : Intake} (found : world.intake? index = some intake) :
    (world.perform (.port index .takeLosses)).1 = .losses intake.pending ∧
      (world.perform (.port index .anyLost)).1 = .flag intake.pending.any := by
  obtain ⟨port, live, known⟩ := intake?_eq_some.mp found
  have answered := (port.tends_takeLosses world.machine).2 intake known
  rw [answer_port live, answer_port live, ← answered]
  exact ⟨rfl, rfl⟩

/-- Right after a question for losses nothing is pending. -/
theorem answer_asked {intake : Intake} (found : world.intake? index = some intake)
    {own : Port.Operation} (asks : own = .anyLost ∨ own = .takeLosses) :
    ((world.perform (.port index own)).2.perform (.port index .takeLosses)).1 = .losses {} ∧
      ((world.perform (.port index own)).2.perform (.port index .anyLost)).1 = .flag false := by
  obtain ⟨port, live, known⟩ := intake?_eq_some.mp found
  have asked := (port.tends_takeLosses world.machine).1.intake intake known
  obtain ⟨there, machine⟩ := perform_port live own
  have same : (port.perform world.machine own).2 = (port.takeLosses world.machine).2 := by
    rcases asks with rfl | rfl <;> rfl
  rw [same] at there machine
  exact answer_takeLosses ((intake?_of_live there).trans (machine ▸ asked))

/-- Bytes become fewer only by reading, one at a time. -/
theorem Sound.length_perform (sound : world.Sound)
    (stays : operation.keepsTo index Port.Operation.leavesReceived) {before : Intake}
    (found : world.intake? index = some before) :
    ∃ after, (world.perform operation).2.intake? index = some after ∧
      before.received.length ≤
        after.received.length + if operation = .port index .read then 1 else 0 := by
  obtain ⟨story, port, intake, actions, live, known, -, fits, acts, -⟩ :=
    sound.exists_tells stays found
  cases found.symm.trans ((intake?_of_live live).trans known)
  refine ⟨_, acts, ?_⟩
  obtain ⟨kept, taking⟩ := Operation.takes_of_fits stays fits
  have balance := congrArg List.length (@received_run before actions kept)
  rw [List.length_append, List.length_append] at balance
  rcases taking with ⟨reads, looks, rfl⟩ | ⟨different, left⟩
  · rw [givenBytes_taken] at balance
    have one : ∀ found : Option UInt8, found.toList.length ≤ 1 := by
      intro found
      cases found <;> simp
    have := one (before.run (looks.map .look)).2.received.head?
    rw [if_pos reads]
    omega
  · rw [givenBytes_run left, List.length_nil] at balance
    omega

theorem Sound.length_run (sound : world.Sound)
    (allowed : ∀ operation ∈ operations,
      operation.keepsTo index Port.Operation.leavesReceived) {before : Intake}
    (found : world.intake? index = some before) :
    ∃ after, (world.run operations).2.intake? index = some after ∧
      before.received.length ≤
        after.received.length + operations.count (.port index .read) := by
  induction operations generalizing world before with
  | nil => exact ⟨before, found, Nat.le_refl _⟩
  | cons operation operations ih =>
    have stays := allowed operation (by simp)
    have next := (sound.perform (Operation.sparesInterrupts_of_reception
      (Operation.sparesReception_of_keepsTo stays))).1
    obtain ⟨halfway, there, first⟩ := sound.length_perform stays found
    obtain ⟨after, last, later⟩ := ih next
      (fun other member => allowed other (List.mem_cons_of_mem _ member)) there
    refine ⟨after, last, ?_⟩
    rw [List.count_cons]
    simp only [beq_iff_eq]
    omega

end World

namespace Port

theorem available_fst (port : Port) (machine : Machine) :
    (port.available machine).1 = (port.available machine).2.1.buffered := by
  unfold available
  split
  · rename_i without
    rw [Option.isNone_iff_eq_none] at without
    unfold buffered
    rw [without]
  · dsimp only
    split
    · rfl
    · rfl

end Port

namespace World

open Intake

variable {world : World} {operations : List Operation} {index : Nat} {port : Port}

theorem answer_available {intake : Intake} (found : world.intake? index = some intake) :
    ∃ after, (world.perform (.port index .available)).2.intake? index = some after ∧
      (world.perform (.port index .available)).1 = .count after.received.length := by
  obtain ⟨port, live, known⟩ := intake?_eq_some.mp found
  obtain ⟨looks, tends⟩ := port.tends_available world.machine
  obtain ⟨there, machine⟩ := perform_port live .available
  have acted := tends.intake intake known
  refine ⟨_, (intake?_of_live there).trans (machine ▸ acted), ?_⟩
  rw [answer_port live]
  change Answer.count (port.available world.machine).1 = _
  rw [port.available_fst, Port.buffered_eq, Port.received_of_intake acted]

theorem Attended.byteCapacity_perform (attended : world.Attended)
    (live : world.port? index = some port) (stays : operation ≠ .closePort index) :
    ∃ after, (world.perform operation).2.port? index = some after ∧
      after.config.byteCapacity = port.config.byteCapacity := by
  obtain ⟨after, there, rfl | ⟨own, -, rfl⟩⟩ := perform_live stays live
  · exact ⟨after, there, rfl⟩
  · exact ⟨_, there, (attended.orderly index port live).byteCapacity_perform world.machine own⟩

theorem Attended.byteCapacity_run (attended : world.Attended)
    (live : world.port? index = some port) {allowed : Port.Operation → Bool}
    (keep : ∀ operation ∈ operations, operation.keepsTo index allowed) :
    ∃ after, (world.run operations).2.port? index = some after ∧
      after.config.byteCapacity = port.config.byteCapacity := by
  induction operations generalizing world port with
  | nil => exact ⟨port, live, rfl⟩
  | cons operation operations ih =>
    have stays := keep operation (by simp)
    have next := attended.perform (Operation.sparesReception_of_keepsTo stays)
    obtain ⟨other, there, same⟩ :=
      attended.byteCapacity_perform live (Operation.ne_closePort stays)
    obtain ⟨after, last, kept⟩ := ih next there
      fun other member => keep other (List.mem_cons_of_mem _ member)
    exact ⟨after, last, kept.trans same⟩

/-- One slot of the byte ring stays free. -/
theorem Attended.length_le (attended : world.Attended) (live : world.port? index = some port)
    {intake : Intake} (found : world.intake? index = some intake) :
    intake.received.length ≤ max port.config.byteCapacity.toNat 2 - 1 := by
  rw [intake?_of_live live] at found
  rw [← (attended.intakes index port intake live found).2]
  have := intake.bytes.size_lt
  have := intake.bytes.length_toList
  unfold Intake.received
  omega

/-- What is available fits into the ring, and as many reads are answered by a byte, whatever
else happens in between. -/
theorem Attended.available_reads (attended : world.Attended)
    (live : world.port? index = some port) {intake : Intake}
    (found : world.intake? index = some intake) :
    ∃ count, (world.perform (.port index .available)).1 = .count count ∧
      count ≤ max port.config.byteCapacity.toNat 2 - 1 ∧
      ∀ later : List Operation,
        (∀ operation ∈ later, operation.keepsTo index Port.Operation.leavesReceived) →
        later.count (.port index .read) < count →
        ∃ byte, (((world.perform (.port index .available)).2.run later).2.perform
          (.port index .read)).1 = .found (some byte) := by
  obtain ⟨after, counted, answered⟩ := answer_available found
  have next : (world.perform (.port index .available)).2.Attended := attended.perform rfl
  obtain ⟨other, there, size⟩ := attended.byteCapacity_perform live
    (nofun : Operation.port index .available ≠ .closePort index)
  refine ⟨_, answered, ?_, ?_⟩
  · rw [← size]
    exact next.length_le there counted
  · intro later allowed few
    obtain ⟨last, reached, left⟩ := next.sound.length_run allowed counted
    exact answer_read reached (by omega)

/-- What can be relied on if `story` is told of a port that has answered the bytes `read`:
what came in and found room is what was read and what is buffered, in order, and a question
for losses is answered by what has found no room since the last question. -/
structure Balanced (world : World) (index : Nat) (read : List Nat) (story : List Happening) :
    Prop where
  bytes : (keptBytes story).map UInt8.toNat = read ++ (world.received index).map UInt8.toNat
  losses : (world.perform (.port index .takeLosses)).1 = .losses (lossesSince story)
  lost : (world.perform (.port index .anyLost)).1 = .flag (lossesSince story).any

theorem Recounts.balanced {story : List Happening} (told : world.Recounts index operations story)
    (allowed : ∀ operation ∈ operations,
      operation.keepsTo index Port.Operation.leavesReceived) :
    (world.run operations).2.Balanced index
      (bytesRead index operations (world.run operations).1) story := by
  obtain ⟨blank, actions, empty, kept, found, rfl, given⟩ := told.traced allowed
  have balance := @received_run blank actions kept
  rw [empty.received, List.nil_append] at balance
  have pending := pending_run empty.pending actions
  refine ⟨?_, ?_, ?_⟩
  · rw [balance, List.map_append, given, received_of_intake found]
  · rw [(answer_takeLosses found).1, pending]
  · rw [(answer_takeLosses found).2, pending]

/-- From a start on nothing that a port receives is lost in silence, doubled or put out of
order. There is an account of every run, and every account balances. A question for losses
right after another is answered by none. What is available is less than the ring has slots,
and as many reads are answered by a byte. -/
theorem start_accounts {earlier : List Operation} {baud : UInt32} {begun : World}
    (fresh : world.Fresh) (spare : ∀ operation ∈ earlier, operation.sparesReception)
    (live : (world.run earlier).2.port? index = some port) (receives : port.reception.isSome)
    (begins : (world.run earlier).2.perform (.port index (.start baud)) = (.done, begun))
    (allowed : ∀ operation ∈ operations,
      operation.keepsTo index Port.Operation.leavesReceived) :
    let reached := (begun.run operations).2
    (∃ story, begun.Recounts index operations story) ∧
      (∀ story, begun.Recounts index operations story →
        reached.Balanced index (bytesRead index operations (begun.run operations).1) story) ∧
      (∀ own : Port.Operation, own = .anyLost ∨ own = .takeLosses →
        ((reached.perform (.port index own)).2.perform (.port index .takeLosses)).1 =
            .losses {} ∧
          ((reached.perform (.port index own)).2.perform (.port index .anyLost)).1 =
            .flag false) ∧
      ∃ count, (reached.perform (.port index .available)).1 = .count count ∧
        count ≤ max port.config.byteCapacity.toNat 2 - 1 ∧
        ∀ later : List Operation,
          (∀ operation ∈ later, operation.keepsTo index Port.Operation.leavesReceived) →
          later.count (.port index .read) < count →
          ∃ byte, (((reached.perform (.port index .available)).2.run later).2.perform
            (.port index .read)).1 = .found (some byte) := by
  have before := fresh.attended.run spare
  have started : ((world.run earlier).2.perform (.port index (.start baud))).2.Attended :=
    before.perform rfl
  obtain ⟨starter, there, size⟩ := before.byteCapacity_perform live
    (nofun : Operation.port index (.start baud) ≠ .closePort index)
  rw [begins] at started there
  obtain ⟨opening, opens⟩ := before.sound.exists_opens live receives begins
  obtain ⟨story, told⟩ := started.sound.exists_recounts opens allowed
  obtain ⟨blank, actions, -, -, found, -⟩ := told.traced allowed
  obtain ⟨current, here, same⟩ := started.byteCapacity_run there allowed
  have attended := started.run fun operation member =>
    Operation.sparesReception_of_keepsTo (allowed operation member)
  refine ⟨⟨story, told⟩, fun story told => told.balanced allowed,
    fun own asks => answer_asked found asks, ?_⟩
  rw [← size, ← same]
  exact attended.available_reads here found

/-- A receiver with room for a single byte. -/
def narrow : List Operation := [.openPort { rxPin := some 5, byteCapacity := 2 }]

/-- Three bytes come in before the first is read. -/
def overrun : List Operation :=
  [.machine (.forceMessage 5 [65, 66, 67] 8333 false), .port 0 .peek, .port 0 .read]

/-- The first byte is kept and read, the others find no room, which is told. -/
theorem overrun_accounts :
    ∃ port begun story, (run {} narrow).2.port? 0 = some port ∧ port.reception.isSome ∧
      (run {} narrow).2.perform (.port 0 (.start 9600)) = (.done, begun) ∧
      begun.Recounts 0 overrun story ∧ (keptBytes story).map UInt8.toNat = [65] ∧
      lossesSince story = { byte := true } := by
  have made : ((run {} narrow).2.port? 0).map (·.reception.isSome) = some true := by
    decide +kernel
  have answered : ((run {} narrow).2.perform (.port 0 (.start 9600))).1 = .done := by
    decide +kernel
  have read : bytesRead 0 overrun
      ((((run {} narrow).2.perform (.port 0 (.start 9600))).2).run overrun).1 = [65] := by
    decide +kernel
  have left : ((((run {} narrow).2.perform (.port 0 (.start 9600))).2).run overrun).2.received 0 =
      [] := by
    decide +kernel
  have lost : (((((run {} narrow).2.perform (.port 0 (.start 9600))).2).run overrun).2.perform
      (.port 0 .takeLosses)).1 = .losses { byte := true } := by
    decide +kernel
  obtain ⟨port, live, receives⟩ := Option.map_eq_some_iff.mp made
  have begins : (run {} narrow).2.perform (.port 0 (.start 9600)) =
      (.done, ((run {} narrow).2.perform (.port 0 (.start 9600))).2) := Prod.ext answered rfl
  obtain ⟨⟨story, told⟩, balanced, -⟩ :=
    start_accounts fresh_empty (by decide) live receives begins (by decide : ∀ operation ∈ overrun,
      operation.keepsTo 0 Port.Operation.leavesReceived)
  obtain ⟨bytes, losses, -⟩ := balanced story told
  rw [read, left] at bytes
  exact ⟨port, _, story, live, receives, begins, told, bytes,
    Answer.losses.inj (losses.symm.trans lost)⟩

end World
end PinUart
