import PinUart.Proofs.Trading

/-! Whom an interrupt calls. Slots are told apart by their numbers only, and a number is given out
again as soon as it is free; what was asked of the table so far, with the answers, tells at any
time whose the slot of a number is. -/
namespace PinUart

/-- What was asked of a machine, and what it answered. -/
abbrev Exchange := Machine.Operation × Answer

namespace Exchange

/-- A claim that was given the slot, or a release of it. -/
def Concerns (number : Nat) (exchange : Exchange) : Prop :=
  exchange.1 = .release number ∨ ∃ sink, exchange = (.claim sink, .count number)

/-- The slot was given to a claim for that sink, and no exchange has concerned it since. -/
def Holds (history : List Exchange) (number : Nat) (sink : Sink) : Prop :=
  ∃ earlier later, history = earlier ++ (.claim sink, .count number) :: later ∧
    ∀ exchange ∈ later, ¬ Concerns number exchange

/-- Nobody holds the slot. -/
def Unheld (history : List Exchange) (number : Nat) : Prop := ∀ sink, ¬ Holds history number sink

variable {history : List Exchange} {number : Nat} {sink : Sink}

theorem not_holds_nil : ¬ Holds [] number sink := by
  rintro ⟨earlier, later, whole, -⟩
  simp at whole

/-- The last exchange gives the slot away, or leaves it to its holder. -/
theorem holds_append (exchange : Exchange) :
    Holds (history ++ [exchange]) number sink ↔
      exchange = (.claim sink, .count number) ∨
        Holds history number sink ∧ ¬ Concerns number exchange := by
  constructor
  · rintro ⟨earlier, later, whole, quiet⟩
    cases later using List.reverseRecOn with
    | nil =>
      obtain ⟨-, same⟩ := List.append_inj' whole rfl
      exact .inl (List.singleton_inj.mp same)
    | append_singleton later last =>
      rw [← List.cons_append, ← List.append_assoc] at whole
      obtain ⟨before, same⟩ := List.append_inj' whole rfl
      rw [List.singleton_inj.mp same]
      refine .inr ⟨⟨earlier, later, before, fun exchange member => ?_⟩, ?_⟩
      · exact quiet exchange (List.mem_append_left _ member)
      · exact quiet last (List.mem_append_right _ (List.mem_singleton.mpr rfl))
  · rintro (rfl | ⟨⟨earlier, later, rfl, quiet⟩, spared⟩)
    · exact ⟨history, [], rfl, fun _ member => absurd member List.not_mem_nil⟩
    · refine ⟨earlier, later ++ [exchange], ?_, fun other member => ?_⟩
      · rw [List.append_assoc, List.cons_append]
      · rcases List.mem_append.mp member with before | last
        · exact quiet other before
        · rw [List.mem_singleton.mp last]
          exact spared

end Exchange

namespace Machine

/-- The sink that an interrupt of the slot calls, if it calls one. -/
def callee? (machine : Machine) (number : Nat) : Option Sink :=
  (slotIndex? number).bind machine.slots.sink?

def call (machine : Machine) : Option Sink → Machine
  | none => machine
  | some sink => machine.signal sink

/-- Carries operations out in order, and keeps each with its answer. -/
def converse (machine : Machine) : List Operation → List Exchange × Machine
  | [] => ([], machine)
  | operation :: operations =>
    let (answer, machine) := machine.perform operation
    let (later, machine) := machine.converse operations
    ((operation, answer) :: later, machine)

variable {machine after : Machine} {number : Nat}

theorem callee?_of_slots (same : after.slots = machine.slots) (number : Nat) :
    after.callee? number = machine.callee? number := by
  rw [callee?, same]
  rfl

theorem callee?_val (machine : Machine) (slot : SlotIndex) :
    machine.callee? slot.val = machine.slots.sink? slot := by
  rw [callee?, slotIndex?, dif_pos slot.isLt]
  rfl

theorem callee?_of_outside (outside : slotCount ≤ number) : machine.callee? number = none := by
  rw [callee?, slotIndex?, dif_neg (Nat.not_lt.mpr outside)]
  rfl

theorem lt_of_callee? {sink : Sink} (bound : machine.callee? number = some sink) :
    number < slotCount := by
  apply Nat.lt_of_not_le
  intro outside
  cases (callee?_of_outside outside).symm.trans bound

theorem isBound_val (machine : Machine) (slot : SlotIndex) :
    machine.slots.isBound slot = (machine.callee? slot.val).isSome := by
  rw [callee?_val]
  rfl

theorem perform_dispatch (machine : Machine) (number : Nat) :
    machine.perform (.dispatch number) = (.nothing, machine.call (machine.callee? number)) := by
  unfold perform callee?
  dsimp only
  cases slotIndex? number with
  | none => rfl
  | some slot =>
    dsimp only [dispatch, Option.bind_some]
    cases machine.slots.sink? slot <;> rfl

/-- The entry point of a slot calls whom its dispatch calls. -/
theorem perform_entry (machine : Machine) (number : Nat) :
    machine.perform (.entry number) =
      (.flag (decide (number < slotCount)), machine.call (machine.callee? number)) := by
  unfold perform callee? slotIndex?
  dsimp only
  by_cases inside : number < slotCount
  · rw [dif_pos inside, decide_eq_true inside]
    dsimp only [enter, dispatch, Option.bind_some]
    cases machine.slots.sink? ⟨number, inside⟩ <;> rfl
  · rw [dif_neg inside, decide_eq_false inside]
    rfl

theorem perform_isBound (machine : Machine) (number : Nat) :
    (machine.perform (.isBound number)).1 = .flag (machine.callee? number).isSome := by
  unfold perform callee?
  dsimp only
  cases slotIndex? number <;> rfl

/-- A claim is given the lowest slot that calls nobody, or is refused if there is none. -/
theorem perform_claim (machine : Machine) (sink : Sink) :
    (∃ slot : SlotIndex, machine.callee? slot.val = none ∧
        (∀ lower < slot.val, machine.callee? lower ≠ none) ∧
        (machine.perform (.claim sink)).1 = .count slot.val ∧
        ∀ number, (machine.perform (.claim sink)).2.callee? number =
          if number = slot.val then some sink else machine.callee? number) ∨
      (∀ number < slotCount, machine.callee? number ≠ none) ∧
        machine.perform (.claim sink) = (.failed (.noFreeSlot slotCount), machine) := by
  have called (slot : SlotIndex) :
      machine.slots.isBound slot = true ↔ machine.callee? slot.val ≠ none := by
    rw [isBound_val, Option.isSome_iff_ne_none]
  unfold perform
  dsimp only
  unfold claimAnswering claim
  cases found : machine.slots.free? with
  | none =>
    rw [Slots.claim?, found]
    refine .inr ⟨fun number inside => ?_, rfl⟩
    exact (called ⟨number, inside⟩).mp (Slots.free?_eq_none_iff.mp found _)
  | some slot =>
    obtain ⟨free, before⟩ := Slots.free?_eq_some found
    rw [Slots.claim?, found]
    refine .inl ⟨slot, ?_, fun lower less => ?_, rfl, fun number => ?_⟩
    · rw [isBound_val, Option.isSome_eq_false_iff, Option.isNone_iff_eq_none] at free
      exact free
    · exact (called ⟨lower, less.trans slot.isLt⟩).mp (before _ less)
    · change (slotIndex? number).bind (machine.slots.set slot (some sink)).sink? = _
      unfold callee? slotIndex?
      split
      · rename_i inside
        simp only [Option.bind_some, Slots.sink?_set, Fin.ext_iff, eq_comm (a := slot.val)]
      · rename_i outside
        have different : number ≠ slot.val := by
          rintro rfl
          exact outside slot.isLt
        exact (if_neg different).symm

theorem callee?_release (machine : Machine) (released number : Nat) :
    (machine.perform (.release released)).2.callee? number =
      if number = released then none else machine.callee? number := by
  unfold perform
  dsimp only
  by_cases inside : released < slotCount
  · have slots : (machine.release ⟨released, inside⟩).slots =
        machine.slots.release ⟨released, inside⟩ := by
      unfold release
      split
      · rfl
      · rename_i free
        exact (Slots.release_of_free (Bool.eq_false_iff.mpr free)).symm
    rw [slotIndex?, dif_pos inside]
    change (slotIndex? number).bind (machine.release ⟨released, inside⟩).slots.sink? = _
    rw [slots]
    unfold callee? slotIndex?
    split
    · simp only [Option.bind_some, Slots.release, Slots.sink?_set, Fin.ext_iff,
        eq_comm (a := released)]
    · exact (ite_self none).symm
  · rw [slotIndex?, dif_neg inside]
    dsimp only
    by_cases same : number = released
    · rw [if_pos same, same]
      exact callee?_of_outside (Nat.not_lt.mp inside)
    · exact (if_neg same).symm

/-- To release a slot that calls nobody changes nothing. -/
theorem perform_release_of_none (none : machine.callee? number = none) :
    machine.perform (.release number) = (.nothing, machine) := by
  unfold perform
  dsimp only
  cases found : slotIndex? number with
  | none => rfl
  | some slot =>
    have free : machine.slots.isBound slot = false := by
      rw [callee?, found, Option.bind_some] at none
      rw [Slots.isBound, none]
      rfl
    dsimp only
    rw [release, free]
    rfl

open Exchange

/-- Whom a slot calls is its holder by the history. -/
def Tracks (history : List Exchange) (machine : Machine) : Prop :=
  ∀ number sink, machine.callee? number = some sink ↔ Holds history number sink

variable {history : List Exchange}

theorem Tracks.unheld_iff (tracks : Tracks history machine) (number : Nat) :
    machine.callee? number = none ↔ Unheld history number := by
  rw [Option.eq_none_iff_forall_ne_some]
  exact forall_congr' fun sink => not_congr (tracks number sink)

theorem tracks_empty (empty : machine.slots = .empty) : Tracks [] machine := by
  intro number sink
  refine iff_of_false (fun bound => ?_) not_holds_nil
  unfold callee? at bound
  rw [empty] at bound
  obtain ⟨slot, -, held⟩ := Option.bind_eq_some_iff.mp bound
  cases (Slots.sink?_empty slot).symm.trans held

/-- An exchange that neither claims nor releases leaves every slot to its holder. -/
theorem Tracks.of_spared (tracks : Tracks history machine) {exchange : Exchange}
    (same : ∀ number, after.callee? number = machine.callee? number)
    (spared : ∀ number, ¬ Concerns number exchange) : Tracks (history ++ [exchange]) after := by
  intro number sink
  rw [same, tracks number sink, holds_append, and_iff_left (spared number)]
  refine (or_iff_right fun claimed => ?_).symm
  exact spared number (.inr ⟨sink, claimed⟩)

theorem Tracks.claim (tracks : Tracks history machine) (sink : Sink) :
    Tracks (history ++ [(.claim sink, (machine.perform (.claim sink)).1)])
      (machine.perform (.claim sink)).2 := by
  rcases machine.perform_claim sink with ⟨slot, -, -, given, called⟩ | ⟨-, refused⟩
  · intro number other
    rw [called, given, holds_append, ← tracks number other]
    by_cases same : number = slot.val
    · subst same
      have concerned : Concerns slot.val (.claim sink, .count slot.val) := .inr ⟨sink, rfl⟩
      simp [concerned]
    · have spared : ¬ Concerns number (.claim sink, .count slot.val) := by
        rintro (released | ⟨third, claimed⟩)
        · cases released
        · cases claimed
          exact same rfl
      rw [if_neg same, and_iff_left spared]
      refine (or_iff_right fun claimed => ?_).symm
      cases claimed
      exact same rfl
  · rw [refused]
    refine tracks.of_spared (fun _ => rfl) ?_
    rintro number (released | ⟨other, claimed⟩)
    · cases released
    · cases claimed

theorem Tracks.release (tracks : Tracks history machine) (released : Nat) (answer : Answer) :
    Tracks (history ++ [(.release released, answer)])
      (machine.perform (.release released)).2 := by
  intro number sink
  have concerned : Concerns number (.release released, answer) ↔ number = released := by
    constructor
    · rintro (freed | ⟨other, claimed⟩)
      · exact (Operation.release.inj freed).symm
      · cases claimed
    · rintro rfl
      exact .inl rfl
  rw [callee?_release, holds_append, ← tracks number sink, concerned]
  by_cases same : number = released <;> simp [same]

/-- Every operation hands slots on as its answer tells. -/
theorem Tracks.perform (tracks : Tracks history machine) (operation : Operation) :
    Tracks (history ++ [(operation, (machine.perform operation).1)])
      (machine.perform operation).2 := by
  -- Only claims and releases concern a slot.
  by_cases spares : operation.sparesSlots
  · refine tracks.of_spared (callee?_of_slots (machine.keeps_perform spares).slots) ?_
    rintro number (released | ⟨sink, claimed⟩)
    · cases released
      cases spares
    · cases (Prod.mk.inj claimed).1
      cases spares
  · cases operation with
    | claim sink => exact tracks.claim sink
    | release number => exact tracks.release number _
    | _ => exact absurd rfl spares

theorem Tracks.converse (tracks : Tracks history machine) (operations : List Operation) :
    Tracks (history ++ (machine.converse operations).1) (machine.converse operations).2 := by
  induction operations generalizing history machine with
  | nil =>
    rw [Machine.converse, List.append_nil]
    exact tracks
  | cons operation operations ih =>
    have later := ih (tracks.perform operation)
    rw [List.append_assoc] at later
    exact later

/-- What the slot table does after a history of exchanges. -/
structure Custody (history : List Exchange) (machine : Machine) : Prop where
  /-- A claim is given the lowest slot that nobody holds. -/
  given : ∀ sink number, (machine.perform (.claim sink)).1 = .count number ↔
    number < slotCount ∧ Unheld history number ∧ ∀ lower < number, ¬ Unheld history lower
  /-- It is refused exactly if all slots are held. -/
  refused : ∀ sink, (machine.perform (.claim sink)).1 = .failed (.noFreeSlot slotCount) ↔
    ∀ number < slotCount, ¬ Unheld history number
  unchanged : ∀ sink, (machine.perform (.claim sink)).1 = .failed (.noFreeSlot slotCount) →
    (machine.perform (.claim sink)).2 = machine
  /-- To release what nobody holds changes nothing. -/
  idle : ∀ number, Unheld history number →
    machine.perform (.release number) = (.nothing, machine)
  /-- An interrupt calls the holder of its slot, once. -/
  called : ∀ number sink, Holds history number sink →
    machine.perform (.dispatch number) = (.nothing, machine.signal sink) ∧
      machine.perform (.entry number) = (.flag true, machine.signal sink)
  /-- It calls nobody where there is no holder. -/
  uncalled : ∀ number, Unheld history number →
    machine.perform (.dispatch number) = (.nothing, machine) ∧
      machine.perform (.entry number) = (.flag (decide (number < slotCount)), machine)
  /-- Other slots go on calling whom they called. -/
  apart_claim : ∀ sink number other, (machine.perform (.claim sink)).1 = .count number →
    other ≠ number →
      (machine.perform (.claim sink)).2.callee? other = machine.callee? other
  apart_release : ∀ number other, other ≠ number →
    (machine.perform (.release number)).2.callee? other = machine.callee? other
  bound : ∀ number, (machine.perform (.isBound number)).1 = .flag true ↔
    ∃ sink, Holds history number sink
  /-- Free and bound slots make up the table. -/
  tally : ∃ free, (machine.perform .slotTally).1 = .slotTally free slotCount ∧
    free + (List.range slotCount).countP
      (fun number => (machine.perform (.isBound number)).1 = .flag true) = slotCount

theorem freeCount_add (machine : Machine) :
    machine.slots.freeCount + (List.range slotCount).countP
      (fun number => (machine.perform (.isBound number)).1 = .flag true) = slotCount := by
  have bound : (List.range slotCount).countP
      (fun number => (machine.perform (.isBound number)).1 = .flag true) =
        (List.finRange slotCount).countP machine.slots.isBound := by
    rw [← List.map_coe_finRange_eq_range, List.countP_map]
    refine List.countP_congr fun slot _ => ?_
    rw [Function.comp_apply, perform_isBound, decide_eq_true_iff, Answer.flag.injEq,
      isBound_val]
  have whole := List.length_eq_countP_add_countP machine.slots.isBound
    (l := List.finRange slotCount)
  rw [List.length_finRange] at whole
  rw [bound, Slots.freeCount, Nat.add_comm]
  simpa using whole.symm

theorem Tracks.custody (tracks : Tracks history machine) : Custody history machine := by
  have held (number : Nat) : machine.callee? number ≠ none ↔ ¬ Unheld history number :=
    not_congr (tracks.unheld_iff number)
  have grants (sink : Sink) := machine.perform_claim sink
  refine {
    given := fun sink number => ?_
    refused := fun sink => ?_
    unchanged := fun sink failed => ?_
    idle := fun number unheld => perform_release_of_none ((tracks.unheld_iff number).mpr unheld)
    called := fun number sink holds => ?_
    uncalled := fun number unheld => ?_
    apart_claim := fun sink number other given different => ?_
    apart_release := fun number other different => ?_
    bound := fun number => ?_
    tally := ⟨machine.slots.freeCount, rfl, machine.freeCount_add⟩ }
  · rcases grants sink with ⟨slot, free, before, given, -⟩ | ⟨full, refused⟩
    · rw [given, Answer.count.injEq]
      constructor
      · rintro rfl
        exact ⟨slot.isLt, (tracks.unheld_iff _).mp free, fun lower less =>
          (held lower).mp (before lower less)⟩
      · rintro ⟨-, unheld, lowest⟩
        rcases Nat.lt_trichotomy slot.val number with less | same | more
        · exact absurd ((tracks.unheld_iff _).mp free) (lowest _ less)
        · exact same
        · exact absurd ((tracks.unheld_iff _).mpr unheld) (before _ more)
    · rw [refused]
      refine iff_of_false (fun given => by cases given) ?_
      rintro ⟨inside, unheld, -⟩
      exact (held number).mp (full number inside) unheld
  · rcases grants sink with ⟨slot, free, -, given, -⟩ | ⟨full, refused⟩
    · rw [given]
      refine iff_of_false (fun refused => by cases refused) fun all => ?_
      exact all slot.val slot.isLt ((tracks.unheld_iff _).mp free)
    · rw [refused]
      exact iff_of_true rfl fun number inside => (held number).mp (full number inside)
  · rcases grants sink with ⟨slot, -, -, given, -⟩ | ⟨-, refused⟩
    · cases given.symm.trans failed
    · rw [refused]
  · have bound := (tracks number sink).mpr holds
    rw [perform_dispatch, perform_entry, bound, decide_eq_true (lt_of_callee? bound)]
    exact ⟨rfl, rfl⟩
  · rw [perform_dispatch, perform_entry, (tracks.unheld_iff number).mpr unheld]
    exact ⟨rfl, rfl⟩
  · rcases grants sink with ⟨slot, -, -, granted, called⟩ | ⟨-, refused⟩
    · cases granted.symm.trans given
      rw [called, if_neg different]
    · rw [refused] at given
      cases given
  · rw [callee?_release, if_neg different]
  · rw [perform_isBound, Answer.flag.injEq, Option.isSome_iff_exists]
    exact exists_congr (tracks number)

/-- From an empty table on, whatever is asked of the machine in whatever order, every slot is
where the history of claims and releases leaves it: claims are given the lowest slot that nobody
holds, and interrupts call the holder of their slot, or nobody. -/
theorem custody_converse {machine : Machine} (empty : machine.slots = .empty)
    (operations : List Operation) :
    Custody (machine.converse operations).1 (machine.converse operations).2 :=
  ((tracks_empty empty).converse operations).custody

/-- A slot is given back twice, given out anew and then called; numbers beyond the table are passed
over. -/
def reuse : List Operation :=
  [.claim (.probe 0), .claim (.probe 1), .release 0, .release 0, .release 12, .claim (.probe 2),
    .dispatch 0, .entry 1, .dispatch 5, .entry 10]

theorem custody_reuse :
    ({} : Machine).slots = .empty ∧
      Custody (({} : Machine).converse reuse).1 (({} : Machine).converse reuse).2 ∧
      (({} : Machine).converse reuse).1.map Prod.snd =
        [.count 0, .count 1, .nothing, .nothing, .nothing, .count 0, .nothing, .flag true,
          .nothing, .flag false] ∧
      (({} : Machine).converse reuse).2.events = #[.sink 2, .sink 1] :=
  ⟨rfl, custody_converse rfl reuse, by decide +kernel, by decide +kernel⟩

end Machine
end PinUart
