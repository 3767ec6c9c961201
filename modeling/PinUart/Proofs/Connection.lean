import Mathlib.Data.Finset.Dedup
import Mathlib.Logic.Relation
import PinUart.Proofs.Joining

/-! What wires connect. Two pins are in one net exactly if a way along wires leads from the one to
the other, in whatever order and however often the wires were laid, and whatever else was done
meanwhile. -/
namespace PinUart

namespace Board

/-- A way along wires leads from one pin to the other. -/
def Connected (wires : List (Pin × Pin)) : Pin → Pin → Prop :=
  Relation.EqvGen fun one other => (one, other) ∈ wires

/-- The groups of wired pins, in whatever order they are kept. -/
def partition (board : Board) : Finset (Finset Pin) := (board.nets.map List.toFinset).toFinset

/-- The nets of a board are what wires connect. -/
structure Follows (board : Board) (wires : List (Pin × Pin)) : Prop where
  parted : board.Parted
  /-- No group is kept for one pin alone. -/
  shared : ∀ group ∈ board.nets, ∃ one ∈ group, ∃ other ∈ group, one ≠ other
  mem_net_iff : ∀ one other, other ∈ board.net one ↔ Connected wires one other

variable {board again : Board} {wires more : List (Pin × Pin)} {one other first second : Pin}

theorem Connected.of_subset (kept : wires ⊆ more) (connected : Connected wires one other) :
    Connected more one other :=
  Relation.EqvGen.mono (fun _ _ laid => kept laid) _ _ connected

/-- Wires connect no more than any relation like equality that holds of their ends. -/
theorem Connected.of_equivalence (connected : Connected wires one other)
    (alike : Pin → Pin → Prop) (equivalence : Equivalence alike)
    (ends : ∀ wire ∈ wires, alike wire.1 wire.2) : alike one other :=
  equivalence.eqvGen_iff.mp (Relation.EqvGen.mono (fun _ _ laid => ends _ laid) _ _ connected)

theorem Parted.mem_net_iff (parted : board.Parted) :
    other ∈ board.net one ↔ board.net one = board.net other := by
  constructor
  · intro inside
    exact (parted.net_eq inside).symm
  · intro same
    rw [same]
    exact board.mem_net other

/-- Wiring leads from the one pin to the other. -/
theorem Parted.mem_net_join (parted : board.Parted) (one other : Pin) :
    other ∈ (board.join one other).net one := by
  rcases parted.join_cases one other with ⟨inside, same⟩ | ⟨-, joined, -⟩
  · rw [same]
    exact inside
  · rw [joined]
    exact List.mem_append_right _ (board.mem_net other)

/-- Wiring parts no pins. -/
theorem Parted.net_join_eq (parted : board.Parted) (together : board.net one = board.net other)
    (first second : Pin) :
    (board.join first second).net one = (board.join first second).net other := by
  rcases parted.join_cases first second with ⟨-, same⟩ | ⟨-, joined, others⟩
  · rw [same]
    exact together
  · have either : one ∈ board.net first ++ board.net second ↔
        other ∈ board.net first ++ board.net second := by
      rw [List.mem_append, List.mem_append, parted.mem_net_iff, parted.mem_net_iff,
        parted.mem_net_iff, parted.mem_net_iff, together]
    by_cases inside : one ∈ board.net first ++ board.net second
    · have after := parted.join first second
      rw [← joined] at inside either
      rw [after.net_eq inside, after.net_eq (either.mp inside)]
    · rw [others one inside, others other fun within => inside (either.mpr within), together]

/-- Whoever comes into the net of a pin by wiring is connected with it. -/
theorem Follows.connected_join (follows : board.Follows wires)
    (inside : second ∈ (board.join one other).net first) :
    Connected (wires ++ [(one, other)]) first second := by
  have earlier {first second : Pin} (within : second ∈ board.net first) :
      Connected (wires ++ [(one, other)]) first second :=
    ((follows.mem_net_iff first second).mp within).of_subset (List.subset_append_left _ _)
  rcases follows.parted.join_cases one other with ⟨-, same⟩ | ⟨-, joined, others⟩
  · rw [same] at inside
    exact earlier inside
  · have wire : Connected (wires ++ [(one, other)]) one other := .rel _ _ (by simp)
    have reached {pin : Pin} (within : pin ∈ board.net one ++ board.net other) :
        Connected (wires ++ [(one, other)]) one pin := by
      rcases List.mem_append.mp within with near | far
      · exact earlier near
      · exact wire.trans _ _ _ (earlier far)
    by_cases within : first ∈ board.net one ++ board.net other
    · rw [(follows.parted.join one other).net_eq (joined ▸ within), joined] at inside
      exact ((reached within).symm _ _).trans _ _ _ (reached inside)
    · rw [others first within] at inside
      exact earlier inside

theorem Follows.shared_join (follows : board.Follows wires) (one other : Pin) :
    ∀ group ∈ (board.join one other).nets, ∃ first ∈ group, ∃ second ∈ group, first ≠ second := by
  unfold Board.join
  dsimp only
  split
  · exact follows.shared
  · rename_i apart
    intro group member
    rcases List.mem_append.mp member with kept | new
    · exact follows.shared group (List.mem_filter.mp kept).1
    · rw [List.mem_singleton.mp new]
      refine ⟨one, List.mem_append_left _ (board.mem_net one), other,
        List.mem_append_right _ (board.mem_net other), ?_⟩
      rintro rfl
      exact apart (List.contains_iff_mem.mpr (board.mem_net one))

/-- What one wire preserves. -/
theorem Follows.join (follows : board.Follows wires) (one other : Pin) :
    (board.join one other).Follows (wires ++ [(one, other)]) := by
  have parted := follows.parted
  have joined := parted.join one other
  refine ⟨joined, follows.shared_join one other,
    fun first second => ⟨follows.connected_join, fun connected => ?_⟩⟩
  rw [joined.mem_net_iff]
  -- Sharing a net is an equivalence, so that only the ends of wires are to be looked at.
  refine connected.of_equivalence
    (fun first second => (board.join one other).net first = (board.join one other).net second)
    ⟨fun _ => rfl, Eq.symm, Eq.trans⟩ fun wire laid => ?_
  rcases List.mem_append.mp laid with old | new
  · refine parted.net_join_eq (parted.mem_net_iff.mp ?_) one other
    exact (follows.mem_net_iff _ _).mpr (.rel _ _ old)
  · rw [List.mem_singleton.mp new]
    exact joined.mem_net_iff.mp (parted.mem_net_join one other)

theorem Follows.of_nets {after : Board} (follows : board.Follows wires)
    (same : after.nets = board.nets) : after.Follows wires := by
  refine ⟨follows.parted.of_nets same, same ▸ follows.shared, fun one other => ?_⟩
  have net : after.net one = board.net one := by
    rw [net, same]
    rfl
  rw [net]
  exact follows.mem_net_iff one other

theorem follows_of_bare (bare : board.nets = []) : board.Follows [] := by
  refine ⟨parted_of_bare bare, ?_, fun one other => ?_⟩
  · rw [bare]
    exact fun _ member => absurd member List.not_mem_nil
  · have alone : board.net one = [one] := by
      rw [net, bare]
      rfl
    rw [alone, List.mem_singleton]
    constructor
    · rintro rfl
      exact .refl _
    · intro connected
      exact (connected.of_equivalence Eq eq_equivalence
        fun _ laid => absurd laid List.not_mem_nil).symm

/-- A group of wired pins is all that is connected with a pin that is not alone. -/
theorem Follows.mem_partition_iff (follows : board.Follows wires) {pins : Finset Pin} :
    pins ∈ board.partition ↔ ∃ one other, one ≠ other ∧ Connected wires one other ∧
      ∀ pin, pin ∈ pins ↔ Connected wires one pin := by
  unfold partition
  rw [List.mem_toFinset, List.mem_map]
  constructor
  · rintro ⟨group, member, rfl⟩
    obtain ⟨one, inside, other, also, different⟩ := follows.shared group member
    have net := follows.parted.net_of_mem member inside
    refine ⟨one, other, different, (follows.mem_net_iff one other).mp (net ▸ also), fun pin => ?_⟩
    rw [List.mem_toFinset, ← net]
    exact follows.mem_net_iff one pin
  · rintro ⟨one, other, different, connected, all⟩
    have inside := (follows.mem_net_iff one other).mpr connected
    rcases board.net_cases one with grouped | ⟨alone, -⟩
    · refine ⟨board.net one, grouped, Finset.ext fun pin => ?_⟩
      rw [List.mem_toFinset, all]
      exact follows.mem_net_iff one pin
    · rw [alone] at inside
      exact absurd (List.mem_singleton.mp inside).symm different

/-- The same wires part the pins alike. -/
theorem Follows.partition_eq (follows : board.Follows wires) (also : again.Follows more)
    (same : ∀ one other, Connected more one other ↔ Connected wires one other) :
    again.partition = board.partition ∧ ∀ pin, (again.net pin).Perm (board.net pin) := by
  constructor
  · refine Finset.ext fun pins => ?_
    rw [also.mem_partition_iff, follows.mem_partition_iff]
    simp only [same]
  · intro pin
    refine (List.perm_ext_iff_of_nodup (also.parted.nodup_net pin)
      (follows.parted.nodup_net pin)).mpr fun other => ?_
    rw [also.mem_net_iff, follows.mem_net_iff, same]

end Board

namespace World

/-- The wire that an operation lays. -/
def Operation.wire? : Operation → Option (Pin × Pin)
  | .machine (.connect one other) => some (one, other)
  | _ => none

/-- The wires that are laid in a run. -/
def wiring (operations : List Operation) : List (Pin × Pin) :=
  operations.filterMap Operation.wire?

theorem wiring_cons (operation : Operation) (operations : List Operation) :
    wiring (operation :: operations) = operation.wire?.toList ++ wiring operations := by
  unfold wiring
  cases laid : operation.wire? with
  | none => rw [List.filterMap_cons_none laid, Option.toList_none, List.nil_append]
  | some wire => rw [List.filterMap_cons_some laid, Option.toList_some, List.singleton_append]

variable {world : World} {wires : List (Pin × Pin)}

/-- What one operation preserves. -/
theorem follows_perform (follows : world.machine.board.Follows wires) (operation : Operation) :
    (world.perform operation).2.machine.board.Follows (wires ++ operation.wire?.toList) := by
  cases laid : operation.wire? with
  | none =>
    have unwired : operation.wires = false := by
      unfold Operation.wires
      split
      · cases laid
      · rfl
    rw [Option.toList_none, List.append_nil]
    exact follows.of_nets (congrArg Fixture.nets (world.fixture_perform unwired))
  | some wire =>
    unfold Operation.wire? at laid
    split at laid
    · rename_i one other
      cases laid
      have wired := congrArg Rig.fixture (world.machine.rig_connect one other)
      exact (follows.join one other).of_nets (congrArg Fixture.nets wired)
    · cases laid

/-- What a whole run preserves. -/
theorem follows_run (follows : world.machine.board.Follows wires) (operations : List Operation) :
    (world.run operations).2.machine.board.Follows (wires ++ wiring operations) := by
  induction operations generalizing world wires with
  | nil =>
    rw [wiring, List.filterMap_nil, List.append_nil]
    exact follows
  | cons operation operations ih =>
    rw [wiring_cons, ← List.append_assoc]
    exact ih (follows_perform follows operation)

/-- The nets part the pins by what wires connect. In whatever state a run leaves a board that was
not wired, no pin is in two groups or twice in one; two pins share a net exactly if the wires that
were laid lead from the one to the other, and then they share a level. The same wires in another
run, in whatever order and however often, make the same nets. -/
theorem run_connects {world : World} (bare : world.machine.board.nets = [])
    (operations : List Operation) :
    let board := (world.run operations).2.machine.board
    (board.nets.Pairwise List.Disjoint ∧ ∀ group ∈ board.nets, group.Nodup) ∧
      (∀ one other, other ∈ board.net one ↔ Board.Connected (wiring operations) one other) ∧
      (∀ one other, other ∈ board.net one → board.level other = board.level one) ∧
      ∀ (fresh : World) (others : List Operation), fresh.machine.board.nets = [] →
        (∀ wire, wire ∈ wiring others ↔ wire ∈ wiring operations) →
        let again := (fresh.run others).2.machine.board
        again.partition = board.partition ∧ ∀ pin, (again.net pin).Perm (board.net pin) := by
  intro board
  have follows : board.Follows (wiring operations) :=
    follows_run (Board.follows_of_bare bare) operations
  refine ⟨⟨follows.parted.apart, follows.parted.nodup⟩, follows.mem_net_iff, ?_, ?_⟩
  · intro one other inside
    exact congrArg board.netLevel (follows.parted.net_eq inside)
  · intro fresh others unwired same again
    have also : again.Follows (wiring others) :=
      follows_run (Board.follows_of_bare unwired) others
    refine follows.partition_eq also fun one other => ⟨fun connected => ?_, fun connected => ?_⟩
    · exact connected.of_subset fun wire => (same wire).mp
    · exact connected.of_subset fun wire => (same wire).mpr

/-- Four pins in a row, one of the wires laid twice over, a pin wired to itself, and a level that
is forced in between. -/
def tangled : List Operation :=
  [.machine (.connect 7 3), .machine (.inject 7 (some true)), .machine (.connect 2 5),
    .machine (.connect 3 7), .machine (.connect 4 4), .machine (.connect 5 3)]

/-- The same wires from the one end to the other. -/
def straight : List Operation :=
  [.machine (.connect 2 5), .machine (.connect 5 3), .machine (.connect 3 7),
    .machine (.connect 7 3), .machine (.connect 4 4)]

/-- The ends of the row share the level that was forced, however the wires were laid. -/
theorem tangled_connects :
    let board := (run {} tangled).2.machine.board
    let again := (run {} straight).2.machine.board
    7 ∈ board.net 2 ∧ board.level 2 = true ∧ again.nets ≠ board.nets ∧
      again.partition = board.partition ∧ (again.net 2).Perm (board.net 2) := by
  intro board again
  obtain ⟨-, connects, level, alike⟩ := @run_connects {} rfl tangled
  have wire {one other : Pin} (laid : (one, other) ∈ wiring tangled) :
      Board.Connected (wiring tangled) one other := .rel _ _ laid
  have two : (2, 5) ∈ wiring tangled := by decide
  have five : (5, 3) ∈ wiring tangled := by decide
  have three : (3, 7) ∈ wiring tangled := by decide
  have inside : 7 ∈ board.net 2 :=
    (connects 2 7).mpr ((wire two).trans _ _ _ ((wire five).trans _ _ _ (wire three)))
  have forced : board.level 7 = true := by decide +kernel
  have same : (wiring straight).Perm (wiring tangled) := by decide
  obtain ⟨partition, nets⟩ := alike {} straight rfl fun _ => same.mem_iff
  exact ⟨inside, (level 2 7 inside).symm.trans forced, by decide +kernel, partition, nets 2⟩

end World
end PinUart
