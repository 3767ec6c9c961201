import Mathlib.Data.List.Induction
import Mathlib.Data.List.Nodup
import Mathlib.Data.List.Pairwise
import PinUart.Proofs.Footprint
import PinUart.Proofs.Role

/-! The nets of a board. They part the pins, so that a pin is in one net only, and once in
it: an edge leaves one record on each pin of its net. Wiring joins nets, and whatever else
happens leaves them as they are. -/
namespace PinUart

namespace Board

/-- No pin is wired twice. -/
structure Parted (board : Board) : Prop where
  nodup : ∀ group ∈ board.nets, group.Nodup
  apart : board.nets.Pairwise List.Disjoint

variable {board : Board} {group other : List Pin} {pin one : Pin}

theorem mem_net (board : Board) (pin : Pin) : pin ∈ board.net pin := by
  unfold net
  cases found : board.nets.find? (·.contains pin) with
  | none => exact List.mem_singleton_self pin
  | some group =>
    have inside := List.find?_some found
    exact List.contains_iff_mem.mp inside

/-- The net of a pin is one of the groups, unless the pin is not wired. -/
theorem net_cases (board : Board) (pin : Pin) :
    board.net pin ∈ board.nets ∨ board.net pin = [pin] ∧ ∀ group ∈ board.nets, pin ∉ group := by
  unfold net
  cases found : board.nets.find? (·.contains pin) with
  | some group => exact .inl (List.mem_of_find?_eq_some found)
  | none =>
    refine .inr ⟨rfl, fun group member inside => ?_⟩
    exact List.find?_eq_none.mp found group member (List.contains_iff_mem.mpr inside)

theorem Parted.group_eq (parted : board.Parted) (member : group ∈ board.nets)
    (inside : pin ∈ group) (also : other ∈ board.nets) (within : pin ∈ other) : group = other := by
  have symmetric : Std.Symm (List.Disjoint : List Pin → List Pin → Prop) :=
    ⟨fun _ _ apart _ theirs mine => apart mine theirs⟩
  by_contra different
  exact parted.apart.forall member also different inside within

theorem Parted.net_of_mem (parted : board.Parted) (member : group ∈ board.nets)
    (inside : pin ∈ group) : board.net pin = group := by
  rcases board.net_cases pin with grouped | ⟨-, outside⟩
  · exact parted.group_eq grouped (board.mem_net pin) member inside
  · exact absurd inside (outside group member)

/-- The pins of a net share it. -/
theorem Parted.net_eq (parted : board.Parted) (inside : one ∈ board.net pin) :
    board.net one = board.net pin := by
  rcases board.net_cases pin with grouped | ⟨alone, -⟩
  · exact parted.net_of_mem grouped inside
  · rw [alone, List.mem_singleton] at inside
    rw [inside]

/-- A group that shares a pin with the net of another pin has that pin as well. -/
theorem Parted.mem_of_shared (parted : board.Parted) (member : group ∈ board.nets)
    (inside : pin ∈ group) (shared : pin ∈ board.net one) : one ∈ group := by
  rw [← parted.net_of_mem member inside, parted.net_eq shared]
  exact board.mem_net one

theorem Parted.nodup_net (parted : board.Parted) (pin : Pin) : (board.net pin).Nodup := by
  rcases board.net_cases pin with grouped | ⟨alone, -⟩
  · exact parted.nodup _ grouped
  · rw [alone]
    exact List.nodup_singleton pin

/-- The nets of two pins are put together; the groups that they were are gone. -/
theorem Parted.join (parted : board.Parted) (one other : Pin) : (board.join one other).Parted := by
  unfold Board.join
  dsimp only
  split
  · exact parted
  · rename_i without
    have foreign : other ∉ board.net one := fun inside =>
      without (List.contains_iff_mem.mpr inside)
    have joined : (board.net one ++ board.net other).Nodup := by
      refine (parted.nodup_net one).append (parted.nodup_net other) fun pin mine theirs => ?_
      rw [← parted.net_eq mine, parted.net_eq theirs] at foreign
      exact foreign (board.mem_net other)
    refine ⟨?_, List.pairwise_append.mpr ⟨parted.apart.filter _, List.pairwise_singleton _ _, ?_⟩⟩
    · intro group member
      rcases List.mem_append.mp member with kept | new
      · exact parted.nodup group (List.mem_filter.mp kept).1
      · rw [List.mem_singleton.mp new]
        exact joined
    · intro group kept new same pin inside within
      obtain ⟨member, outside⟩ := List.mem_filter.mp kept
      rw [List.mem_singleton.mp same] at within
      rcases List.mem_append.mp within with shared | shared
      · simp [parted.mem_of_shared member inside shared] at outside
      · simp [parted.mem_of_shared member inside shared] at outside

theorem Parted.of_nets {after : Board} (parted : board.Parted) (same : after.nets = board.nets) :
    after.Parted :=
  ⟨same ▸ parted.nodup, same ▸ parted.apart⟩

theorem parted_of_bare (bare : board.nets = []) : board.Parted := by
  constructor
  · rw [bare]
    exact fun _ member => absurd member List.not_mem_nil
  · rw [bare]
    exact .nil

/-- Whether or not a handler hears of it, an edge is recorded once on each pin of the net. -/
theorem transitions_noteEdge (board : Board) (level : Bool) {pins : List Pin}
    (distinct : pins.Nodup) (pin : Pin) :
    (board.noteEdge level pins).1.transitions pin =
      board.transitions pin ++ if pin ∈ pins then [⟨board.clock, level⟩] else [] := by
  induction pins generalizing board with
  | nil => exact (List.append_nil _).symm
  | cons first pins ih =>
    have noted : (board.notePin first level).1.clock = board.clock ∧
        (board.notePin first level).1.history =
          board.history.modify first (·.push ⟨board.clock, level⟩) := by
      unfold notePin
      dsimp only
      repeat' split
      all_goals exact ⟨rfl, rfl⟩
    obtain ⟨outside, distinct⟩ := List.nodup_cons.mp distinct
    have later := ih (board.notePin first level).1 distinct
    rw [noted.1] at later
    refine later.trans ?_
    unfold transitions
    rw [noted.2, PinMap.get_modify]
    by_cases same : first = pin
    · subst same
      simp [outside]
    · simp [same, Ne.symm same]

/-- Setting up a pin leaves a record on the pins of its net exactly if it changes their level. -/
theorem transitions_setUp (parted : board.Parted) (pin : Pin) (act : PinState → PinState)
    (one : Pin) :
    let after := { board with pins := board.pins.modify pin act }.netLevel (board.net pin)
    (board.setUp pin act).1.transitions one = board.transitions one ++
      if one ∈ board.net pin ∧ board.level pin ≠ after then [⟨board.clock, after⟩] else [] := by
  intro after
  have net : Board.net { board with pins := board.pins.modify pin act } pin = board.net pin := rfl
  unfold setUp change
  dsimp only
  rw [net]
  by_cases changes : board.level pin = after
  · rw [if_neg (by rintro (⟨differ, -⟩ | differ); exacts [differ rfl, differ changes])]
    simp [changes]
    rfl
  · rw [if_pos (.inr changes), transitions_noteEdge _ _ (parted.nodup_net pin)]
    simp [changes]
    rfl

end Board

namespace Machine

variable (machine : Machine)

/-- Of the board a handler changes no more than the clock, which it reads. -/
theorem board_enter (handler : Handler) :
    ∃ clock, (machine.enter handler).board = { machine.board with clock } := by
  cases handler with
  | probe index => exact ⟨_, rfl⟩
  | entry slot =>
    unfold enter dispatch
    dsimp only
    cases machine.slots.sink? slot with
    | none => exact ⟨_, rfl⟩
    | some sink =>
      cases sink with
      | probe index => exact ⟨_, rfl⟩
      | capture index =>
        dsimp only [signal]
        unfold captureEdge
        split
        · exact ⟨_, rfl⟩
        · exact ⟨_, rfl⟩

theorem board_settle (result : Board × List Handler) :
    ∃ clock, (machine.settle result).board = { result.1 with clock } := by
  obtain ⟨board, handlers⟩ := result
  unfold settle
  dsimp only
  induction handlers using List.reverseRecOn with
  | nil => exact ⟨_, rfl⟩
  | append_singleton handlers handler ih =>
    obtain ⟨clock, ran⟩ := ih
    rw [List.foldl_append]
    generalize handlers.foldl enter { machine with board } = between at ran ⊢
    obtain ⟨later, entered⟩ := between.board_enter handler
    exact ⟨later, entered.trans (by rw [ran])⟩

theorem transitions_settle (result : Board × List Handler) (pin : Pin) :
    (machine.settle result).board.transitions pin = result.1.transitions pin := by
  obtain ⟨clock, same⟩ := machine.board_settle result
  rw [same]
  rfl

theorem fixture_setUp (pin : Pin) (act : PinState → PinState) :
    (machine.settle (machine.board.setUp pin act)).rig.fixture = machine.rig.fixture := by
  rw [rig_setUp, Rig.fixture_modify]

theorem fixture_forceHolds (pin : Pin) (holds : List Hold) :
    (machine.forceHolds pin holds).rig.fixture = machine.rig.fixture := by
  unfold forceHolds
  induction holds generalizing machine with
  | nil => rfl
  | cons hold holds ih => exact (ih _).trans (machine.fixture_setUp pin _)

theorem fixture_attachAnswering (pin : Pin) (handler : Handler) :
    (machine.attachAnswering pin handler).2.rig.fixture = machine.rig.fixture := by
  have attached := machine.fixture_attach pin handler
  unfold attachAnswering
  split <;> rename_i same <;> rw [same] at attached <;> exact attached

/-- Nothing but wiring changes the nets. -/
theorem fixture_perform {operation : Operation}
    (unwired : ∀ one other, operation ≠ .connect one other) :
    (machine.perform operation).2.rig.fixture = machine.rig.fixture := by
  cases operation with
  | connect one other => exact absurd rfl (unwired one other)
  | inject pin | setDirection pin | setPull pin | setOutput pin =>
    exact machine.fixture_setUp pin _
  | forceMessage pin => exact machine.fixture_forceHolds pin _
  | unmask => exact congrArg Rig.fixture machine.rig_unmask
  | attach pin handler => exact machine.fixture_attachAnswering pin handler
  | claim sink =>
    obtain ⟨slots, claimed⟩ := machine.rig_claimAnswering sink
    exact (congrArg Rig.fixture claimed).trans rfl
  | attachSlot pin slot =>
    unfold perform
    dsimp only
    split
    · rfl
    · exact machine.fixture_attachAnswering pin _
  | release slot =>
    unfold perform
    dsimp only
    split
    · rfl
    · rename_i slot _
      obtain ⟨slots, released⟩ := machine.rig_release slot
      exact (congrArg Rig.fixture released).trans rfl
  | dispatch slot | entry slot =>
    unfold perform
    dsimp only
    split
    · rfl
    · exact congrArg Rig.fixture (machine.rig_enter (.entry _))
  | _ => rfl

end Machine

namespace World

variable {world : World}

/-- Operations that wire pins. -/
def Operation.wires : Operation → Bool
  | .machine (.connect ..) => true
  | _ => false

theorem fixture_perform (world : World) {operation : Operation}
    (unwired : operation.wires = false) :
    (world.perform operation).2.machine.rig.fixture = world.machine.rig.fixture := by
  cases operation with
  | machine operation =>
    refine world.machine.fixture_perform ?_
    rintro one other rfl
    cases unwired
  | openPort config =>
    obtain ⟨log, captures, made⟩ := Port.create_shape world.machine config
    unfold perform openPort
    dsimp only
    rw [made]
    rfl
  | closePort index =>
    unfold perform closePort
    dsimp only
    split
    · rfl
    · rename_i port _
      exact (port.works_stop world.machine).fixture
  | port index operation =>
    unfold perform performPort
    dsimp only
    split
    · rfl
    · rename_i port _
      exact (port.serves_perform world.machine operation).fixture
  | openTap pin capacity =>
    unfold perform openTap
    dsimp only
    split <;> rfl
  | tap index operation =>
    unfold perform performTap
    dsimp only
    split
    · rfl
    · obtain ⟨slots, performed⟩ := world.machine.rig_performTap _ operation
      exact (congrArg Rig.fixture performed).trans rfl
  | send index pin data =>
    unfold perform
    dsimp only
    split
    · rfl
    · rename_i transmitter _
      exact transmitter.fixture_send world.machine pin data
  | transmitterReport | plan =>
    unfold perform
    dsimp only
    split <;> rfl
  | addTransmitter | setInterruptible | setBitPeriod => rfl

/-- An operation wires two pins, or it leaves the fixture as it is. -/
theorem fixture_cases (world : World) (operation : Operation) :
    (world.perform operation).2.machine.rig.fixture = world.machine.rig.fixture ∨
      ∃ one other, (world.perform operation).2.machine.rig.fixture =
        { world.machine.rig.fixture with nets := (world.machine.board.join one other).nets } := by
  cases wires : operation.wires with
  | false => exact .inl (world.fixture_perform wires)
  | true =>
    unfold Operation.wires at wires
    split at wires
    · rename_i one other
      exact .inr ⟨one, other, congrArg Rig.fixture (world.machine.rig_connect one other)⟩
    · cases wires

/-- What one operation preserves. -/
theorem parted_perform (parted : world.machine.board.Parted) (operation : Operation) :
    (world.perform operation).2.machine.board.Parted := by
  rcases world.fixture_cases operation with same | ⟨one, other, joined⟩
  · exact parted.of_nets (congrArg Fixture.nets same)
  · exact (parted.join one other).of_nets (congrArg Fixture.nets joined)

/-- What a whole run preserves. -/
theorem parted_run (parted : world.machine.board.Parted) (operations : List Operation) :
    (world.run operations).2.machine.board.Parted := by
  induction operations generalizing world with
  | nil => exact parted
  | cons operation operations ih => exact ih (parted_perform parted operation)

/-- The rate that ports are told is stated once and for all. -/
theorem statedRate_run (world : World) (operations : List Operation) :
    (world.run operations).2.machine.statedRate = world.machine.statedRate := by
  induction operations generalizing world with
  | nil => rfl
  | cons operation operations ih =>
    refine (ih _).trans ?_
    rcases world.fixture_cases operation with same | ⟨one, other, joined⟩
    · exact congrArg Fixture.statedRate same
    · exact congrArg Fixture.statedRate joined

end World
end PinUart
