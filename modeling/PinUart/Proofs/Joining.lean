import PinUart.Proofs.Deeds
import PinUart.Proofs.Reporting

/-! Wiring of nets that are in use. From the first change of a net on, its level is on record under
its lowest pin, and stays right whatever is done to the board. A joined net is compared with the
level that the one side had, and with what is on record under the lowest pin of both; these agree
where only the other side moves, if that pin belongs to the side that stays. -/
namespace PinUart

namespace Board

/-- The lowest pin of a net stands for it. -/
theorem keyPin_eq {net : List Pin} {key : Pin} (inside : key ∈ net)
    (least : ∀ pin ∈ net, key ≤ pin) : keyPin net = key := by
  unfold keyPin
  rw [List.min?_eq_some_iff.mpr ⟨inside, least⟩]
  rfl

theorem keyPin_le {net : List Pin} {pin : Pin} (inside : pin ∈ net) : keyPin net ≤ pin := by
  unfold keyPin
  cases least : net.min? with
  | none =>
    rw [List.min?_eq_none_iff.mp least] at inside
    cases inside
  | some key => exact (List.min?_eq_some_iff.mp least).2 pin inside

/-- A joined net goes by the lower one of two pins. -/
theorem keyPin_append {left right : List Pin} (filled : left ≠ []) (also : right ≠ [])
    (apart : left.Disjoint right) :
    keyPin left < keyPin right ∧ keyPin (left ++ right) = keyPin left ∨
      keyPin right < keyPin left ∧ keyPin (left ++ right) = keyPin right := by
  have different : keyPin left ≠ keyPin right := fun same =>
    apart (keyPin_mem filled) (same ▸ keyPin_mem also)
  rcases Std.le_total (a := keyPin left) (b := keyPin right) with below | above
  · refine .inl ⟨Std.lt_of_le_of_ne below different, keyPin_eq ?_ fun pin member => ?_⟩
    · exact List.mem_append_left _ (keyPin_mem filled)
    · rcases List.mem_append.mp member with mine | theirs
      · exact keyPin_le mine
      · exact Std.le_trans below (keyPin_le theirs)
  · refine .inr ⟨Std.lt_of_le_of_ne above different.symm, keyPin_eq ?_ fun pin member => ?_⟩
    · exact List.mem_append_right _ (keyPin_mem also)
    · rcases List.mem_append.mp member with mine | theirs
      · exact Std.le_trans above (keyPin_le mine)
      · exact keyPin_le theirs

variable {board : Board}

/-- What wiring does to the nets. -/
theorem Parted.join_cases (parted : board.Parted) (one other : Pin) :
    other ∈ board.net one ∧ board.join one other = board ∨
      other ∉ board.net one ∧
        (board.join one other).net one = board.net one ++ board.net other ∧
        ∀ pin ∉ board.net one ++ board.net other,
          (board.join one other).net pin = board.net pin := by
  have joined := parted.join one other
  by_cases inside : other ∈ board.net one
  · refine .inl ⟨inside, ?_⟩
    unfold Board.join
    exact if_pos (List.contains_iff_mem.mpr inside)
  · have nets : (board.join one other).nets =
        (board.nets.filter fun group => !group.contains one && !group.contains other) ++
          [board.net one ++ board.net other] := by
      unfold Board.join
      dsimp only
      rw [if_neg fun within => inside (List.contains_iff_mem.mp within)]
    have last : board.net one ++ board.net other ∈ (board.join one other).nets := by
      rw [nets]
      exact List.mem_append_right _ (List.mem_singleton_self _)
    refine .inr ⟨inside, ?_, fun pin foreign => ?_⟩
    · exact joined.net_of_mem last (List.mem_append_left _ (board.mem_net one))
    rcases board.net_cases pin with grouped | ⟨alone, bare⟩
    · refine joined.net_of_mem ?_ (board.mem_net pin)
      rw [nets]
      refine List.mem_append_left _ (List.mem_filter.mpr ⟨grouped, ?_⟩)
      have without (stranger : Pin) (mine : ∀ pin ∈ board.net stranger,
          pin ∈ board.net one ++ board.net other) : stranger ∉ board.net pin := fun within =>
        foreign (mine pin (parted.net_eq within ▸ board.mem_net pin))
      simp [without one fun _ => List.mem_append_left _,
        without other fun _ => List.mem_append_right _]
    · rcases (board.join one other).net_cases pin with grouped | ⟨alone', -⟩
      · have within := (board.join one other).mem_net pin
        rw [nets] at grouped
        rcases List.mem_append.mp grouped with kept | new
        · exact absurd within (bare _ (List.mem_filter.mp kept).1)
        · rw [List.mem_singleton.mp new] at within
          exact absurd within foreign
      · rw [alone', alone]

/-- Wiring does not reach the pins of other nets. -/
theorem Parted.foreign_join (parted : board.Parted) {one other pin : Pin}
    (foreign : pin ∉ (board.join one other).net one) :
    (board.join one other).net pin = board.net pin ∧
      (board.join one other).level pin = board.level pin := by
  have net : (board.join one other).net pin = board.net pin := by
    rcases parted.join_cases one other with ⟨-, same⟩ | ⟨-, joined, others⟩
    · rw [same]
    · exact others pin (joined ▸ foreign)
  refine ⟨net, ?_⟩
  unfold level
  rw [net, join_shape]
  rfl

/-- What is on record of a net is its level; a net without a record is low. -/
structure Booked (board : Board) : Prop where
  parted : board.Parted
  level : ∀ pin, (board.levels.get (keyPin (board.net pin))).getD false = board.level pin

theorem Booked.level_of_recorded (booked : board.Booked) {pin : Pin} {high : Bool}
    (known : board.levels.get (keyPin (board.net pin)) = some high) : board.level pin = high := by
  have level := booked.level pin
  rw [known] at level
  exact level.symm

theorem Booked.recorded (booked : board.Booked) {pin : Pin}
    (known : (board.levels.get (keyPin (board.net pin))).isSome) :
    board.levels.get (keyPin (board.net pin)) = some (board.level pin) := by
  obtain ⟨high, known⟩ := Option.isSome_iff_exists.mp known
  rw [known, booked.level_of_recorded known]

theorem booked_fresh (timebase : Timebase) (clock : Cycle) (usable : Option (List Pin)) :
    Booked { timebase, clock, usable } := by
  refine ⟨parted_of_bare rfl, fun pin => ?_⟩
  simp [level, netLevel, net, PinState.drives?]

/-- What changes one net, and no other, leaves right records. -/
theorem Booked.change {act : Board → Board} {pin : Pin} (booked : board.Booked)
    (parted : (act board).Parted) (levels : (act board).levels = board.levels)
    (foreign : ∀ one ∉ (act board).net pin,
      (act board).net one = board.net one ∧ (act board).level one = board.level one) :
    (board.change pin act).1.Booked := by
  have level := board.level_change pin parted
  obtain ⟨history, pending, same⟩ := board.change_recorded pin act
  rw [same] at level ⊢
  refine ⟨parted.of_nets rfl, fun one => ?_⟩
  rw [level one]
  change Option.getD (PinMap.get (PinMap.set _ _ _) (keyPin ((act board).net one))) false = _
  split
  · rename_i inside
    rw [parted.net_eq inside, PinMap.get_set_self]
    rfl
  · rename_i outside
    obtain ⟨net, high⟩ := foreign one outside
    rw [PinMap.get_set, if_neg (parted.keyPin_ne outside ((act board).keyPin_net_mem one)), net,
      high, levels]
    exact booked.level one

/-- Who hears of a pin makes no difference to any level. -/
theorem Booked.handle (booked : board.Booked) (pin : Pin) (handler : Option Handler)
    (pending : List (Pin × Handler)) :
    { board with pins := board.pins.modify pin ({ · with handler }), pending }.Booked := by
  refine ⟨booked.parted.of_nets rfl, fun one => (booked.level one).trans ?_⟩
  refine netLevel_congr (board.net_ne_nil one) (fun other _ => ?_) fun _ _ => rfl
  dsimp only
  rw [PinMap.get_modify]
  split <;> exact ⟨rfl, rfl⟩

/-- What one deed preserves. -/
theorem Deed.booked {before after : Board} (deed : before.Deed after) (booked : before.Booked) :
    after.Booked := by
  cases deed with
  | pass | mask | unmask | forget => exact ⟨booked.parted.of_nets rfl, booked.level⟩
  | attach pin handler => exact booked.handle pin (some handler) before.pending
  | detach pin => exact booked.handle pin none _
  | setUp pin spares =>
    exact booked.change (booked.parted.of_nets rfl) rfl fun one foreign =>
      ⟨rfl, booked.parted.level_modify foreign _⟩
  | connect one other =>
    refine booked.change (booked.parted.join one other) ?_ fun pin foreign => ?_
    · rw [join_shape]
    · exact booked.parted.foreign_join foreign

theorem Parted.level_eq (parted : board.Parted) {one pin : Pin} (inside : one ∈ board.net pin) :
    board.level one = board.level pin :=
  congrArg board.netLevel (parted.net_eq inside)

theorem Parted.level_connect (parted : board.Parted) (one other pin : Pin) :
    let joined := board.join one other
    (board.connect one other).1.level pin =
      if pin ∈ joined.net one then joined.netLevel (joined.net one) else board.level pin := by
  refine (board.level_change one (parted.join one other) pin).trans ?_
  split
  · rfl
  · rename_i foreign
    exact (parted.foreign_join foreign).2

theorem Parted.disjoint_nets (parted : board.Parted) {one other : Pin}
    (outside : other ∉ board.net one) : (board.net one).Disjoint (board.net other) := by
  intro pin mine theirs
  have shared := (parted.net_eq mine).symm.trans (parted.net_eq theirs)
  exact outside (shared ▸ board.mem_net other)

/-- The pins that wiring moves are those of the joined net that were at another level. -/
theorem Parted.moves_connect_iff (parted : board.Parted) (one other pin : Pin) :
    let joined := board.join one other
    (board.connect one other).1.level pin ≠ board.level pin ↔
      pin ∈ joined.net one ∧ joined.netLevel (joined.net one) ≠ board.level pin := by
  intro joined
  rw [parted.level_connect]
  split
  · rename_i inside
    exact (and_iff_right inside).symm
  · rename_i foreign
    simp [joined, foreign]

/-- Wiring counts as an edge if some level changes, but in one case. -/
theorem Booked.jolts_connect_iff (booked : board.Booked) (one other : Pin) :
    let moved := fun pin => (board.connect one other).1.level pin ≠ board.level pin
    (∀ pin, moved pin → board.Jolts one (·.join one other)) ↔
      ¬ (¬ moved one ∧ moved other ∧ keyPin (board.net one) < keyPin (board.net other) ∧
        (board.levels.get (keyPin (board.net one))).isSome) := by
  intro moved
  have parted := booked.parted
  have levels : (board.join one other).levels = board.levels := by rw [join_shape]
  have first := (board.join one other).mem_net one
  have moved_iff (pin : Pin) := parted.moves_connect_iff one other pin
  unfold Jolts
  dsimp only [moved] at moved_iff ⊢
  rw [levels]
  generalize (board.join one other).netLevel ((board.join one other).net one) = high at moved_iff ⊢
  rw [moved_iff one, moved_iff other, and_iff_right first, not_ne_iff]
  rcases parted.join_cases one other with ⟨inside, same⟩ | ⟨outside, net, -⟩
  -- The pins are wired already: there is one level, before and after.
  · refine iff_of_true (fun pin moving => .inr ?_) fun ⟨_, _, below, _⟩ => ?_
    · obtain ⟨within, differs⟩ := (moved_iff pin).mp moving
      rw [same] at within
      exact parted.level_eq within ▸ differs.symm
    · rw [parted.net_eq inside] at below
      exact Std.lt_irrefl below
  · rw [net] at first moved_iff ⊢
    have longer : (board.net one).length ≠ (board.net one ++ board.net other).length := by
      have filled := List.length_pos_of_ne_nil (board.net_ne_nil other)
      rw [List.length_append]
      omega
    have recorded := keyPin_append (board.net_ne_nil one) (board.net_ne_nil other)
      (parted.disjoint_nets outside)
    constructor
    · rintro all ⟨still, moves, below, known⟩
      have least : keyPin (board.net one ++ board.net other) = keyPin (board.net one) := by
        rcases recorded with ⟨-, least⟩ | ⟨above, -⟩
        · exact least
        · exact absurd above (UInt8.lt_asymm below)
      rcases all other ((moved_iff other).mpr moves) with ⟨-, unknown⟩ | turned
      · rw [least, booked.recorded known, still] at unknown
        exact unknown rfl
      · exact turned still.symm
    · intro never pin moving
      by_contra still
      obtain ⟨settled, stays⟩ := not_or.mp still
      have known := not_ne_iff.mp (not_and.mp settled longer)
      have stays := not_ne_iff.mp stays
      obtain ⟨within, differs⟩ := (moved_iff pin).mp moving
      rcases List.mem_append.mp within with mine | theirs
      · exact differs (stays.symm.trans (parted.level_eq mine).symm)
      · rw [parted.level_eq theirs] at differs
        rcases recorded with ⟨below, least⟩ | ⟨-, least⟩
        · rw [least] at known
          refine never ⟨stays.symm, ⟨?_, differs⟩, below, by rw [known]; rfl⟩
          exact List.mem_append_right _ (board.mem_net other)
        · rw [least] at known
          exact differs (booked.level_of_recorded known).symm

end Board

namespace Machine

theorem tells_connect {machine : Machine} (parted : machine.board.Parted) (one other : Pin) :
    machine.Tells (machine.connect one other) fun pin =>
      machine.board.Jolts one (·.join one other) ∧
        pin ∈ (machine.board.join one other).net one := by
  refine tells_change (parted.join one other)
    ⟨(machine.board.join one other).nets, machine.board.pins, ?_⟩ fun pin => ?_
  · exact machine.board.join_shape one other
  · rw [Board.join_shape]
    rfl

theorem net_connect (machine : Machine) (one other pin : Pin) :
    (machine.connect one other).board.net pin = (machine.board.join one other).net pin := by
  obtain ⟨history, pending, changed⟩ := machine.board.change_recorded one (·.join one other)
  obtain ⟨late, settled⟩ := machine.board_settle (machine.board.connect one other)
  unfold connect
  rw [settled, Board.connect, changed]
  rfl

theorem level_connect (machine : Machine) (one other pin : Pin) :
    (machine.connect one other).board.level pin = (machine.board.connect one other).1.level pin :=
  machine.level_settle _ pin

/-- A pin that is told of a change has a record of it. -/
theorem Tells.transitions_ne {before after : Machine} {told : Pin → Prop} {pin : Pin}
    (tells : before.Tells after told) (covered : told pin) :
    after.board.transitions pin ≠ before.board.transitions pin := by
  rw [tells.gained pin covered]
  simp

end Machine

namespace World

theorem booked_run {world : World} (booked : world.machine.board.Booked)
    (operations : List Operation) : (world.run operations).2.machine.board.Booked :=
  (world.deeds_run operations).keep (fun deed => deed.booked) booked

/-- Wiring two pins misses no edge, but in one case. In whatever state a run leaves a fresh board,
the levels of no other net change, and all pins whose level changes are told of it, unless the
level of the second net changes to that of the first, and the first has the lower pin and its level
on record. -/
theorem run_connect_tells_iff {world : World} {timebase : Timebase} {clock : Cycle}
    {usable : Option (List Pin)} (fresh : world.machine.board = { timebase, clock, usable })
    (operations : List Operation) (one other : Pin) :
    let machine := (world.run operations).2.machine
    let board := machine.board
    let after := (machine.perform (.connect one other)).2
    let moved := fun pin => after.board.level pin ≠ board.level pin
    (∀ pin, moved pin → pin ∈ after.board.net one) ∧
      ((∃ told : Pin → Prop, (∀ pin, moved pin → told pin) ∧ machine.Tells after told) ↔
        ¬ (¬ moved one ∧ moved other ∧
          Board.keyPin (board.net one) < Board.keyPin (board.net other) ∧
          (board.levels.get (Board.keyPin (board.net one))).isSome)) := by
  intro machine board after moved
  have booked : board.Booked :=
    booked_run (fresh ▸ Board.booked_fresh timebase clock usable) operations
  have told : machine.Tells after _ := Machine.tells_connect booked.parted one other
  have same (pin : Pin) : moved pin ↔ (board.connect one other).1.level pin ≠ board.level pin :=
    not_congr (Eq.congr_left (machine.level_connect one other pin))
  have within (pin : Pin) (moving : moved pin) : pin ∈ (board.join one other).net one :=
    ((booked.parted.moves_connect_iff one other pin).mp ((same pin).mp moving)).1
  refine ⟨fun pin moving => (machine.net_connect one other one).symm ▸ within pin moving, ?_⟩
  have missed := booked.jolts_connect_iff one other
  simp only [← same] at missed
  refine Iff.trans ⟨?_, fun jolts => ?_⟩ missed
  · rintro ⟨all, covers, tells⟩ pin moving
    by_contra still
    exact tells.transitions_ne (covers pin moving) (told.kept pin fun jolts => still jolts.1)
  · exact ⟨_, fun pin moving => ⟨jolts pin moving, within pin moving⟩, told⟩

/-- Two pins are forced to different levels, and the second is heard. -/
def opposed (one other : Pin) : List Operation :=
  [.machine (.inject one (some false)), .machine (.inject other (some true)),
    .machine (.attach other (.probe 0))]

/-- The high pin falls, and its handler runs once, if its own number is the lower. -/
theorem opposed_connect_tells :
    let machine := (run {} (opposed 5 4)).2.machine
    let after := (machine.perform (.connect 5 4)).2
    let moved := fun pin => after.board.level pin ≠ machine.board.level pin
    moved 4 ∧ machine.events = #[] ∧ after.events = #[.handler 0] ∧
      (∀ pin, moved pin → pin ∈ after.board.net 5) ∧
      ∃ told : Pin → Prop, (∀ pin, moved pin → told pin) ∧ machine.Tells after told := by
  have tells := @run_connect_tells_iff {} _ _ _ rfl (opposed 5 4) 5 4
  exact ⟨by decide +kernel, by decide +kernel, by decide +kernel, tells.1,
    tells.2.mpr (by decide +kernel)⟩

/-- If its number is the higher, the low level is on record for the joined net already, and nothing
tells that the pin had another one: there is no record, and its handler does not run. -/
theorem opposed_connect_untold :
    let machine := (run {} (opposed 1 2)).2.machine
    let after := (machine.perform (.connect 1 2)).2
    let moved := fun pin => after.board.level pin ≠ machine.board.level pin
    moved 2 ∧ machine.board.masked = false ∧ machine.board.handler? 2 = some (.probe 0) ∧
      after.events = machine.events ∧
      ¬ ∃ told : Pin → Prop, (∀ pin, moved pin → told pin) ∧ machine.Tells after told := by
  have silent : ((run {} (opposed 1 2)).2.machine.perform (.connect 1 2)).2.board.transitions 2 =
      (run {} (opposed 1 2)).2.machine.board.transitions 2 := by decide +kernel
  have moving : ((run {} (opposed 1 2)).2.machine.perform (.connect 1 2)).2.board.level 2 ≠
      (run {} (opposed 1 2)).2.machine.board.level 2 := by decide +kernel
  refine ⟨moving, by decide +kernel, by decide +kernel, by decide +kernel, ?_⟩
  rintro ⟨told, covers, tells⟩
  exact tells.transitions_ne (covers 2 moving) silent

end World
end PinUart
