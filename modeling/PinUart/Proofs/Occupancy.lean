import PinUart.Proofs.Trading

/-! The slot table in a world where only ports use it. Every slot is free, or is held by
one port, to whose capture it leads: none is lost, and none is shared. -/
namespace PinUart

/-- Operations that leave the slot table to the ports. -/
def World.Operation.sparesSlots : World.Operation → Bool
  | .machine operation => operation.sparesSlots
  | .tap _ operation => operation != .claim
  | _ => true

namespace World

/-- The slots that ports hold, in the order of the ports. -/
def heldSlots (world : World) : List SlotIndex :=
  world.ports.toList.filterMap fun place => place.bind (·.slot)

/-- No two ports share a capture, every port holds the slot that leads to its capture, and
a slot leads nowhere else. -/
structure Accounted (world : World) : Prop where
  placed : ∀ index port capture, world.port? index = some port →
    port.stake.capture = some capture → ∃ pin, world.machine.capturePin? capture = some pin
  apart : ∀ one other first second capture, world.port? one = some first →
    world.port? other = some second → first.stake.capture = some capture →
    second.stake.capture = some capture → one = other
  owned : ∀ index port, world.port? index = some port →
    Holding.Owned port.stake.capture (port.slot, world.machine.slots)
  bound : ∀ slot sink, world.machine.slots.sink? slot = some sink →
    ∃ index port capture, world.port? index = some port ∧
      port.stake.capture = some capture ∧ sink = .capture capture

variable {world : World} {port : Port} {index : Nat}

theorem Accounted.keeps {after : World} (accounted : world.Accounted)
    (ports : after.ports = world.ports) (kept : world.machine.Keeps after.machine) :
    after.Accounted := by
  have same : after.port? = world.port? := by
    unfold port?
    rw [ports]
  refine ⟨?_, ?_, ?_, ?_⟩
  · rw [same]
    intro index port capture live own
    obtain ⟨pin, placed⟩ := accounted.placed index port capture live own
    exact ⟨pin, kept.pins capture pin placed⟩
  · rw [same]
    exact accounted.apart
  · rw [same, kept.slots]
    exact accounted.owned
  · rw [same, kept.slots]
    exact accounted.bound

/-- The books stay in order when a port goes on, or leaves without a slot. -/
theorem Accounted.settle {after : Port × Machine} (accounted : world.Accounted)
    (live : world.port? index = some port) (trades : port.Trades world.machine after)
    (kept : Option Port) (same : kept = some after.1 ∨ kept = none ∧ after.1.slot = none) :
    { world with
      machine := after.2
      ports := world.ports.setIfInBounds index kept }.Accounted := by
  have mine := accounted.owned index port live
  have owns : Holding.Owned port.stake.capture (after.1.slot, after.2.slots) :=
    Trade.owned_of_trades trades.trades mine
  have foreign : ∀ slot sink, (∀ own, port.stake.capture = some own → sink ≠ .capture own) →
      (after.2.slots.sink? slot = some sink ↔ world.machine.slots.sink? slot = some sink) :=
    fun slot _ others => Trade.foreign_of_trades trades.trades mine slot others
  refine ⟨?_, settled_apart live same trades.capture accounted.apart, ?_,
    settled_bound live same trades.capture accounted.bound
      (fun slot capture own led => (owns slot).mpr ⟨capture, own, led⟩)
      fun slot sink others => (foreign slot sink others).mp⟩
  · intro other found capture placed own
    obtain ⟨old, stayed, shared⟩ := settled_origin live same trades.capture placed
    obtain ⟨pin, known⟩ := accounted.placed other old capture stayed (shared ▸ own)
    exact ⟨pin, trades.pins capture pin known⟩
  · intro other found placed
    rcases settled_cases live same placed with ⟨rfl, rfl⟩ | ⟨different, stayed⟩
    · rw [trades.capture]
      exact owns
    · intro slot
      refine (accounted.owned other found stayed slot).trans ?_
      refine exists_congr fun capture => and_congr_right fun theirs => (foreign slot _ ?_).symm
      rintro own mine ⟨⟩
      exact different (accounted.apart index other port found _ live stayed mine theirs)

/-- A new port holds no slot, and no slot leads to its capture. -/
theorem Accounted.openPort (accounted : world.Accounted) (config : Config) :
    (world.openPort config).2.Accounted := by
  obtain ⟨quiet, free, fresh⟩ := Port.create_stake world.machine config
  have known : ∀ index port capture, world.port? index = some port →
      port.stake.capture = some capture → capture ≠ world.machine.captures.size := by
    rintro index port capture live own rfl
    obtain ⟨pin, placed⟩ := accounted.placed index port _ live own
    rw [Machine.capturePin?, Array.getElem?_size] at placed
    cases placed
  have new : ∀ capture, (Port.create world.machine config).1.stake.capture = some capture →
      capture = world.machine.captures.size := fun capture own => (fresh capture own).1.symm
  refine ⟨?_, ?_, ?_, ?_⟩
  · intro index port capture live own
    rw [port?_openPort] at live
    split at live
    · cases live
      obtain ⟨-, pin, -, placed⟩ := fresh capture own
      exact ⟨pin, placed⟩
    · obtain ⟨pin, placed⟩ := accounted.placed index port capture live own
      exact ⟨pin, quiet.pins capture pin placed⟩
  · intro one other first second capture left right own theirs
    rw [port?_openPort] at left right
    split at left <;> split at right
    · rename_i last also
      exact last.trans also.symm
    · cases left
      exact absurd (new capture own) (known other second capture right theirs)
    · cases right
      exact absurd (new capture theirs) (known one first capture left own)
    · exact accounted.apart one other first second capture left right own theirs
  · intro index port live slot
    rw [port?_openPort] at live
    change port.slot = some slot ↔ ∃ capture, port.stake.capture = some capture ∧
      (Port.create world.machine config).2.slots.sink? slot = some (.capture capture)
    rw [quiet.slots]
    split at live
    · cases live
      constructor
      · intro holds
        cases free.symm.trans holds
      · rintro ⟨capture, own, led⟩
        obtain ⟨other, found, theirs, stayed, shared, same⟩ := accounted.bound slot _ led
        cases same
        exact absurd (new capture own) (known other found capture stayed shared)
    · exact accounted.owned index port live slot
  · intro slot sink led
    obtain ⟨index, port, capture, live, own, same⟩ := accounted.bound slot sink (quiet.slots ▸ led)
    have inside := lt_of_port? live
    refine ⟨index, port, capture, ?_, own, same⟩
    rw [port?_openPort, if_neg (by omega)]
    exact live

/-- What one operation preserves. -/
theorem Accounted.perform (accounted : world.Accounted) {operation : Operation}
    (spares : operation.sparesSlots) : (world.perform operation).2.Accounted := by
  have unclaimed : ∀ index, operation ≠ .tap index .claim := by
    rintro index rfl
    exact Bool.false_ne_true spares
  rcases world.perform_cases unclaimed with ⟨own, rfl⟩ | ⟨ports, quiet⟩ | ⟨config, same⟩ |
    ⟨index, port, after, kept, live, moves, stays, same⟩
  · exact accounted.keeps rfl (world.machine.keeps_perform spares)
  · exact accounted.keeps ports quiet.keeps
  · rw [same]
    exact accounted.openPort config
  · rw [same]
    exact accounted.settle live moves.trades kept stays

/-- What a whole run preserves. -/
theorem Accounted.run (accounted : world.Accounted) {operations : List Operation}
    (spare : ∀ operation ∈ operations, operation.sparesSlots) :
    (world.run operations).2.Accounted := by
  induction operations generalizing world with
  | nil => exact accounted
  | cons operation operations ih =>
    have next := accounted.perform (spare operation (by simp))
    exact ih next fun other member => spare other (by simp [member])

theorem accounted_of_empty (empty : world.ports = #[])
    (unbound : ∀ slot, world.machine.slots.sink? slot = none) : world.Accounted := by
  have without := port?_of_no_ports empty
  refine ⟨?_, ?_, ?_, ?_⟩
  · intro index port capture live
    cases (without index).symm.trans live
  · intro one other first second capture live
    cases (without one).symm.trans live
  · intro index port live
    cases (without index).symm.trans live
  · intro slot sink bound
    cases (unbound slot).symm.trans bound

theorem mem_heldSlots {slot : SlotIndex} : slot ∈ world.heldSlots ↔
    ∃ index port, world.port? index = some port ∧ port.slot = some slot := by
  simp only [heldSlots, List.mem_filterMap, Array.mem_toList_iff, Option.bind_eq_some_iff]
  constructor
  · rintro ⟨place, member, port, rfl, holds⟩
    obtain ⟨index, found⟩ := Array.mem_iff_getElem?.mp member
    exact ⟨index, port, by rw [port?, found]; rfl, holds⟩
  · rintro ⟨index, port, live, holds⟩
    exact ⟨some port, Array.mem_of_getElem? (Option.join_eq_some_iff.mp live), port, rfl, holds⟩

/-- Two ports that hold the same slot have the same capture, so that they are one. -/
theorem Accounted.holders_eq (accounted : world.Accounted) {one other : Nat}
    {first second : Port} {slot : SlotIndex} (left : world.port? one = some first)
    (right : world.port? other = some second) (mine : first.slot = some slot)
    (theirs : second.slot = some slot) : one = other := by
  obtain ⟨capture, own, led⟩ := (accounted.owned one first left slot).mp mine
  obtain ⟨shared, also, same⟩ := (accounted.owned other second right slot).mp theirs
  cases led.symm.trans same
  exact accounted.apart one other first second capture left right own also

theorem Accounted.nodup_heldSlots (accounted : world.Accounted) : world.heldSlots.Nodup := by
  refine List.pairwise_filterMap.mpr (List.pairwise_iff_getElem.mpr ?_)
  rintro one other left right less slot mine _ theirs rfl
  obtain ⟨first, place, holds⟩ := Option.bind_eq_some_iff.mp mine
  obtain ⟨second, place', holds'⟩ := Option.bind_eq_some_iff.mp theirs
  have live : ∀ place port (inside : place < world.ports.toList.length),
      world.ports.toList[place] = some port → world.port? place = some port := by
    intro place port inside found
    rw [port?, ← Array.getElem?_toList, List.getElem?_eq_getElem inside, found]
    rfl
  have := accounted.holders_eq (live one first left place) (live other second right place') holds
    holds'
  omega

theorem Accounted.isBound_iff (accounted : world.Accounted) (slot : SlotIndex) :
    world.machine.slots.isBound slot ↔ slot ∈ world.heldSlots := by
  rw [mem_heldSlots, Slots.isBound, Option.isSome_iff_exists]
  constructor
  · rintro ⟨sink, bound⟩
    obtain ⟨index, port, capture, live, own, rfl⟩ := accounted.bound slot sink bound
    exact ⟨index, port, live, (accounted.owned index port live slot).mpr ⟨capture, own, bound⟩⟩
  · rintro ⟨index, port, live, holds⟩
    obtain ⟨capture, -, led⟩ := (accounted.owned index port live slot).mp holds
    exact ⟨_, led⟩

/-- Free slots and held slots make up the table. -/
theorem Accounted.freeCount_add (accounted : world.Accounted) :
    world.machine.slots.freeCount + world.heldSlots.length = slotCount := by
  have held : ((List.finRange slotCount).filter world.machine.slots.isBound).Perm
      world.heldSlots := by
    refine (List.perm_ext_iff_of_nodup ((List.nodup_finRange slotCount).filter _)
      accounted.nodup_heldSlots).mpr ?_
    intro slot
    rw [List.mem_filter, accounted.isBound_iff]
    exact and_iff_right (List.mem_finRange slot)
  have whole := List.length_eq_countP_add_countP world.machine.slots.isBound
    (l := List.finRange slotCount)
  rw [List.length_finRange, List.countP_eq_length_filter, held.length_eq] at whole
  rw [Slots.freeCount, Nat.add_comm]
  simpa using whole.symm

theorem port?_foldl_closePort (indices : List Nat) (index : Nat) :
    (indices.foldl closePort world).port? index =
      if index ∈ indices then none else world.port? index := by
  induction indices generalizing world with
  | nil => rfl
  | cons first indices ih =>
    have closed : (world.closePort first).port? index =
        if first = index then none else world.port? index :=
      world.port?_follow (.closePort first) index
    rw [List.foldl_cons, ih, closed]
    by_cases later : index ∈ indices
    · simp [later]
    · simp [later, eq_comm]

/-- No port is left. -/
theorem port?_closeAll (world : World) (index : Nat) : world.closeAll.port? index = none := by
  rw [closeAll, port?_foldl_closePort]
  split
  · rfl
  · rename_i outside
    cases live : world.port? index with
    | none => rfl
    | some port => exact absurd (List.mem_range.mpr (lt_of_port? live)) outside

theorem Accounted.closeAll (accounted : world.Accounted) : world.closeAll.Accounted := by
  refine List.foldlRecOn (List.range world.ports.size) closePort accounted ?_
  intro between before index _
  have spares : (Operation.closePort index).sparesSlots := rfl
  exact before.perform spares

/-- Ports hold different slots, and none but those are bound, each to the capture of the
port that holds it. -/
structure Allotted (world : World) : Prop where
  apart : ∀ one other first second slot, world.port? one = some first →
    world.port? other = some second → first.slot = some slot → second.slot = some slot →
    one = other
  own : ∀ index port slot, world.port? index = some port → port.slot = some slot →
    ∃ reception, port.reception = some reception ∧
      world.machine.slots.sink? slot = some (.capture reception.capture)
  captures : ∀ one other first second reception shared, world.port? one = some first →
    world.port? other = some second → first.reception = some reception →
    second.reception = some shared → reception.capture = shared.capture → one = other
  unbound : ∀ slot, slot ∉ world.heldSlots → world.machine.slots.sink? slot = none
  free : world.machine.slots.freeCount + world.heldSlots.length = slotCount

theorem Accounted.allotted (accounted : world.Accounted) : world.Allotted := by
  refine ⟨?_, ?_, ?_, ?_, accounted.freeCount_add⟩
  · intro one other first second slot left right mine theirs
    exact accounted.holders_eq left right mine theirs
  · intro index port slot live holds
    obtain ⟨capture, own, led⟩ := (accounted.owned index port live slot).mp holds
    obtain ⟨reception, held, rfl⟩ := Option.map_eq_some_iff.mp own
    exact ⟨reception, held, led⟩
  · intro one other first second reception shared left right held also same
    refine accounted.apart one other first second _ left right (Port.stake_capture held) ?_
    rw [Port.stake_capture also, same]
  · intro slot free
    rw [← accounted.isBound_iff] at free
    simpa [Slots.isBound] using free

/-- Where only ports use the slot table, slots are neither lost nor shared: the slots are
allotted in the whole course of a run, all slots are free once all ports are closed, a port
without receive buffers holds none, and a port that is started anew keeps the one it has. -/
theorem run_allotted {operations : List Operation} (empty : world.ports = #[])
    (unbound : ∀ slot, world.machine.slots.sink? slot = none)
    (spare : ∀ operation ∈ operations, operation.sparesSlots) :
    (world.run operations).2.Allotted ∧
      (world.run operations).2.closeAll.machine.slots.freeCount = slotCount ∧
      ∀ index port, (world.run operations).2.port? index = some port →
        (port.reception = none → port.slot = none) ∧
          ∀ slot baud after, port.slot = some slot →
            port.start (world.run operations).2.machine baud = (.ok (), after) →
            after.1.slot = some slot := by
  have accounted := (accounted_of_empty empty unbound).run spare
  refine ⟨accounted.allotted, ?_, ?_⟩
  · have closed := accounted.closeAll.freeCount_add
    have none : (world.run operations).2.closeAll.heldSlots = [] := by
      refine List.eq_nil_iff_forall_not_mem.mpr fun slot held => ?_
      obtain ⟨index, port, live, -⟩ := mem_heldSlots.mp held
      cases (port?_closeAll _ index).symm.trans live
    rwa [none] at closed
  · intro index port live
    constructor
    · intro without
      cases holds : port.slot with
      | none => rfl
      | some slot =>
        obtain ⟨reception, held, -⟩ := accounted.allotted.own index port slot live holds
        cases without.symm.trans held
    · intro slot baud after holds done
      rcases port.start_outcome (world.run operations).2.machine baud with
        ⟨failure, failed, -⟩ | ⟨-, begun⟩
      · rw [done] at failed
        cases failed
      · rw [done] at begun
        obtain ⟨kept, listening, stake, keeps, -⟩ := begun.stake
        have same : after.1.slot = kept := congrArg Stake.slot stake
        rw [same, keeps (by rw [holds]; rfl), holds]

/-- Three ports, of which one cannot receive. The second fails to start, and has to give its
slot back; then it starts. The first is started anew, muted and closed. -/
def traded : List Operation :=
  [.openPort { rxPin := some 5, txPin := some 4 }, .openPort { rxPin := some 7 },
    .openPort { txPin := some 9 }, .port 0 (.start 9600),
    .machine (.queueFault (.attach 7 "busy")), .port 1 (.start 9600), .port 1 (.start 9600),
    .port 2 (.start 9600), .port 0 (.setListening false), .port 0 (.start 4800), .closePort 0]

/-- The second port holds a slot when all is done, and keeps it when it is started anew. -/
theorem traded_allotted :
    (run {} traded).1 = [.count 0, .count 1, .count 2, .done, .nothing,
      .failed (.hardware (.attach 7 "busy")), .done, .done, .done, .done, .nothing] ∧
    (run {} traded).2.heldSlots.map Fin.val = [1] ∧ (run {} traded).2.Allotted ∧
    ∃ port slot after, (run {} traded).2.port? 1 = some port ∧ port.slot = some slot ∧
      port.start (run {} traded).2.machine 19200 = (.ok (), after) ∧ after.1.slot = some slot := by
  have spare : ∀ operation ∈ traded, operation.sparesSlots := by decide +kernel
  have before : ((run {} traded).2.port? 1).map (fun port =>
      (port.slot.isSome, (port.start (run {} traded).2.machine 19200).1.isOk)) =
        some (true, true) := by
    decide +kernel
  have allotted := @run_allotted {} traded rfl Slots.sink?_empty spare
  refine ⟨by decide +kernel, by decide +kernel, allotted.1, ?_⟩
  obtain ⟨port, live, same⟩ := Option.map_eq_some_iff.mp before
  obtain ⟨holds, begins⟩ := Prod.mk.inj same
  obtain ⟨slot, own⟩ := Option.isSome_iff_exists.mp holds
  cases result : port.start (run {} traded).2.machine 19200 with
  | mk answer after =>
    rw [result] at begins
    cases answer with
    | error failure => cases begins
    | ok =>
      have keeps := (allotted.2.2 1 port live).2 slot 19200 after own result
      exact ⟨port, slot, after, live, own, result, keeps⟩

end World
end PinUart
