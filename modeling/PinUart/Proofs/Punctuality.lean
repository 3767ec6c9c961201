import PinUart.Proofs.Duplex
import PinUart.Proofs.Nets
import PinUart.Proofs.Runs

/-! A message on a line that nobody else drives, on a board without handlers. Each hold
begins within one reading of the counter of its deadline. The deadlines are reckoned from
the first, so that the delay of one hold is taken up by the wait for the next and does not
add up, however long the message is. -/
namespace PinUart

namespace Board

/-- The level of a net in which one pin alone drives. -/
theorem netLevel_alone {board : Board} {net : List Pin} {pin : Pin} {level : Bool}
    (inside : pin ∈ net) (drives : (board.pins.get pin).drives? = some level)
    (others : ∀ other ∈ net, other ≠ pin → (board.pins.get other).drives? = none) :
    board.netLevel net = level := by
  have only : ∀ driven ∈ net.filterMap fun pin => (board.pins.get pin).drives?, driven = level := by
    intro driven member
    obtain ⟨other, within, theirs⟩ := List.mem_filterMap.mp member
    by_cases same : other = pin
    · subst same
      exact Option.some.inj (theirs.symm.trans drives)
    · cases theirs.symm.trans (others other within same)
  have some : level ∈ net.filterMap fun pin => (board.pins.get pin).drives? :=
    List.mem_filterMap.mpr ⟨pin, inside, drives⟩
  unfold netLevel
  split
  · rename_i none
    rw [none] at some
    cases some
  · rename_i driven _
    rw [Bool.eq_iff_iff, List.all_eq_true]
    constructor
    · exact fun all => all level some
    · intro high driven member
      rw [only driven member]
      exact high

/-- The level of a line is the level that its only driver holds it at. -/
theorem level_of_holds {board : Board} {pin : Pin} {drive : Drive} {high : Bool}
    (holds : drive.Holds high (board.pins.get pin))
    (others : ∀ other ∈ board.net pin, other ≠ pin → (board.pins.get other).drives? = none) :
    board.level pin = high := by
  have inside := board.mem_net pin
  obtain ⟨unforced, -, ready⟩ := holds
  have output {level : Bool} (direction : (board.pins.get pin).direction = .output)
      (driven : (board.pins.get pin).output = level) : board.level pin = level := by
    refine netLevel_alone inside ?_ others
    unfold PinState.drives?
    rw [unforced, direction, driven]
  cases drive with
  | pushPull => exact output ready.1 ready.2
  | pullUpRelease =>
    cases high with
    | false => exact output ready.1 ready.2.1
    | true =>
      refine netLevel_high (fun other member => ?_) ⟨pin, inside, ready.2.2⟩
      by_cases same : other = pin
      · subst same
        exact PinState.yields_of_input unforced ready.1
      · unfold PinState.Yields
        rw [others other member same]
        exact nofun

end Board

/-- No hold of a message lasts longer than nine bit periods. -/
theorem Plan.cycles_ofData_le {data : List UInt8} {bitPeriod : UInt32} {invert : Bool} {hold : Hold}
    (positive : 1 ≤ bitPeriod.toNat) (fits : 9 * bitPeriod.toNat < 2 ^ 32)
    (member : hold ∈ (ofData data bitPeriod invert).holds) :
    hold.cycles.toNat ≤ 9 * bitPeriod.toNat := by
  have encoded := (brief_ofData data bitPeriod invert).encoded positive fits
  obtain ⟨run, -, short, cycles⟩ := encoded.multiple hold member
  rw [cycles]
  exact Nat.mul_le_mul_right _ short

/-- A time from one cycle before a deadline to less than one reading of the counter after it. -/
def Timebase.Meets (timebase : Timebase) (deadline cycle : Cycle) : Prop :=
  (cycle - (deadline - 1)).toNat ≤ timebase.perRead.toNat

theorem Timebase.meets_ofTime {timebase : Timebase} {due time : Int} (early : due - 1 ≤ time)
    (late : time ≤ due - 1 + timebase.perRead.toNat) :
    timebase.Meets (Cycle.ofTime due) (Cycle.ofTime time) := by
  have small := timebase.perRead.toNat_lt
  have before : Cycle.ofTime due - 1 = Cycle.ofTime (due - 1) := (Cycle.ofTime_sub due 1).symm
  have gone := Cycle.toNat_sub_ofTime early (by omega)
  unfold Meets
  rw [before]
  omega

/-- The deadline that ends the first holds of a message. -/
def deadline (start : Cycle) (holds : List Hold) (count : Nat) : Cycle :=
  (holds.take count).foldl (fun due hold => due + hold.cycles) start

/-- A line with one transmitter, and the counter that it reckons with. -/
structure Solo where
  timebase : Timebase
  transmitter : Transmitter
  pin : Pin

namespace Solo

/-- What is seen of the line: its level, the time without end, and what the pin has recorded. -/
structure View where
  high : Bool
  time : Int
  record : List Transition

/-- The machine carries the line as the view has it, and nobody else takes part. -/
structure Shows (solo : Solo) (machine : Machine) (view : View) : Prop where
  parted : machine.board.Parted
  holds : solo.transmitter.drive.Holds view.high (machine.board.pins.get solo.pin)
  others : ∀ other ∈ machine.board.net solo.pin, other ≠ solo.pin →
    (machine.board.pins.get other).drives? = none
  deaf : ∀ pin, machine.board.handler? pin = none
  pending : machine.board.pending = []
  rate : machine.statedRate = none
  timebase : machine.board.timebase = solo.timebase
  clock : machine.board.clock = Cycle.ofTime view.time
  record : machine.board.transitions solo.pin = view.record

variable {solo : Solo} {machine : Machine} {view : View}

/-- Cycles that one reading of the counter takes. -/
def reading (solo : Solo) : Int := solo.timebase.perRead.toNat

theorem reading_pos (solo : Solo) : 1 ≤ solo.reading :=
  Int.ofNat_le.mpr solo.timebase.perRead_pos

/-- Time passes, and interrupts are masked or let in; nothing happens to the line. -/
theorem Shows.pass (shown : solo.Shows machine view) (clock : Cycle) (masked : Bool) {time : Int}
    (reached : clock = Cycle.ofTime time) :
    solo.Shows { machine with board := { machine.board with clock, masked } }
      { view with time } :=
  ⟨shown.parted.of_nets rfl, shown.holds, shown.others, shown.deaf, shown.pending, shown.rate,
    shown.timebase, reached, shown.record⟩

theorem Shows.readClock (shown : solo.Shows machine view) :
    machine.readClock.1 = Cycle.ofTime (view.time + solo.reading) ∧
      solo.Shows machine.readClock.2 { view with time := view.time + solo.reading } := by
  have moved := Machine.readClock_ofTime shown.clock shown.timebase
  exact ⟨moved, shown.pass _ machine.board.masked moved⟩

theorem Shows.sleep (shown : solo.Shows machine view) (micros : UInt32) :
    solo.Shows (machine.sleep micros)
      { view with
        time := view.time + (micros * solo.timebase.perMicrosecond).toNat } :=
  shown.pass _ machine.board.masked
    (Machine.clock_sleep_ofTime shown.clock shown.timebase micros)

theorem Shows.hush (shown : solo.Shows machine view) :
    solo.Shows (solo.transmitter.hush machine) view := by
  unfold Transmitter.hush
  split
  · exact shown
  · exact shown.pass _ true shown.clock

/-- With nothing pending, nothing happens to the line when interrupts are let in. -/
theorem Shows.unhush (shown : solo.Shows machine view) :
    solo.Shows (solo.transmitter.unhush machine) view := by
  unfold Transmitter.unhush
  split
  · exact shown
  · have opened := shown.pass _ false shown.clock
    have same : machine.unmask =
        { machine with board := { machine.board with masked := false } } := by
      unfold Machine.unmask Board.unmask Machine.settle
      simp only [shown.pending, List.map_nil, List.foldl_nil]
    rw [same]
    exact opened

theorem Shows.spinUntil (shown : solo.Shows machine view) {due bound : Int}
    (narrow : solo.reading < 2 ^ 30) (near : due - view.time < 2 ^ 31)
    (recent : -2 ^ 30 ≤ due - view.time) (late : view.time ≤ bound) (above : due - 2 ≤ bound) :
    ∃ final, solo.Shows (machine.spinUntil (Cycle.ofTime due)) { view with time := final } ∧
      due - 1 ≤ final ∧ final ≤ bound + solo.reading := by
  have short : machine.board.timebase.perRead.toNat < 2 ^ 30 := by
    rw [shown.timebase]
    exact Int.ofNat_lt.mp narrow
  obtain ⟨final, spun, least, most⟩ :=
    Timebase.spin_ofTime short shown.clock near recent late above
  rw [shown.timebase] at most
  exact ⟨final, shown.pass _ machine.board.masked spun, least, most⟩

/-- A wait that begins a reading before its deadline at the latest ends within one reading of
it, whether or not there is time for sleep. -/
theorem Shows.awaitDeadline (shown : solo.Shows machine view) {due : Int}
    (narrow : solo.reading < 2 ^ 30) (before : view.time + solo.reading < due)
    (near : due - (view.time + solo.reading) < 2 ^ 31) :
    ∃ final, solo.Shows (solo.transmitter.awaitDeadline machine (Cycle.ofTime due))
        { view with time := final } ∧
      due - 1 ≤ final ∧ final ≤ due - 1 + solo.reading := by
  obtain ⟨moved, read⟩ := shown.readClock
  have paced := Machine.perMicrosecond_eq read.rate
  rw [read.timebase] at paced
  unfold Transmitter.awaitDeadline
  generalize machine.readClock = clocked at moved read paced ⊢
  obtain ⟨now, after⟩ := clocked
  dsimp only at moved read paced ⊢
  rw [moved, Cycle.span_ofTime near (by omega), paced]
  split
  · rename_i long
    obtain ⟨asleep, most, least, slept⟩ := Timebase.toNat_asleep long near
    have positive := solo.timebase.perMicrosecond_pos
    generalize UInt32.ofNat _ = micros at slept ⊢
    have rested := (read.unhush.sleep micros).hush
    rw [slept] at rested
    exact rested.spinUntil narrow (by dsimp only; omega) (by dsimp only; omega)
      (by dsimp only; omega) (by omega)
  · exact read.spinUntil narrow near (by dsimp only; omega) (by dsimp only; omega) (by omega)

/-- Setting up the pin for a level is recorded at once, if that is not the level already. -/
theorem Shows.setUp {act : PinState → PinState} {next : Bool} (shown : solo.Shows machine view)
    (spares : ∀ state, (act state).handler = state.handler)
    (holds : solo.transmitter.drive.Holds next (act (machine.board.pins.get solo.pin))) :
    solo.Shows (machine.settle (machine.board.setUp solo.pin act))
      { view with
        high := next
        record := view.record ++
          if view.high = next then [] else [⟨Cycle.ofTime view.time, next⟩] } := by
  have adjusted := @Machine.adjusted_of_deaf machine solo.pin act shown.deaf spares
  have recorded := machine.transitions_settle (machine.board.setUp solo.pin act) solo.pin
  have own : solo.transmitter.drive.Holds next
      ((machine.board.pins.modify solo.pin act).get solo.pin) := by
    rw [PinMap.get_modify_self]
    exact holds
  have others : ∀ other ∈ machine.board.net solo.pin, other ≠ solo.pin →
      ((machine.board.pins.modify solo.pin act).get other).drives? = none := by
    intro other member different
    rw [PinMap.get_modify_of_ne different.symm]
    exact shown.others other member different
  have level :
      { machine.board with pins := machine.board.pins.modify solo.pin act }.netLevel
        (machine.board.net solo.pin) = next :=
    Board.level_of_holds own others
  rw [Board.transitions_setUp shown.parted, level, Board.level_of_holds shown.holds shown.others,
    shown.record, shown.clock] at recorded
  generalize machine.settle _ = after at adjusted recorded ⊢
  have deaf := adjusted.deaf spares shown.deaf
  obtain ⟨levels, history, rfl⟩ := adjusted
  refine ⟨shown.parted.of_nets rfl, own, others, deaf, shown.pending, shown.rate, shown.timebase,
    shown.clock, recorded.trans ?_⟩
  by_cases same : view.high = next
  · simp [same]
  · simp [same, machine.board.mem_net]

theorem Shows.setLine (shown : solo.Shows machine view) (next : Bool) :
    solo.Shows (machine.setLine solo.pin next solo.transmitter.drive)
      { view with
        high := next
        record := view.record ++
          if view.high = next then [] else [⟨Cycle.ofTime view.time, next⟩] } := by
  rw [Machine.setLine_eq]
  refine shown.setUp (fun state => ?_) (shown.holds.turn next)
  cases solo.transmitter.drive <;> rfl

/-- All holds of a message. Each begins on time for its deadline, and so does what comes after
the last. -/
theorem Shows.sendHolds {high : Bool} {holds : List Hold} {due : Int}
    (alternating : Plan.Alternating solo.transmitter.bitPeriod.toNat high holds)
    (lasting : ∀ hold ∈ holds, hold.cycles.toNat < 2 ^ 31) (narrow : solo.reading < 2 ^ 30)
    (slow : 2 * solo.reading ≤ solo.transmitter.bitPeriod.toNat)
    (shown : solo.Shows machine view) (same : view.high = high) (early : due - 1 ≤ view.time)
    (late : view.time ≤ due - 1 + solo.reading) :
    ∃ after added,
      solo.Shows (solo.transmitter.sendHolds solo.pin machine (Cycle.ofTime due) holds) after ∧
      after.record = view.record ++ added ∧
      some after.high = (high :: holds.map (·.high)).getLast? ∧
      added.map (·.level) = holds.map (·.high) ∧
      added.head?.map (·.cycle) = holds.head?.map (fun _ => Cycle.ofTime view.time) ∧
      (∀ index entry, added[index]? = some entry →
        solo.timebase.Meets (deadline (Cycle.ofTime due) holds index) entry.cycle) ∧
      solo.timebase.Meets (deadline (Cycle.ofTime due) holds holds.length)
        (Cycle.ofTime after.time) := by
  have positive := solo.reading_pos
  -- How far a hold begins from its deadline is the invariant. Every wait restores it, as it ends
  -- at the deadline itself and not a hold's length after the wait began.
  induction alternating generalizing machine view due with
  | nil high =>
    refine ⟨view, [], shown, (List.append_nil _).symm, congrArg some same, rfl, rfl, ?_,
      Timebase.meets_ofTime early late⟩
    intro index entry found
    cases found
  | @cons high hold holds changes least most later ih =>
    have held := lasting hold (List.mem_cons_self ..)
    have turned := shown.setLine hold.high
    rw [if_neg (by rw [same]; exact changes.symm)] at turned
    obtain ⟨final, waited, soonest, latest⟩ :=
      @Shows.awaitDeadline _ _ _ turned (due + hold.cycles.toNat) narrow (by dsimp only; omega)
        (by dsimp only; omega)
    obtain ⟨after, added, shown, record, ends, levels, begins, met, ended⟩ :=
      ih (fun other member => lasting other (List.mem_cons_of_mem _ member)) waited rfl soonest
        latest
    rw [Cycle.ofTime_add_toNat] at shown met ended
    refine ⟨after, ⟨Cycle.ofTime view.time, hold.high⟩ :: added, shown, ?_, ?_, ?_, rfl, ?_, ended⟩
    · rw [record, List.append_assoc, List.singleton_append]
    · rw [ends, List.map_cons, List.getLast?_cons_cons]
    · rw [List.map_cons, List.map_cons, levels]
    · intro index entry found
      cases index with
      | zero =>
        cases found
        exact Timebase.meets_ofTime early late
      | succ index => exact met index entry found

/-- A whole message leaves the line as it was before, and its records on time. -/
theorem Shows.send {data : List UInt8} (shown : solo.Shows machine view) (filled : data ≠ [])
    (rests : view.high = solo.transmitter.markLevel)
    (slow : 2 * solo.reading ≤ solo.transmitter.bitPeriod.toNat)
    (near : 9 * solo.transmitter.bitPeriod.toNat < 2 ^ 31) :
    let holds := (solo.transmitter.plan data).holds
    let start := Cycle.ofTime (view.time + solo.reading)
    ∃ after added, solo.Shows (solo.transmitter.send machine solo.pin data).2 after ∧
      after.high = solo.transmitter.markLevel ∧ after.record = view.record ++ added ∧
      added.map (·.level) = holds.map (·.high) ∧ added.head?.map (·.cycle) = some start ∧
      (∀ index entry, added[index]? = some entry →
        solo.timebase.Meets (deadline start holds index) entry.cycle) ∧
      solo.timebase.Meets (deadline start holds holds.length) (Cycle.ofTime after.time) := by
  intro holds start
  have positive := solo.reading_pos
  have alternating : Plan.Alternating solo.transmitter.bitPeriod.toNat solo.transmitter.markLevel
      holds := Plan.alternating_ofData data (by omega)
  have lasting : ∀ hold ∈ holds, hold.cycles.toNat < 2 ^ 31 := fun hold member =>
    Nat.lt_of_le_of_lt (Plan.cycles_ofData_le (by omega) (by omega) member) near
  obtain ⟨last, ends, mark⟩ : ∃ last, holds.getLast? = some last ∧
      last.high = solo.transmitter.markLevel :=
    Plan.getLast?_ofData filled solo.transmitter.bitPeriod solo.transmitter.invert
  have rested := shown.setLine solo.transmitter.markLevel
  rw [if_pos rests, List.append_nil] at rested
  obtain ⟨moved, read⟩ := rested.hush.readClock
  rw [Transmitter.send, if_neg (by simpa using filled)]
  dsimp only
  rw [moved]
  obtain ⟨after, added, sent, record, final, levels, begins, met, ended⟩ :=
    read.sendHolds alternating lasting (by omega) slow rfl (Int.sub_le_self _ (by decide))
      (by dsimp only; omega)
  refine ⟨after, added, sent.unhush, ?_, record, levels, ?_, met, ended⟩
  · rw [List.getLast?_cons, List.getLast?_map, ends] at final
    exact (Option.some.inj final).trans mark
  · obtain ⟨first, others, whole⟩ := List.exists_cons_of_ne_nil (List.ne_nil_of_mem
      (List.mem_of_getLast? ends))
    rw [begins, whole]
    rfl

end Solo

/-- Putting a line to rest once more changes nothing. -/
theorem Machine.rest_restLine (machine : Machine) (pin : Pin) (high : Bool) (drive : Drive) :
    drive.rest high ((machine.restLine pin high drive).board.pins.get pin) =
      (machine.restLine pin high drive).board.pins.get pin := by
  have rested := congrArg Rig.pins (machine.rig_restLine pin high drive)
  change (machine.restLine pin high drive).board.pins = machine.board.pins.modify pin _ at rested
  rw [rested, PinMap.get_modify_self]
  cases drive <;> rfl

namespace World

/-- Transmit timing does not drift. In whatever state a run leaves a machine, a message on a pin
that rests at mark, that nobody else drives and that no handler hears leaves one record for each
hold. The first begins at the start, every other within one reading of its deadline, and so does
the end of the last. -/
theorem run_sends_on_time {world : World} {operations : List Operation} {machine : Machine}
    {transmitter : Transmitter} {pin : Pin} {data : List UInt8}
    (bare : world.machine.board.nets = []) (plain : world.machine.statedRate = none)
    (reached : machine = (world.run operations).2.machine)
    (unheard : ∀ pin handler, ¬ machine.board.Reaches pin handler)
    (prepared : transmitter.drive.rest transmitter.markLevel (machine.board.pins.get pin) =
      machine.board.pins.get pin)
    (unforced : (machine.board.pins.get pin).forced = none)
    (others : ∀ other ∈ machine.board.net pin, other ≠ pin →
      (machine.board.pins.get other).drives? = none)
    (filled : data ≠ [])
    (slow : 2 * machine.board.timebase.perRead.toNat ≤ transmitter.bitPeriod.toNat)
    (near : 9 * transmitter.bitPeriod.toNat < 2 ^ 31) :
    let after := (transmitter.send machine pin data).2
    let holds := (transmitter.plan data).holds
    let start := machine.board.clock + machine.board.timebase.perRead
    (transmitter.send machine pin data).1 = data.length ∧
      after.board.level pin = transmitter.markLevel ∧
      ∃ added, after.board.transitions pin = machine.board.transitions pin ++ added ∧
        added.map (·.level) = holds.map (·.high) ∧ added.head?.map (·.cycle) = some start ∧
        (∀ index entry, added[index]? = some entry →
          machine.board.timebase.Meets (deadline start holds index) entry.cycle) ∧
        machine.board.timebase.Meets (deadline start holds holds.length) after.board.clock := by
  have deaf : ∀ pin, machine.board.handler? pin = none := fun pin =>
    Option.eq_none_iff_forall_not_mem.mpr fun handler attached =>
      unheard pin handler (.inl attached)
  have nothing : machine.board.pending = [] :=
    List.eq_nil_iff_forall_not_mem.mpr fun entry member => unheard _ _ (.inr member)
  have parted : machine.board.Parted := reached ▸ parted_run (Board.parted_of_bare bare) operations
  have rate : machine.statedRate = none := reached ▸ (statedRate_run world operations).trans plain
  have holds := transmitter.drive.holds_rest transmitter.markLevel unforced (deaf pin)
  rw [prepared] at holds
  have shown : Solo.Shows ⟨machine.board.timebase, transmitter, pin⟩ machine
      ⟨transmitter.markLevel, machine.board.clock.toNat, machine.board.transitions pin⟩ :=
    ⟨parted, holds, others, deaf, nothing, rate, rfl, (Cycle.ofTime_toNat _).symm, rfl⟩
  obtain ⟨after, added, kept, high, record, levels, begins, met, ended⟩ :=
    shown.send filled rfl (Int.ofNat_le.mpr slow) near
  rw [show Cycle.ofTime (_ + Solo.reading _) = _ from shown.readClock.1.symm] at begins met ended
  have told : (transmitter.send machine pin data).1 = data.length := by
    rw [Transmitter.send, if_neg (by simpa using filled)]
  exact ⟨told, (Board.level_of_holds kept.holds kept.others).trans high, added,
    kept.record.trans record, levels, begins, met, kept.clock ▸ ended⟩

/-- Where nothing can be entered, nothing can be after operations of the machine that attach
no handler. -/
theorem unheard_run {world : World} {operations : List Machine.Operation}
    (unheard : ∀ pin handler, ¬ world.machine.board.Reaches pin handler)
    (spare : ∀ operation ∈ operations, operation.sparesInterrupts) (pin : Pin)
    (handler : Handler) :
    ¬ (world.run (operations.map .machine)).2.machine.board.Reaches pin handler := by
  induction operations generalizing world with
  | nil => exact unheard pin handler
  | cons operation operations ih =>
    have calm := (world.machine.quiet_perform (spare operation (List.mem_cons_self ..))).calm
    exact @ih (world.perform (.machine operation)).2
      (fun pin handler entered => unheard pin handler (calm.reaches entered))
      fun other member => spare other (List.mem_cons_of_mem _ member)

/-- A pin is wired to another and put to rest at mark. -/
def wired : List Machine.Operation :=
  [.connect 4 5, .setOutput 4 false, .setPull 4 .up, .setDirection 4 .input]

/-- A message of two bytes goes out over the wire on time. -/
theorem wired_sends_on_time :
    let machine := (Machine.connect {} 4 5).restLine 4 true .pullUpRelease
    let transmitter : Transmitter := { bitPeriod := 100, invert := false, drive := .pullUpRelease }
    let after := (transmitter.send machine 4 [0x55, 0x0F]).2
    let holds := (transmitter.plan [0x55, 0x0F]).holds
    let start := machine.board.clock + machine.board.timebase.perRead
    (transmitter.send machine 4 [0x55, 0x0F]).1 = 2 ∧ after.board.level 4 = true ∧
      ∃ added, after.board.transitions 4 = machine.board.transitions 4 ++ added ∧
        added.map (·.level) = holds.map (·.high) ∧ added.head?.map (·.cycle) = some start ∧
        (∀ index entry, added[index]? = some entry →
          machine.board.timebase.Meets (deadline start holds index) entry.cycle) ∧
        machine.board.timebase.Meets (deadline start holds holds.length) after.board.clock := by
  intro machine transmitter
  have reached : machine = (run {} (wired.map .machine)).2.machine := rfl
  have unheard : ∀ pin handler, ¬ machine.board.Reaches pin handler := by
    rw [reached]
    exact unheard_run fresh_empty.unheard (by decide)
  exact @run_sends_on_time {} (wired.map .machine) machine transmitter 4 [0x55, 0x0F] rfl rfl
    reached unheard (Machine.rest_restLine ..) (by decide +kernel) (by decide +kernel)
    (by decide) (by decide +kernel) (by decide)

end World
end PinUart
