import PinUart.Proofs.Jitter
import PinUart.Proofs.Link

/-! Clocking a message out on a line whose edges are captured. Every hold begins at its
deadline, up to the time that reading the counter takes. An edge is captured a fixed time
later, so that delays do not add up over the message. -/
namespace PinUart

/-- Reading the counter ends at the first reading that comes to within a cycle of the
deadline, or has passed it. -/
theorem Timebase.spin_ofTime {timebase : Timebase} {time due bound : Int} {now : Cycle}
    (short : timebase.perRead.toNat < 2 ^ 30) (shown : now = Cycle.ofTime time)
    (near : due - time < 2 ^ 31) (recent : -2 ^ 30 ≤ due - time) (late : time ≤ bound)
    (above : due - 2 ≤ bound) :
    ∃ final, timebase.spin (Cycle.ofTime due) now = Cycle.ofTime final ∧
      due - 1 ≤ final ∧ final ≤ bound + timebase.perRead.toNat := by
  have positive := timebase.perRead_pos
  generalize reached : Cycle.ofTime due = deadline
  fun_induction timebase.spin deadline now generalizing time with
  | case1 before reading ahead =>
    rename_i later
    have moved : reading = Cycle.ofTime (time + timebase.perRead.toNat) := by
      rw [Cycle.ofTime_add_toNat, ← shown]
    rw [Cycle.isAhead_iff_span, moved, ← reached, Cycle.span_ofTime (by omega) (by omega)] at ahead
    exact later moved (by omega) (by omega) (by omega)
  | case2 before reading =>
    rename_i passed
    have moved : reading = Cycle.ofTime (time + timebase.perRead.toNat) := by
      rw [Cycle.ofTime_add_toNat, ← shown]
    rw [Cycle.isAhead_iff_span, moved, ← reached, Cycle.span_ofTime (by omega) (by omega)] at passed
    exact ⟨_, moved, by omega, by omega⟩

theorem Timebase.perMicrosecond_pos (timebase : Timebase) : 1 ≤ timebase.perMicrosecond.toNat := by
  have fast : 1000000 ≤ timebase.rate.toNat := UInt32.le_iff_toNat_le.mp timebase.rate_ge
  have divided : timebase.perMicrosecond.toNat = timebase.rate.toNat / 1000000 :=
    UInt32.toNat_div ..
  omega

/-- Sleep for all whole microseconds but one ends a microsecond early at the latest. -/
theorem Timebase.toNat_asleep {timebase : Timebase} {left : Int}
    (long : 1 < left / timebase.perMicrosecond.toNat) (near : left < 2 ^ 31) :
    ∃ asleep : Int, asleep ≤ left - timebase.perMicrosecond.toNat ∧ 0 ≤ asleep ∧
      (UInt32.ofNat ((left / timebase.perMicrosecond.toNat).toNat - 1) *
        timebase.perMicrosecond).toNat = asleep := by
  have positive := timebase.perMicrosecond_pos
  generalize timebase.perMicrosecond = cycles at long positive ⊢
  have under := Int.ediv_mul_le left (show (cycles.toNat : Int) ≠ 0 by omega)
  obtain ⟨count, same⟩ := Int.eq_ofNat_of_zero_le (show 0 ≤ left / cycles.toNat - 1 by omega)
  have split : left / cycles.toNat * cycles.toNat = count * cycles.toNat + cycles.toNat := by
    rw [show left / cycles.toNat = count + 1 by omega, Int.add_mul, Int.one_mul]
  have nonneg : 0 ≤ (count * cycles.toNat : Int) := Int.mul_nonneg (by omega) (by omega)
  have small : (count : Int) ≤ count * cycles.toNat := by
    have := Int.mul_le_mul_of_nonneg_left (Int.ofNat_le.mpr positive)
      (show (0 : Int) ≤ count by omega)
    omega
  refine ⟨count * cycles.toNat, by omega, nonneg, ?_⟩
  have product : (count * cycles.toNat : Int) = (count * cycles.toNat : Nat) := by
    rw [Int.natCast_mul]
  rw [show (left / cycles.toNat).toNat - 1 = count by omega, UInt32.toNat_mul,
    UInt32.toNat_ofNat', Nat.mod_eq_of_lt (a := count) (by omega), Nat.mod_eq_of_lt (by omega),
    product]

/-- Ports and the board agree on the length of a microsecond, if no other rate is stated. -/
theorem Machine.perMicrosecond_eq {machine : Machine} (rate : machine.statedRate = none) :
    machine.perMicrosecond = machine.board.timebase.perMicrosecond := by
  have positive := machine.board.timebase.perMicrosecond_pos
  have same : machine.rate / 1000000 = machine.board.timebase.perMicrosecond := by
    rw [Machine.rate, rate]
    rfl
  rw [Machine.perMicrosecond, same]
  change (if machine.board.timebase.perMicrosecond ≤ 1 then 1 else _) = _
  split
  · rename_i least
    have : machine.board.timebase.perMicrosecond.toNat ≤ 1 := UInt32.le_iff_toNat_le.mp least
    apply UInt32.toNat_inj.mp
    change 1 = _
    omega
  · rfl

namespace Link

variable {link : Link} {machine : Machine} {view : View}

/-- Cycles of a microsecond. -/
def micro (link : Link) : Int := link.timebase.perMicrosecond.toNat

/-- Cycles of a bit period. -/
def period (link : Link) : Int := link.transmitter.bitPeriod.toNat

/-- The time from an edge to its capture, which waits for the mask to be lifted. -/
def latency (link : Link) : Int :=
  if link.transmitter.interruptible then link.reading else 2 * link.reading

theorem period_ge (link : Link) : 2 * link.micro + 6 * link.reading + 8 ≤ link.period := by
  have := link.paced
  unfold micro reading period
  omega

theorem period_le (link : Link) : link.period ≤ 2 ^ 26 := by
  have := link.narrow
  unfold period
  omega

theorem latency_cases (link : Link) :
    link.transmitter.interruptible = true ∧ link.latency = link.reading ∨
      link.transmitter.interruptible = false ∧ link.latency = 2 * link.reading := by
  unfold latency
  cases link.transmitter.interruptible <;> simp

theorem latency_bounds (link : Link) : 1 ≤ link.latency ∧ link.latency ≤ 2 * link.reading := by
  have := link.reading_pos
  rcases link.latency_cases with ⟨-, same⟩ | ⟨-, same⟩ <;> omega

theorem micro_pos (link : Link) : 1 ≤ link.micro := by
  have := link.timebase.perMicrosecond_pos
  unfold micro
  omega

theorem Shows.spinUntil (shown : link.Shows machine view) (due bound : Int)
    (near : due - view.time < 2 ^ 31) (recent : -2 ^ 30 ≤ due - view.time)
    (late : view.time ≤ bound) (above : due - 2 ≤ bound) :
    ∃ final, link.Shows (machine.spinUntil (Cycle.ofTime due)) { view with time := final } ∧
      due - 1 ≤ final ∧ final ≤ bound + link.reading := by
  have := link.period_ge
  have := link.period_le
  have := link.micro_pos
  have short : link.timebase.perRead.toNat < 2 ^ 30 := by
    unfold reading at *
    omega
  rw [← shown.timebase] at short
  obtain ⟨final, spun, least, most⟩ :=
    Timebase.spin_ofTime short shown.clock near recent late above
  rw [shown.timebase] at most
  exact ⟨final, shown.of_board (shown.wires.of_eq rfl rfl) rfl spun shown.masked shown.pending rfl,
    least, most⟩

namespace View

/-- An edge that waited has been taken in, and no other can come in meanwhile. -/
def settled (view : View) (link : Link) : View :=
  if view.waiting then { view with waiting := false }.heard link else view

/-- The time that it takes to let a waiting edge in. -/
def delay (view : View) (link : Link) : Int := if view.waiting then link.reading else 0

theorem delay_bounds (view : View) (link : Link) :
    0 ≤ view.delay link ∧ view.delay link ≤ link.reading := by
  have := link.reading_pos
  unfold delay
  split <;> omega

theorem time_unmask (view : View) (link : Link) :
    (view.unmask link).time = view.time + view.delay link := by
  unfold unmask delay
  split
  · rfl
  · exact (Int.add_zero _).symm

/-- Lifting the mask for a while only lets a waiting edge in. -/
theorem mask_unmask {view : View} (masked : view.masked = true) (time : Int) :
    { view.unmask link with time, masked := true } = { view.settled link with time } := by
  unfold unmask settled
  split
  · rw [← masked]
    rfl
  · rw [← masked]

end View

/-- The wait for a deadline takes in an edge that waits, and ends late by one reading for
itself and one for that edge. -/
theorem Shows.awaitDeadline (shown : link.Shows machine view) (due : Int)
    (mode : view.masked = !link.transmitter.interruptible)
    (hidden : view.waiting → view.masked)
    (room : view.waiting → view.edges.length + 1 < link.capacity)
    (enough : 2 * link.micro + link.reading ≤ due - view.time) (near : due - view.time < 2 ^ 31) :
    ∃ final, link.Shows (link.transmitter.awaitDeadline machine (Cycle.ofTime due))
        { (view.tick link).settled link with time := final } ∧
      due - 1 ≤ final ∧
      final ≤ due - 1 + view.delay link + link.reading := by
  have := link.reading_pos
  have := link.micro_pos
  have := link.period_ge
  have := link.period_le
  have := view.delay_bounds link
  obtain ⟨moved, read⟩ := shown.readClock
  have paced := Machine.perMicrosecond_eq read.rate
  rw [read.timebase] at paced
  unfold Transmitter.awaitDeadline
  generalize machine.readClock = clocked at moved read paced ⊢
  obtain ⟨now, after⟩ := clocked
  have ticked : (view.tick link).time = view.time + link.reading := rfl
  simp only at moved read paced ⊢
  have left : Cycle.span now (Cycle.ofTime due) = due - (view.time + link.reading) := by
    rw [moved, ticked, Cycle.span_ofTime (by omega) (by omega)]
  have micro : (after.perMicrosecond.toNat : Int) = link.micro := by
    rw [paced]
    rfl
  have long : 1 < (due - (view.time + link.reading)) / link.micro :=
    (Int.le_ediv_iff_mul_le (by omega)).mpr (by omega)
  obtain ⟨asleep, most, least, slept⟩ := Timebase.toNat_asleep long (by omega)
  change asleep ≤ _ - link.micro at most
  change (UInt32.ofNat ((_ / link.micro).toNat - 1) * _).toNat = asleep at slept
  rw [left, micro, if_pos long]
  cases interruptible : link.transmitter.interruptible with
  | true =>
    have unmasked : view.masked = false := by rw [mode, interruptible]; rfl
    have nothing : view.waiting = false := by
      rw [← Bool.not_eq_true]
      intro waiting
      rw [hidden waiting] at unmasked
      cases unmasked
    have rested := read.sleep (UInt32.ofNat
      (((due - (view.time + link.reading)) / link.micro).toNat - 1))
    rw [slept] at rested
    obtain ⟨final, spun, early, late⟩ :=
      rested.spinUntil due (due - 1) (by simp only; omega) (by simp only; omega)
        (by simp only; omega) (by omega)
    refine ⟨final, ?_, early, by omega⟩
    rw [Transmitter.hush, Transmitter.unhush, if_pos interruptible, if_pos interruptible]
    simpa [View.settled, View.tick, nothing] using spun
  | false =>
    have masked : view.masked = true := by rw [mode, interruptible]; rfl
    have delayed : (view.tick link).delay link = view.delay link := rfl
    have rested := ((read.unmask room).sleep (UInt32.ofNat
      (((due - (view.time + link.reading)) / link.micro).toNat - 1))).mask
    rw [slept] at rested
    rw [Transmitter.hush, Transmitter.unhush, if_neg (by simp [interruptible]),
      if_neg (by simp [interruptible])]
    obtain ⟨final, spun, early, late⟩ :=
      rested.spinUntil due (due - 1 + view.delay link)
        (by simp only [View.time_unmask, ticked, delayed]; omega)
        (by simp only [View.time_unmask, ticked, delayed]; omega)
        (by simp only [View.time_unmask, ticked, delayed]; omega) (by omega)
    refine ⟨final, ?_, early, late⟩
    rw [← @View.mask_unmask link (view.tick link) masked]
    exact spun

/-- One hold: its edge is captured a fixed time after it, and the next hold begins when
its own deadline has come. -/
theorem Shows.hold {next : Bool} (shown : link.Shows machine view) (due : Int)
    (mode : view.masked = !link.transmitter.interruptible) (settled : view.waiting = false)
    (changes : next ≠ view.high) (room : view.edges.length + 1 < link.capacity)
    (enough : 2 * link.micro + 2 * link.reading ≤ due - view.time)
    (near : due - view.time < 2 ^ 31) :
    ∃ final, link.Shows
        (link.transmitter.awaitDeadline
          (machine.setLine link.sender next link.transmitter.drive) (Cycle.ofTime due))
        { view with
          high := next
          time := final
          edges := view.edges ++ [.ofLevel (Cycle.ofTime (view.time + link.latency)) next] } ∧
      due - 1 ≤ final ∧ final ≤ due - 1 + link.latency := by
  have := link.reading_pos
  have turned := shown.setLine next room settled
  rcases link.latency_cases with ⟨interruptible, same⟩ | ⟨masking, same⟩
  · have unmasked : view.masked = false := by rw [mode, interruptible]; rfl
    rw [View.turn, if_neg changes.symm, if_neg (by simp [unmasked])] at turned
    have nothing : ({ view with high := next }.heard link).waiting = false := settled
    obtain ⟨final, awaited, early, late⟩ :=
      turned.awaitDeadline due mode (by simp [nothing]) (by simp [nothing])
        (by simp only [View.heard]; omega) (by simp only [View.heard]; omega)
    refine ⟨final, ?_, early, ?_⟩
    · rw [View.settled, if_neg (by simp [View.tick, nothing])] at awaited
      rw [same]
      exact awaited
    · rw [View.delay, if_neg (by simp [nothing])] at late
      omega
  · have masked : view.masked = true := by rw [mode, masking]; rfl
    rw [View.turn, if_neg changes.symm, if_pos masked] at turned
    obtain ⟨final, awaited, early, late⟩ :=
      turned.awaitDeadline due mode (fun _ => masked) (fun _ => room)
        (by simp only; omega) (by simp only; omega)
    refine ⟨final, ?_, early, ?_⟩
    · rw [same]
      have late : view.time + 2 * link.reading = view.time + link.reading + link.reading := by omega
      rw [late]
      simpa [View.settled, View.tick, View.heard, settled] using awaited
    · rw [View.delay, if_pos rfl] at late
      omega

/-- All holds of a message: each edge is seen a fixed time after it, and no hold is off by
more than that time, however long the message is. -/
theorem Shows.sendHolds {high : Bool} {holds : List Hold} {due : Int}
    (alternating : Plan.Alternating link.transmitter.bitPeriod.toNat high holds)
    (shown : link.Shows machine view) (same : view.high = high)
    (mode : view.masked = !link.transmitter.interruptible) (settled : view.waiting = false)
    (room : view.edges.length + holds.length < link.capacity) (early : due - 1 ≤ view.time)
    (late : view.time ≤ due - 1 + link.latency) :
    ∃ next sent,
      link.Shows (link.transmitter.sendHolds link.sender machine (Cycle.ofTime due) holds) next ∧
      next.masked = view.masked ∧ next.waiting = false ∧ next.edges = view.edges ++ sent ∧
      (holds ≠ [] → ∃ last,
        Sighted link.latency (view.time + link.latency) holds (sent.map .edge) last ∧
        last ≤ next.time ∧ next.time ≤ last + 10 * link.period) := by
  have := link.reading_pos
  have := link.micro_pos
  have := link.period_ge
  have := link.period_le
  have := link.latency_bounds
  induction alternating generalizing machine view due with
  | nil high => exact ⟨view, [], shown, rfl, settled, by simp, by simp⟩
  | @cons high hold holds changes least most later ih =>
    have held : link.period ≤ hold.cycles.toNat ∧ hold.cycles.toNat ≤ 10 * link.period := by
      unfold period
      omega
    rw [List.length_cons] at room
    obtain ⟨final, shown, soonest, latest⟩ :=
      shown.hold (due + hold.cycles.toNat) mode settled (same ▸ changes) (by omega) (by omega)
        (by omega)
    rw [Transmitter.sendHolds, ← Cycle.ofTime_add_toNat]
    by_cases single : holds = []
    · subst single
      refine ⟨_, _, shown, rfl, settled, rfl, fun _ => ⟨_, .last _ hold, ?_, ?_⟩⟩
      · simp only
        omega
      · simp only
        omega
    · obtain ⟨next, sent, shown, kept, through, edges, sighted⟩ :=
        ih shown rfl mode settled (by simp only [List.length_append, List.length_singleton]; omega)
          soonest latest
      obtain ⟨last, sighted, after, near⟩ := sighted single
      have short : hold.cycles.toNat - link.latency ≤
          final + link.latency - (view.time + link.latency) := by omega
      have long : final + link.latency - (view.time + link.latency) ≤
          hold.cycles.toNat + link.latency := by omega
      refine ⟨next, .ofLevel (Cycle.ofTime (view.time + link.latency)) hold.high :: sent, shown,
        kept, through, by rw [edges, List.append_assoc, List.singleton_append], fun _ => ⟨last, ?_⟩⟩
      exact ⟨@Sighted.next link.latency _ _ _ hold _ [] _ short long (by simp) sighted, after, near⟩

theorem Shows.hush (shown : link.Shows machine view) (unmasked : view.masked = false) :
    link.Shows (link.transmitter.hush machine)
      { view with masked := !link.transmitter.interruptible } := by
  unfold Transmitter.hush
  cases link.transmitter.interruptible with
  | true =>
    rw [if_pos rfl, Bool.not_true, ← unmasked]
    exact shown
  | false =>
    exact shown.mask

theorem Shows.unhush (shown : link.Shows machine view)
    (mode : view.masked = !link.transmitter.interruptible) (settled : view.waiting = false) :
    link.Shows (link.transmitter.unhush machine) { view with masked := false } := by
  unfold Transmitter.unhush
  cases interruptible : link.transmitter.interruptible with
  | true =>
    rw [interruptible, Bool.not_true] at mode
    rw [if_pos rfl, ← mode]
    exact shown
  | false =>
    have opened := shown.unmask (by simp [settled])
    rw [View.unmask, if_neg (by simp [settled])] at opened
    exact opened

/-- What a line shows after a message: all its edges wait in the capture, and interrupts are let
in again. -/
theorem Shows.send {data : List UInt8} (shown : link.Shows machine view) (filled : data ≠ [])
    (rests : view.high = link.transmitter.markLevel) (unmasked : view.masked = false)
    (settled : view.waiting = false) (empty : view.edges = [])
    (room : 10 * data.length < link.capacity) :
    ∃ next last,
      link.Shows (link.transmitter.send machine link.sender data).2 next ∧
      Sighted link.latency (view.time + link.reading + link.latency)
        (link.transmitter.plan data).holds (next.edges.map .edge) last ∧
      last ≤ next.time ∧ next.time ≤ last + 10 * link.period ∧
      next.masked = false ∧ next.waiting = false := by
  have := link.latency_bounds
  have fits : 10 * link.transmitter.bitPeriod.toNat < 2 ^ 32 := by
    have := link.narrow
    omega
  have most := @Plan.length_holds_ofData_le link.transmitter.bitPeriod link.transmitter.invert data
  have alternating := @Plan.alternating_ofData _ link.transmitter.invert data fits
  have some : (link.transmitter.plan data).holds ≠ [] := by
    obtain ⟨byte, rest, rfl⟩ := List.exists_cons_of_ne_nil filled
    rw [Transmitter.plan, Plan.ofData_cons]
    exact Plan.holds_ofPlace_ne_nil (Nat.zero_le _)
  have positive : 0 < data.length := List.length_pos_iff.mpr filled
  have free : view.edges.length + 1 < link.capacity := by
    rw [empty, List.length_nil]
    omega
  have rested := shown.setLine link.transmitter.markLevel free settled
  rw [View.turn, if_pos rests] at rested
  obtain ⟨moved, read⟩ := (rested.hush unmasked).readClock
  rw [Transmitter.send, if_neg (by simpa using filled)]
  dsimp only
  rw [moved]
  obtain ⟨next, sent, shown, kept, through, edges, sighted⟩ :=
    read.sendHolds alternating rests rfl settled
      (by simp only [View.tick, empty, List.length_nil]; omega) (Int.sub_le_self _ (by decide))
      (by omega)
  obtain ⟨last, sighted, after, near⟩ := sighted some
  have opened := shown.unhush kept through
  have queued : next.edges = sent := by
    rw [edges, View.tick]
    simp [empty]
  refine ⟨_, last, opened, ?_, after, near, rfl, through⟩
  rw [queued]
  exact sighted

end Link
end PinUart
