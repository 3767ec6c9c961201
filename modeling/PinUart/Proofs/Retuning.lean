import PinUart.Proofs.Course
import PinUart.Proofs.Speeds
import PinUart.Proofs.Wiring

/-! A change of speed while edges are queued. They are decoded when the port is polled next, at
the bit period that it has then. -/
namespace PinUart

/-- Each sight brings one finding at most. -/
theorem Decoder.length_hear_le (decoder : Decoder) (sights : List Sight) :
    (decoder.hear sights).1.length ≤ sights.length := by
  induction sights generalizing decoder with
  | nil => exact Nat.le_refl 0
  | cons sight sights ih =>
    cases sight with
    | edge edge => exact Nat.succ_le_succ (ih _)
    | look now =>
      unfold hear
      split
      · exact (ih _).trans (Nat.le_succ _)
      · exact Nat.succ_le_succ (ih _)

namespace Intake

/-- Nothing is left to decode. -/
structure Settled (intake : Intake) : Prop where
  idle : intake.decoder.isIdle
  none : intake.queue.toList = []

variable {intake : Intake}

/-- A look brings nothing then. -/
theorem Settled.look (settled : intake.Settled) (now : Cycle) :
    (intake.act (.look now)).2.Settled ∧
      (intake.act (.look now)).2.received = intake.received := by
  have phase : intake.decoder.phase = .idle := eq_of_beq settled.idle
  have nothing : intake.decoder.owedEdge? now = Option.none := by
    rw [Decoder.owedEdge?, phase]
  have heard : intake.decoder.hear (intake.sights now) = ([], intake.decoder.keepReach now) := by
    rw [sights, settled.none]
    simp only [List.map_nil, List.nil_append, Decoder.hear, nothing]
  have rests : (intake.decoder.keepReach now).isIdle := by
    unfold Decoder.keepReach
    split <;> exact settled.idle
  refine ⟨⟨?_, EdgeQueue.toList_discard _⟩, ?_⟩
  · rw [act, heard]
    exact rests
  · rw [act, brought, heard]
    rfl

theorem Settled.looks (settled : intake.Settled) (looks : List Cycle) :
    (intake.run (looks.map .look)).2.Settled ∧
      (intake.run (looks.map .look)).2.received = intake.received := by
  induction looks generalizing intake with
  | nil => exact ⟨settled, rfl⟩
  | cons now looks ih =>
    obtain ⟨still, same⟩ := settled.look now
    obtain ⟨later, kept⟩ := ih still
    exact ⟨later, kept.trans same⟩

/-- A message waits as edges, with room for its bytes. The decoder has been at rest for a bit
period before it. -/
structure Holds (intake : Intake) (sent : UInt32) (data : List UInt8) (since start last : Int) :
    Prop where
  empty : intake.received = []
  room : data.length < intake.bytes.capacity
  rests : intake.decoder = intake.decoder.resting since
  rested : since + sent.toNat ≤ start + 1
  recent : start < since + 2 ^ 31 - 2
  sighted : Sighted 0 start (Plan.ofData data sent intake.decoder.invert).holds
    (intake.queue.toList.map .edge) last

/-- What is there after a look was there before, or was brought by it. -/
theorem mem_received_look {now : Cycle} {byte : UInt8}
    (member : byte ∈ (intake.act (.look now)).2.received) :
    byte ∈ intake.received ∨ byte ∈ intake.brought now := by
  have kept := intake.bytes.toList_storeAll (intake.decoder.hear (intake.sights now)).1
  rw [(deposit_completions _ _).1] at kept
  have stored : byte ∈ (intake.bytes.toList ++ intake.brought now).take
      (intake.bytes.capacity - 1) := kept ▸ member
  exact List.mem_append.mp (List.mem_of_mem_take stored)

/-- Neither there nor under way is a byte of zeros. -/
structure Nonzero (intake : Intake) : Prop where
  received : 0 ∉ intake.received
  lit : (intake.decoder.hear (intake.queue.toList.map .edge)).2.Lit
  brought : 0 ∉ completions (intake.decoder.hear (intake.queue.toList.map .edge)).1

theorem Nonzero.look (nonzero : intake.Nonzero) (now : Cycle) :
    (intake.act (.look now)).2.Nonzero := by
  obtain ⟨lit, none⟩ := nonzero.lit.look now
  have told : 0 ∉ intake.brought now := by
    rw [Intake.brought, sights, Decoder.hear_append, completions_append, List.mem_append]
    exact not_or.mpr ⟨nonzero.brought, none⟩
  have after : (intake.act (.look now)).2.decoder =
      ((intake.decoder.hear (intake.queue.toList.map .edge)).2.hear [.look now]).2 := by
    rw [act, sights, Decoder.hear_append]
  have empty : (intake.act (.look now)).2.queue.toList = [] := EdgeQueue.toList_discard _
  refine ⟨fun member => ?_, ?_, ?_⟩
  · rcases mem_received_look member with old | new
    · exact nonzero.received old
    · exact told new
  · rw [empty, after]
    exact lit
  · rw [empty]
    exact List.not_mem_nil

theorem Nonzero.take (nonzero : intake.Nonzero) : (intake.act .take).2.Nonzero := by
  refine ⟨?_, nonzero.lit, nonzero.brought⟩
  rw [received_take]
  exact fun member => nonzero.received (List.mem_of_mem_tail member)

/-- After a look there are the bytes that it completes, if there is room for them. -/
theorem look_of_hear {now : Cycle} {findings : List Finding} {after : Decoder}
    (heard : intake.decoder.hear (intake.sights now) = (findings, after)) (rests : after.isIdle)
    (empty : intake.received = []) (room : (completions findings).length < intake.bytes.capacity) :
    (intake.act (.look now)).2.Settled ∧
      (intake.act (.look now)).2.received = completions findings ∧
      (completions findings).length ≤ intake.queue.toList.length + 1 := by
  refine ⟨⟨?_, EdgeQueue.toList_discard _⟩, ?_, ?_⟩
  · rw [act, heard]
    exact rests
  · have kept := intake.bytes.toList_storeAll findings
    have none : intake.bytes.toList = [] := empty
    rw [none, List.nil_append, List.take_of_length_le (by omega),
      (deposit_completions _ _).1] at kept
    rw [act, brought, heard]
    exact kept
  · have counted : (completions findings).length ≤ findings.length := List.length_filterMap_le _ _
    have heardAll := intake.decoder.length_hear_le (intake.sights now)
    rw [heard, sights, List.length_append, List.length_map] at heardAll
    exact counted.trans heardAll

/-- The first look brings the message, if the bit period suits it. -/
theorem Holds.look {sent : UInt32} {data : List UInt8} {since start last now : Int}
    (holds : intake.Holds sent data since start last)
    (suits : Suits sent.toNat intake.decoder.period) (wide : 6 ≤ sent.toNat)
    (narrow : sent.toNat ≤ 2 ^ 26) (past : last + 11 * sent.toNat ≤ now)
    (near : now < last + 2 ^ 31) :
    (intake.act (.look (Cycle.ofTime now))).2.Settled ∧
      (intake.act (.look (Cycle.ofTime now))).2.received = data ∧
      data.length ≤ intake.queue.toList.length + 1 := by
  obtain ⟨findings, moved, heard, rfl⟩ := Decoder.hear_suited suits wide narrow holds.rested
    holds.recent holds.sighted past near
  rw [← holds.rests] at heard
  exact look_of_hear heard rfl holds.empty holds.room

end Intake

namespace Port

variable {port : Port} {machine : Machine} {intake : Intake} {data : List UInt8} {fuel : Nat}

/-- If the first look leaves nothing to decode, it is told how many bytes there are. -/
theorem available_settled (found : port.intake? machine = some intake)
    (settled : (intake.act (.look machine.readClock.1)).2.Settled) :
    ∃ reached, (port.available machine).2.1.intake? (port.available machine).2.2 = some reached ∧
      reached.Settled ∧
      reached.received = (intake.act (.look machine.readClock.1)).2.received ∧
      (port.available machine).1 = reached.received.length := by
  have receives : port.reception.isNone = false := by
    obtain ⟨reception, -, held, -⟩ := intake?_eq_some.mp found
    rw [held]
    rfl
  have collected := (port.tends_collect machine).intake intake found
  rw [Intake.run_singleton] at collected
  have counted := (port.collect machine).1.buffered_eq.trans
    (congrArg List.length (received_of_intake collected))
  unfold available
  rw [receives, if_neg (by simp)]
  generalize port.collect machine = result at collected counted ⊢
  obtain ⟨other, between⟩ := result
  dsimp only at collected counted ⊢
  split
  · have slept := (other.tends_sleep between (other.patienceMicros between)).intake _ collected
    have again := (other.tends_collect
      (between.sleep (other.patienceMicros between))).intake _ slept
    rw [Intake.run_singleton] at again
    obtain ⟨still, same⟩ := settled.look
      (between.sleep (other.patienceMicros between)).readClock.1
    refine ⟨_, again, still, same, ?_⟩
    exact (buffered_eq _).trans (congrArg List.length (received_of_intake again))
  · exact ⟨_, collected, settled, rfl, counted⟩

/-- A drain hands out what is there after its first look, if nothing is left to decode then. -/
theorem drainWith_settled (found : port.intake? machine = some intake)
    (settled : (intake.act (.look machine.readClock.1)).2.Settled)
    (whole : (intake.act (.look machine.readClock.1)).2.received = data)
    (enough : data.length < fuel) : (port.drainWith machine fuel).1 = data := by
  induction data generalizing port machine intake fuel with
  | nil =>
    obtain ⟨reached, -, -, same, count⟩ := available_settled found settled
    obtain ⟨polls, rfl⟩ := Nat.exists_eq_add_of_lt enough
    unfold drainWith
    dsimp only
    rw [if_pos (by rw [count, same, whole]; rfl)]
  | cons byte rest ih =>
    obtain ⟨reached, available, still, same, count⟩ := available_settled found settled
    obtain ⟨polls, rfl⟩ := Nat.exists_eq_add_of_lt enough
    have filled := same.trans whole
    unfold drainWith
    dsimp only
    rw [if_neg (by rw [count, filled]; simp)]
    generalize port.available machine = result at available ⊢
    obtain ⟨told, other, between⟩ := result
    dsimp only at available ⊢
    obtain ⟨looks, tends, taken⟩ := other.tends_read between
    obtain ⟨quiet, kept⟩ := still.looks looks
    have first := taken reached available
    have after := tends.intake reached available
    rw [kept, filled] at first
    rw [Intake.run_append, Intake.run_singleton] at after
    have left : ((reached.run (looks.map .look)).2.act .take).2.received = rest := by
      rw [Intake.received_take, kept, filled]
      rfl
    have waits : ((reached.run (looks.map .look)).2.act .take).2.Settled := ⟨quiet.idle, quiet.none⟩
    obtain ⟨next, stays⟩ := waits.look (other.read between).2.2.readClock.1
    have later := ih after next (stays.trans left)
      (show rest.length < (byte :: rest).length + polls by rw [List.length_cons]; omega)
    rw [first, later]
    rfl

/-- What a drain hands out was there at some time, with all that looks and takes preserve. -/
theorem drainWith_preserves {keeps : Intake → Prop}
    (looked : ∀ intake now, keeps intake → keeps (intake.act (.look now)).2)
    (taken : ∀ intake, keeps intake → keeps (intake.act .take).2)
    (found : port.intake? machine = some intake) (kept : keeps intake) (fuel : Nat) :
    ∀ byte ∈ (port.drainWith machine fuel).1, ∃ reached : Intake, keeps reached ∧
      byte ∈ reached.received := by
  have runs : ∀ (looks : List Cycle) (intake : Intake), keeps intake →
      keeps (intake.run (looks.map .look)).2 := by
    intro looks
    induction looks with
    | nil => exact fun _ kept => kept
    | cons now looks ih => exact fun intake kept => ih _ (looked intake now kept)
  induction fuel generalizing port machine intake with
  | zero =>
    intro byte member
    cases member
  | succ fuel ih =>
    obtain ⟨early, counted⟩ := port.tends_available machine
    have available := counted.intake intake found
    have still := runs early intake kept
    unfold drainWith
    dsimp only
    split
    · intro byte member
      cases member
    · obtain ⟨late, tends, first⟩ :=
        (port.available machine).2.1.tends_read (port.available machine).2.2
      have after := tends.intake _ available
      rw [Intake.run_append, Intake.run_singleton] at after
      have ready := runs late _ still
      intro byte member
      rcases List.mem_append.mp member with now | later
      · rw [first _ available] at now
        exact ⟨_, ready, List.mem_of_mem_head? (Option.mem_toList.mp now)⟩
      · exact ih after (taken _ ready) byte later

/-- A running port has a message in its capture that was sent with a bit period, and the line
has been idle since then. -/
structure Stocked (port : Port) (machine : Machine) (sent : UInt32) (data : List UInt8) : Prop where
  started : port.started
  period : port.decoder.bitPeriod = sent
  waits : ∃ intake since start last now, port.intake? machine = some intake ∧
    intake.Holds sent data since start last ∧ machine.board.clock = Cycle.ofTime now ∧
    last + 11 * sent.toNat ≤ now ∧ now + machine.board.timebase.perRead.toNat < last + 2 ^ 31

theorem drain_settled (found : port.intake? machine = some intake)
    (looked : (intake.act (.look machine.readClock.1)).2.Settled ∧
      (intake.act (.look machine.readClock.1)).2.received = data ∧
      data.length ≤ intake.queue.toList.length + 1) : (port.drain machine).1 = data := by
  obtain ⟨settled, whole, short⟩ := looked
  refine drainWith_settled found settled whole ?_
  obtain ⟨reception, queue, held, known, rfl⟩ := intake?_eq_some.mp found
  rw [drainBound, held]
  dsimp only
  rw [Machine.queued_eq known]
  dsimp only at short
  omega

/-- Draining a port with a message, at a bit period that suits it. -/
theorem drain_holds {sent : UInt32} {since start last now : Int}
    (found : port.intake? machine = some intake) (holds : intake.Holds sent data since start last)
    (clock : machine.board.clock = Cycle.ofTime now)
    (past : last + 11 * sent.toNat ≤ now)
    (near : now + machine.board.timebase.perRead.toNat < last + 2 ^ 31)
    (suits : Suits sent.toNat intake.decoder.period) (wide : 6 ≤ sent.toNat)
    (narrow : sent.toNat ≤ 2 ^ 26) : (port.drain machine).1 = data := by
  have time := Machine.readClock_ofTime clock rfl
  refine drain_settled found (time ▸ holds.look suits wide narrow ?_ near)
  omega

/-- The bit period is changed for all edges that wait. -/
theorem intake?_setSpeed {baud period : UInt32} (fits : periodFor machine baud = .ok period)
    (found : port.intake? machine = some intake) :
    (port.setSpeed machine baud).2.1.intake? (port.setSpeed machine baud).2.2 =
      some { intake with decoder := intake.decoder.withPeriod period } := by
  obtain ⟨reception, queue, held, known, rfl⟩ := intake?_eq_some.mp found
  unfold setSpeed
  rw [fits]
  exact intake?_eq_some.mpr ⟨reception, queue, held, known, rfl⟩

theorem board_setSpeed (port : Port) (machine : Machine) (baud : UInt32) :
    (port.setSpeed machine baud).2.2.board = machine.board := by
  unfold setSpeed
  split <;> rfl

/-- Draining after a change of speed that the message bears. -/
theorem Stocked.drain_setSpeed {sent baud period : UInt32}
    (stocked : Stocked port machine sent data) (fits : periodFor machine baud = .ok period)
    (positive : 1 ≤ period.toNat) (suits : Suits sent.toNat period.toNat)
    (wide : 6 ≤ sent.toNat) (narrow : sent.toNat ≤ 2 ^ 26) :
    ((port.setSpeed machine baud).2.1.drain (port.setSpeed machine baud).2.2).1 = data := by
  obtain ⟨intake, since, start, last, now, found, holds, clock, past, near⟩ := stocked.waits
  have same := board_setSpeed port machine baud
  have period : (intake.decoder.withPeriod period).bitPeriod = period :=
    Decoder.bitPeriod_create positive true
  refine drain_holds (intake?_setSpeed fits found)
    ⟨holds.empty, holds.room, ?_, holds.rested, holds.recent, holds.sighted⟩ (same ▸ clock) past
    (same ▸ near) ?_ wide narrow
  · exact congrArg (Decoder.withPeriod · _) holds.rests
  · rw [Decoder.period, period]
    exact suits

/-- A receiver that runs on an otherwise unused machine. -/
def soleReceiver (decoder : Decoder) : Port :=
  { (create {} { rxPin := some 5 }).1 with
    reception := some ⟨0, Ring.empty 8 0⟩
    decoder
    started := true }

/-- That machine, with two edges in the capture. -/
def soleMachine (timebase : Timebase) (first second : Edge) (now : Int) : Machine :=
  { board := { timebase, clock := Cycle.ofTime now }
    captures := #[⟨5, ((EdgeQueue.mk (Ring.empty 8 ⟨0⟩) false).pushAll [first, second])⟩] }

theorem intake?_sole (decoder : Decoder) (timebase : Timebase) (first second : Edge) (now : Int) :
    ∃ queue, queue.toList = [first, second] ∧
      (soleReceiver decoder).intake? (soleMachine timebase first second now) =
        some { queue, decoder, bytes := Ring.empty 8 0, losses := {}, listening := false } :=
  ⟨_, rfl, rfl⟩

/-- A byte with two edges may wait there. -/
theorem stocked_sole {sent : UInt32} {invert : Bool} {byte : UInt8} {first second : Hold}
    (timebase : Timebase) (brief : timebase.perRead = 1) (wide : 6 ≤ sent.toNat)
    (narrow : sent.toNat ≤ 2 ^ 26)
    (holds : (Plan.ofData [byte] sent invert).holds = [first, second]) :
    Stocked (soleReceiver ((Decoder.create sent invert).resting (-2 ^ 30)))
      (soleMachine timebase (.ofLevel (Cycle.ofTime 0) first.high)
        (.ofLevel (Cycle.ofTime first.cycles.toNat) second.high)
        (first.cycles.toNat + 11 * sent.toNat)) sent [byte] := by
  have period := Decoder.bitPeriod_create (show 1 ≤ sent.toNat by omega) invert
  obtain ⟨queue, edges, found⟩ := intake?_sole ((Decoder.create sent invert).resting (-2 ^ 30))
    timebase (.ofLevel (Cycle.ofTime 0) first.high)
    (.ofLevel (Cycle.ofTime first.cycles.toNat) second.high) (first.cycles.toNat + 11 * sent.toNat)
  refine ⟨rfl, period, _, -2 ^ 30, 0, first.cycles.toNat, _, found, ?_, rfl, Int.le_refl _, ?_⟩
  · refine ⟨rfl, show 1 < 8 by decide, rfl, by omega, by decide, ?_⟩
    rw [edges]
    refine holds.symm ▸ @Sighted.next 0 0 first.cycles.toNat first.cycles.toNat first [second] []
      [.edge (.ofLevel (Cycle.ofTime first.cycles.toNat) second.high)] (by omega) (by omega)
      (by simp) (.last _ _)
  · have once : (soleMachine timebase (.ofLevel (Cycle.ofTime 0) first.high)
        (.ofLevel (Cycle.ofTime first.cycles.toNat) second.high)
        (first.cycles.toNat + 11 * sent.toNat)).board.timebase.perRead.toNat = 1 :=
      congrArg UInt32.toNat brief
    rw [once]
    omega

private theorem holds_low (sent : UInt32) :
    (Plan.ofData [0x00] sent false).holds = [⟨false, 9 * sent⟩, ⟨true, 1 * sent⟩] := by
  repeat rw [Plan.holds_of_next? rfl]
  rw [Plan.holds_of_levels_nil rfl]
  rfl

private theorem holds_top (sent : UInt32) :
    (Plan.ofData [0x80] sent true).holds = [⟨true, 8 * sent⟩, ⟨false, 2 * sent⟩] := by
  repeat rw [Plan.holds_of_next? rfl]
  rw [Plan.holds_of_levels_nil rfl]
  rfl

/-- At a bit period that is too long, a byte of zeros is lost. -/
theorem drain_setSpeed_zeros {port : Port} {machine : Machine} {sent baud period : UInt32}
    {intake : Intake} (found : port.intake? machine = some intake)
    (fits : periodFor machine baud = .ok period) (positive : 1 ≤ period.toNat)
    (narrow : sent.toNat ≤ 2 ^ 26)
    (rests : intake.decoder = (Decoder.create sent false).resting (-2 ^ 30))
    (edges : intake.queue.toList = [.ofLevel (Cycle.ofTime 0) false,
      .ofLevel (Cycle.ofTime (9 * sent.toNat)) true])
    (empty : intake.received = [])
    (long : 9 * (sent.toNat : Int) < 8 * period.toNat + period.toNat / 2 + 1 + sent.toNat % 2) :
    0 ∉ ((port.setSpeed machine baud).2.1.drain (port.setSpeed machine baud).2.2).1 := by
  have own : ((Decoder.create sent false).withPeriod period).period = period.toNat :=
    congrArg (fun period : UInt32 => (period.toNat : Int)) (Decoder.bitPeriod_create positive true)
  have heard := @Decoder.hear_zeros ((Decoder.create sent false).withPeriod period) sent narrow rfl
    (own.symm ▸ long)
  have start : Intake.Nonzero { intake with decoder := intake.decoder.withPeriod period } := by
    refine ⟨?_, ?_, ?_⟩
    · exact fun member => List.not_mem_nil (empty ▸ member)
    · rw [rests, edges]
      exact heard.1
    · rw [rests, edges]
      exact heard.2
  intro member
  obtain ⟨reached, nonzero, there⟩ := drainWith_preserves
    (fun intake now (kept : intake.Nonzero) => kept.look now) (fun _ kept => kept.take)
    (intake?_setSpeed fits found) start _ 0 member
  exact nonzero.received there

/-- At a bit period that is too short, a one that follows after zeros is lost. -/
theorem drain_setSpeed_one {port : Port} {machine : Machine} {sent baud period : UInt32}
    {intake : Intake} (found : port.intake? machine = some intake)
    (fits : periodFor machine baud = .ok period) (positive : 1 ≤ period.toNat)
    (narrow : sent.toNat ≤ 2 ^ 26)
    (rests : intake.decoder = (Decoder.create sent true).resting (-2 ^ 30))
    (edges : intake.queue.toList = [.ofLevel (Cycle.ofTime 0) true,
      .ofLevel (Cycle.ofTime (8 * sent.toNat)) false])
    (empty : intake.received = []) (room : 1 < intake.bytes.capacity)
    (short : 8 * (period.toNat : Int) + period.toNat / 2 ≤ 8 * sent.toNat + 1) :
    ((port.setSpeed machine baud).2.1.drain (port.setSpeed machine baud).2.2).1 = [0] := by
  have own : ((Decoder.create sent true).withPeriod period).period = period.toNat :=
    congrArg (fun period : UInt32 => (period.toNat : Int)) (Decoder.bitPeriod_create positive true)
  obtain ⟨moved, heard⟩ := @Decoder.hear_one ((Decoder.create sent true).withPeriod period) sent
    narrow rfl (own.symm ▸ short)
  refine drain_settled (intake?_setSpeed fits found) ?_
  generalize (port.setSpeed machine baud).2.2.readClock.1 = now
  have sighted : (intake.decoder.withPeriod period).hear
        (Intake.sights { intake with decoder := intake.decoder.withPeriod period } now) =
      ([.progress, .completed 0],
        (((Decoder.create sent true).withPeriod period).resting moved).keepReach now) := by
    rw [Intake.sights, Decoder.hear_append, edges, rests]
    simp only [List.map_cons, List.map_nil]
    rw [show ((Decoder.create sent true).resting (-2 ^ 30)).withPeriod period =
      ((Decoder.create sent true).withPeriod period).resting (-2 ^ 30) from rfl, heard]
    rfl
  have rested :
      ((((Decoder.create sent true).withPeriod period).resting moved).keepReach now).isIdle := by
    unfold Decoder.keepReach
    split <;> rfl
  exact @Intake.look_of_hear { intake with decoder := intake.decoder.withPeriod period } now _ _
    sighted rested empty room

/-- A drain gives the message that waits. If the speed is changed before, it gives all messages
exactly if the new bit period suits the one that they were sent with. -/
theorem drain_after_setSpeed_iff {rate baud sent : UInt32} (fast : 1000000 ≤ rate)
    (valid : baud ≠ 0 ∧ baud ≤ rate) (wide : 6 ≤ sent.toNat) (narrow : sent.toNat ≤ 2 ^ 26) :
    (∀ port machine data, Stocked port machine sent data → (port.drain machine).1 = data) ∧
      ((∀ port machine data, machine.rate = rate → Stocked port machine sent data →
          ((port.setSpeed machine baud).2.1.drain (port.setSpeed machine baud).2.2).1 = data) ↔
        Suits sent.toNat (rate / baud).toNat) := by
  refine ⟨?_, ?_, ?_⟩
  · intro port machine data stocked
    obtain ⟨intake, since, start, last, now, found, holds, clock, past, near⟩ := stocked.waits
    refine drain_holds found holds clock past near ?_ wide narrow
    obtain ⟨reception, queue, -, -, rfl⟩ := intake?_eq_some.mp found
    rw [Decoder.period, stocked.period]
    exact suits_self (by omega)
  · intro whole
    have positive : 1 ≤ (rate / baud).toNat := by
      rw [UInt32.toNat_div]
      exact Nat.div_pos (UInt32.le_iff_toNat_le.mp valid.2)
        (Nat.pos_of_ne_zero fun zero => valid.1 (UInt32.toNat_inj.mp zero))
    have eight : (8 * sent).toNat = 8 * sent.toNat := by
      rw [UInt32.toNat_mul]
      exact Nat.mod_eq_of_lt (show 8 * sent.toNat < 2 ^ 32 by omega)
    have nine : (9 * sent).toNat = 9 * sent.toNat := by
      rw [UInt32.toNat_mul]
      exact Nat.mod_eq_of_lt (show 9 * sent.toNat < 2 ^ 32 by omega)
    constructor
    · by_contra early
      have short : 8 * ((rate / baud).toNat : Int) + (rate / baud).toNat / 2 ≤
          8 * sent.toNat + 1 := by omega
      have stocked := stocked_sole ⟨rate, 1, fast, by decide⟩ rfl wide narrow (holds_top sent)
      have lost := whole _ _ _ rfl stocked
      obtain ⟨queue, edges, found⟩ := intake?_sole ((Decoder.create sent true).resting (-2 ^ 30))
        ⟨rate, 1, fast, by decide⟩ (.ofLevel (Cycle.ofTime 0) true)
        (.ofLevel (Cycle.ofTime (8 * sent).toNat) false) ((8 * sent).toNat + 11 * sent.toNat)
      have zero := drain_setSpeed_one found (periodFor_eq positive) positive narrow rfl
        (by rw [edges, eight]; rfl) rfl (show 1 < 8 by decide) short
      exact absurd (zero.symm.trans lost) (by decide)
    · by_contra late
      have long : 9 * (sent.toNat : Int) < 8 * (rate / baud).toNat + (rate / baud).toNat / 2 + 1 +
          sent.toNat % 2 := by omega
      have stocked := stocked_sole ⟨rate, 1, fast, by decide⟩ rfl wide narrow (holds_low sent)
      have lost := whole _ _ _ rfl stocked
      obtain ⟨queue, edges, found⟩ := intake?_sole ((Decoder.create sent false).resting (-2 ^ 30))
        ⟨rate, 1, fast, by decide⟩ (.ofLevel (Cycle.ofTime 0) false)
        (.ofLevel (Cycle.ofTime (9 * sent).toNat) true) ((9 * sent).toNat + 11 * sent.toNat)
      have none := drain_setSpeed_zeros found (periodFor_eq positive) positive narrow rfl
        (by rw [edges, nine]; rfl) rfl long
      exact none (lost ▸ List.mem_singleton_self 0)
  · intro suits port machine data own stocked
    have positive : 1 ≤ (rate / baud).toNat := by
      have := suits.late
      omega
    refine stocked.drain_setSpeed ?_ positive suits wide narrow
    rw [← own] at positive ⊢
    exact periodFor_eq positive

/-- A byte of ones comes in at a running port, which is not polled. -/
def unpolled : List World.Operation :=
  [.openPort { rxPin := some 5, txPin := some 4 }, .port 0 (.start 9600),
    .machine (.inject 5 (some false)), .machine (.advance 8329), .machine (.inject 5 (some true)),
    .machine (.advance 100000)]

private theorem holds_ones :
    (Plan.ofData [0xff] 8333 false).holds = [⟨false, 8333⟩, ⟨true, 74997⟩] := by
  repeat rw [Plan.holds_of_next? rfl]
  rw [Plan.holds_of_levels_nil rfl]
  rfl

theorem stocked_unpolled :
    ∃ port, (World.run {} unpolled).2.port? 0 = some port ∧
      (World.run {} unpolled).2.machine.rate = 80000000 ∧
      Stocked port (World.run {} unpolled).2.machine 8333 [0xff] := by
  have board : ((World.run {} unpolled).2.machine.rate,
      (World.run {} unpolled).2.machine.board.timebase.perRead,
      (World.run {} unpolled).2.machine.board.clock) = (80000000, 4, Cycle.ofTime 1108345) := by
    decide +kernel
  have runs : ((World.run {} unpolled).2.port? 0).map (fun port =>
      (port.started, port.decoder.bitPeriod)) = some (true, 8333) := by
    decide +kernel
  have rests : ((World.run {} unpolled).2.port? 0).bind (fun port =>
      (port.intake? (World.run {} unpolled).2.machine).map fun intake =>
        (intake.decoder.phase, intake.decoder.register, intake.decoder.last,
          intake.decoder.invert)) =
      some (.idle, 0, Cycle.ofTime (1000008 - 2 ^ 30), false) := by
    decide +kernel
  have waits : ((World.run {} unpolled).2.port? 0).bind (fun port =>
      (port.intake? (World.run {} unpolled).2.machine).map fun intake =>
        (intake.queue.toList, intake.received, intake.bytes.capacity)) =
      some ([.ofLevel (Cycle.ofTime 1000012) false, .ofLevel (Cycle.ofTime 1008345) true], [],
        64) := by
    decide +kernel
  obtain ⟨rate, cost⟩ := Prod.mk.inj board
  obtain ⟨cost, clock⟩ := Prod.mk.inj cost
  obtain ⟨port, live, same⟩ := Option.map_eq_some_iff.mp runs
  obtain ⟨started, period⟩ := Prod.mk.inj same
  rw [live, Option.bind_some] at rests waits
  obtain ⟨intake, found, decoder⟩ := Option.map_eq_some_iff.mp rests
  rw [found, Option.map_some] at waits
  obtain ⟨edges, bytes⟩ := Prod.mk.inj (Option.some.inj waits)
  obtain ⟨empty, room⟩ := Prod.mk.inj bytes
  obtain ⟨phase, decoder⟩ := Prod.mk.inj decoder
  obtain ⟨register, decoder⟩ := Prod.mk.inj decoder
  obtain ⟨last, direct⟩ := Prod.mk.inj decoder
  refine ⟨port, live, rate, started, period, intake, 1000008 - 2 ^ 30, 1000012, 1008345, 1108345,
    found, ?_, clock, by decide, by rw [cost]; decide⟩
  refine ⟨empty, by rw [room]; decide, ?_, by decide, by decide, ?_⟩
  · rw [Decoder.resting, ← phase, ← register, ← last]
  · rw [direct, holds_ones, edges]
    exact @Sighted.next 0 1000012 1008345 1008345 ⟨false, 8333⟩ [⟨true, 74997⟩] []
      [.edge (.ofLevel (Cycle.ofTime 1008345) true)] (by decide) (by decide) (by simp) (.last _ _)

/-- A little more speed does not harm the byte. -/
theorem unpolled_drain_setSpeed :
    ∃ port, (World.run {} unpolled).2.port? 0 = some port ∧
      Stocked port (World.run {} unpolled).2.machine 8333 [0xff] ∧
      (port.drain (World.run {} unpolled).2.machine).1 = [0xff] ∧
      ((port.setSpeed (World.run {} unpolled).2.machine 9700).2.1.drain
        (port.setSpeed (World.run {} unpolled).2.machine 9700).2.2).1 = [0xff] := by
  obtain ⟨port, live, rate, stocked⟩ := stocked_unpolled
  obtain ⟨before, after⟩ := @drain_after_setSpeed_iff 80000000 9700 8333 (by decide)
    ⟨by decide, by decide⟩ (by decide) (by decide)
  have suits : Suits (8333 : UInt32).toNat ((80000000 : UInt32) / 9700).toNat :=
    ⟨by decide, by decide⟩
  exact ⟨port, live, stocked, before port _ _ stocked, after.mpr suits port _ _ rate stocked⟩

/-- At twice the speed the start bit counts for two bits. -/
theorem unpolled_setSpeed_spoils :
    ∃ port, (World.run {} unpolled).2.port? 0 = some port ∧
      Stocked port (World.run {} unpolled).2.machine 8333 [0xff] ∧
      (port.drain (World.run {} unpolled).2.machine).1 = [0xff] ∧
      ((port.setSpeed (World.run {} unpolled).2.machine 19200).2.1.drain
        (port.setSpeed (World.run {} unpolled).2.machine 19200).2.2).1 = [0xfe] := by
  obtain ⟨port, live, -, stocked⟩ := stocked_unpolled
  have drained : ((World.run {} unpolled).2.port? 0).map (fun port =>
      ((port.drain (World.run {} unpolled).2.machine).1,
        ((port.setSpeed (World.run {} unpolled).2.machine 19200).2.1.drain
          (port.setSpeed (World.run {} unpolled).2.machine 19200).2.2).1)) =
      some ([0xff], [0xfe]) := by
    decide +kernel
  rw [live] at drained
  obtain ⟨before, after⟩ := Prod.mk.inj (Option.some.inj drained)
  exact ⟨port, live, stocked, before, after⟩

end Port
end PinUart
