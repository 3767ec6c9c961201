import PinUart.Proofs.Course
import PinUart.Proofs.Time

/-! A one-wire port that is turned to sending. Its interrupt is disarmed and no edge is
queued, so that only a byte that was under way can still come in: the stop bit that such a
byte waits for is supplied by any later look. -/
namespace PinUart

theorem Cycle.ofTime_natCast {count : Nat} (small : count < 2 ^ 32) :
    Cycle.ofTime count = UInt32.ofNat count := by
  have := Cycle.ofTime_toNat (UInt32.ofNat count)
  rwa [UInt32.toNat_ofNat_of_lt' small] at this

theorem Edge.le_span_ofLogical (last : Cycle) {count : Nat} (small : count < 2 ^ 30)
    (mark invert : Bool) :
    (count : Int) - 1 ≤
      Cycle.span last (ofLogical (last + UInt32.ofNat count) mark invert).timestamp := by
  have ahead : last + UInt32.ofNat count = Cycle.ofTime (last.toNat + count) := by
    rw [Cycle.ofTime_add, Cycle.ofTime_toNat, Cycle.ofTime_natCast (by omega)]
  have near := le_noted (last.toNat + count) (mark ^^ invert)
  have far := noted_le (last.toNat + count) (mark ^^ invert)
  have span := @Cycle.span_ofTime last.toNat (noted (last.toNat + count) (mark ^^ invert))
    (by omega) (by omega)
  rw [Cycle.ofTime_toNat] at span
  rw [ahead, ofLogical, timestamp_ofLevel, span]
  omega

namespace Decoder

variable {decoder : Decoder}

/-- Some data bits of a byte have come in, and not all. -/
def midByte (decoder : Decoder) : Bool :=
  match decoder.phase with
  | .idle => false
  | .receiving count => 0 < count.val

theorem midByte_keepReach (decoder : Decoder) (now : Cycle) :
    (decoder.keepReach now).midByte = decoder.midByte := by
  unfold keepReach
  split <;> rfl

/-- Between two bytes a look finds nothing. -/
theorem hear_look_of_boundary (boundary : decoder.midByte = false) (now : Cycle) :
    decoder.hear [.look now] = ([], decoder.keepReach now) := by
  have none : decoder.owedEdge? now = none := by
    unfold midByte at boundary
    unfold owedEdge?
    cases phase : decoder.phase with
    | idle => rfl
    | receiving count =>
      rw [phase] at boundary
      exact if_pos (Fin.ext (by simpa using boundary))
  simp only [hear, none]

/-- After long enough a time the byte has all its bits. -/
theorem account_completes {count : Fin 9} {elapsed : Int} {mark : Bool}
    (receiving : decoder.phase = .receiving count) (forward : 0 ≤ decoder.signedPeriod)
    (long : 8 ≤ count.val + (elapsed / decoder.signedPeriod).toNat) :
    ∃ byte, (decoder.account elapsed mark).2 = .completed byte := by
  unfold account
  rw [receiving]
  dsimp only
  rw [if_neg (Int.not_lt.mpr forward), dif_neg (Nat.not_lt.mpr long)]
  exact ⟨_, rfl⟩

theorem receiving_of_midByte (under : decoder.midByte) :
    ∃ count : Fin 9, decoder.phase = .receiving count ∧ 0 < count.val := by
  unfold midByte at under
  cases receiving : decoder.phase with
  | idle =>
    rw [receiving] at under
    cases under
  | receiving count =>
    rw [receiving] at under
    exact ⟨count, rfl, of_decide_eq_true under⟩

/-- Nearly a whole turn after the last edge the stop bit is over at the highest speed. -/
theorem owedEdge?_late {count : Fin 9} (receiving : decoder.phase = .receiving count)
    (begun : 0 < count.val) (fast : decoder.bitPeriod = 1) :
    decoder.owedEdge? (decoder.last - 1) =
      some (Edge.ofLogical (decoder.last + UInt32.ofNat (11 - count.val)) true
        decoder.invert) := by
  have turned : (decoder.last - 1 - decoder.last).toNat = 2 ^ 32 - 1 := by
    have := decoder.last.toNat_lt
    simp only [UInt32.toNat_sub, UInt32.reduceToNat]
    omega
  have short : (UInt32.ofNat (11 - count.val)).toNat = 11 - count.val :=
    UInt32.toNat_ofNat_of_lt' (Nat.lt_of_le_of_lt (Nat.sub_le _ _) (by decide))
  have late : ¬ decoder.last - 1 - decoder.last < UInt32.ofNat (11 - count.val) := by
    rw [UInt32.lt_iff_toNat_lt, turned, short]
    omega
  unfold owedEdge?
  rw [receiving, fast]
  dsimp only
  rw [if_neg fun zero => Nat.ne_of_gt begun (congrArg Fin.val zero), UInt32.mul_one,
    if_neg late]

/-- At the highest speed the byte is complete after as many cycles as it lacks bits. -/
theorem sense_fast {count : Fin 9} {edge : Edge} (receiving : decoder.phase = .receiving count)
    (fast : decoder.bitPeriod = 1)
    (reach : 8 - (count.val : Int) ≤ Cycle.span decoder.last edge.timestamp) :
    ∃ byte, (decoder.sense edge).2 = .completed byte := by
  have few := count.isLt
  have period : decoder.signedPeriod = 1 := by
    rw [signedPeriod, fast]
    rfl
  unfold sense
  dsimp only
  rw [period, show Int.tdiv 1 2 = 0 from rfl, Int.sub_zero, if_neg (by omega)]
  refine @account_completes { decoder with last := edge.timestamp } count _ _ receiving ?_ ?_
  all_goals
    rw [show Decoder.signedPeriod { decoder with last := edge.timestamp } = 1 from period]
  · decide
  · omega

/-- In the middle of a byte a look that is late enough completes it, at the highest speed
at least. -/
theorem hear_late_look (under : decoder.midByte) (fast : decoder.bitPeriod = 1) :
    ∃ byte, completions (decoder.hear [.look (decoder.last - 1)]).1 = [byte] := by
  obtain ⟨count, receiving, begun⟩ := receiving_of_midByte under
  have few := count.isLt
  have owed := owedEdge?_late receiving begun fast
  have reach := Edge.le_span_ofLogical decoder.last (by omega : 11 - count.val < 2 ^ 30) true
    decoder.invert
  generalize Edge.ofLogical _ true decoder.invert = edge at owed reach
  obtain ⟨byte, completed⟩ := @sense_fast _ _ edge receiving fast (by omega)
  refine ⟨byte, ?_⟩
  simp only [hear, owed, completed]
  rfl

end Decoder

namespace Intake

variable {intake : Intake} {actions : List Action}

/-- Not listening, with no edge queued, and between two bytes. -/
structure Deaf (intake : Intake) : Prop where
  silent : intake.listening = false
  empty : intake.queue.toList = []
  boundary : intake.decoder.midByte = false

/-- What is deaf takes nothing in and stays deaf, unless it starts to listen. -/
theorem Deaf.act (deaf : intake.Deaf) {action : Action} (admitted : intake.Admits action)
    (unarmed : action ≠ .listen) :
    (intake.act action).2.Deaf ∧ (intake.act action).2.received <:+ intake.received := by
  obtain ⟨silent, empty, boundary⟩ := deaf
  cases action with
  | edge edge => cases silent.symm.trans admitted
  | look now =>
    have sights : intake.sights now = [.look now] := by
      rw [Intake.sights, empty]
      rfl
    have heard : intake.decoder.hear (intake.sights now) = ([], intake.decoder.keepReach now) := by
      rw [sights]
      exact Decoder.hear_look_of_boundary boundary now
    refine ⟨⟨silent, EdgeQueue.toList_discard _, ?_⟩, ?_⟩
    · rw [Intake.act, heard]
      exact (intake.decoder.midByte_keepReach now).trans boundary
    · rw [Intake.act, brought, heard]
      exact List.suffix_refl _
  | take =>
    refine ⟨⟨silent, empty, boundary⟩, ?_⟩
    rw [received_take]
    exact List.tail_suffix _
  | listen => exact absurd rfl unarmed
  | discard => exact ⟨⟨silent, EdgeQueue.toList_discard _, boundary⟩, List.nil_suffix⟩
  | rest now => exact ⟨⟨silent, empty, rfl⟩, List.suffix_refl _⟩
  | mute => exact ⟨⟨rfl, empty, boundary⟩, List.suffix_refl _⟩
  | ask | pace => exact ⟨⟨silent, empty, boundary⟩, List.suffix_refl _⟩

theorem Deaf.run (deaf : intake.Deaf) (legal : intake.Legal actions)
    (unarmed : .listen ∉ actions) :
    (intake.run actions).2.Deaf ∧ (intake.run actions).2.received <:+ intake.received := by
  induction actions generalizing intake with
  | nil => exact ⟨deaf, List.suffix_refl _⟩
  | cons action actions ih =>
    rw [List.mem_cons, not_or] at unarmed
    obtain ⟨next, fewer⟩ := deaf.act legal.1 fun same => unarmed.1 same.symm
    obtain ⟨last, fewest⟩ := ih next legal.2 unarmed.2
    exact ⟨last, fewest.trans fewer⟩

/-- A look that completes one byte puts it behind the others, if there is room. -/
theorem received_look_of_room {intake : Intake} {now : Cycle} {byte : UInt8}
    (brings : intake.brought now = [byte])
    (room : intake.received.length + 1 < intake.bytes.capacity) :
    (intake.act (.look now)).2.received = intake.received ++ [byte] := by
  rw [act, brings]
  refine intake.bytes.toList_push_of_room byte ?_
  rwa [← Ring.length_toList]

end Intake

namespace Port

variable {port : Port} {machine : Machine} {operation : Operation}

/-- A read of a port with bytes takes the first, and looks at nothing. -/
theorem tends_read_of_buffered (filled : port.buffered ≠ 0) (machine : Machine) :
    port.Tends machine [.take] (port.read machine).2 := by
  unfold read
  rw [if_neg filled]
  exact port.tends_takeByte machine

theorem received_of_captureless (without : port.stake.capture = none) : port.received = [] := by
  unfold received
  rw [Option.map_eq_none_iff.mp without]
  rfl

/-- Turned to sending, and deaf. -/
def Deaf (port : Port) (machine : Machine) : Prop :=
  port.mode = .transmit ∧ ∀ intake, port.intake? machine = some intake → intake.Deaf

/-- Operations that neither start or stop a port, nor turn its line, nor arm or disarm its
interrupt. -/
def Operation.leavesTurned : Operation → Bool
  | .start _ | .stop | .turnLine _ | .setListening _ => false
  | _ => true

/-- A line that is turned to sending need not be turned for a message. -/
theorem mode_write (sending : port.mode = .transmit) (machine : Machine) (data : List UInt8) :
    (port.write machine data).2.1.mode = .transmit := by
  have mode := (congrArg Posture.mode (port.posture_collect machine)).trans sending
  unfold write
  generalize port.collect machine = result at mode ⊢
  obtain ⟨other, between⟩ := result
  dsimp only
  split
  · exact mode
  · split
    · exact mode
    · split
      · rename_i turns
        have receiving : other.mode = .receive := eq_of_beq (Bool.and_eq_true_iff.mp turns).2
        cases receiving.symm.trans mode
      · exact mode

theorem mode_perform (sending : port.mode = .transmit) (machine : Machine)
    (stays : operation.leavesTurned) :
    (port.perform machine operation).2.1.mode = .transmit := by
  by_cases plain : operation.isPlain
  · exact (congrArg Posture.mode (port.perform_plain machine plain).2).trans sending
  · cases operation with
    | write data => exact mode_write sending machine data
    | start | stop | turnLine | setListening => cases stays
    | _ => exact absurd rfl plain

/-- Nothing but turning, arming and starting makes a port listen that sends. -/
theorem Operation.listen_notMem {actions : List Intake.Action} (stays : operation.leavesTurned)
    (fits : operation.Fits .transmit actions) : .listen ∉ actions := by
  cases operation with
  | start | stop | turnLine | setListening => cases stays
  | write data => exact fits.2 rfl
  | drain =>
    intro member
    rcases fits _ member with same | ⟨now, same⟩ <;> cases same
  | useEnablePin => exact Intake.OnlyEdges.listen_notMem fits
  | read | peek | available | serve | setSpeed | flush =>
    obtain ⟨choice, rfl⟩ := fits
    simp
  | anyLost | takeLosses | setCallback | setInterruptible | report | describe =>
    rw [fits]
    simp

/-- At the rate of the counter a bit takes one cycle. -/
theorem setSpeed_full (port : Port) (ticks : machine.rate ≠ 0) :
    port.setSpeed machine machine.rate = (.ok (), port.withSpeed machine.rate 1,
      machine.write .debug
        s!"Bit period set to {(1 : UInt32)} cycles for {machine.rate} baud") := by
  have period : periodFor machine machine.rate = .ok 1 := by
    have whole : machine.rate / machine.rate = 1 := by
      apply UInt32.toNat_inj.mp
      rw [UInt32.toNat_div]
      exact Nat.div_self (Nat.pos_of_ne_zero fun zero => ticks (UInt32.toNat_inj.mp zero))
    unfold periodFor
    rw [if_neg, whole]
    rintro (zero | above)
    · exact ticks zero
    · exact UInt32.lt_irrefl _ above
  unfold setSpeed
  rw [period]

/-- A look in the middle of a byte completes it, if it comes late enough. -/
theorem exists_peeked {before : Intake} (found : port.intake? machine = some before)
    (empty : before.queue.toList = []) (under : before.decoder.midByte)
    (fast : before.decoder.bitPeriod = 1)
    (clock : machine.readClock.1 = before.decoder.last - 1)
    (room : before.received.length + 1 < before.bytes.capacity) :
    ∃ byte, (port.peek machine).2.1.received = before.received ++ [byte] := by
  obtain ⟨byte, brings⟩ := before.decoder.hear_late_look under fast
  have looks := (port.tends_collect machine).intake before found
  rw [Intake.run_singleton, clock] at looks
  refine ⟨byte, (received_of_intake looks).trans (Intake.received_look_of_room ?_ room)⟩
  unfold Intake.brought Intake.sights
  rw [empty]
  exact brings

end Port

theorem Machine.readClock_advance (machine : Machine) (cycles : UInt32) :
    (machine.advance cycles).readClock.1 = cycles + machine.readClock.1 := by
  change machine.board.clock + cycles + _ = cycles + (machine.board.clock + _)
  rw [UInt32.add_comm machine.board.clock, UInt32.add_assoc]
  rfl

namespace World

variable {world : World} {operation : Operation} {operations : List Operation} {index : Nat}
  {port : Port}

theorem Operation.listen_notMem {actions : List Intake.Action}
    (stays : operation.keepsTo index Port.Operation.leavesTurned)
    (fits : operation.Fits index .transmit actions) : .listen ∉ actions := by
  cases operation with
  | port other own =>
    unfold Fits at fits
    dsimp only at fits
    split at fits
    · rename_i same
      subst same
      exact Port.Operation.listen_notMem (allowed_of_keepsTo stays) fits
    · exact Intake.OnlyEdges.listen_notMem fits
  | _ => exact Intake.OnlyEdges.listen_notMem fits

/-- Whatever happens to a deaf port, its bytes only become fewer. -/
theorem perform_deaf (sound : world.Sound) (live : world.port? index = some port)
    (stays : operation.keepsTo index Port.Operation.leavesTurned)
    (deaf : port.Deaf world.machine) :
    ∃ after, (world.perform operation).2.port? index = some after ∧
      after.Deaf (world.perform operation).2.machine ∧ after.received <:+ port.received := by
  obtain ⟨sending, intakes⟩ := deaf
  have mine := sound.ports index port live
  have kept := Operation.ne_closePort stays
  obtain ⟨after, there, came⟩ := perform_live kept live
  have turned : after.mode = .transmit ∧ after.stake.capture = port.stake.capture := by
    rcases came with rfl | ⟨own, rfl, rfl⟩
    · exact ⟨sending, rfl⟩
    · exact ⟨Port.mode_perform sending world.machine (Operation.allowed_of_keepsTo stays),
        (port.goes_perform world.machine own mine).2.1⟩
  refine ⟨after, there, ?_⟩
  cases found : port.intake? world.machine with
  | none =>
    have without : after.stake.capture = none := by
      rw [turned.2, ← Option.not_isSome_iff_eq_none]
      intro captured
      obtain ⟨before, known⟩ := Port.exists_intake mine captured
      cases found.symm.trans known
    rw [Port.received_of_captureless without]
    refine ⟨⟨turned.1, fun intake later => ?_⟩, List.nil_suffix⟩
    obtain ⟨reception, -, held, -⟩ := Port.intake?_eq_some.mp later
    cases (Port.stake_capture held).symm.trans without
  | some before =>
    obtain ⟨same, actions, there', fits, legal, acts⟩ :=
      perform_fits sound (Operation.sparesReception_of_keepsTo stays) kept live found
    cases there.symm.trans there'
    obtain ⟨deaf, fewer⟩ := (intakes before found).run legal
      (Operation.listen_notMem stays (sending ▸ fits))
    rw [Port.received_of_intake found, Port.received_of_intake acts]
    refine ⟨⟨turned.1, fun intake later => ?_⟩, fewer⟩
    cases later.symm.trans acts
    exact deaf

/-- Over a whole run the bytes of a deaf port only become fewer. -/
theorem run_deaf (sound : world.Sound) (live : world.port? index = some port)
    (deaf : port.Deaf world.machine)
    (allowed : ∀ operation ∈ operations,
      operation.keepsTo index Port.Operation.leavesTurned) :
    ∃ after, (world.run operations).2.port? index = some after ∧
      after.Deaf (world.run operations).2.machine ∧ after.received <:+ port.received := by
  induction operations generalizing world port with
  | nil => exact ⟨port, live, deaf, List.suffix_refl _⟩
  | cons operation operations ih =>
    have stays := allowed operation (by simp)
    have spares := Operation.sparesReception_of_keepsTo stays
    obtain ⟨other, there, still, fewer⟩ := perform_deaf sound live stays deaf
    have next := (sound.perform (Operation.sparesInterrupts_of_reception spares)).1
    obtain ⟨after, last, deafest, fewest⟩ := ih next there still
      fun other member => allowed other (List.mem_cons_of_mem _ member)
    exact ⟨after, last, deafest, fewest.trans fewer⟩

/-- In the middle of a byte a port gets it at the highest speed, if it looks late enough. -/
theorem exists_late_byte (live : world.port? index = some port)
    (ticks : world.machine.rate ≠ 0) {before : Intake}
    (found : port.intake? world.machine = some before) (empty : before.queue.toList = [])
    (under : before.decoder.midByte)
    (room : before.received.length + 1 < before.bytes.capacity) :
    ∃ later byte,
      (∀ operation ∈ later, operation.keepsTo index Port.Operation.leavesTurned) ∧
      (world.run later).2.received index = before.received ++ [byte] := by
  obtain ⟨there, machine⟩ := perform_port live (.setSpeed world.machine.rate)
  have sped : port.perform world.machine (.setSpeed world.machine.rate) =
      Port.answering (port.setSpeed world.machine world.machine.rate) := rfl
  rw [sped, port.setSpeed_full ticks] at there machine
  -- The counter can be brought to any value, here to the last before the edge comes round again.
  obtain ⟨cycles, clock⟩ : ∃ cycles, (world.machine.advance cycles).readClock.1 =
      before.decoder.last - 1 := by
    refine ⟨before.decoder.last - 1 - world.machine.readClock.1, ?_⟩
    rw [Machine.readClock_advance, UInt32.sub_add_cancel]
  suffices more : ∃ byte, (world.run [.port index (.setSpeed world.machine.rate),
      .machine (.advance cycles), .port index .peek]).2.received index =
        before.received ++ [byte] by
    obtain ⟨byte, came⟩ := more
    refine ⟨_, byte, ?_, came⟩
    simp only [List.forall_mem_cons]
    exact ⟨Bool.or_true _, rfl, Bool.or_true _, List.forall_mem_nil _⟩
  rw [run_cons, run_cons, run_cons]
  generalize (world.perform (.port index (.setSpeed world.machine.rate))).2 = fast
    at there machine ⊢
  have still : (fast.perform (.machine (.advance cycles))).2.port? index =
      some (port.withSpeed world.machine.rate 1) := there
  have later : (fast.perform (.machine (.advance cycles))).2.machine =
      fast.machine.advance cycles := rfl
  generalize (fast.perform (.machine (.advance cycles))).2 = late at still later ⊢
  have paced : (port.withSpeed world.machine.rate 1).intake? late.machine =
      some (before.act (.pace 1)).2 := by
    obtain ⟨reception, queue, held, known, rfl⟩ := Port.intake?_eq_some.mp found
    rw [later, machine]
    exact Port.intake?_eq_some.mpr ⟨reception, queue, held, known, rfl⟩
  obtain ⟨byte, came⟩ := Port.exists_peeked paced empty under rfl
    (by rw [later, machine]; exact clock) room
  exact ⟨byte, (received_of_live (perform_port still .peek).1).trans came⟩

/-- Turning the line of a one-wire port to sending leaves it not listening. -/
theorem Attended.turned (attended : world.Attended) (live : world.port? index = some port)
    (shared : port.sharedPin?.isSome) :
    ∃ after, (world.perform (.port index (.turnLine true))).2.port? index = some after ∧
      after.mode = .transmit ∧ after.listening = false ∧ after.started = port.started := by
  refine ⟨_, (perform_port live (.turnLine true)).1, ?_⟩
  obtain ⟨-, ⟨without, -⟩ | ⟨-, posture, silent⟩⟩ :=
    (attended.orderly index port live).turnLine world.machine true
  · rw [without] at shared
    cases shared
  · exact ⟨congrArg Posture.mode posture, congrArg Stake.listening (silent rfl),
      congrArg Posture.started posture⟩

theorem perform_read (live : world.port? index = some port) {before : Intake}
    (found : port.intake? world.machine = some before) (filled : 0 < before.received.length) :
    ∃ after, (world.perform (.port index .read)).2.port? index = some after ∧
      after.intake? (world.perform (.port index .read)).2.machine =
        some (before.act .take).2 := by
  obtain ⟨there, machine⟩ := perform_port live .read
  refine ⟨_, there, ?_⟩
  have buffered : port.buffered ≠ 0 := by
    rw [Port.buffered_eq, Port.received_of_intake found]
    omega
  have taken := (Port.tends_read_of_buffered buffered world.machine).intake before found
  rw [Intake.run_singleton] at taken
  rw [machine]
  exact taken

/-- The bytes of a port that does not listen can become more only in the middle of a byte.
Then they do: after a read, if the ring is full, and at a high speed. -/
theorem Attended.exists_more (attended : world.Attended)
    (live : world.port? index = some port) (runs : port.started)
    (silent : port.listening = false) {reception : Reception}
    (held : port.reception = some reception) (under : port.decoder.midByte) :
    ∃ earlier later,
      (∀ operation ∈ earlier ++ later,
        operation.keepsTo index Port.Operation.leavesTurned) ∧
      ¬ (world.run (earlier ++ later)).2.received index <:+
        (world.run earlier).2.received index := by
  have sound := attended.sound
  have ticks := attended.ticking index port live runs
  obtain ⟨before, found⟩ := Port.exists_intake (sound.ports index port live)
    (by rw [Port.stake_capture held]; rfl)
  obtain ⟨hushed, capacity⟩ := attended.intakes index port before live found
  obtain ⟨empty, middle⟩ : before.queue.toList = [] ∧ before.decoder.midByte := by
    obtain ⟨reception, queue, -, -, rfl⟩ := Port.intake?_eq_some.mp found
    exact ⟨hushed silent, under⟩
  have longer : ∀ (bytes : List UInt8) byte, ¬ bytes ++ [byte] <:+ bytes := by
    intro bytes byte shorter
    have := shorter.length_le
    rw [List.length_append, List.length_singleton] at this
    omega
  -- A full ring would refuse the byte, so that one is read first.
  by_cases room : before.received.length + 1 < before.bytes.capacity
  · obtain ⟨later, byte, allowed, more⟩ := exists_late_byte live ticks found empty middle room
    refine ⟨[], later, allowed, ?_⟩
    rw [List.nil_append, more, show (world.run []).2 = world from rfl, received_of_live live,
      Port.received_of_intake found]
    exact longer _ _
  · have some : 0 < before.received.length := by omega
    obtain ⟨reader, there, taken⟩ := perform_read live found some
    have shorter : (before.act .take).2.received.length + 1 <
        (before.act .take).2.bytes.capacity := by
      have within := before.bytes.size_lt
      rw [← Ring.length_toList, ← Intake.received] at within
      rw [Intake.received_take, Intake.capacity_act, List.length_tail]
      omega
    obtain ⟨later, byte, allowed, more⟩ := exists_late_byte there
      ((rate_perform sound rfl).trans_ne ticks) taken empty middle shorter
    refine ⟨[.port index .read], later, ?_, ?_⟩
    · exact List.forall_mem_cons.mpr ⟨Bool.or_true _, allowed⟩
    · rw [List.singleton_append, run_cons, more, run_cons]
      change ¬ _ <:+ (world.perform (.port index .read)).2.received index
      rw [received_of_live there, Port.received_of_intake taken]
      exact longer _ _

/-- From the moment on that a running one-wire port is turned to sending, its bytes never
become more, exactly if it was not in the middle of a byte. -/
theorem turned_deaf_iff {turned : World} (fresh : world.Fresh)
    (spare : ∀ operation ∈ operations, operation.sparesReception)
    (live : (world.run operations).2.port? index = some port) (runs : port.started)
    (shared : port.sharedPin?.isSome)
    (turns : turned = ((world.run operations).2.perform (.port index (.turnLine true))).2) :
    (∀ earlier later,
      (∀ operation ∈ earlier ++ later,
        operation.keepsTo index Port.Operation.leavesTurned) →
      (turned.run (earlier ++ later)).2.received index <:+
        (turned.run earlier).2.received index) ↔
      ∀ sender reception, turned.port? index = some sender → sender.reception = some reception →
        sender.decoder.midByte = false := by
  have before := fresh.attended.run spare
  obtain ⟨sender, there, sending, silent, started⟩ := before.turned live shared
  have attended : turned.Attended := turns ▸ before.perform rfl
  rw [← turns] at there
  constructor
  · intro fewer after reception found held
    cases there.symm.trans found
    refine Bool.eq_false_iff.mpr fun under => ?_
    obtain ⟨earlier, later, allowed, more⟩ :=
      attended.exists_more there (started.trans runs) silent held under
    exact more (fewer earlier later allowed)
  · intro boundary earlier later allowed
    have deaf : sender.Deaf turned.machine := by
      refine ⟨sending, fun intake found => ?_⟩
      have hushed := (attended.intakes index sender intake there found).1
      obtain ⟨reception, queue, held, -, rfl⟩ := Port.intake?_eq_some.mp found
      exact ⟨silent, hushed silent, boundary sender reception there held⟩
    have first := fun operation member => allowed operation (List.mem_append_left later member)
    obtain ⟨other, halfway, still, -⟩ := run_deaf attended.sound there deaf first
    have sound := (attended.run fun operation member =>
      Operation.sparesReception_of_keepsTo (first operation member)).sound
    obtain ⟨after, last, -, fewer⟩ := run_deaf sound halfway still
      fun operation member => allowed operation (List.mem_append_right earlier member)
    rw [received_of_live halfway, run_append, received_of_live last]
    exact fewer

/-- A one-wire port that was started. -/
def listener : List Operation :=
  [.openPort { rxPin := some 5, txPin := some 5 }, .port 0 (.start 9600)]

/-- Turned to sending on a quiet line it hears nothing any more. -/
theorem turned_listener_deaf :
    ∃ port turned, (run {} listener).2.port? 0 = some port ∧ port.started ∧
      port.sharedPin?.isSome ∧
      turned = ((run {} listener).2.perform (.port 0 (.turnLine true))).2 ∧
      ∀ earlier later,
        (∀ operation ∈ earlier ++ later,
          operation.keepsTo 0 Port.Operation.leavesTurned) →
        (turned.run (earlier ++ later)).2.received 0 <:+ (turned.run earlier).2.received 0 := by
  have before : ((run {} listener).2.port? 0).map (fun port =>
      (port.started, port.sharedPin?.isSome)) = some (true, true) := by
    decide +kernel
  have after : ((((run {} listener).2.perform (.port 0 (.turnLine true))).2).port? 0).map
      (·.decoder.midByte) = some false := by
    decide +kernel
  obtain ⟨port, live, same⟩ := Option.map_eq_some_iff.mp before
  obtain ⟨runs, shared⟩ := Prod.mk.inj same
  refine ⟨port, _, live, runs, shared, rfl, ?_⟩
  refine (turned_deaf_iff fresh_empty (by decide) live runs shared rfl).mpr ?_
  intro sender reception there _
  obtain ⟨other, found, boundary⟩ := Option.map_eq_some_iff.mp after
  cases found.symm.trans there
  exact boundary

/-- The first data bit of a byte comes in at a one-wire port before it is turned to sending. -/
def interrupted : List Operation :=
  listener ++ [.machine (.inject 5 (some false)), .machine (.advance 8333),
    .machine (.inject 5 (some true)), .port 0 (.turnLine true)]

/-- The byte comes in all the same. -/
theorem turned_midByte_not_deaf :
    ¬ (run {} (interrupted ++ [.machine (.advance 100000), .port 0 .peek])).2.received 0 <:+
      (run {} interrupted).2.received 0 := by
  have before : (run {} interrupted).2.received 0 = [] := by decide +kernel
  have after : (run {} (interrupted ++ [.machine (.advance 100000), .port 0 .peek])).2.received 0 =
      [255] := by
    decide +kernel
  rw [before, after]
  decide

end World
end PinUart
