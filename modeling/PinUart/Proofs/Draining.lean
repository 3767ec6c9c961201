import PinUart.Port.Reception
import PinUart.Proofs.Clocking

/-! Reading a receiver out after a message. The byte of the last frame may still be
missing, if its stop bit brings no edge. Some later look at the clock brings it, at the
latest the one after the sleep that follows when nothing else is left to read. -/
namespace PinUart

/-- With room for all bytes none is dropped. -/
theorem ByteRing.storeAll_of_room {bytes : ByteRing} {findings : List Finding}
    (room : bytes.toList.length + (completions findings).length < bytes.capacity) :
    ((bytes.storeAll findings).1.map (·.dropped)).sum = 0 ∧
      (bytes.storeAll findings).2.toList = bytes.toList ++ completions findings := by
  rw [(bytes.counts_storeAll findings).2, bytes.toList_storeAll, ← bytes.length_toList]
  refine ⟨by omega, List.take_of_length_le ?_⟩
  rw [List.length_append]
  omega

namespace Decoder

/-- Edges and then a look, with room for all that they bring. -/
theorem decodeAll_poll {decoder after : Decoder} {bytes : ByteRing} {edges : List Edge}
    {now : Cycle} {findings : List Finding}
    (heard : decoder.hear (edges.map .edge ++ [.look now]) = (findings, after))
    (room : bytes.toList.length + (completions findings).length < bytes.capacity) :
    ∃ between : Decoder, ∃ early late : ByteRing,
      decoder.decodeAll bytes edges = (0, between, early) ∧
      between.poll now early = (0, after, late) ∧
      late.toList = bytes.toList ++ completions findings ∧ late.capacity = bytes.capacity := by
  rw [hear_append] at heard
  obtain ⟨same, rfl⟩ := Prod.mk.inj heard
  rw [← same, completions_append, List.length_append] at room
  obtain ⟨none, stored⟩ := ByteRing.storeAll_of_room
    (show bytes.toList.length + (completions (decoder.hear (edges.map .edge)).1).length <
      bytes.capacity by omega)
  have kept := ByteRing.capacity_storeAll bytes (decoder.hear (edges.map .edge)).1
  generalize reached : (bytes.storeAll (decoder.hear (edges.map .edge)).1).2 = early
    at stored kept
  obtain ⟨noneLate, storedLate⟩ := ByteRing.storeAll_of_room
    (show early.toList.length +
      (completions ((decoder.hear (edges.map .edge)).2.hear [.look now]).1).length <
        early.capacity by rw [stored, kept, List.length_append]; omega)
  refine ⟨(decoder.hear (edges.map .edge)).2, early,
    (early.storeAll ((decoder.hear (edges.map .edge)).2.hear [.look now]).1).2, ?_, ?_, ?_, ?_⟩
  · rw [decodeAll_eq, observe_eq, none, reached]
  · rw [poll_eq, observe_eq, noneLate]
  · rw [storedLate, stored, ← same, completions_append, List.append_assoc]
  · rw [ByteRing.capacity_storeAll, kept]

theorem length_hear_edges (decoder : Decoder) (edges : List Edge) :
    (decoder.hear (edges.map .edge)).1.length = edges.length := by
  induction edges generalizing decoder with
  | nil => rfl
  | cons edge edges ih => rw [List.map_cons, hear, List.length_cons, ih, List.length_cons]

/-- What is still to come when all edges of a message are in: the byte of a frame whose
stop bit brings no edge. Looks within `spare` cycles leave time to bring it. -/
inductive Owing (base : Decoder) : Decoder → List UInt8 → Int → Int → Prop where
  | rest {decoder : Decoder} {now : Int} (spare : Int)
      (trails : base.Trails decoder 0 (2 ^ 30) now) : Owing base decoder [] now spare
  | frame {byte : UInt8} {place : Nat} {since now spare : Int} (started : 1 ≤ place)
      (inside : place ≤ 8) (steady : Steady byte place (10 - place)) (after : since ≤ now)
      (near : now + spare ≤ since + 2 ^ 31) :
      Owing base (base.standing byte place since) [byte] now spare

variable {base decoder : Decoder} {owed : List UInt8} {now spare : Int}

theorem Owing.bitPeriod (owing : base.Owing decoder owed now spare) :
    decoder.bitPeriod = base.bitPeriod := by
  cases owing with
  | rest _ trails =>
    obtain ⟨since, rfl, -⟩ := trails
    rfl
  | frame => rfl

theorem Owing.weaken {less : Int} (owing : base.Owing decoder owed now spare)
    (fewer : less ≤ spare) : base.Owing decoder owed now less := by
  cases owing with
  | rest _ trails => exact .rest less trails
  | frame started inside steady after near =>
    exact .frame started inside steady after (by omega)

/-- No more than one byte is owed, and while none is, the line is at rest. -/
theorem Owing.idle_or_single (owing : base.Owing decoder owed now spare) :
    owed = [] ∧ base.Trails decoder 0 (2 ^ 30) now ∨ ∃ byte, owed = [byte] := by
  cases owing with
  | rest _ trails => exact .inl ⟨rfl, trails⟩
  | frame => exact .inr ⟨_, rfl⟩

/-- A look brings what is owed, or comes too early to change anything. -/
theorem Owing.look {look : Int} (owing : base.Owing decoder owed now spare)
    (narrow : base.period ≤ 2 ^ 26) (positive : 0 ≤ spare) (later : now ≤ look)
    (near : look < now + 2 ^ 31) :
    (∃ findings after, decoder.hear [.look (Cycle.ofTime look)] = (findings, after) ∧
        completions findings = owed ∧ base.Trails after 0 (2 ^ 30) look) ∨
      look < now + 10 * base.period ∧ decoder.hear [.look (Cycle.ofTime look)] = ([], decoder) ∧
        base.Owing decoder owed look (now + spare - look) := by
  cases owing with
  | rest _ trails =>
    have waited : base.Trails decoder 0 (2 ^ 30 + (look - now)) look :=
      trails.later (by omega) (Int.le_refl _)
    obtain ⟨after, heard, reached⟩ := waited.look (Int.le_refl 0) (by decide) (by omega)
    exact .inl ⟨[], after, heard, rfl, reached⟩
  | @frame byte place since _ _ started inside steady after within =>
    have seen : ∀ other ∈ [look], since ≤ other ∧ other - since < 2 ^ 32 := by
      intro other member
      rw [List.mem_singleton] at member
      omega
    rcases hear_looks_late (show base.period ≤ 2 ^ 27 by omega) [look] started (by omega) steady
        seen with ⟨early, same⟩ | ⟨moved, heard⟩
    · right
      have before := early look (List.mem_singleton.mpr rfl)
      have : (11 - place : Int) * base.period ≤ 10 * base.period :=
        Int.mul_le_mul_of_nonneg_right (by omega) (by have := base.period_pos; omega)
      unfold dueTime at before
      exact ⟨by omega, same, .frame started inside steady (by omega) (by omega)⟩
    · left
      refine ⟨_, _, heard, ?_, trails_of_look look heard⟩
      rw [completions_pending, pending, if_pos (by omega)]

/-- No byte of a message comes without an edge. -/
theorem Brings.length_le {edges : List Edge} {last : Int} {finding : Finding} {data : List UInt8}
    (brings : base.Brings decoder (edges.map .edge) last finding data) :
    data.length ≤ edges.length := by
  obtain ⟨findings, ended, place, heard, -, -, -, -, rfl⟩ := brings
  have told := decoder.length_hear_edges edges
  rw [heard, List.length_cons] at told
  have found : (completions findings).length ≤ findings.length := List.length_filterMap_le _ _
  have final : (pending ended place).length ≤ 1 := by
    unfold pending
    split <;> simp
  rw [List.length_append]
  omega

/-- A look after the last edge of a message: what has not come in yet is owed. -/
theorem Brings.look {edges : List Edge} {last : Int} {data : List UInt8}
    (brings : base.Brings decoder (edges.map .edge) last .progress data)
    (narrow : base.period ≤ 2 ^ 26) (positive : 0 ≤ spare) (passed : last < now)
    (near : now + spare < last + 2 ^ 31) :
    ∃ findings after left, decoder.hear (edges.map .edge ++ [.look (Cycle.ofTime now)]) =
        (findings, after) ∧
      completions findings ++ left = data ∧ base.Owing after left now spare := by
  obtain ⟨findings, ended, place, heard, started, inside, steady, -, rfl⟩ := brings
  have := Edge.le_noted last (base.driven ended place)
  have := Edge.noted_le last (base.driven ended place)
  generalize Edge.noted last (base.driven ended place) = since at *
  rw [hear_append, heard]
  dsimp only
  by_cases stop : place = 9
  · subst stop
    have rests : base.Trails (base.standing ended 9 since) 0 (2 ^ 31 + 1) now :=
      ⟨since, rfl, by omega, by omega⟩
    obtain ⟨after, looked, reached⟩ := rests.look (Int.le_refl 0) (by decide) (by decide)
    rw [looked]
    refine ⟨_, after, [], rfl, ?_, .rest spare reached⟩
    rw [List.append_nil, List.append_nil, completions_progress]
    exact (List.append_nil _).symm
  · have owing : base.Owing (base.standing ended place since) [ended] now spare :=
      .frame started (by omega) steady (by omega) (by omega)
    have unfinished : pending ended place = [ended] := if_pos (by omega)
    rw [unfinished]
    rcases owing.look narrow positive (Int.le_refl now) (by omega) with
      ⟨late, after, looked, closed, reached⟩ | ⟨-, looked, still⟩
    · rw [looked]
      refine ⟨_, after, [], rfl, ?_, .rest spare reached⟩
      rw [List.cons_append, completions_progress, completions_append, closed, List.append_nil]
    · rw [looked]
      refine ⟨_, _, [ended], rfl, ?_, still.weaken (by omega)⟩
      rw [List.append_nil, completions_progress]

end Decoder

/-- Nothing is told to be lost where neither the port nor the capture has noted a loss. -/
theorem Port.anyLost_eq_false {port : Port} {machine : Machine} {reception : Reception}
    {capture : Capture} (held : port.reception = some reception)
    (found : machine.captures[reception.capture]? = some capture)
    (kept : capture.queue.lost = false) (losses : port.losses = {}) :
    (port.anyLost machine).1 = false := by
  rw [anyLost, takeLosses, held]
  simp only [Machine.takeLost, found, kept, losses]
  rfl

/-- A receiving port as its owner sees it. Bit periods are long enough for the sleep of a
poll to be told in microseconds, and short enough for the counter. -/
structure Receiver where
  timebase : Timebase
  pin : Pin
  capture : Nat
  /-- Slots for edges and for bytes. -/
  edgeSlots : Nat
  capacity : Nat
  decoder : Decoder
  narrow : decoder.period ≤ 2 ^ 26
  slow : 2 * timebase.perMicrosecond.toNat + timebase.perRead.toNat ≤ decoder.bitPeriod.toNat

/-- A change of the queue of a capture is seen in that capture. -/
theorem Machine.captures_modifyQueue {machine : Machine} {index : Nat} {capture : Capture}
    (found : machine.captures[index]? = some capture) (act : EdgeQueue → EdgeQueue) :
    (machine.modifyQueue index act).captures[index]? =
      some { capture with queue := act capture.queue } := by
  rw [modifyQueue, Array.getElem?_modify, if_pos rfl, found, Option.map_some]

namespace Receiver

/-- Bytes wait to be read, and edges to be decoded. -/
structure View where
  decoder : Decoder
  bytes : List UInt8
  edges : List Edge
  time : Int

/-- Port and machine are as the view has them, and nothing was lost. -/
structure Shows (receiver : Receiver) (port : Port) (machine : Machine) (view : View) : Prop where
  reception : ∃ bytes, port.reception = some ⟨receiver.capture, bytes⟩ ∧
    bytes.toList = view.bytes ∧ bytes.capacity = receiver.capacity
  decoder : port.decoder = view.decoder
  losses : port.losses = {}
  timebase : machine.board.timebase = receiver.timebase
  rate : machine.statedRate = none
  clock : machine.board.clock = Cycle.ofTime view.time
  queue : ∃ queue, machine.captures[receiver.capture]? = some ⟨receiver.pin, queue⟩ ∧
    queue.toList = view.edges ∧ queue.lost = false ∧ queue.capacity = receiver.edgeSlots

def reading (receiver : Receiver) : Int := receiver.timebase.perRead.toNat

variable {receiver : Receiver} {port : Port} {machine : Machine} {view : View}

/-- A poll decodes all edges and then looks at the clock. -/
theorem Shows.collect {findings : List Finding} {after : Decoder}
    (shown : receiver.Shows port machine view)
    (heard : view.decoder.hear (view.edges.map .edge ++
      [.look (Cycle.ofTime (view.time + receiver.reading))]) = (findings, after))
    (room : view.bytes.length + (completions findings).length < receiver.capacity) :
    receiver.Shows (port.collect machine).1 (port.collect machine).2
      { decoder := after
        bytes := view.bytes ++ completions findings
        edges := []
        time := view.time + receiver.reading } := by
  obtain ⟨bytes, reception, stored, capacity⟩ := shown.reception
  obtain ⟨queue, found, queued, kept, slots⟩ := shown.queue
  have moved : machine.board.clock + machine.board.timebase.perRead =
      Cycle.ofTime (view.time + receiver.reading) :=
    Machine.readClock_ofTime shown.clock shown.timebase
  rw [← shown.decoder, ← queued, ← moved] at heard
  rw [← stored, ← capacity] at room
  obtain ⟨between, early, late, decoded, polled, brought, fits⟩ :=
    Decoder.decodeAll_poll heard room
  have lowered := Machine.captures_modifyQueue found fun queue => queue.takeLost.2
  have emptied := Machine.captures_modifyQueue lowered EdgeQueue.discard
  have noted : port.noteLostEdges machine receiver.capture =
      (port, machine.modifyQueue receiver.capture fun queue => queue.takeLost.2) := by
    rw [Port.noteLostEdges, Machine.takeLost, found]
    simp only [kept]
  have listed : (machine.modifyQueue receiver.capture fun queue => queue.takeLost.2).queued
      receiver.capture = queue.toList := by
    rw [Machine.queued, lowered]
    rfl
  have collected : port.collect machine =
      ({ port with decoder := after, reception := some ⟨receiver.capture, late⟩ },
        ((machine.modifyQueue receiver.capture fun queue => queue.takeLost.2).modifyQueue
          receiver.capture EdgeQueue.discard).readClock.2) := by
    rw [Port.collect, reception]
    simp only [noted, listed, decoded]
    rw [show ((machine.modifyQueue receiver.capture _).modifyQueue receiver.capture _).readClock.1 =
      machine.board.clock + machine.board.timebase.perRead from rfl, polled]
    rfl
  rw [collected]
  refine ⟨⟨late, rfl, ?_, fits.trans capacity⟩, rfl, shown.losses, shown.timebase, shown.rate,
    moved, _, emptied, EdgeQueue.toList_discard _, rfl, slots⟩
  rw [brought, stored]

theorem reading_bounds (receiver : Receiver) :
    1 ≤ receiver.reading ∧ receiver.reading ≤ receiver.decoder.period := by
  have := receiver.timebase.perRead_pos
  have := receiver.slow
  have : (1 : UInt32).toNat = 1 := rfl
  unfold reading Decoder.period
  omega

/-- A look at the clock, once all edges are in. -/
theorem Shows.look {owed : List UInt8} {start spare : Int}
    (shown : receiver.Shows port machine view) (decoded : view.edges = [])
    (owing : receiver.decoder.Owing view.decoder owed start spare) (positive : 0 ≤ spare)
    (later : start ≤ view.time + receiver.reading)
    (near : view.time + receiver.reading < start + 2 ^ 31)
    (room : view.bytes.length + owed.length < receiver.capacity) :
    (∃ after, receiver.Shows (port.collect machine).1 (port.collect machine).2
        { decoder := after
          bytes := view.bytes ++ owed
          edges := []
          time := view.time + receiver.reading } ∧
        receiver.decoder.Trails after 0 (2 ^ 30) (view.time + receiver.reading)) ∨
      view.time + receiver.reading < start + 10 * receiver.decoder.period ∧
        receiver.Shows (port.collect machine).1 (port.collect machine).2
          { view with time := view.time + receiver.reading } ∧
        receiver.decoder.Owing view.decoder owed (view.time + receiver.reading)
          (start + spare - (view.time + receiver.reading)) := by
  have sights : view.edges.map Sight.edge ++
      [.look (Cycle.ofTime (view.time + receiver.reading))] =
        [.look (Cycle.ofTime (view.time + receiver.reading))] := by
    rw [decoded]
    rfl
  rcases owing.look receiver.narrow positive later near with
    ⟨findings, after, heard, brought, reached⟩ | ⟨early, heard, still⟩
  · have polled := shown.collect (sights ▸ heard) (by rw [brought]; exact room)
    rw [brought] at polled
    exact .inl ⟨after, polled, reached⟩
  · have polled := shown.collect (sights ▸ heard) (by rw [completions_nil, List.length_nil]; omega)
    rw [completions_nil, List.append_nil, ← decoded] at polled
    exact .inr ⟨early, polled, still⟩

/-- Nothing waits, and the line has been at rest for a time within bounds. -/
structure Idle (receiver : Receiver) (view : View) (least most : Int) : Prop where
  bytes : view.bytes = []
  edges : view.edges = []
  trails : receiver.decoder.Trails view.decoder least most view.time

/-- A look at an idle line brings nothing, and keeps the reference in reach. -/
theorem Shows.glance {least most less : Int} (shown : receiver.Shows port machine view)
    (idle : receiver.Idle view least most) (lower : less ≤ least + receiver.reading)
    (positive : 0 ≤ less) (within : less ≤ 2 ^ 30) (near : most + receiver.reading < 2 ^ 32)
    (room : 0 < receiver.capacity) :
    ∃ next, receiver.Shows (port.collect machine).1 (port.collect machine).2 next ∧
      receiver.Idle next less (2 ^ 30) ∧ next.time = view.time + receiver.reading := by
  have later : receiver.decoder.Trails view.decoder less (most + receiver.reading)
      (view.time + receiver.reading) := idle.trails.later (by omega) (by omega)
  obtain ⟨after, heard, reached⟩ := later.look positive within near
  have sights : view.edges.map Sight.edge ++
      [.look (Cycle.ofTime (view.time + receiver.reading))] =
        [.look (Cycle.ofTime (view.time + receiver.reading))] := by
    rw [idle.edges]
    rfl
  have polled := shown.collect (sights ▸ heard) (by rw [idle.bytes]; exact room)
  rw [idle.bytes] at polled
  exact ⟨_, polled, ⟨rfl, rfl, reached⟩, rfl⟩

/-- All edges are in, what is owed has room, and time is left to read byte after byte. -/
structure Settled (receiver : Receiver) (view : View) (owed : List UInt8) : Prop where
  decoded : view.edges = []
  owing : receiver.decoder.Owing view.decoder owed view.time
    (view.bytes.length * receiver.reading)
  room : view.bytes.length + owed.length < receiver.capacity

theorem Shows.sleep (shown : receiver.Shows port machine view) (micros : UInt32) :
    receiver.Shows port (machine.sleep micros)
      { view with time := view.time + (micros * receiver.timebase.perMicrosecond).toNat } := by
  have moved := Machine.clock_sleep_ofTime shown.clock shown.timebase micros
  exact ⟨shown.reception, shown.decoder, shown.losses, shown.timebase, shown.rate, moved,
    shown.queue⟩

theorem Shows.buffered (shown : receiver.Shows port machine view) :
    port.buffered = view.bytes.length := by
  obtain ⟨bytes, reception, stored, -⟩ := shown.reception
  rw [Port.buffered, reception, ← stored]
  exact bytes.length_toList.symm

/-- A poll that finds nothing sleeps for long enough to bring an owed stop bit. -/
theorem Shows.patience (shown : receiver.Shows port machine view)
    (same : view.decoder.bitPeriod = receiver.decoder.bitPeriod) :
    19 * receiver.decoder.period ≤
        (port.patienceMicros machine * receiver.timebase.perMicrosecond).toNat ∧
      (port.patienceMicros machine * receiver.timebase.perMicrosecond).toNat ≤
        20 * receiver.decoder.period := by
  have narrow := receiver.narrow
  have slow := receiver.slow
  have positive := receiver.timebase.perMicrosecond_pos
  have micro := Machine.perMicrosecond_eq shown.rate
  rw [shown.timebase] at micro
  unfold Decoder.period at narrow ⊢
  have cycles : (UInt32.ofNat (min (Port.patience.toNat * receiver.decoder.bitPeriod.toNat)
      0xffffffff)).toNat = 20 * receiver.decoder.bitPeriod.toNat := by
    have twenty : Port.patience.toNat = 20 := rfl
    rw [twenty, Nat.min_eq_left (by omega), UInt32.toNat_ofNat', Nat.mod_eq_of_lt (by omega)]
  have whole := Nat.div_add_mod (20 * receiver.decoder.bitPeriod.toNat)
    receiver.timebase.perMicrosecond.toNat
  have rest := Nat.mod_lt (20 * receiver.decoder.bitPeriod.toNat) positive
  rw [Port.patienceMicros, shown.decoder, same, micro, UInt32.toNat_mul, UInt32.toNat_div, cycles,
    Nat.mul_comm, Nat.mod_eq_of_lt (by omega)]
  omega

/-- The longest that it takes to find that nothing comes. -/
def pollTime (receiver : Receiver) : Int := 20 * receiver.decoder.period + receiver.reading

/-- The time that is slept away before a loop of reading ends: once more if a byte is owed. -/
def allowance (receiver : Receiver) (owed : List UInt8) : Int :=
  if owed = [] then receiver.pollTime else 2 * receiver.pollTime

/-- A poll that finds nothing sleeps, and has all that is owed when it looks again. -/
theorem Shows.outwait {owed : List UInt8} (shown : receiver.Shows port machine view)
    (settled : receiver.Settled view owed) (nothing : view.bytes = []) :
    let slept := machine.sleep (port.patienceMicros machine)
    ∃ next, receiver.Shows (port.collect slept).1 (port.collect slept).2 next ∧
      next.bytes = owed ∧ receiver.Settled next [] ∧
      (owed = [] → receiver.Idle next receiver.decoder.period (2 ^ 30)) ∧
      view.time ≤ next.time ∧ next.time ≤ view.time + receiver.pollTime := by
  obtain ⟨least, most⟩ := shown.patience settled.owing.bitPeriod
  have narrow := receiver.narrow
  have moves := receiver.reading_bounds
  have room := settled.room
  have slept := shown.sleep (port.patienceMicros machine)
  generalize ((port.patienceMicros machine * receiver.timebase.perMicrosecond).toNat : Int) = pause
    at least most slept
  have time : view.time ≤ view.time + pause + receiver.reading ∧
      view.time + pause + receiver.reading ≤ view.time + receiver.pollTime := by
    unfold pollTime
    omega
  rcases settled.owing.idle_or_single with ⟨rfl, trails⟩ | ⟨byte, rfl⟩
  · have waited : receiver.Idle { view with time := view.time + pause } receiver.decoder.period
        (2 ^ 30 + 20 * receiver.decoder.period) :=
      ⟨nothing, settled.decoded, trails.later (by simp only; omega) (by simp only; omega)⟩
    obtain ⟨next, looked, idle, passed⟩ :=
      slept.glance waited (Int.le_add_of_nonneg_right (by omega)) (by omega) (by omega) (by omega)
        (Nat.zero_lt_of_lt room)
    refine ⟨next, looked, idle.bytes, ⟨idle.edges, ?_, ?_⟩, fun _ => idle, passed ▸ time⟩
    · exact .rest _ (idle.trails.later (by omega) (by omega))
    · rw [idle.bytes]
      exact Nat.zero_lt_of_lt room
  · rcases slept.look settled.decoded settled.owing (by rw [nothing]; simp) (by simp only; omega)
        (by simp only; omega) room with ⟨after, looked, reached⟩ | ⟨early, -⟩
    · refine ⟨_, looked, by rw [nothing]; rfl, ⟨rfl, .rest _ reached, ?_⟩,
        (by simp), time⟩
      rw [List.length_append]
      exact room
    · simp only at early
      omega

/-- If bytes are told of none after a poll, none are owed either, and the line is idle. -/
theorem Shows.available {owed : List UInt8}
    (shown : receiver.Shows (port.collect machine).1 (port.collect machine).2 view)
    (settled : receiver.Settled view owed) :
    ∃ next left, receiver.Shows (port.available machine).2.1 (port.available machine).2.2 next ∧
      (port.available machine).1 = next.bytes.length ∧ receiver.Settled next left ∧
      next.bytes ++ left = view.bytes ++ owed ∧ view.time ≤ next.time ∧
      (next.bytes = [] → left = [] ∧ receiver.Idle next receiver.decoder.period (2 ^ 30) ∧
        next.time ≤ view.time + receiver.allowance owed) ∧
      (next.bytes ≠ [] →
        next.time + receiver.allowance left ≤ view.time + receiver.allowance owed) := by
  have present : port.reception.isNone = false := by
    rw [Option.isNone_eq_false_iff]
    cases reception : port.reception with
    | some reception => rfl
    | none =>
      obtain ⟨bytes, kept, -⟩ := shown.reception
      rw [Port.collect, reception] at kept
      cases reception.symm.trans kept
  have counted := shown.buffered
  rw [Port.available, if_neg (by simp [present])]
  generalize port.collect machine = polled at shown counted ⊢
  obtain ⟨port, machine⟩ := polled
  simp only at shown counted ⊢
  by_cases nothing : view.bytes = []
  · obtain ⟨next, looked, rfl, after, idle, forth, time⟩ := shown.outwait settled nothing
    rw [if_pos (by rw [counted, nothing]; rfl)]
    refine ⟨next, [], looked, looked.buffered, after, by rw [nothing, List.append_nil]; rfl, forth,
      fun none => ⟨rfl, idle none, ?_⟩, fun some => ?_⟩
    · rw [allowance, if_pos none]
      exact time
    · rw [allowance, allowance, if_pos rfl, if_neg some]
      omega
  · rw [if_neg (by rw [counted, List.length_eq_zero_iff]; exact nothing)]
    exact ⟨view, owed, shown, counted, settled, rfl, Int.le_refl _,
      fun none => absurd none nothing, fun _ => Int.le_refl _⟩

/-- Reading takes the oldest byte, without a poll if there is one. -/
theorem Shows.read {byte : UInt8} {rest : List UInt8} (shown : receiver.Shows port machine view)
    (filled : view.bytes = byte :: rest) :
    (port.read machine).1 = some byte ∧
      receiver.Shows (port.read machine).2.1 (port.read machine).2.2
        { view with bytes := rest } := by
  have counted := shown.buffered
  obtain ⟨bytes, reception, stored, capacity⟩ := shown.reception
  rw [Port.read, if_neg (by rw [counted, filled, List.length_cons]; omega)]
  simp only [Port.takeByte, reception]
  refine ⟨?_, ⟨_, rfl, ?_, ?_⟩, shown.decoder, shown.losses, shown.timebase, shown.rate,
    shown.clock, shown.queue⟩
  · rw [Ring.pop?_fst, stored, filled]
    rfl
  · rw [Ring.toList_pop, stored, filled]
    rfl
  · rw [Ring.capacity_pop, capacity]

theorem allowance_nil (receiver : Receiver) : receiver.allowance [] = receiver.pollTime :=
  if_pos rfl

theorem allowance_bounds (receiver : Receiver) (owed : List UInt8) :
    receiver.pollTime ≤ receiver.allowance owed ∧
      receiver.allowance owed ≤ 2 * receiver.pollTime := by
  have := receiver.reading_bounds
  unfold allowance pollTime
  split <;> omega

/-- The poll after a byte has been read keeps the rest of the message. -/
theorem Shows.polled {byte : UInt8} {rest owed : List UInt8}
    (shown : receiver.Shows port machine { view with bytes := rest })
    (filled : view.bytes = byte :: rest) (settled : receiver.Settled view owed) :
    ∃ next left, receiver.Shows (port.collect machine).1 (port.collect machine).2 next ∧
      receiver.Settled next left ∧ next.bytes ++ left = rest ++ owed ∧
      next.time = view.time + receiver.reading ∧
      receiver.allowance left ≤ receiver.allowance owed := by
  have := receiver.narrow
  have := receiver.reading_bounds
  have owing := settled.owing
  have room := settled.room
  have split : ((rest.length + 1 : Nat) : Int) * receiver.reading =
      rest.length * receiver.reading + receiver.reading := by
    rw [Int.natCast_add, Int.add_mul]
    simp
  have positive : 0 ≤ rest.length * receiver.reading := Int.mul_nonneg (by omega) (by omega)
  rw [filled, List.length_cons] at owing room
  rw [split] at owing
  rcases shown.look settled.decoded owing (by omega) (by simp only; omega) (by simp only; omega)
      (by simp only; omega) with ⟨after, looked, reached⟩ | ⟨-, looked, still⟩
  · refine ⟨_, [], looked, ⟨rfl, .rest _ reached, ?_⟩, List.append_nil _, rfl, ?_⟩
    · simp only [List.length_append, List.length_nil]
      omega
    · rw [allowance_nil]
      exact (receiver.allowance_bounds owed).1
  · refine ⟨_, owed, looked, ⟨settled.decoded, ?_, ?_⟩, rfl, rfl, Int.le_refl _⟩
    · have left : view.time + (rest.length * receiver.reading + receiver.reading) -
          (view.time + receiver.reading) = rest.length * receiver.reading := by omega
      rw [← left]
      exact still
    · simp only
      omega

/-- Whatever is left of the message comes out byte after byte. Then the loop ends by itself,
with nothing lost, on a line that has been idle for a bit period. -/
theorem Shows.drainWith {owed : List UInt8} {count : Nat}
    (shown : receiver.Shows (port.collect machine).1 (port.collect machine).2 view)
    (settled : receiver.Settled view owed) (whole : (view.bytes ++ owed).length = count) :
    ∃ after final last,
      (∀ polls, count < polls → port.drainWith machine polls = (view.bytes ++ owed, after, final)) ∧
      receiver.Shows after final last ∧ receiver.Idle last receiver.decoder.period (2 ^ 30) ∧
      view.time ≤ last.time ∧
      last.time ≤ view.time + count * receiver.reading + receiver.allowance owed := by
  induction count generalizing port machine view owed with
  | zero =>
    obtain ⟨next, left, after, count, waits, same, forth, final, -⟩ := shown.available settled
    have nothing := List.eq_nil_of_length_eq_zero whole
    rw [nothing] at same ⊢
    have none : next.bytes = [] := (List.append_eq_nil_iff.mp same).1
    obtain ⟨-, idle, time⟩ := final none
    refine ⟨_, _, next, fun polls enough => ?_, after, idle, forth, by omega⟩
    obtain ⟨fuel, rfl⟩ := Nat.exists_eq_add_of_lt enough
    rw [Port.drainWith]
    generalize port.available machine = polled at count ⊢
    obtain ⟨told, port, machine⟩ := polled
    simp only at count ⊢
    rw [if_pos (by rw [count, none]; rfl)]
  | succ rest ih =>
    obtain ⟨next, left, after, count, waits, same, forth, final, more⟩ := shown.available settled
    rw [← same] at whole ⊢
    cases filled : next.bytes with
    | nil =>
      rw [filled, (final filled).1] at whole
      cases whole
    | cons byte others =>
      have time := more (by rw [filled]; simp)
      obtain ⟨taken, read⟩ := after.read filled
      obtain ⟨next', left', polled, settled', same', passed, less⟩ := read.polled filled waits
      rw [filled, List.cons_append, ← same', List.length_cons, Nat.succ_inj] at whole
      obtain ⟨ended, last, view', drained, shown', idle, soon, late⟩ := ih polled settled' whole
      have moves := receiver.reading_bounds
      refine ⟨ended, last, view', fun polls enough => ?_, shown', idle, by omega, ?_⟩
      · obtain ⟨fuel, rfl⟩ := Nat.exists_eq_add_of_lt enough
        have left := drained (rest + 1 + fuel) (by omega)
        rw [Port.drainWith]
        generalize port.available machine = polled at count taken left ⊢
        obtain ⟨told, port, machine⟩ := polled
        simp only at count taken left ⊢
        rw [if_neg (by rw [count, filled, List.length_cons]; omega)]
        generalize port.read machine = reading at taken left ⊢
        obtain ⟨found, port, machine⟩ := reading
        simp only at taken left ⊢
        rw [taken, left, same']
        rfl
      · have split : ((rest + 1 : Nat) : Int) * receiver.reading =
            rest * receiver.reading + receiver.reading := by
          rw [Int.natCast_add, Int.add_mul]
          simp
        omega

/-- The first poll after a message has all its bytes, but for what is owed. No byte comes
without an edge. -/
theorem Shows.message {slack start last : Int} {data : List UInt8}
    (shown : receiver.Shows port machine view) (filled : data ≠ []) (empty : view.bytes = [])
    (trails : receiver.decoder.Trails view.decoder (receiver.decoder.period / 2 + 1) (2 ^ 31 - 2)
      start)
    (wide : 6 ≤ receiver.decoder.period) (tolerated : slack ≤ receiver.decoder.period / 2 - 3)
    (sighted : Sighted slack start
      (Plan.ofData data receiver.decoder.bitPeriod receiver.decoder.invert).holds
      (view.edges.map .edge) last)
    (passed : last ≤ view.time) (near : view.time ≤ last + 11 * receiver.decoder.period)
    (room : data.length < receiver.capacity)
    (short : data.length * receiver.timebase.perRead.toNat ≤ 2 ^ 26) :
    ∃ next owed, receiver.Shows (port.collect machine).1 (port.collect machine).2 next ∧
      receiver.Settled next owed ∧ next.bytes ++ owed = data ∧
      next.time = view.time + receiver.reading ∧ data.length ≤ view.edges.length := by
  have narrow := receiver.narrow
  have := receiver.reading_bounds
  obtain ⟨byte, rest, rfl⟩ := List.exists_cons_of_ne_nil filled
  obtain ⟨since, resting, least, most⟩ := trails
  have := Edge.le_noted start (receiver.decoder.driven byte 0)
  have := Edge.noted_le start (receiver.decoder.driven byte 0)
  have taken := @Decoder.sense_start receiver.decoder since start byte (by omega) (by omega)
    (by omega)
  have first : Decoder.pending byte 0 ++ rest = byte :: rest := rfl
  rw [Plan.ofData_cons] at sighted
  have brings := Decoder.hear_sighted narrow wide tolerated sighted (Nat.zero_le _) rfl taken
  rw [← resting, first] at brings
  have bounded : ((byte :: rest).length : Int) * receiver.reading ≤ 2 ^ 26 := by
    unfold reading
    omega
  have positive : 0 ≤ ((byte :: rest).length : Int) * receiver.reading :=
    Int.mul_nonneg (by omega) (by omega)
  obtain ⟨findings, polled, owed, heard, whole, owing⟩ :=
    brings.look narrow positive (show last < view.time + receiver.reading by omega) (by omega)
  have counted := congrArg List.length whole
  rw [List.length_append] at counted
  have looked := shown.collect heard (by rw [empty, List.length_nil]; omega)
  rw [empty, List.nil_append] at looked
  refine ⟨_, owed, looked, ⟨rfl, owing.weaken ?_, by simp only; omega⟩, whole, rfl,
    brings.length_le⟩
  exact Int.mul_le_mul_of_nonneg_right (by simp only; omega) (by omega)

theorem Shows.drainBound (shown : receiver.Shows port machine view) :
    port.drainBound machine = view.bytes.length + view.edges.length + 2 := by
  obtain ⟨bytes, reception, stored, -⟩ := shown.reception
  obtain ⟨queue, found, queued, -⟩ := shown.queue
  have listed : machine.queued receiver.capture = view.edges := by
    rw [Machine.queued, found, ← queued]
  rw [Port.drainBound, reception]
  simp only [listed]
  rw [← bytes.length_toList, stored]

theorem Shows.anyLost (shown : receiver.Shows port machine view) :
    (port.anyLost machine).1 = false := by
  obtain ⟨bytes, reception, -⟩ := shown.reception
  obtain ⟨queue, found, -, kept, -⟩ := shown.queue
  exact Port.anyLost_eq_false reception found kept shown.losses

end Receiver

/-- A receiver at the end of a line decodes what is clocked out there. -/
structure Link.Feeds (link : Link) (receiver : Receiver) : Prop where
  timebase : receiver.timebase = link.timebase
  bitPeriod : receiver.decoder.bitPeriod = link.transmitter.bitPeriod
  invert : receiver.decoder.invert = link.transmitter.invert

/-- A message is clocked out on a line at rest, whose receiver has been idle for a bit period. Its
first poll, if it does not come too late, has the message or owes the last byte of it. -/
theorem Link.Feeds.message {link : Link} {receiver : Receiver} {machine : Machine}
    {view : Link.View} {decoder : Decoder} {most : Int} {data : List UInt8}
    (feeds : link.Feeds receiver) (line : link.Shows machine view) (filled : data ≠ [])
    (rests : view.high = link.transmitter.markLevel) (unmasked : view.masked = false)
    (settled : view.waiting = false) (empty : view.edges = [])
    (trails : receiver.decoder.Trails decoder receiver.decoder.period most view.time)
    (recent : most ≤ 2 ^ 30 + 2 ^ 29) (captured : 10 * data.length < link.capacity)
    (stored : data.length < receiver.capacity)
    (brief : data.length * link.timebase.perRead.toNat ≤ 2 ^ 26) :
    ∃ next, link.Shows (link.transmitter.send machine link.sender data).2 next ∧
      next.masked = false ∧ next.waiting = false ∧
      ∀ port after time,
        receiver.Shows port after { decoder, bytes := [], edges := next.edges, time } →
        next.time ≤ time → time ≤ next.time + receiver.decoder.period →
        ∃ polled owed, receiver.Shows (port.collect after).1 (port.collect after).2 polled ∧
          receiver.Settled polled owed ∧ polled.bytes ++ owed = data ∧
          polled.time = time + receiver.reading ∧ data.length < port.drainBound after := by
  have period : receiver.decoder.period = link.period := by
    rw [Decoder.period, feeds.bitPeriod]
    rfl
  have := link.reading_pos
  have := link.latency_bounds
  have := link.period_ge
  have := link.period_le
  have := link.micro_pos
  obtain ⟨next, last, carried, sighted, passed, near, open', through⟩ :=
    line.send filled rests unmasked settled empty captured
  refine ⟨next, carried, open', through, fun port after time shown soonest latest => ?_⟩
  have plan : link.transmitter.plan data =
      Plan.ofData data receiver.decoder.bitPeriod receiver.decoder.invert := by
    rw [feeds.bitPeriod, feeds.invert]
    rfl
  rw [plan] at sighted
  obtain ⟨polled, owed, looked, waits, whole, moved, enough⟩ :=
    shown.message filled rfl (trails.later (by omega) (by omega)) (by omega) (by omega) sighted
      (by simp only; omega) (by simp only; omega) stored (feeds.timebase ▸ brief)
  refine ⟨polled, owed, looked, waits, whole, moved, ?_⟩
  rw [shown.drainBound]
  simp only [List.length_nil] at enough ⊢
  omega

end PinUart
