import PinUart.Cli.Execute
import PinUart.Proofs.Wiring

/-! A message sent over a wire between two ports comes out at the other end, however its
edges are delayed by the timing of the bits, and whether or not interrupts are masked for
it. -/
namespace PinUart.Loopback

variable {loopback : Loopback} {machine : Machine} {port : Port} {data : List UInt8}

/-- A sending port writes all that it is given. -/
theorem Speaks.write (speaks : loopback.Speaks port) (started : port.started = true)
    (timed : port.transmitter = loopback.transmitter) (machine : Machine) (data : List UInt8) :
    port.write machine data =
      (data.length, port, (loopback.transmitter.send machine loopback.sendPin data).2) := by
  have same : port.collect machine = (port, machine) := by
    rw [Port.collect, speaks.reception]
  rw [Port.write, same]
  simp only [speaks.txPin, started, speaks.apart]
  cases data with
  | nil => rfl
  | cons byte rest =>
    simp [Port.sendOn, Port.setEnable, speaks.enablePin, timed, Transmitter.send]

/-- Once the message is sent, a first poll has it, or owes the last byte of it. Nothing comes in
where nothing is sent. -/
theorem collect_sent {high : Bool} {time : Int}
    (line : loopback.link.Shows machine { high, time })
    (rests : high = loopback.transmitter.markLevel)
    (shown : loopback.inbox.Shows port machine
      { decoder := loopback.decoder.reset (Cycle.ofTime time), bytes := [], edges := [], time })
    (stored : data.length + 1 ≤ loopback.receiver.byteCapacity.toNat)
    (captured : 10 * data.length + 1 ≤ loopback.receiver.edgeSlots.toNat)
    (brief : data.length * loopback.timebase.perRead.toNat ≤ 2 ^ 26) :
    let sent := (loopback.transmitter.send machine loopback.sendPin data).2
    ∃ view owed,
      loopback.inbox.Shows (port.collect sent).1 (port.collect sent).2 view ∧
      loopback.inbox.Settled view owed ∧ view.bytes ++ owed = data ∧
      data.length < port.drainBound sent := by
  have narrow := loopback.inbox.narrow
  have moves := loopback.inbox.reading_bounds
  have fits : data.length < loopback.inbox.capacity :=
    Nat.lt_of_lt_of_le stored (Nat.le_max_left _ _)
  have fresh := loopback.inbox.decoder.trails_reset time
  by_cases filled : data = []
  · subst filled
    obtain ⟨view, polled, idle, -⟩ :=
      shown.glance ⟨rfl, rfl, fresh⟩ (Int.add_nonneg (by decide) (by omega)) (Int.le_refl 0)
        (by decide) (by omega) fits
    refine ⟨view, [], polled, ⟨idle.edges, .rest _ idle.trails, ?_⟩, ?_, ?_⟩
    · rw [idle.bytes]
      exact fits
    · rw [idle.bytes]
      rfl
    · change 0 < port.drainBound machine
      rw [shown.drainBound]
      exact Nat.succ_pos _
  · have feeds : loopback.link.Feeds loopback.inbox :=
      ⟨rfl, loopback.bitPeriod_decoder, rfl⟩
    have trails : loopback.inbox.decoder.Trails (loopback.decoder.reset (Cycle.ofTime time))
        loopback.inbox.decoder.period (2 ^ 30) time := fresh.later (by omega) (by omega)
    obtain ⟨next, carried, -, -, delivers⟩ :=
      feeds.message line filled rests rfl rfl rfl trails (by decide)
        (Nat.lt_of_lt_of_le captured (Nat.le_max_left _ _)) fits brief
    obtain ⟨view, owed, polled, settled, whole, -, bound⟩ :=
      delivers port _ next.time
        ⟨shown.reception, shown.decoder, shown.losses, carried.timebase, carried.rate,
          carried.clock, carried.queue⟩ (Int.le_refl _) (by omega)
    exact ⟨view, owed, polled, settled, whole, bound⟩

/-- The whole way of a message, step by step: both ports are made and started, the one
sends all bytes, and the other has them read out, by a loop that ends by itself. -/
theorem exchange (loopback : Loopback) (data : List UInt8)
    (stored : data.length + 1 ≤ loopback.receiver.byteCapacity.toNat)
    (captured : 10 * data.length + 1 ≤ loopback.receiver.edgeSlots.toNat)
    (brief : data.length * loopback.timebase.perRead.toNat ≤ 2 ^ 26) :
    let wired := loopback.fresh.connect loopback.wire.1 loopback.wire.2
    ∃ speaker listener speaking listening made started ready sent,
      Port.create wired loopback.sender = (speaker, wired) ∧
      Port.create wired loopback.receiver = (listener, made) ∧
      speaker.start made loopback.baud = (.ok (), speaking, started) ∧
      listener.start started loopback.baud = (.ok (), listening, ready) ∧
      speaking.write ready data = (data.length, speaking, sent) ∧
      data.length < listening.drainBound sent ∧
      ∀ polls, data.length < polls → ∃ after machine,
        listening.drainWith sent polls = (data, after, machine) ∧
          (after.anyLost machine).1 = false := by
  have laid := loopback.laid_connect
  obtain ⟨speaks, same⟩ := laid.create_sender
  obtain ⟨listener, queue, made, created, hears, prepared, capacity⟩ := laid.create_receiver
  obtain ⟨speaking, started, begun, spoken, running, timed, rests⟩ := prepared.start_sender speaks
  obtain ⟨listening, ready, time, armed, line, shown⟩ := rests.start_receiver hears capacity
  obtain ⟨view, owed, polled, settled, whole, bound⟩ :=
    collect_sent line rfl shown stored captured brief
  refine ⟨_, listener, speaking, listening, made, started, ready, _, Prod.ext rfl same, created,
    begun, armed, spoken.write running timed ready data, bound, ?_⟩
  obtain ⟨after, final, last, drained, finished, -⟩ := polled.drainWith settled rfl
  rw [whole] at drained
  exact fun polls enough => ⟨after, final, drained polls enough, finished.anyLost⟩

/-- What the owners of the two ports do: wiring, making and starting them, and sending. -/
def operations (loopback : Loopback) (data : List UInt8) : List World.Operation :=
  [.machine (.connect loopback.wire.1 loopback.wire.2), .openPort loopback.sender,
    .openPort loopback.receiver, .port 0 (.start loopback.baud), .port 1 (.start loopback.baud),
    .port 0 (.write data)]

/-- A message that fits the buffers is sent whole and received whole, without a loss, and
the loop that reads it out ends by itself. -/
theorem run_delivers (loopback : Loopback) (data : List UInt8)
    (stored : data.length + 1 ≤ loopback.receiver.byteCapacity.toNat)
    (captured : 10 * data.length + 1 ≤ loopback.receiver.edgeSlots.toNat)
    (brief : data.length * loopback.timebase.perRead.toNat ≤ 2 ^ 26) :
    let (answers, sent) := World.run { machine := loopback.fresh } (loopback.operations data)
    answers = [.nothing, .count 0, .count 1, .done, .done, .count data.length] ∧
      (sent.run [.port 1 .drain, .port 1 .anyLost]).1 = [.bytes data, .flag false] ∧
      ∃ port, sent.port? 1 = some port ∧
        ∀ polls, data.length < polls →
          let (received, after, machine) := port.drainWith sent.machine polls
          received = data ∧ (after.anyLost machine).1 = false := by
  obtain ⟨speaker, listener, speaking, listening, made, started, ready, sent, opened, created, begun,
    armed, written, bound, drained⟩ := loopback.exchange data stored captured brief
  have ran : World.run { machine := loopback.fresh } (loopback.operations data) =
      ([.nothing, .count 0, .count 1, .done, .done, .count data.length],
        { machine := sent, ports := #[some speaking, some listening] }) := by
    simp [operations, World.run, World.perform, Machine.perform, World.openPort,
      World.performPort, World.port?, Port.perform, Port.answering, Answer.ofResult, opened,
      created, begun, armed, written]
  rw [ran]
  refine ⟨rfl, ?_, listening, rfl, ?_⟩
  · obtain ⟨after, machine, drained, lossless⟩ := drained _ bound
    simp [World.run, World.perform, World.performPort, World.port?, Port.perform, Port.drain,
      drained, lossless]
  · intro polls enough
    obtain ⟨after, machine, drained, lossless⟩ := drained polls enough
    rw [drained]
    exact ⟨rfl, lossless⟩

/-- An inverted line that lets go of the wire, with interrupts masked, at the lowest rate
and the shortest bit period, shortly before a turn of the counter. -/
def inverted : Loopback where
  timebase := { rate := 1000000, perRead := 1 }
  clock := 0xFFFFFFC0
  sendPin := 7
  receivePin := 3
  crossed := true
  sender := { txPin := some 7, invert := true, drive := .pullUpRelease, interruptible := false }
  receiver := { rxPin := some 3, invert := true, byteCapacity := 3, edgeCapacity := some 21 }
  baud := 62500
  differ := by decide
  sends := by decide
  receives := by decide
  polarity := rfl
  edgesFit := by decide
  bytesFit := by decide
  paced := by decide
  narrow := by decide

/-- Its buffers just hold two bytes. -/
theorem run_delivers_inverted :
    let (answers, sent) := World.run { machine := inverted.fresh } (inverted.operations [0xFF, 0x00])
    answers = [.nothing, .count 0, .count 1, .done, .done, .count 2] ∧
      (sent.run [.port 1 .drain, .port 1 .anyLost]).1 = [.bytes [0xFF, 0x00], .flag false] ∧
      ∃ port, sent.port? 1 = some port ∧
        ∀ polls, 2 < polls →
          let (received, after, machine) := port.drainWith sent.machine polls
          received = [0xFF, 0x00] ∧ (after.anyLost machine).1 = false :=
  run_delivers inverted [0xFF, 0x00] (by decide) (by decide) (by decide)

/-- The receiving port of the command line has room for what is sent to it. -/
private theorem toNat_byteCapacity {length : Nat} (short : length ≤ 2 ^ 24) :
    (UInt64.ofNat (length + 1)).toNat = length + 1 := by
  rw [UInt64.toNat_ofNat', Nat.mod_eq_of_lt (by omega)]

private theorem toNat_edgeSlots {config : Config} {length : Nat} (short : length ≤ 2 ^ 24)
    (bytes : config.byteCapacity = UInt64.ofNat (length + 1)) (unset : config.edgeCapacity = none) :
    config.edgeSlots.toNat = 10 * length + 10 := by
  have product : (length + 1) * Config.edgesPerByte = 10 * length + 10 := by
    unfold Config.edgesPerByte
    omega
  rw [Config.edgeSlots, unset, bytes, toNat_byteCapacity short, product, Option.getD_none,
    UInt64.toNat_ofNat', Nat.min_eq_left (by omega), Nat.mod_eq_of_lt (by omega)]

/-- The two ports of the command line, at the default rate of the counter. -/
def commandLine (data : List UInt8) (baud : UInt32) (invert uninterrupted : Bool)
    (short : data.length ≤ 2 ^ 24) (paced : 192 ≤ (80000000 / baud).toNat)
    (narrow : (80000000 / baud).toNat ≤ 2 ^ 26) : Loopback where
  timebase := default
  clock := 1000000
  sendPin := Cli.sendPin
  receivePin := Cli.receivePin
  crossed := false
  sender := { txPin := some Cli.sendPin, invert, interruptible := !uninterrupted }
  receiver :=
    { rxPin := some Cli.receivePin, invert, byteCapacity := UInt64.ofNat (data.length + 1) }
  baud := baud
  differ := by decide
  sends := ⟨rfl, rfl, rfl⟩
  receives := ⟨rfl, rfl, rfl⟩
  polarity := rfl
  edgesFit := by
    rw [toNat_edgeSlots short rfl rfl, Ring.slotLimit]
    omega
  bytesFit := by
    rw [toNat_byteCapacity short, Ring.slotLimit]
    omega
  paced := Nat.le_trans (by decide) paced
  narrow := narrow

/-- Between the two ports of the command line all data of up to sixteen million bytes comes
through, at every line speed from 2 to 416666 baud. -/
theorem transfer_eq (data : List UInt8) (baud : UInt32) (invert uninterrupted : Bool)
    (short : data.length ≤ 2 ^ 24) (paced : 192 ≤ (80000000 / baud).toNat)
    (narrow : (80000000 / baud).toNat ≤ 2 ^ 26) :
    Cli.transfer data baud invert uninterrupted = .ok data := by
  have stored := toNat_byteCapacity short
  have captured := @toNat_edgeSlots
    { rxPin := some Cli.receivePin, invert, byteCapacity := UInt64.ofNat (data.length + 1) }
    data.length short rfl rfl
  have brief : data.length * 4 ≤ 2 ^ 26 := by omega
  obtain ⟨speaker, listener, speaking, listening, made, started, ready, sent, opened, created, begun,
    armed, written, bound, drained⟩ :=
    (commandLine data baud invert uninterrupted short paced narrow).exchange data
      (Nat.le_of_eq stored.symm) (Nat.le_trans (by omega) (Nat.le_of_eq captured.symm)) brief
  obtain ⟨after, machine, received, -⟩ := drained _ bound
  change Port.create (({} : Machine).connect Cli.sendPin Cli.receivePin)
      { txPin := some Cli.sendPin, invert, interruptible := !uninterrupted } =
    (speaker, ({} : Machine).connect Cli.sendPin Cli.receivePin) at opened
  change Port.create (({} : Machine).connect Cli.sendPin Cli.receivePin)
      { rxPin := some Cli.receivePin, invert, byteCapacity := UInt64.ofNat (data.length + 1) } =
    (listener, made) at created
  change speaker.start made baud = _ at begun
  change listener.start started baud = _ at armed
  unfold Cli.transfer
  simp only [opened, created, begun, armed, written, Port.drain, received]
  rfl

/-- The loopback command reports no mismatch. -/
theorem loopback_succeeds (text : String) (baud : UInt32) (invert uninterrupted : Bool)
    (short : text.toUTF8.toList.length ≤ 2 ^ 24) (paced : 192 ≤ (80000000 / baud).toNat)
    (narrow : (80000000 / baud).toNat ≤ 2 ^ 26) :
    (Cli.loopback text baud invert uninterrupted).failure = none := by
  rw [Cli.loopback, transfer_eq _ baud invert uninterrupted short paced narrow]
  exact if_pos rfl

end PinUart.Loopback
