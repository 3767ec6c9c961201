import PinUart.Proofs.Intake
import PinUart.Proofs.Listening

/-! What the functions of a port do to its intake. Those that only tend to reception are
a fixed list of actions and change nothing else; those that drive pins let edges in
between, while the port listens. -/
namespace PinUart

/-- What tells, besides its stake in the interrupts, what state a port is in. -/
structure Posture where
  txPin : Option Pin
  oneWire : Bool
  byteCapacity : UInt64
  started : Bool
  mode : LineMode
  deriving DecidableEq

namespace Intake

/-- Stores what decoding finds, and counts what is refused. -/
theorem deposit_completions (bytes : ByteRing) (findings : List Finding) :
    (bytes.storeAll findings).2 = (deposit bytes (completions findings)).2 ∧
      ((bytes.storeAll findings).1.map (·.dropped)).sum =
        (deposit bytes (completions findings)).1.countP Happening.isRefusedByte := by
  induction findings generalizing bytes with
  | nil => exact ⟨rfl, rfl⟩
  | cons finding findings ih =>
    cases finding with
    | spurious | progress =>
      obtain ⟨stored, refused⟩ := ih bytes
      refine ⟨stored, ?_⟩
      simpa [ByteRing.storeAll, ByteRing.store] using refused
    | completed byte =>
      obtain ⟨stored, refused⟩ := ih (bytes.push byte).2
      have accepted := bytes.push_fst byte
      rw [ByteRing.storeAll, ByteRing.store_completed, completions_completed, deposit]
      refine ⟨stored, ?_⟩
      dsimp only
      rw [List.map_cons, List.sum_cons, refused, List.countP_cons, accepted]
      split
      · rename_i room
        rw [decide_eq_true room]
        exact Nat.zero_add _
      · rename_i full
        rw [decide_eq_false full]
        exact Nat.add_comm _ _

theorem deposit_append (bytes : ByteRing) (earlier later : List UInt8) :
    deposit bytes (earlier ++ later) =
      ((deposit bytes earlier).1 ++ (deposit (deposit bytes earlier).2 later).1,
        (deposit (deposit bytes earlier).2 later).2) := by
  induction earlier generalizing bytes with
  | nil => rfl
  | cons byte rest ih => simp only [List.cons_append, deposit, ih]

/-- Decoding the queue and polling then is one look. -/
theorem look_eq (intake : Intake) (now : Cycle) :
    let decoded := intake.decoder.decodeAll intake.bytes intake.queue.toList
    let polled := decoded.2.1.poll now decoded.2.2
    (intake.act (.look now)).2 =
      { queue := intake.queue.takeLost.2.discard
        decoder := polled.2.1
        bytes := polled.2.2
        losses :=
          { edge := intake.losses.edge || intake.queue.lost
            byte := intake.losses.byte || decoded.1 + polled.1 != 0 }
        listening := intake.listening } := by
  have counted : ∀ story : List Happening,
      story.any Happening.isRefusedByte = (story.countP Happening.isRefusedByte != 0) := by
    intro story
    rw [Bool.eq_iff_iff, List.any_eq_true, ← List.countP_pos_iff, bne_iff_ne, Nat.pos_iff_ne_zero]
  dsimp only
  unfold act brought sights
  dsimp only
  rw [refusals, counted, Decoder.hear_append, completions_append, deposit_append,
    Decoder.decodeAll_eq, Decoder.poll_eq, Decoder.observe_eq, Decoder.observe_eq,
    (deposit_completions _ _).1, (deposit_completions _ _).1, (deposit_completions _ _).2,
    (deposit_completions _ _).2, List.countP_append]

end Intake

namespace Port

def posture (port : Port) : Posture :=
  { txPin := port.txPin
    oneWire := port.config.oneWire
    byteCapacity := port.config.byteCapacity
    started := port.started
    mode := port.mode }

/-- The reception of a port, with what its capture has queued. -/
def intake? (port : Port) (machine : Machine) : Option Intake :=
  match port.reception with
  | none => none
  | some reception => (machine.queue? reception.capture).map fun queue =>
    { queue, decoder := port.decoder, bytes := reception.bytes, losses := port.losses
      listening := port.listening }

theorem intake?_eq_some {port : Port} {machine : Machine} {intake : Intake} :
    port.intake? machine = some intake ↔
      ∃ reception queue, port.reception = some reception ∧
        machine.queue? reception.capture = some queue ∧
        intake = { queue, decoder := port.decoder, bytes := reception.bytes
                   losses := port.losses, listening := port.listening } := by
  unfold intake?
  constructor
  · intro found
    split at found
    · cases found
    · rename_i reception held
      obtain ⟨queue, known, rfl⟩ := Option.map_eq_some_iff.mp found
      exact ⟨reception, queue, held, known, rfl⟩
  · rintro ⟨reception, queue, held, known, rfl⟩
    rw [held]
    dsimp only
    rw [known]
    rfl

/-- A function that tends to reception: it acts on the intake, and nothing else changes
that a port is told by. -/
structure Tends (port : Port) (machine : Machine) (actions : List Intake.Action)
    (after : Port × Machine) : Prop where
  stake : after.1.stake = port.stake
  posture : after.1.posture = port.posture
  deeds : Machine.Deeds port.stake.capture machine after.2
  intake : ∀ before, port.intake? machine = some before →
    after.1.intake? after.2 = some (before.run actions).2

variable {port other : Port} {machine between : Machine} {after : Port × Machine}
  {actions earlier later : List Intake.Action}

theorem Tends.refl (port : Port) (machine : Machine) : port.Tends machine [] (port, machine) :=
  ⟨rfl, rfl, .refl, fun _ found => found⟩

theorem Tends.trans (first : port.Tends machine earlier (other, between))
    (second : other.Tends between later after) : port.Tends machine (earlier ++ later) after := by
  refine ⟨second.stake.trans first.stake, second.posture.trans first.posture, ?_, ?_⟩
  · have same : other.stake.capture = port.stake.capture := congrArg Stake.capture first.stake
    exact first.deeds.trans (same ▸ second.deeds)
  · intro before found
    rw [Intake.run_append]
    exact second.intake _ (first.intake before found)

/-- Without a reception there is nothing to act on. -/
theorem Tends.of_none (without : port.reception = none) (stake : after.1.stake = port.stake)
    (posture : after.1.posture = port.posture)
    (deeds : Machine.Deeds port.stake.capture machine after.2) :
    port.Tends machine actions after := by
  refine ⟨stake, posture, deeds, ?_⟩
  intro before found
  obtain ⟨reception, -, held, -⟩ := intake?_eq_some.mp found
  cases without.symm.trans held

theorem Tends.of_stirs (stirs : machine.Stirs between)
    (captures : between.captures = machine.captures) :
    port.Tends machine [] (port, between) := by
  refine ⟨rfl, rfl, stirs.deeds, ?_⟩
  intro before found
  obtain ⟨reception, queue, held, known, rfl⟩ := intake?_eq_some.mp found
  refine intake?_eq_some.mpr ⟨reception, queue, held, ?_, rfl⟩
  exact (Machine.queue?_of_captures captures _).trans known

end Port

namespace Machine

variable {machine : Machine} {index : Nat} {queue : EdgeQueue}

theorem takeLost_eq (known : machine.queue? index = some queue) :
    machine.takeLost index = (queue.lost, machine.modifyQueue index fun queue => queue.takeLost.2) := by
  obtain ⟨capture, found, rfl⟩ := Option.map_eq_some_iff.mp known
  rw [takeLost, found]

theorem queued_eq (known : machine.queue? index = some queue) :
    machine.queued index = queue.toList := by
  obtain ⟨capture, found, rfl⟩ := Option.map_eq_some_iff.mp known
  rw [queued, found]

theorem deeds_takeLost (machine : Machine) (index : Nat) :
    Deeds (some index) machine (machine.takeLost index).2 := by
  unfold takeLost
  split
  · exact .refl
  · exact .single (.queue machine (fun queue => queue.takeLost.2) rfl)

end Machine

namespace Port

variable {port other : Port} {machine between : Machine} {after : Port × Machine}
  {actions earlier later : List Intake.Action}

theorem noteLostEdges_eq {index : Nat} {queue : EdgeQueue} (port : Port)
    (known : machine.queue? index = some queue) :
    ∃ throttle log, port.noteLostEdges machine index =
      ({ port with
          losses := { port.losses with edge := port.losses.edge || queue.lost }
          throttle },
        { machine.modifyQueue index (fun queue => queue.takeLost.2) with log }) := by
  unfold noteLostEdges
  rw [Machine.takeLost_eq known]
  cases queue.lost with
  | false =>
    dsimp only
    rw [Bool.or_false]
    exact ⟨_, _, rfl⟩
  | true =>
    dsimp only
    rw [Bool.or_true]
    exact ⟨_, _, rfl⟩

theorem noteDroppedBytes_eq (port : Port) (machine : Machine) (dropped : Nat) :
    ∃ throttle log, port.noteDroppedBytes machine dropped =
      ({ port with
          losses := { port.losses with byte := port.losses.byte || dropped != 0 }
          throttle },
        { machine with log }) := by
  unfold noteDroppedBytes
  split
  · rename_i none
    subst none
    refine ⟨port.throttle, machine.log, ?_⟩
    rw [bne_self_eq_false, Bool.or_false]
  · rename_i some
    rw [bne_iff_ne.mpr some, Bool.or_true]
    exact ⟨_, _, rfl⟩

/-- Collecting is a look at the time that the counter shows next. -/
theorem collect_eq {reception : Reception} {queue : EdgeQueue}
    (held : port.reception = some reception)
    (known : machine.queue? reception.capture = some queue) :
    let after := (Intake.act
      { queue, decoder := port.decoder, bytes := reception.bytes, losses := port.losses
        listening := port.listening } (.look machine.readClock.1)).2
    ∃ throttle log, port.collect machine =
      ({ port with
          decoder := after.decoder
          reception := some { reception with bytes := after.bytes }
          losses := after.losses
          throttle },
        { ((machine.modifyQueue reception.capture fun queue => queue.takeLost.2).modifyQueue
            reception.capture EdgeQueue.discard).readClock.2 with log }) := by
  have taken : (machine.modifyQueue reception.capture fun queue => queue.takeLost.2).queue?
      reception.capture = some queue.takeLost.2 := by
    rw [Machine.queue?_modifyQueue, if_pos rfl, known]
    rfl
  obtain ⟨throttle, log, noted⟩ := port.noteLostEdges_eq known
  have queued : Machine.queued
      { machine.modifyQueue reception.capture (fun queue => queue.takeLost.2) with log }
      reception.capture = queue.toList :=
    @Machine.queued_eq _ _ queue.takeLost.2 taken
  dsimp only
  rw [Intake.look_eq]
  unfold collect
  rw [held]
  dsimp only
  rw [noted]
  dsimp only
  rw [queued]
  exact noteDroppedBytes_eq _ _ _

theorem posture_collect (port : Port) (machine : Machine) :
    (port.collect machine).1.posture = port.posture := by
  have noted : ∀ index, (port.noteLostEdges machine index).1.posture = port.posture := by
    intro index
    unfold noteLostEdges
    split <;> rfl
  have dropped : ∀ (port : Port) machine number,
      (port.noteDroppedBytes machine number).1.posture = port.posture := by
    intro port machine number
    unfold noteDroppedBytes
    split <;> rfl
  unfold collect
  split
  · rfl
  · exact (dropped _ _ _).trans (noted _)

theorem deeds_collect (port : Port) (machine : Machine) :
    Machine.Deeds port.stake.capture machine (port.collect machine).2 := by
  have warned : ∀ (port : Port) (machine : Machine) text,
      machine.Stirs (port.warn machine text).2 := by
    intro port machine text
    exact .single (.aside (port.idles_warn machine text).quiet rfl rfl)
  unfold collect
  split
  · exact .refl
  · rename_i reception held
    rw [stake_capture held]
    have noted : Machine.Deeds (some reception.capture) machine
        (port.noteLostEdges machine reception.capture).2 := by
      have taken := machine.deeds_takeLost reception.capture
      unfold noteLostEdges
      split <;> rename_i same <;> rw [same] at taken
      · exact taken
      · exact taken.trans (warned _ _ _).deeds
    dsimp only
    refine (noted.tail (.queue _ EdgeQueue.discard rfl)).trans (Machine.Stirs.deeds ?_)
    refine (Machine.stirs_readClock _).trans ?_
    unfold noteDroppedBytes
    split
    · exact .refl
    · exact warned _ _ _

theorem tends_collect (port : Port) (machine : Machine) :
    port.Tends machine [.look machine.readClock.1] (port.collect machine) := by
  refine ⟨(port.idles_collect machine).stake, port.posture_collect machine,
    port.deeds_collect machine, ?_⟩
  intro before found
  obtain ⟨reception, queue, held, known, rfl⟩ := intake?_eq_some.mp found
  obtain ⟨throttle, log, collected⟩ := collect_eq held known
  rw [collected, Intake.run_singleton]
  refine intake?_eq_some.mpr ⟨_, queue.takeLost.2.discard, rfl, ?_, rfl⟩
  refine (Machine.queue?_modifyQueue _ reception.capture _ _).trans ((if_pos rfl).trans ?_)
  rw [Machine.queue?_modifyQueue, if_pos rfl, known]
  rfl

theorem tends_sleep (port : Port) (machine : Machine) (micros : UInt32) :
    port.Tends machine [] (port, machine.sleep micros) :=
  .of_stirs (machine.stirs_sleep micros) rfl

theorem tends_available (port : Port) (machine : Machine) :
    ∃ looks : List Cycle, port.Tends machine (looks.map .look) (port.available machine).2 := by
  unfold available
  split
  · exact ⟨[], .refl port machine⟩
  · have collected := port.tends_collect machine
    generalize port.collect machine = result at collected ⊢
    obtain ⟨other, between⟩ := result
    dsimp only
    split
    · exact ⟨[_, _], collected.trans ((other.tends_sleep between _).trans (tends_collect _ _))⟩
    · exact ⟨[_], collected⟩

theorem tends_takeByte (port : Port) (machine : Machine) :
    port.Tends machine [.take] (port.takeByte.2, machine) := by
  refine ⟨(port.idles_takeByte machine).stake, ?_, .refl, ?_⟩
  · unfold takeByte
    split <;> rfl
  · intro before found
    obtain ⟨reception, queue, held, known, rfl⟩ := intake?_eq_some.mp found
    rw [takeByte, held]
    exact intake?_eq_some.mpr ⟨_, queue, rfl, known, rfl⟩

/-- Reading takes the first byte, after a look if there was none. -/
theorem tends_read (port : Port) (machine : Machine) :
    ∃ looks : List Cycle,
      port.Tends machine (looks.map .look ++ [.take]) (port.read machine).2 ∧
      ∀ before, port.intake? machine = some before →
        (port.read machine).1 = (before.run (looks.map .look)).2.received.head? := by
  unfold read
  dsimp only
  split
  · have collected := port.tends_collect machine
    refine ⟨[_], collected.trans (tends_takeByte _ _), ?_⟩
    intro before found
    obtain ⟨reception, queue, held, -, same⟩ := intake?_eq_some.mp (collected.intake before found)
    unfold takeByte
    rw [held]
    refine reception.bytes.pop?_fst.trans ?_
    rw [List.map_singleton, same]
    rfl
  · refine ⟨[], port.tends_takeByte machine, ?_⟩
    intro before found
    obtain ⟨reception, queue, held, -, rfl⟩ := intake?_eq_some.mp found
    unfold takeByte
    rw [held]
    exact reception.bytes.pop?_fst

theorem tends_drainWith (port : Port) (machine : Machine) (fuel : Nat) :
    ∃ actions, (∀ action ∈ actions, action = .take ∨ ∃ now, action = .look now) ∧
      port.Tends machine actions (port.drainWith machine fuel).2 := by
  have looks : ∀ looks : List Cycle, ∀ action ∈ looks.map Intake.Action.look,
      action = .take ∨ ∃ now, action = .look now := by
    intro looks action member
    obtain ⟨now, -, rfl⟩ := List.mem_map.mp member
    exact .inr ⟨now, rfl⟩
  induction fuel generalizing port machine with
  | zero => exact ⟨[], fun _ member => (by cases member), .refl port machine⟩
  | succ fuel ih =>
    obtain ⟨early, counted⟩ := port.tends_available machine
    unfold drainWith
    dsimp only
    split
    · exact ⟨_, looks early, counted⟩
    · obtain ⟨late, taken, -⟩ := (port.available machine).2.1.tends_read (port.available machine).2.2
      obtain ⟨rest, kinds, drained⟩ := ih
        ((port.available machine).2.1.read (port.available machine).2.2).2.1
        ((port.available machine).2.1.read (port.available machine).2.2).2.2
      refine ⟨_, ?_, counted.trans (taken.trans drained)⟩
      intro action member
      rcases List.mem_append.mp member with first | later
      · exact looks early action first
      · rcases List.mem_append.mp later with read | more
        · rcases List.mem_append.mp read with second | last
          · exact looks late action second
          · exact .inl (List.mem_singleton.mp last)
        · exact kinds action more

theorem tends_flush (port : Port) (machine : Machine) :
    port.Tends machine [.discard, .rest machine.readClock.1] (port.flush machine) := by
  have stake := (port.idles_flush machine).stake
  unfold flush at stake ⊢
  cases held : port.reception with
  | none => exact .of_none held (by rw [held] at stake; exact stake) rfl machine.stirs_readClock.deeds
  | some reception =>
    rw [held] at stake
    refine ⟨stake, rfl, ?_, ?_⟩
    · rw [stake_capture held]
      exact .head (.queue machine EdgeQueue.discard rfl) (Machine.stirs_readClock _).deeds
    · intro before found
      obtain ⟨own, queue, same, known, rfl⟩ := intake?_eq_some.mp found
      cases held.symm.trans same
      refine intake?_eq_some.mpr ⟨_, queue.discard, rfl, ?_, rfl⟩
      refine (machine.queue?_modifyQueue _ _ _).trans ((if_pos rfl).trans ?_)
      rw [known]
      rfl

/-- A question for losses is answered by what is pending. -/
theorem tends_takeLosses (port : Port) (machine : Machine) :
    port.Tends machine [.ask] (port.takeLosses machine).2 ∧
      ∀ before, port.intake? machine = some before →
        (port.takeLosses machine).1 = before.pending := by
  have stake := (port.idles_takeLosses machine).stake
  unfold takeLosses at stake ⊢
  cases held : port.reception with
  | none =>
    refine ⟨.of_none held (by rw [held] at stake; exact stake) rfl .refl, ?_⟩
    intro before found
    obtain ⟨reception, -, same, -⟩ := intake?_eq_some.mp found
    cases held.symm.trans same
  | some reception =>
    rw [held] at stake
    refine ⟨⟨stake, rfl, ?_, ?_⟩, ?_⟩
    · rw [stake_capture held]
      exact machine.deeds_takeLost reception.capture
    · intro before found
      obtain ⟨own, queue, same, known, rfl⟩ := intake?_eq_some.mp found
      cases held.symm.trans same
      dsimp only
      rw [Machine.takeLost_eq known]
      refine intake?_eq_some.mpr ⟨reception, queue.takeLost.2, rfl, ?_, rfl⟩
      refine (machine.queue?_modifyQueue _ _ _).trans ((if_pos rfl).trans ?_)
      rw [known]
      rfl
    · intro before found
      obtain ⟨own, queue, same, known, rfl⟩ := intake?_eq_some.mp found
      cases held.symm.trans same
      dsimp only
      rw [Machine.takeLost_eq known]
      rfl

theorem tends_serve (port : Port) (machine : Machine) :
    ∃ looks : List Cycle, port.Tends machine (looks.map .look) (port.serve machine) := by
  unfold serve
  split
  · have collected := port.tends_collect machine
    generalize port.collect machine = result at collected ⊢
    obtain ⟨other, between⟩ := result
    refine ⟨[_], collected.trans ?_⟩
    dsimp only
    split
    · exact .refl other between
    · exact .of_stirs (between.stirs_note _) rfl
  · exact ⟨[], .refl port machine⟩

theorem tends_setSpeed (port : Port) (machine : Machine) (baud : UInt32) :
    ∃ periods : List UInt32,
      port.Tends machine (periods.map .pace) (port.setSpeed machine baud).2 := by
  unfold setSpeed
  split
  · exact ⟨[], .refl port machine⟩
  · rename_i period _
    refine ⟨[period], rfl, rfl, (machine.stirs_write _ _).deeds, ?_⟩
    intro before found
    obtain ⟨reception, queue, held, known, rfl⟩ := intake?_eq_some.mp found
    exact intake?_eq_some.mpr ⟨reception, queue, held, known, rfl⟩

end Port
end PinUart
