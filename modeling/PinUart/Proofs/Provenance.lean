import PinUart.Proofs.Exactness
import PinUart.Proofs.Fifo
import PinUart.Proofs.Owing

/-! Where bytes come from. Whatever a decoder and its ring are put through, the registers stay in
order, and each byte that comes out was begun by an edge to space of its own: after the byte before
it, and after the last reset. -/
namespace PinUart

/-- What the registers of a decoder keep to between its uses. -/
structure Registers.Orderly (registers : Registers) : Prop where
  least : -1 ≤ registers.cursor
  most : registers.cursor ≤ 8
  narrow : registers.accumulator.toNat < 256
  /-- The places of the bits that are to come are empty. -/
  vacant : ∀ index : Nat, (index : Int) < 7 - registers.cursor →
    registers.accumulator.getLsbD index = false
  resting : registers.cursor = 8 → registers.accumulator = 0

theorem Phase.cursor_bounds (phase : Phase) : -1 ≤ phase.cursor ∧ phase.cursor ≤ 8 := by
  cases phase with
  | idle => decide
  | receiving count =>
    have := count.isLt
    dsimp only [cursor]
    omega

namespace Decoder

variable {decoder : Decoder} {bits : List Bool}

theorem cursor_eq_start_iff : decoder.cursor = -1 ↔ decoder.phase = .receiving 0 := by
  unfold cursor
  cases decoder.phase with
  | idle => exact iff_of_false (by decide) Phase.noConfusion
  | receiving count =>
    rw [Phase.cursor, Phase.receiving.injEq, Fin.ext_iff]
    change (count.val : Int) - 1 = -1 ↔ count.val = 0
    omega

theorem phase_of_cursor (resting : decoder.cursor = 8) : decoder.phase = .idle := by
  unfold cursor at resting
  cases place : decoder.phase with
  | idle => rfl
  | receiving count =>
    have := count.isLt
    rw [place, Phase.cursor] at resting
    omega

theorem phase_keepReach (decoder : Decoder) (now : Cycle) :
    (decoder.keepReach now).phase = decoder.phase := by
  unfold keepReach
  split <;> rfl

theorem Loads.vacant (loads : decoder.Loads bits) {index : Nat}
    (below : (index : Int) < 7 - decoder.cursor) : decoder.register.getLsbD index = false := by
  have counted := loads.cursor (by omega)
  rw [loads.packed, getLsbD_pack loads.inside (by omega), decide_eq_false (by omega),
    Bool.false_and]

theorem Loads.blank (loads : decoder.Loads bits) (resting : decoder.cursor = 8) :
    decoder.register = 0 := by
  have counted := loads.counted
  rw [phase_of_cursor resting, Phase.count_idle, List.length_eq_zero_iff] at counted
  rw [loads.packed, counted, pack_nil]

/-- Registers are in order while they hold the bits of one frame. -/
theorem Loads.orderly (loads : decoder.Loads bits) : decoder.registers.Orderly where
  least := decoder.phase.cursor_bounds.1
  most := decoder.phase.cursor_bounds.2
  narrow := by
    have short := decoder.register.isLt
    change (decoder.register.setWidth 32).toNat < 256
    rw [BitVec.toNat_setWidth]
    omega
  vacant index below := by
    change (decoder.register.setWidth 32).getLsbD index = false
    rw [BitVec.getLsbD_setWidth, loads.vacant below, Bool.and_false]
  resting rests := by
    change decoder.register.setWidth 32 = 0
    rw [loads.blank rests]
    rfl

/-- What an edge may do to the phase of a frame. -/
inductive Shift (mark : Bool) : Phase → Phase → Finding → Prop
  | ignored (phase : Phase) : Shift mark phase phase .spurious
  | armed : Shift mark .idle (arm mark) .progress
  | further {count later : Fin 9} (more : count < later) :
      Shift mark (.receiving count) (.receiving later) .progress
  | ended (count : Fin 9) (byte : UInt8) : Shift mark (.receiving count) .idle (.completed byte)
  | rearmed (count : Fin 9) (byte : UInt8) :
      Shift mark (.receiving count) (arm mark) (.completed byte)

theorem shift_complete (decoder : Decoder) (count : Fin 9) (register : BitVec 8) (left : Int)
    (mark : Bool) :
    Shift mark (.receiving count) (decoder.complete register left mark).1.phase
      (decoder.complete register left mark).2 := by
  unfold complete
  dsimp only
  split
  · exact .rearmed count _
  · exact .ended count _

theorem shift_account (decoder : Decoder) (elapsed : Int) (mark : Bool) :
    Shift mark decoder.phase (decoder.account elapsed mark).1.phase
      (decoder.account elapsed mark).2 := by
  unfold account
  split
  · rename_i idle
    rw [idle]
    exact .armed
  · rename_i count receiving
    rw [receiving]
    dsimp only
    split
    · exact shift_complete ..
    · split
      · exact .further (Nat.lt_succ_of_le (Nat.le_add_right ..))
      · exact shift_complete ..

theorem shift_sense (decoder : Decoder) (edge : Edge) :
    Shift (edge.mark decoder.invert) decoder.phase (decoder.sense edge).1.phase
      (decoder.sense edge).2 := by
  unfold sense
  dsimp only
  split
  · exact .ignored _
  · exact shift_account { decoder with last := edge.timestamp } _ _

end Decoder

namespace ByteRing

variable (bytes : ByteRing)

theorem spurious_store {finding : Finding} (genuine : finding ≠ .spurious) :
    (bytes.store finding).1.spurious = false := by
  cases finding with
  | spurious => exact absurd rfl genuine
  | progress => rfl
  | completed byte =>
    rw [store_completed]
    split <;> rfl

/-- Only a completed byte is counted, and it is counted once. -/
theorem counts_store (finding : Finding) :
    (bytes.store finding).1.stored + (bytes.store finding).1.dropped =
      (completions [finding]).length := by
  cases finding with
  | spurious | progress => rfl
  | completed byte =>
    rw [store_completed]
    split <;> rfl

/-- The ring grows by the byte that is stored. -/
theorem stored_store_iff (finding : Finding) :
    (bytes.store finding).1.stored = 1 ↔ (bytes.store finding).2.size = bytes.size + 1 := by
  cases finding with
  | spurious | progress => exact iff_of_false Nat.zero_ne_one (Nat.succ_ne_self _).symm
  | completed byte =>
    rw [store_completed, Ring.size_push]
    split
    · exact iff_of_true rfl rfl
    · exact iff_of_false Nat.zero_ne_one (Nat.succ_ne_self _).symm

end ByteRing

/-- A decoder with the ring that its bytes go to. -/
structure Collector where
  decoder : Decoder
  bytes : ByteRing

namespace Collector

inductive Step
  | decode (edge : Edge)
  | supply (now : Cycle)
  | reset (now : Cycle)
  | keepReach (now : Cycle)
  | withPeriod (bitPeriod : UInt32)
  | ring (request : Ring.Request UInt8)

/-- The edge that a step takes in, if it takes one in. -/
def edge? (collector : Collector) : Step → Option Edge
  | .decode edge => some edge
  | .supply now => collector.decoder.owedEdge? now
  | _ => none

def take (collector : Collector) (edge : Edge) : Outcome × Collector :=
  let (outcome, decoder, bytes) := collector.decoder.decode edge collector.bytes
  (outcome, { decoder, bytes })

/-- What a step does that takes no edge in. -/
def adjust (collector : Collector) : Step → Collector
  | .decode _ | .supply _ => collector
  | .reset now => { collector with decoder := collector.decoder.reset now }
  | .keepReach now => { collector with decoder := collector.decoder.keepReach now }
  | .withPeriod bitPeriod =>
    { collector with decoder := collector.decoder.withPeriod bitPeriod }
  | .ring request => { collector with bytes := (collector.bytes.serve request).2 }

def perform (collector : Collector) (step : Step) : Outcome × Collector :=
  match collector.edge? step with
  | none => ({}, collector.adjust step)
  | some edge => collector.take edge

/-- A step, and what it is taken with. -/
structure Turn where
  before : Collector
  step : Step

/-- The turns of a run, one for each step. -/
def turns (collector : Collector) : List Step → List Turn
  | [] => []
  | step :: steps => ⟨collector, step⟩ :: (collector.perform step).2.turns steps

/-- What one step preserves: the register holds bits of a frame and nothing else. -/
theorem loads_perform {collector : Collector} {bits : List Bool}
    (loads : collector.decoder.Loads bits) (step : Step) :
    ∃ later, (collector.perform step).2.decoder.Loads later := by
  unfold perform
  split
  · cases step with
    | decode | supply | ring => exact ⟨bits, loads⟩
    | reset now => exact ⟨[], loads.receive (.reset now)⟩
    | keepReach now => exact ⟨bits, loads.receive (.keepReach now)⟩
    | withPeriod bitPeriod => exact ⟨bits, loads.receive (.withPeriod bitPeriod)⟩
  · rename_i edge _
    exact ⟨_, loads.receive (.decode edge collector.bytes)⟩

namespace Turn

def edge? (turn : Turn) : Option Edge := turn.before.edge? turn.step

def outcome (turn : Turn) : Outcome := (turn.before.perform turn.step).1

def after (turn : Turn) : Collector := (turn.before.perform turn.step).2

/-- A byte comes out, be there room for it or not. -/
def Completes (turn : Turn) : Prop := 0 < turn.outcome.stored + turn.outcome.dropped

def Resets (turn : Turn) : Prop := ∃ now, turn.step = .reset now

/-- An edge to space moves the cursor to the start of a frame. -/
structure Begins (turn : Turn) : Prop where
  space : ∃ edge, turn.edge? = some edge ∧ edge.mark turn.before.decoder.invert = false
  genuine : turn.outcome.spurious = false
  start : turn.after.decoder.cursor = -1
  /-- If it was there already, then a whole frame has gone by before the edge. -/
  moved : turn.before.decoder.cursor ≠ -1 ∨ turn.Completes

/-- What can be relied on in every turn. -/
structure Sound (turn : Turn) : Prop where
  before : turn.before.decoder.registers.Orderly
  after : turn.after.decoder.registers.Orderly
  single : turn.outcome.stored + turn.outcome.dropped ≤ 1
  grown : ∀ edge, turn.edge? = some edge →
    (turn.outcome.stored = 1 ↔ turn.after.bytes.size = turn.before.bytes.size + 1)
  /-- Registers of fixed width take the edge in without overflow, and to the same end. -/
  exact : ∀ edge, turn.edge? = some edge → turn.before.decoder.bitPeriod.toNat < 2 ^ 31 →
    turn.before.decoder.registers.decode edge turn.before.bytes =
      some (turn.outcome, turn.after.decoder.registers, turn.after.bytes)

variable {turn : Turn} {edge : Edge}

theorem perform_of_none (idle : turn.edge? = none) :
    turn.outcome = {} ∧ turn.after = turn.before.adjust turn.step := by
  have performed : turn.before.perform turn.step = ({}, turn.before.adjust turn.step) := by
    rw [perform, show turn.before.edge? turn.step = none from idle]
  rw [outcome, after, performed]
  exact ⟨rfl, rfl⟩

theorem perform_of_edge (taken : turn.edge? = some edge) :
    turn.before.decoder.decode edge turn.before.bytes =
      (turn.outcome, turn.after.decoder, turn.after.bytes) := by
  have performed : turn.before.perform turn.step = turn.before.take edge := by
    rw [perform, show turn.before.edge? turn.step = some edge from taken]
  rw [outcome, after, performed]
  rfl

/-- The ring keeps what the decoder finds. -/
theorem outcome_of_edge (taken : turn.edge? = some edge) :
    turn.outcome = (turn.before.bytes.store (turn.before.decoder.sense edge).2).1 ∧
      turn.after.decoder = (turn.before.decoder.sense edge).1 ∧
      turn.after.bytes = (turn.before.bytes.store (turn.before.decoder.sense edge).2).2 := by
  have performed := perform_of_edge taken
  rw [Decoder.decode_eq] at performed
  obtain ⟨outcome, rest⟩ := Prod.mk.inj performed
  obtain ⟨decoder, bytes⟩ := Prod.mk.inj rest
  exact ⟨outcome.symm, decoder.symm, bytes.symm⟩

theorem not_completes_of_none (idle : turn.edge? = none) : ¬ turn.Completes := by
  rw [Completes, (perform_of_none idle).1]
  exact Nat.lt_irrefl 0

theorem completes_iff (taken : turn.edge? = some edge) :
    turn.Completes ↔ ∃ byte, (turn.before.decoder.sense edge).2 = .completed byte := by
  rw [Completes, (outcome_of_edge taken).1, ByteRing.counts_store]
  cases (turn.before.decoder.sense edge).2 with
  | spurious | progress => simp
  | completed byte => simp

theorem sound {bits : List Bool} (loads : turn.before.decoder.Loads bits) : turn.Sound := by
  obtain ⟨later, held⟩ := loads_perform loads turn.step
  refine ⟨loads.orderly, held.orderly, ?_, fun edge taken => ?_, fun edge taken narrow => ?_⟩
  · cases taken : turn.edge? with
    | none =>
      rw [(perform_of_none taken).1]
      exact Nat.zero_le 1
    | some edge =>
      rw [(outcome_of_edge taken).1, ByteRing.counts_store]
      exact List.length_filterMap_le _ _
  · obtain ⟨outcome, -, bytes⟩ := outcome_of_edge taken
    rw [outcome, bytes]
    exact ByteRing.stored_store_iff _ _
  · rw [Decoder.registers_decode narrow, perform_of_edge taken]

/-- Only a frame that is under way brings a byte. -/
theorem Completes.busy (completes : turn.Completes) : turn.before.decoder.phase ≠ .idle := by
  cases taken : turn.edge? with
  | none => exact absurd completes (not_completes_of_none taken)
  | some edge =>
    obtain ⟨byte, found⟩ := (completes_iff taken).mp completes
    have shift := turn.before.decoder.shift_sense edge
    rw [found] at shift
    generalize turn.before.decoder.phase = phase at shift ⊢
    generalize (turn.before.decoder.sense edge).1.phase = later at shift
    cases shift with
    | ended | rearmed => exact Phase.noConfusion

/-- A turn that takes no edge in begins no frame, and drops one only by a reset. -/
theorem busy_of_none (idle : turn.edge? = none) (busy : turn.after.decoder.phase ≠ .idle) :
    turn.before.decoder.phase ≠ .idle ∧ ¬ turn.Resets := by
  rw [(perform_of_none idle).2] at busy
  obtain ⟨before, step⟩ := turn
  cases step with
  | reset now => exact absurd rfl busy
  | keepReach now =>
    refine ⟨?_, by rintro ⟨now, same⟩; cases same⟩
    rw [← before.decoder.phase_keepReach now]
    exact busy
  | decode | supply | withPeriod | ring =>
    exact ⟨busy, by rintro ⟨now, same⟩; cases same⟩

/-- After an edge that found no frame under way, or has ended the one that was, the level of the
edge tells whether one is under way. -/
theorem armed_of_fresh (taken : turn.edge? = some edge)
    (fresh : turn.before.decoder.phase = .idle ∨ turn.Completes)
    (busy : turn.after.decoder.phase ≠ .idle) :
    (turn.before.decoder.sense edge).2 ≠ .spurious ∧
      turn.after.decoder.phase = Decoder.arm (edge.mark turn.before.decoder.invert) := by
  have found := completes_iff taken
  have shift := turn.before.decoder.shift_sense edge
  rw [← (outcome_of_edge taken).2.1] at shift
  generalize turn.before.decoder.phase = phase at shift fresh
  generalize turn.after.decoder.phase = later at shift busy ⊢
  generalize (turn.before.decoder.sense edge).2 = finding at shift found ⊢
  cases shift with
  | ignored =>
    rcases fresh with idle | completes
    · exact absurd idle busy
    · obtain ⟨byte, same⟩ := found.mp completes
      cases same
  | further =>
    rcases fresh with idle | completes
    · cases idle
    · obtain ⟨byte, same⟩ := found.mp completes
      cases same
  | ended => exact absurd rfl busy
  | armed | rearmed => exact ⟨Finding.noConfusion, rfl⟩

theorem begins_of_fresh (taken : turn.edge? = some edge)
    (fresh : turn.before.decoder.phase = .idle ∨ turn.Completes)
    (busy : turn.after.decoder.phase ≠ .idle) : turn.Begins := by
  obtain ⟨genuine, armed⟩ := armed_of_fresh taken fresh busy
  have space : edge.mark turn.before.decoder.invert = false := by
    refine Bool.eq_false_iff.mpr fun mark => ?_
    rw [armed, mark] at busy
    exact busy rfl
  refine ⟨⟨edge, taken, space⟩, ?_, ?_, ?_⟩
  · rw [(outcome_of_edge taken).1]
    exact ByteRing.spurious_store _ genuine
  · rw [Decoder.cursor_eq_start_iff, armed, space]
    rfl
  · refine fresh.imp (fun idle => ?_) id
    rw [Ne, Decoder.cursor_eq_start_iff, idle]
    exact Phase.noConfusion

/-- A frame is under way after a turn if the turn has begun it, or if it was under way before and
the turn has neither ended nor dropped it. -/
theorem busy_cases (busy : turn.after.decoder.phase ≠ .idle) :
    turn.Begins ∨
      turn.before.decoder.phase ≠ .idle ∧ ¬ turn.Completes ∧ ¬ turn.Resets := by
  cases taken : turn.edge? with
  | none =>
    obtain ⟨before, kept⟩ := busy_of_none taken busy
    exact .inr ⟨before, not_completes_of_none taken, kept⟩
  | some edge =>
    by_cases fresh : turn.before.decoder.phase = .idle ∨ turn.Completes
    · exact .inl (begins_of_fresh taken fresh busy)
    · obtain ⟨before, quiet⟩ := not_or.mp fresh
      refine .inr ⟨before, quiet, ?_⟩
      rintro ⟨now, same⟩
      rw [edge?, same] at taken
      cases taken

end Turn

/-- A frame was begun, and since then no byte has come out and nothing was reset. -/
def Begun (past : List Turn) : Prop :=
  ∃ earlier start since, past = earlier ++ start :: since ∧ start.Begins ∧
    ∀ turn ∈ since, ¬ turn.Completes ∧ ¬ turn.Resets

variable {collector : Collector} {past : List Turn} {bits : List Bool}

theorem begun_of_begins {turn : Turn} (begins : turn.Begins) : Begun (past ++ [turn]) :=
  ⟨past, turn, [], rfl, begins, fun _ member => absurd member List.not_mem_nil⟩

theorem Begun.snoc {turn : Turn} (begun : Begun past) (quiet : ¬ turn.Completes)
    (kept : ¬ turn.Resets) : Begun (past ++ [turn]) := by
  obtain ⟨earlier, start, since, rfl, begins, calm⟩ := begun
  refine ⟨earlier, start, since ++ [turn], by simp, begins, fun later member => ?_⟩
  rcases List.mem_append.mp member with before | last
  · exact calm later before
  · rw [List.mem_singleton.mp last]
    exact ⟨quiet, kept⟩

/-- What one turn preserves: a frame that is under way was begun. -/
theorem begun_turn (turn : Turn) (begun : turn.before.decoder.phase ≠ .idle → Begun past)
    (busy : turn.after.decoder.phase ≠ .idle) : Begun (past ++ [turn]) := by
  rcases turn.busy_cases busy with begins | ⟨before, quiet, kept⟩
  · exact begun_of_begins begins
  · exact (begun before).snoc quiet kept

/-- What a whole run preserves. -/
theorem begun_turns (begun : collector.decoder.phase ≠ .idle → Begun past) {steps : List Step}
    {earlier later : List Turn} {turn : Turn}
    (split : collector.turns steps = earlier ++ turn :: later) (completes : turn.Completes) :
    Begun (past ++ earlier) := by
  -- The past grows by each turn, for the turn that began the frame may be any of them.
  induction steps generalizing collector past earlier with
  | nil => simp [turns] at split
  | cons step steps ih =>
    cases earlier with
    | nil =>
      obtain ⟨rfl, -⟩ := List.cons.inj split
      rw [List.append_nil]
      exact begun completes.busy
    | cons first earlier =>
      obtain ⟨rfl, rest⟩ := List.cons.inj split
      have further := ih (begun_turn ⟨collector, step⟩ begun) rest
      rw [List.append_assoc] at further
      exact further

theorem sound_turns (loads : collector.decoder.Loads bits) (steps : List Step) :
    ∀ turn ∈ collector.turns steps, turn.Sound := by
  induction steps generalizing collector bits with
  | nil => exact fun _ member => absurd member List.not_mem_nil
  | cons step steps ih =>
    intro turn member
    rcases List.mem_cons.mp member with rfl | rest
    · exact Turn.sound loads
    · obtain ⟨later, held⟩ := loads_perform loads step
      exact ih held turn rest

/-- Whatever is done with a new decoder and its ring, the registers stay in order, an edge brings
one byte at most, and the ring grows by it if there is room. A byte comes out only of a frame that
an edge to space has begun, and since then no other byte has come out, and nothing was reset. -/
theorem turns_grounded (bitPeriod : UInt32) (invert : Bool) (bytes : ByteRing)
    (steps : List Step) {earlier later : List Turn} {turn : Turn}
    (split : turns ⟨.create bitPeriod invert, bytes⟩ steps = earlier ++ turn :: later) :
    turn.Sound ∧ (turn.Completes → Begun earlier) := by
  have loads := Decoder.loads_create bitPeriod invert
  constructor
  · refine @sound_turns ⟨.create bitPeriod invert, bytes⟩ [] loads steps turn ?_
    rw [split]
    exact List.mem_append_right _ List.mem_cons_self
  · exact @begun_turns ⟨.create bitPeriod invert, bytes⟩ [] (absurd rfl) steps _ _ _ split

/-- One edge ends a frame and begins the next, which goes on at another speed and finds no room. -/
def overlapping : List Step :=
  [.reset 0, .decode (.ofLevel 1000 false), .decode (.ofLevel 2100 false), .withPeriod 50,
    .decode (.ofLevel 2200 true), .ring .peek, .supply 3000]

/-- The second byte is dropped, and its frame was begun as well. -/
theorem overlapping_grounded :
    ∃ earlier turn, turns ⟨.create 100 false, .empty 2 0⟩ overlapping = earlier ++ [turn] ∧
      earlier.map Turn.outcome = [{}, {}, { stored := 1 }, {}, {}, {}] ∧
      turn.outcome = { dropped := 1 } ∧ turn.Sound ∧ Begun earlier := by
  have outcomes : (turns ⟨.create 100 false, .empty 2 0⟩ overlapping).map Turn.outcome =
      ([{}, {}, { stored := 1 }, {}, {}, {}] : List Outcome) ++ [{ dropped := 1 }] := by decide
  obtain ⟨earlier, rest, split, before, final⟩ := List.map_eq_append_iff.mp outcomes
  obtain ⟨turn, rfl, dropped⟩ := List.map_eq_singleton_iff.mp final
  obtain ⟨sound, begun⟩ := turns_grounded 100 false (.empty 2 0) overlapping split
  refine ⟨earlier, turn, split, before, dropped, sound, begun ?_⟩
  rw [Turn.Completes, dropped]
  exact Nat.one_pos

end Collector
end PinUart
