import Mathlib.Data.List.Chain
import PinUart.Proofs.Stray

/-! An idle line that is polled from time to time. The reference of the decoder trails the
polls, so that the next start edge is taken for what it is, however long the line was idle
and however often the counter has turned. -/
namespace PinUart.Decoder

variable {base decoder : Decoder} {least first time : Int} {polls : List Int}

/-- The decoder after polls at these times. -/
def polled (decoder : Decoder) (polls : List Int) : Decoder :=
  polls.foldl (fun decoder poll => decoder.keepReach (Cycle.ofTime poll)) decoder

/-- Times that come in order, each within reach of the one before. -/
def Frequent (times : List Int) : Prop :=
  times.IsChain fun earlier later => earlier ≤ later ∧ later - earlier ≤ 2 ^ 30 - 2

theorem Frequent.le (frequent : Frequent (first :: polls ++ [time])) : first ≤ time := by
  have ordered : (first :: polls ++ [time]).IsChain (· ≤ ·) := frequent.imp fun _ _ close => close.1
  exact List.rel_of_pairwise_cons (List.isChain_iff_pairwise.mp ordered) (by simp)

/-- Frequent polls keep the reference in reach. It never comes nearer than it was when the
line went idle, or than polls keep it. -/
theorem Trails.polled (trails : base.Trails decoder least (2 ^ 30) first)
    (behind : -2 ^ 31 ≤ least) (frequent : Frequent (first :: polls ++ [time])) :
    base.Trails (decoder.polled polls) (min (2 ^ 30) (least + (time - first))) (2 ^ 31 - 2)
      time := by
  induction polls generalizing decoder least first with
  | nil =>
    obtain ⟨order, near⟩ := (List.isChain_cons_cons.mp frequent).1
    exact trails.later (by omega) (by omega)
  | cons poll polls ih =>
    obtain ⟨⟨order, near⟩, frequent⟩ := List.isChain_cons_cons.mp frequent
    have := Frequent.le frequent
    have waited : base.Trails decoder (min (2 ^ 30) (least + (poll - first))) (2 ^ 31 - 2) poll :=
      trails.later (by omega) (by omega)
    have kept := ih (waited.keepReach (by omega) (by omega) (by omega)) (by omega) frequent
    exact kept.later (by omega) (by omega)

/-- The decoder went idle with an edge of that time. -/
def WentIdle (decoder : Decoder) (time : Int) : Prop :=
  ∃ (before : Decoder) (high : Bool) (outcome : Outcome) (bytes stored : ByteRing),
    before.isIdle = false ∧ decoder.isIdle ∧
      before.decode (.ofLevel (Cycle.ofTime time) high) bytes = (outcome, decoder, stored)

theorem bitPeriod_sense (decoder : Decoder) (edge : Edge) :
    (decoder.sense edge).1.bitPeriod = decoder.bitPeriod := by
  unfold sense
  dsimp only
  split
  · rfl
  · unfold account
    split
    · rfl
    · dsimp only
      split
      · rfl
      · split <;> rfl

/-- It was not idle before, so that it took the edge, and rests since then. -/
theorem WentIdle.trails (went : decoder.WentIdle time) (short : decoder.period < 2 ^ 31) :
    ∃ base : Decoder, base.Trails decoder (-1) 1 time := by
  obtain ⟨before, high, outcome, bytes, stored, busy, idle, decoded⟩ := went
  rw [decode_eq] at decoded
  obtain ⟨-, rest⟩ := Prod.mk.inj decoded
  obtain ⟨sensed, -⟩ := Prod.mk.inj rest
  have := Edge.le_noted time high
  have := Edge.noted_le time high
  refine ⟨before, Edge.noted time high, ?_, by omega, by omega⟩
  cases phase : before.phase with
  | idle =>
    rw [isIdle, phase] at busy
    cases busy
  | receiving count =>
    have same : before = before.receiving count before.register before.last.toNat := by
      rw [receiving, Cycle.ofTime_toNat, ← phase]
    have narrow : before.period < 2 ^ 31 := by
      rw [period, ← before.bitPeriod_sense, sensed]
      exact short
    rw [same] at sensed
    rcases before.sense_receiving_cases narrow count before.register before.last.toNat time high
      with left | ⟨later, more, moved⟩ | ⟨rests, -, completed⟩
    · rw [left] at sensed
      subst sensed
      cases idle
    · rw [moved] at sensed
      subst sensed
      cases idle
    · rw [completed] at sensed
      subst sensed
      cases rests with
      | true => rfl
      | false => cases idle

/-- A start edge is heard after any number of polls, each within reach of the one before. -/
theorem decode_polled (bytes : ByteRing) (short : decoder.period < 2 ^ 31)
    (rested : (∃ base : Decoder, decoder = base.reset (Cycle.ofTime first)) ∨
      decoder.WentIdle first ∧ decoder.period / 2 + 2 ≤ time - first)
    (frequent : Frequent (first :: polls ++ [time])) :
    ∃ after, (decoder.polled polls).decode
        (.ofLogical (Cycle.ofTime time) false decoder.invert) bytes = ({}, after, bytes) ∧
      after.cursor = -1 := by
  have span := frequent.le
  have reached : ∃ (base : Decoder) (least : Int), base.Trails decoder least (2 ^ 30) first ∧
      -2 ^ 31 ≤ least ∧ decoder.period / 2 < min (2 ^ 30) (least + (time - first)) := by
    rcases rested with ⟨base, same⟩ | ⟨went, pause⟩
    · exact ⟨base, 2 ^ 30, same ▸ trails_reset base first, by omega, by omega⟩
    · obtain ⟨base, trails⟩ := went.trails short
      exact ⟨base, -1, trails.later (by omega) (by omega), by omega, by omega⟩
  obtain ⟨base, least, trails, behind, due⟩ := reached
  obtain ⟨since, rested, above, below⟩ := trails.polled behind frequent
  obtain ⟨start, rfl, -⟩ := trails
  have := Edge.le_noted time (base.driven 0 0)
  have := Edge.noted_le time (base.driven 0 0)
  rw [period_resting] at short due
  have sensed : (base.resting since).sense (.ofLevel (Cycle.ofTime time) (base.driven 0 0)) =
      (base.standing 0 0 (Edge.noted time (base.driven 0 0)), .progress) :=
    sense_start 0 short (by omega) (by omega)
  have space : Edge.ofLogical (Cycle.ofTime time) false base.invert =
      .ofLevel (Cycle.ofTime time) (base.driven 0 0) := by
    rw [Edge.ofLogical, driven, Frame.level_start]
  rw [invert_resting, rested, decode_eq, space, sensed]
  exact ⟨_, rfl, rfl⟩

/-- A frame of ones ends just before a turn of the counter. -/
def ending : Outcome × Decoder × ByteRing :=
  ((create 100 false).standing 0xFF 1 (-900)).decode (.ofLevel (Cycle.ofTime (-1)) true)
    (Ring.empty 2 0)

/-- Five polls take the decoder around the counter and on, and it hears the next start edge. -/
theorem decode_polled_around : ∃ after,
    (ending.2.1.polled [0x30000000, 0x6FFFFFFE, 0xAFFFFFFC, 0xEFFFFFFA, 0x12FFFFFF8]).decode
        (.ofLogical (Cycle.ofTime 0x16FFFFFF6) false ending.2.1.invert) (Ring.empty 2 0) =
      ({}, after, Ring.empty 2 0) ∧ after.cursor = -1 := by
  have short : ending.2.1.period < 2 ^ 31 := by decide +kernel
  have paused : ending.2.1.period / 2 + 2 ≤ 0x16FFFFFF6 - (-1) := by decide +kernel
  have idle : ending.2.1.isIdle := by decide +kernel
  have parts : ending = (ending.1, ending.2.1, ending.2.2) := Prod.ext rfl (Prod.ext rfl rfl)
  have went : ending.2.1.WentIdle (-1) :=
    ⟨(create 100 false).standing 0xFF 1 (-900), true, _, Ring.empty 2 0, _, rfl, idle, parts⟩
  have frequent : Frequent [-1, 0x30000000, 0x6FFFFFFE, 0xAFFFFFFC, 0xEFFFFFFA, 0x12FFFFFF8,
      0x16FFFFFF6] := by
    unfold Frequent
    decide
  exact @decode_polled ending.2.1 (-1) 0x16FFFFFF6
    [0x30000000, 0x6FFFFFFE, 0xAFFFFFFC, 0xEFFFFFFA, 0x12FFFFFF8] (Ring.empty 2 0) short
    (.inr ⟨went, paused⟩) frequent

/-- One cycle more without a poll, and the next start edge can be taken for noise. -/
example : (((create 100 false).reset (Cycle.ofTime 1)).decode
    (.ofLogical (Cycle.ofTime (2 ^ 30)) false false) (Ring.empty 2 0)).1.spurious = true := by
  decide

end PinUart.Decoder
