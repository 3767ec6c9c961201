import Mathlib.Tactic.IntervalCases
import PinUart.Proofs.Jitter

/-! A line that is clocked at one bit period and read at another. All frames are read right
exactly if the longest runs of a level are: what comes after eight bit periods must not be
taken for what comes after nine, nor the other way round. -/
namespace PinUart

/-- The time between two edges, as they carry it, is off by one cycle, or by two where it is
odd. -/
theorem Edge.noted_span (time gone : Int) (before after : Bool) :
    gone - 1 - gone % 2 ≤ noted (time + gone) after - noted time before ∧
      noted (time + gone) after - noted time before ≤ gone + 1 + gone % 2 := by
  cases before <;> cases after <;> simp [noted] <;> omega

/-- A bit period at which the frames of a line are read right, whatever they carry, and however
the times of their edges are rounded. -/
structure Suits (sent own : Int) : Prop where
  late : 8 * sent + 1 < 8 * own + own / 2
  soon : 8 * own + own / 2 + 1 + sent % 2 ≤ 9 * sent

variable {sent own : Int}

theorem suits_self (wide : 6 ≤ sent) : Suits sent sent := ⟨by omega, by omega⟩

/-- Shorter runs are read right as well. Nine bit periods are only told from fewer. -/
theorem Suits.run (suits : Suits sent own) (wide : 6 ≤ sent) {run : Nat} (some : 1 ≤ run)
    (most : run ≤ 9) :
    (run - 1) * own + own / 2 ≤ run * sent - 1 - run * sent % 2 ∧
      (run ≤ 8 → run * sent + 1 + run * sent % 2 < run * own + own / 2) := by
  obtain ⟨late, soon⟩ := suits
  rcases Int.emod_two_eq sent with even | odd
  · interval_cases run <;> omega
  · interval_cases run <;> omega

theorem Suits.le (suits : Suits sent own) (narrow : sent ≤ 2 ^ 26) : own ≤ 2 ^ 27 := by
  have := suits.soon
  omega

/-- A frame is not over for the decoder before it is over on the line. -/
theorem Suits.frame (suits : Suits sent own) (wide : 6 ≤ sent) {place : Nat} (inside : place ≤ 9) :
    (10 - place) * sent + 1 < (11 - place) * own := by
  have := suits.late
  interval_cases place <;> omega

namespace Decoder

variable {decoder : Decoder} {byte : UInt8} {place : Nat}

/-- An edge within a frame ends the run of bits that it should. -/
theorem sense_within_of_suits {sent : UInt32} {run : Nat} {time next : Int}
    (suits : Suits sent.toNat decoder.period) (wide : 6 ≤ sent.toNat) (narrow : sent.toNat ≤ 2 ^ 26)
    (positive : 0 < run) (inside : place + run ≤ 9) (steady : Steady byte place run)
    (exact : time + run * sent.toNat = next) :
    (decoder.standing byte place (Edge.noted time (decoder.driven byte place))).sense
        (.ofLevel (Cycle.ofTime next) (decoder.driven byte (place + run))) =
      (decoder.standing byte (place + run) (Edge.noted next (decoder.driven byte (place + run))),
        reaching byte (place + run)) := by
  have positivePeriod := decoder.period_pos
  have small := suits.le (by omega)
  obtain ⟨soon, late⟩ := suits.run (by omega) positive (by omega)
  have bounded : (run : Int) * sent.toNat ≤ 9 * 2 ^ 26 :=
    Int.mul_le_mul (by omega) (by omega) (by omega) (by omega)
  have nonneg : 0 ≤ ((run : Int) - 1) * decoder.period := Int.mul_nonneg (by omega) (by omega)
  obtain ⟨least, most⟩ := Edge.noted_span time (run * sent.toNat) (decoder.driven byte place)
    (decoder.driven byte (place + run))
  rw [exact] at least most
  rw [sense_standing (by omega) (Edge.timestamp_ofLevel ..) (by omega) (by omega), mark_driven]
  cases run with
  | zero => cases positive
  | succ hidden =>
    have counted : ((hidden + 1 : Nat) : Int) - 1 = hidden := by omega
    have split : ((hidden + 1 : Nat) : Int) * decoder.period =
        hidden * decoder.period + decoder.period := by
      rw [Int.natCast_add, Int.add_mul]
      simp
    rw [counted] at soon
    rw [split] at late
    by_cases own : Edge.noted next (decoder.driven byte (place + (hidden + 1))) -
        Edge.noted time (decoder.driven byte place) - decoder.period / 2 <
          hidden * decoder.period + decoder.period
    · exact account_standing (by omega) (by omega) steady (by omega) own
    · -- Only zeros up to the stop bit last nine bit periods, and these may seem to last longer.
      have zeros : hidden = 8 := by omega
      have start : place = 0 := by omega
      subst zeros start
      exact account_closing byte (by omega) (by omega) steady (by omega)

/-- The start edge of the frame that follows at once closes the byte, if that is still open. -/
theorem sense_after_of_suits {sent : UInt32} {time next : Int} (following : UInt8)
    (suits : Suits sent.toNat decoder.period) (wide : 6 ≤ sent.toNat) (narrow : sent.toNat ≤ 2 ^ 26)
    (inside : place ≤ 9) (steady : Steady byte place (10 - place))
    (exact : time + (10 - place) * sent.toNat = next) :
    (decoder.standing byte place (Edge.noted time (decoder.driven byte place))).sense
        (.ofLevel (Cycle.ofTime next) (decoder.driven following 0)) =
      (decoder.standing following 0 (Edge.noted next (decoder.driven following 0)),
        leaving byte place) := by
  have positivePeriod := decoder.period_pos
  have small := suits.le (by omega)
  have started := steady.started inside
  obtain ⟨least, most⟩ := Edge.noted_span time ((10 - place) * sent.toNat)
    (decoder.driven byte place) (decoder.driven following 0)
  obtain ⟨soon, -⟩ := suits.run (by omega) (show 1 ≤ 10 - place by omega) (by omega)
  have counted : ((10 - place : Nat) : Int) = 10 - place := by omega
  have left : (10 - place : Int) - 1 = 9 - place := by omega
  have bounded : (10 - place : Int) * sent.toNat ≤ 9 * 2 ^ 26 :=
    Int.mul_le_mul (by omega) (by omega) (by omega) (by omega)
  have nonneg : 0 ≤ (9 - place : Int) * decoder.period := Int.mul_nonneg (by omega) (by omega)
  rw [exact] at least most
  rw [counted, left] at soon
  rw [sense_standing (by omega) (Edge.timestamp_ofLevel ..) (by omega) (by omega), mark_driven,
    Frame.level_start]
  by_cases closed : place = 9
  · subst closed
    exact account_resting _ false
  · have unfinished : leaving byte place = .completed byte := if_pos (by omega)
    rw [unfinished]
    exact account_closing following (by omega) (by omega)
      (fun later after before => steady later after (by omega)) (by omega)

/-- A decoder with a bit period that suits the line reads all frames. -/
theorem reads_of_suits {sent : UInt32} (suits : Suits sent.toNat decoder.period)
    (wide : 6 ≤ sent.toNat) (narrow : sent.toNat ≤ 2 ^ 26) : decoder.Reads sent 0 where
  within _ _ _ _ _ positive inside steady soonest latest :=
    sense_within_of_suits suits wide narrow positive inside steady (by omega)
  after _ following _ _ _ inside steady soonest latest :=
    sense_after_of_suits following suits wide narrow inside steady (by omega)
  between byte place time next looks inside latest seen := by
    refine hear_looks_early byte looks (suits.le (by omega)) inside ?_
    intro look member
    obtain ⟨after, before⟩ := seen look member
    have := suits.frame (by omega) inside
    have := Edge.le_noted time (decoder.driven byte place)
    have := Edge.noted_le time (decoder.driven byte place)
    unfold dueTime
    omega

/-- A decoder at rest reads a whole message, up to a look that comes after the last stop bit. -/
theorem hear_suited {sent : UInt32} {since start last now : Int} {data : List UInt8}
    {sights : List Sight} (suits : Suits sent.toNat decoder.period) (wide : 6 ≤ sent.toNat)
    (narrow : sent.toNat ≤ 2 ^ 26) (rested : since + sent.toNat ≤ start + 1)
    (recent : start < since + 2 ^ 31 - 2)
    (sighted : Sighted 0 start (Plan.ofData data sent decoder.invert).holds sights last)
    (past : last + 11 * sent.toNat ≤ now) (near : now < last + 2 ^ 31) :
    ∃ findings moved,
      (decoder.resting since).hear (sights ++ [.look (Cycle.ofTime now)]) =
        (findings, decoder.resting moved) ∧
      completions findings = data := by
  have positive := decoder.period_pos
  have small := suits.le (by omega)
  have late := suits.late
  have soon := suits.soon
  cases data with
  | nil =>
    rw [Plan.holds_of_levels_nil rfl] at sighted
    cases sighted
  | cons byte rest =>
    have := Edge.le_noted start (decoder.driven byte 0)
    have := Edge.noted_le start (decoder.driven byte 0)
    have taken : (decoder.resting since).sense
          (.ofLevel (Cycle.ofTime start) (decoder.driven byte 0)) =
        (decoder.standing byte 0 (Edge.noted start (decoder.driven byte 0)), .progress) :=
      sense_start byte (by omega) (by omega) (by omega)
    rw [Plan.ofData_cons] at sighted
    have brought := (reads_of_suits suits wide narrow).hear_sighted (by omega) sighted
      (by omega) rfl taken
    obtain ⟨findings, moved, heard, -, whole⟩ := brought.settle small [] (by simp)
      (show last + 10 * decoder.period < now by omega) near
    refine ⟨.progress :: findings, moved, heard, ?_⟩
    rw [completions_progress, whole, pending, if_pos (by omega)]
    rfl

/-! Bit periods that do not suit a line are found out by two bytes. -/

/-- The last bit that the decoder has taken in, if any, is a one. -/
def Lit (decoder : Decoder) : Prop :=
  ∀ count, decoder.phase = .receiving count → count.val ≠ 0 → decoder.register.msb

theorem ofBitVec_ne_zero {register : BitVec 8} (top : register.msb) :
    UInt8.ofBitVec register ≠ 0 := by
  intro zero
  have : register = 0#8 := congrArg UInt8.toBitVec zero
  rw [this] at top
  cases top

theorem signedPeriod_ne_zero (decoder : Decoder) : decoder.signedPeriod ≠ 0 := by
  have := decoder.bitPeriod_pos
  have := decoder.bitPeriod.toNat_lt
  unfold signedPeriod Cycle.signed
  split <;> omega

theorem notMem_completions {finding : Finding} (other : finding ≠ .completed byte) :
    byte ∉ completions [finding] := by
  intro brought
  obtain ⟨found, member, same⟩ := List.mem_filterMap.mp brought
  cases List.mem_singleton.mp member
  cases finding with
  | completed byte =>
    cases same
    exact other rfl
  | spurious | progress => cases same

/-- A mark level after a one, or after a start bit that seems to last for less than eight more
bit periods, brings a one, or a byte that has ones. -/
theorem account_mark {count : Fin 9} {elapsed : Int} (phase : decoder.phase = .receiving count)
    (brief : decoder.register.msb ∨
      count.val = 0 ∧ (0 ≤ decoder.signedPeriod → elapsed < 8 * decoder.signedPeriod)) :
    (decoder.account elapsed true).1.Lit ∧ (decoder.account elapsed true).2 ≠ .completed 0 := by
  have closes : ∀ (register : BitVec 8) left, register.msb →
      (decoder.complete register left true).1.Lit ∧
        (decoder.complete register left true).2 ≠ .completed 0 := by
    intro register left top
    have rests : (decoder.complete register left true).1.phase = .idle := by
      unfold complete arm
      simp
    refine ⟨fun count busy => ?_, ?_⟩
    · cases rests.symm.trans busy
    · intro zero
      exact ofBitVec_ne_zero top (Finding.completed.inj zero)
  rw [account, phase]
  dsimp only
  split
  · refine closes _ _ ?_
    cases missing : 8 - count.val with
    | zero =>
      rcases brief with top | ⟨fresh, -⟩
      · exact top
      · omega
    | succ missing => exact msb_shiftIn _ true
  · rename_i slow
    split
    · exact ⟨fun _ _ _ => msb_shiftIn _ true, fun none => by cases none⟩
    · rename_i whole
      refine closes _ _ ?_
      rw [msb_repeatLast _ (by omega)]
      rcases brief with top | ⟨fresh, brief⟩
      · exact top
      · exfalso
        have short := brief (by omega)
        have counts := decoder.signedPeriod_ne_zero
        have positive : 0 < decoder.signedPeriod := by omega
        have few := Int.ediv_lt_of_lt_mul positive short
        omega

theorem sense_mark {edge : Edge} (lit : decoder.Lit) (mark : edge.mark decoder.invert)
    (brief : ∀ count, decoder.phase = .receiving count → count.val = 0 →
      0 ≤ decoder.signedPeriod →
      Cycle.span decoder.last edge.timestamp - decoder.signedPeriod.tdiv 2 <
        8 * decoder.signedPeriod) :
    (decoder.sense edge).1.Lit ∧ (decoder.sense edge).2 ≠ .completed 0 := by
  unfold sense
  dsimp only
  rw [mark]
  split
  · exact ⟨lit, fun none => by cases none⟩
  · cases phase : decoder.phase with
    | idle => exact ⟨fun count busy => by simp [account, arm] at busy, fun none => by cases none⟩
    | receiving count =>
      refine account_mark rfl ?_
      by_cases start : count.val = 0
      · exact .inr ⟨start, brief count phase start⟩
      · exact .inl (lit count phase start)

/-- Looks bring no byte without ones. -/
theorem Lit.look (lit : decoder.Lit) (now : Cycle) :
    (decoder.hear [.look now]).2.Lit ∧ 0 ∉ completions (decoder.hear [.look now]).1 := by
  have kept : ∀ state : Decoder, state.Lit → (state.keepReach now).Lit := by
    intro state lit
    unfold keepReach
    split
    · exact lit
    · exact lit
  unfold hear
  split
  · exact ⟨kept _ lit, List.not_mem_nil⟩
  · rename_i edge owed
    unfold owedEdge? at owed
    split at owed
    · cases owed
    · rename_i count phase
      dsimp only at owed
      split at owed
      · cases owed
      · rename_i started
        split at owed
        · cases owed
        · cases owed
          obtain ⟨later, brought⟩ := sense_mark lit (Edge.mark_ofLogical _ true decoder.invert)
            fun other same start => by
              cases phase.symm.trans same
              exact absurd (Fin.ext start) started
          exact ⟨kept _ later, notMem_completions brought⟩

/-- At a bit period that is too long, the stop bit of a byte of zeros is taken for a data bit, or
left out. -/
theorem hear_zeros {sent : UInt32} (narrow : sent.toNat ≤ 2 ^ 26) (direct : decoder.invert = false)
    (long : 9 * sent.toNat < 8 * decoder.period + decoder.period / 2 + 1 + sent.toNat % 2) :
    let heard := (decoder.resting (-2 ^ 30)).hear [.edge (.ofLevel (Cycle.ofTime 0) false),
      .edge (.ofLevel (Cycle.ofTime (9 * sent.toNat)) true)]
    heard.2.Lit ∧ 0 ∉ completions heard.1 := by
  have bounded := Cycle.signed_lt decoder.bitPeriod
  have rounded : Edge.noted (9 * sent.toNat) true = 9 * sent.toNat - sent.toNat % 2 := by
    unfold Edge.noted
    simp
    omega
  have half : decoder.signedPeriod.tdiv 2 ≤ 2 ^ 30 :=
    Int.tdiv_le_tdiv (show (0 : Int) < 2 by decide) (Int.le_of_lt bounded)
  have begun : (decoder.resting (-2 ^ 30)).sense (.ofLevel (Cycle.ofTime 0) false) =
      (decoder.standing 0 0 1, .progress) := by
    have space : (Edge.ofLevel (Cycle.ofTime 0) false).mark decoder.invert = false := by
      rw [Edge.mark, Edge.high_ofLevel, direct]
      rfl
    have elapsed : ¬ Edge.noted 0 false - -2 ^ 30 - decoder.signedPeriod.tdiv 2 < 0 := by
      have : Edge.noted 0 false = 1 := rfl
      omega
    rw [sense, Edge.timestamp_ofLevel, last_resting, Cycle.span_ofTime (by decide) (by decide)]
    refine (if_neg elapsed).trans ?_
    rw [invert_resting, space]
    exact account_resting _ false
  have later : (decoder.standing 0 0 1).Lit := by
    intro count busy some
    exact absurd (congrArg Fin.val (Phase.receiving.inj busy)).symm some
  have mark : (Edge.ofLevel (Cycle.ofTime (9 * sent.toNat)) true).mark decoder.invert := by
    rw [Edge.mark, Edge.high_ofLevel, direct]
    rfl
  have sensed := sense_mark later mark ?_
  · dsimp only
    simp only [hear, begun]
    refine ⟨sensed.1, ?_⟩
    rw [completions_progress]
    exact notMem_completions sensed.2
  · intro count busy start slow
    have own : decoder.signedPeriod = decoder.period := by
      change 0 ≤ decoder.signedPeriod at slow
      unfold signedPeriod Cycle.signed at slow ⊢
      split at slow
      · rename_i small
        rw [if_pos small]
        rfl
      · have := decoder.bitPeriod.toNat_lt
        omega
    change Cycle.span (Cycle.ofTime 1) _ - decoder.signedPeriod.tdiv 2 < 8 * decoder.signedPeriod
    have positive := decoder.period_pos
    rw [Edge.timestamp_ofLevel, rounded, Cycle.span_ofTime (by omega) (by omega), own,
      Int.tdiv_eq_ediv_of_nonneg (by omega)]
    omega

/-- At a bit period that is too short, a one that follows after zeros comes too late for its
byte. -/
theorem hear_one {sent : UInt32} (narrow : sent.toNat ≤ 2 ^ 26) (inverted : decoder.invert = true)
    (short : 8 * decoder.period + decoder.period / 2 ≤ 8 * sent.toNat + 1) :
    ∃ moved, (decoder.resting (-2 ^ 30)).hear [.edge (.ofLevel (Cycle.ofTime 0) true),
        .edge (.ofLevel (Cycle.ofTime (8 * sent.toNat)) false)] =
      ([.progress, .completed 0], decoder.resting moved) := by
  have positive := decoder.period_pos
  have space : Frame.level 0 0 = false := rfl
  have stop : Frame.level 0 9 = true := rfl
  have first : decoder.driven 0 0 = true := by rw [driven, inverted, space]; rfl
  have second : decoder.driven 0 9 = false := by rw [driven, inverted, stop]; rfl
  have start : Edge.noted 0 true = 0 := rfl
  have passed : Edge.noted (8 * sent.toNat) false = 8 * sent.toNat + 1 := by
    unfold Edge.noted
    simp
    omega
  have begun : (decoder.resting (-2 ^ 30)).sense (.ofLevel (Cycle.ofTime 0) true) =
      (decoder.standing 0 0 0, .progress) := by
    have sensed := @sense_start decoder (-2 ^ 30) 0 0 (by omega)
    rw [first, start] at sensed
    exact sensed (by omega) (by omega)
  have steady : Steady 0 0 9 := by
    intro later _ inside
    interval_cases later <;> rfl
  have closed : (decoder.standing 0 0 0).sense
      (.ofLevel (Cycle.ofTime (8 * sent.toNat)) false) =
        (decoder.resting (8 * sent.toNat + 1), .completed 0) := by
    rw [← second, sense_standing (by omega) (Edge.timestamp_ofLevel ..)
      (by rw [second, passed]; omega) (by rw [second, passed]; omega), mark_driven, second, passed]
    by_cases nine :
        8 * sent.toNat + 1 - 0 - decoder.period / 2 < 8 * decoder.period + decoder.period
    · exact @account_standing decoder 0 0 _ _ 8 (by omega) (by omega) steady (by omega) (by omega)
    · exact @account_closing decoder 0 0 _ _ true 0 (by omega) (by omega) steady (by omega)
  refine ⟨8 * sent.toNat + 1, ?_⟩
  simp only [hear, begun, closed]

end Decoder
end PinUart
