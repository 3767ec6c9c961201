import PinUart.Proofs.Levels
import PinUart.Proofs.Tracking

/-! Reception of a message whose edges come early or late by a little less than half
a bit period, while the clock is looked at in between. -/
namespace PinUart

/-- What is seen of a line that goes through `holds`, the first of which begins at the
first of the two times, and the last at the second. Every hold may be off by `slack`
cycles, and its looks come after its edge and not after the next one. -/
inductive Sighted (slack : Int) : Int → List Hold → List Sight → Int → Prop where
  | last (time : Int) (hold : Hold) :
      Sighted slack time [hold] [.edge (.ofLevel (Cycle.ofTime time) hold.high)] time
  | next {time next final : Int} {hold : Hold} {holds : List Hold} {looks : List Int}
      {sights : List Sight}
      (soonest : hold.cycles.toNat - slack ≤ next - time)
      (latest : next - time ≤ hold.cycles.toNat + slack)
      (between : ∀ look ∈ looks, time < look ∧ look ≤ next)
      (later : Sighted slack next holds sights final) :
      Sighted slack time (hold :: holds)
        (.edge (.ofLevel (Cycle.ofTime time) hold.high) ::
          (looks.map fun look => .look (Cycle.ofTime look)) ++ sights) final

namespace Decoder

/-- The byte of a frame that is not complete at a place. -/
def pending (byte : UInt8) (place : Nat) : List UInt8 := if place < 9 then [byte] else []

/-- What an edge brings that reaches a place of a frame. -/
def reaching (byte : UInt8) (place : Nat) : Finding :=
  if place = 9 then .completed byte else .progress

/-- What an edge brings that comes after a frame, when the decoder stood at a place. -/
def leaving (byte : UInt8) (place : Nat) : Finding :=
  if place < 9 then .completed byte else .progress

variable {decoder : Decoder} {byte : UInt8} {place : Nat}

/-- The electrical level at a place of a frame. -/
def driven (decoder : Decoder) (byte : UInt8) (place : Nat) : Bool :=
  Frame.level byte place ^^ decoder.invert

theorem reaching_ne_spurious : .spurious ≠ reaching byte place := by
  unfold reaching
  split <;> simp

theorem leaving_ne_spurious : .spurious ≠ leaving byte place := by
  unfold leaving
  split <;> simp

@[simp] theorem completions_pending :
    completions ((pending byte place).map .completed) = pending byte place := by
  unfold pending
  split <;> rfl

theorem completions_leaving (findings : List Finding) :
    completions (leaving byte place :: findings) = pending byte place ++ completions findings := by
  unfold leaving pending
  split <;> rfl

/-- The byte of a frame comes from the edge that completes it, or stays pending. -/
theorem completions_reaching {findings : List Finding} {tail later : List UInt8}
    (inside : place ≤ 9) (whole : completions findings ++ tail = pending byte place ++ later) :
    completions (reaching byte place :: findings) ++ tail = byte :: later := by
  by_cases stop : place = 9
  · rw [pending, if_neg (by omega), List.nil_append] at whole
    rw [reaching, if_pos stop, completions_completed, List.cons_append, whole]
  · rw [pending, if_pos (by omega)] at whole
    rw [reaching, if_neg stop, completions_progress, whole]
    rfl

@[simp] theorem driven_xor_invert (decoder : Decoder) (byte : UInt8) (place : Nat) :
    (decoder.driven byte place ^^ decoder.invert) = Frame.level byte place := by
  rw [driven, Bool.xor_assoc, Bool.xor_self, Bool.xor_false]

theorem mark_driven (decoder : Decoder) (time : Cycle) (byte : UInt8) (place : Nat) :
    (Edge.ofLevel time (decoder.driven byte place)).mark decoder.invert =
      Frame.level byte place := by
  rw [Edge.mark, Edge.high_ofLevel, driven_xor_invert]

/-- The next edge of a frame is taken for what it is. -/
theorem sense_within {time next slack : Int} {run : Nat} (narrow : decoder.period ≤ 2 ^ 26)
    (tolerated : slack ≤ decoder.period / 2 - 3) (positive : 0 < run) (inside : place + run ≤ 9)
    (steady : Steady byte place run) (soonest : run * decoder.period - slack ≤ next - time)
    (latest : next - time ≤ run * decoder.period + slack) :
    (decoder.standing byte place (Edge.noted time (decoder.driven byte place))).sense
        (.ofLevel (Cycle.ofTime next) (decoder.driven byte (place + run))) =
      (decoder.standing byte (place + run) (Edge.noted next (decoder.driven byte (place + run))),
        reaching byte (place + run)) := by
  obtain ⟨hidden, rfl⟩ := Nat.exists_eq_succ_of_ne_zero (Nat.pos_iff_ne_zero.mp positive)
  have whole := decoder.period_pos
  have split : ((hidden + 1 : Nat) : Int) * decoder.period =
      hidden * decoder.period + decoder.period := by
    rw [Int.natCast_add, Int.add_mul]
    simp
  have bounded : (hidden : Int) * decoder.period ≤ 9 * decoder.period :=
    Int.mul_le_mul_of_nonneg_right (by omega) (by omega)
  have nonneg : 0 ≤ (hidden : Int) * decoder.period := Int.mul_nonneg (by omega) (by omega)
  have := Edge.le_noted time (decoder.driven byte place)
  have := Edge.noted_le time (decoder.driven byte place)
  have := Edge.le_noted next (decoder.driven byte (place + (hidden + 1)))
  have := Edge.noted_le next (decoder.driven byte (place + (hidden + 1)))
  rw [Nat.succ_eq_add_one] at soonest latest ⊢
  rw [split] at soonest latest
  rw [sense_standing (by omega) (Edge.timestamp_ofLevel ..) (by omega) (by omega), mark_driven]
  exact account_standing (by omega) (by omega) steady (by omega) (by omega)

/-- At rest, an edge to space that comes late enough starts a frame. -/
theorem sense_start {since time : Int} (byte : UInt8) (short : decoder.period < 2 ^ 31)
    (due : decoder.period / 2 ≤ Edge.noted time (decoder.driven byte 0) - since)
    (near : Edge.noted time (decoder.driven byte 0) - since < 2 ^ 31) :
    (decoder.resting since).sense (.ofLevel (Cycle.ofTime time) (decoder.driven byte 0)) =
      (decoder.standing byte 0 (Edge.noted time (decoder.driven byte 0)), .progress) := by
  change (decoder.standing byte 9 since).sense _ = _
  rw [sense_standing short (Edge.timestamp_ofLevel ..) due near, mark_driven, Frame.level_start]
  exact account_resting _ false

/-- An edge to space after the end of a frame closes it and starts another. -/
theorem sense_after {time next : Int} (after : UInt8) (narrow : decoder.period ≤ 2 ^ 26)
    (wide : 6 ≤ decoder.period) (inside : place ≤ 9) (steady : Steady byte place (10 - place))
    (soonest : (10 - place) * decoder.period - (decoder.period / 2 - 3) ≤ next - time)
    (latest : next - time < 2 ^ 31 - 2) :
    (decoder.standing byte place (Edge.noted time (decoder.driven byte place))).sense
        (.ofLevel (Cycle.ofTime next) (decoder.driven after 0)) =
      (decoder.standing after 0 (Edge.noted next (decoder.driven after 0)),
        leaving byte place) := by
  have := Edge.le_noted time (decoder.driven byte place)
  have := Edge.noted_le time (decoder.driven byte place)
  have := Edge.le_noted next (decoder.driven after 0)
  have := Edge.noted_le next (decoder.driven after 0)
  have split : (10 - place : Int) * decoder.period =
      (9 - place) * decoder.period + decoder.period := by grind
  have nonneg : 0 ≤ (9 - place : Int) * decoder.period := Int.mul_nonneg (by omega) (by omega)
  rw [sense_standing (by omega) (Edge.timestamp_ofLevel ..) (by omega) (by omega), mark_driven,
    Frame.level_start]
  by_cases closed : place = 9
  · subst closed
    exact account_resting _ false
  · have unfinished : leaving byte place = .completed byte := if_pos (by omega)
    rw [unfinished]
    exact account_closing after (by omega) (by omega)
      (fun later after before => steady later after (by omega)) (by omega)

/-- Looks between two edges of a message come too soon to change anything. -/
theorem hear_looks_between {slack time next : Int} {looks : List Int} (byte : UInt8)
    (narrow : decoder.period ≤ 2 ^ 26) (tolerated : slack ≤ decoder.period / 2 - 3)
    (inside : place ≤ 9) (latest : next - time ≤ (10 - place) * decoder.period + slack)
    (between : ∀ look ∈ looks, time < look ∧ look ≤ next) :
    let standing := decoder.standing byte place (Edge.noted time (decoder.driven byte place))
    standing.hear (looks.map fun look => .look (Cycle.ofTime look)) = ([], standing) := by
  refine hear_looks_early byte looks (by omega) inside ?_
  intro look member
  obtain ⟨after, before⟩ := between look member
  have positive := decoder.period_pos
  have split : (11 - place : Int) * decoder.period =
      (10 - place) * decoder.period + decoder.period := by grind
  have := Edge.le_noted time (decoder.driven byte place)
  have := Edge.noted_le time (decoder.driven byte place)
  unfold dueTime
  omega

/-- After a first finding nothing of what is heard is noise, and it brings `data`, but for a
byte that is pending in the frame of the last edge. -/
def Brings (decoder before : Decoder) (sights : List Sight) (final : Int) (finding : Finding)
    (data : List UInt8) : Prop :=
  ∃ findings last lastPlace,
    before.hear sights = (finding :: findings, decoder.standing last lastPlace
      (Edge.noted final (decoder.driven last lastPlace))) ∧
    1 ≤ lastPlace ∧ lastPlace ≤ 9 ∧ Steady last lastPlace (10 - lastPlace) ∧
    .spurious ∉ findings ∧ completions findings ++ pending last lastPlace = data

/-- An edge is heard, and looks that change nothing, before what brings the rest. -/
theorem Brings.prepend {before state : Decoder} {edge : Edge} {looks : List Int}
    {sights : List Sight} {final : Int} {finding next : Finding} {data : List UInt8}
    (later : decoder.Brings state sights final next data)
    (taken : before.sense edge = (state, finding))
    (quiet : state.hear (looks.map fun look => .look (Cycle.ofTime look)) = ([], state))
    (clean : .spurious ≠ next) :
    decoder.Brings before
      (.edge edge :: (looks.map fun look => .look (Cycle.ofTime look)) ++ sights) final finding
      (completions [next] ++ data) := by
  obtain ⟨findings, last, lastPlace, heard, started, inside, steady, cleaner, whole⟩ := later
  refine ⟨next :: findings, last, lastPlace, ?_, started, inside, steady, ?_, ?_⟩
  · simp only [List.cons_append, hear, taken, hear_append, quiet, heard, List.nil_append]
  · rw [List.mem_cons, not_or]
    exact ⟨clean, cleaner⟩
  · rw [completions_cons, List.append_assoc, whole]

/-- A decoder takes the edges of frames for what they are, if the line keeps a bit period and
each hold of it may be off by `slack` cycles. -/
structure Reads (decoder : Decoder) (sent : UInt32) (slack : Int) : Prop where
  within : ∀ (byte : UInt8) (place run : Nat) (time next : Int), 0 < run → place + run ≤ 9 →
    Steady byte place run → run * sent.toNat - slack ≤ next - time →
    next - time ≤ run * sent.toNat + slack →
    (decoder.standing byte place (Edge.noted time (decoder.driven byte place))).sense
        (.ofLevel (Cycle.ofTime next) (decoder.driven byte (place + run))) =
      (decoder.standing byte (place + run) (Edge.noted next (decoder.driven byte (place + run))),
        reaching byte (place + run))
  after : ∀ (byte following : UInt8) (place : Nat) (time next : Int), place ≤ 9 →
    Steady byte place (10 - place) → (10 - place) * sent.toNat - slack ≤ next - time →
    next - time ≤ (10 - place) * sent.toNat + slack →
    (decoder.standing byte place (Edge.noted time (decoder.driven byte place))).sense
        (.ofLevel (Cycle.ofTime next) (decoder.driven following 0)) =
      (decoder.standing following 0 (Edge.noted next (decoder.driven following 0)),
        leaving byte place)
  between : ∀ (byte : UInt8) (place : Nat) (time next : Int) (looks : List Int), place ≤ 9 →
    next - time ≤ (10 - place) * sent.toNat + slack →
    (∀ look ∈ looks, time < look ∧ look ≤ next) →
    (decoder.standing byte place (Edge.noted time (decoder.driven byte place))).hear
        (looks.map fun look => .look (Cycle.ofTime look)) =
      ([], decoder.standing byte place (Edge.noted time (decoder.driven byte place)))

/-- At its own bit period it may be off by a little less than half of it. -/
theorem reads_of_tolerated {slack : Int} (narrow : decoder.period ≤ 2 ^ 26)
    (wide : 6 ≤ decoder.period) (tolerated : slack ≤ decoder.period / 2 - 3) :
    decoder.Reads decoder.bitPeriod slack where
  within _ _ _ _ _ := sense_within narrow tolerated
  after _ following place _ _ inside steady soonest latest := by
    have long : (10 - place : Int) * decoder.period ≤ 10 * decoder.period :=
      Int.mul_le_mul_of_nonneg_right (by omega) (by omega)
    change (10 - place : Int) * decoder.period - slack ≤ _ at soonest
    change _ ≤ (10 - place : Int) * decoder.period + slack at latest
    exact sense_after following narrow wide inside steady (by omega) (by omega)
  between byte _ _ _ _ := hear_looks_between byte narrow tolerated

/-- Reception of what is left of a message, once the decoder has taken its next edge:
the bytes of all frames come in, but for the last one if no edge closes it. -/
theorem Reads.hear_sighted {sent : UInt32} {slack time final : Int} {holds : List Hold}
    {sights : List Sight} (reads : decoder.Reads sent slack) (fits : 10 * sent.toNat < 2 ^ 32)
    (sighted : Sighted slack time holds sights final)
    {byte : UInt8} {place : Nat} {rest : List UInt8} {before : Decoder} {finding : Finding}
    (inside : place ≤ 9)
    (planned : holds = (Plan.ofPlace byte place rest sent decoder.invert).holds)
    (taken : before.sense (.ofLevel (Cycle.ofTime time) (decoder.driven byte place)) =
      (decoder.standing byte place (Edge.noted time (decoder.driven byte place)), finding)) :
    decoder.Brings before sights final finding (pending byte place ++ rest) := by
  induction sighted generalizing byte place rest before finding with
  | last time hold =>
    obtain ⟨rfl, high, steady⟩ := Plan.holds_ofPlace_singleton inside fits planned.symm
    refine ⟨[], byte, place, ?_, Steady.started inside steady, inside, steady, by simp, by simp⟩
    rw [high]
    change before.hear [.edge (.ofLevel (Cycle.ofTime time) (decoder.driven byte place))] = _
    simp only [hear, taken]
  | @next time next final hold holds looks sights soonest latest between later ih =>
    obtain ⟨run, positive, within, cycles, high, steady, changed, left⟩ :=
      Plan.holds_ofPlace inside fits planned.symm
    have lasting : (hold.cycles.toNat : Int) = run * sent.toNat := by
      rw [cycles, Int.natCast_mul]
    have most : (run : Int) * sent.toNat ≤ (10 - place) * sent.toNat :=
      Int.mul_le_mul_of_nonneg_right (by omega) (by omega)
    rw [lasting] at soonest latest
    have quiet := reads.between byte place time next looks inside (by omega) between
    rw [high]
    by_cases more : place + run ≤ 9
    · have sensed := reads.within byte place run time next positive more steady soonest latest
      have unfinished : pending byte place = [byte] := if_pos (by omega)
      have brought := (ih more left sensed).prepend taken quiet reaching_ne_spurious
      rw [completions_reaching more rfl] at brought
      rw [unfinished]
      exact brought
    · have ended : place + run = 10 := by omega
      rw [ended] at left
      cases rest with
      | nil =>
        rw [Plan.holds_ofPlace_ended] at left
        subst left
        cases later
      | cons after others =>
        rw [Plan.ofPlace_ended_cons] at left
        have toEnd : (run : Int) = 10 - place := by omega
        rw [toEnd] at soonest latest
        have rests : Steady byte place (10 - place) := by
          rw [show 10 - place = run by omega]
          exact steady
        have sensed := reads.after byte after place time next inside rests soonest latest
        have brought := (ih (by omega) left sensed).prepend taken quiet leaving_ne_spurious
        rw [completions_leaving, completions_nil, List.append_nil] at brought
        exact brought

theorem hear_sighted {slack time final : Int} {holds : List Hold} {sights : List Sight}
    (narrow : decoder.period ≤ 2 ^ 26) (wide : 6 ≤ decoder.period)
    (tolerated : slack ≤ decoder.period / 2 - 3) (sighted : Sighted slack time holds sights final)
    {byte : UInt8} {place : Nat} {rest : List UInt8} {before : Decoder} {finding : Finding}
    (inside : place ≤ 9)
    (planned : holds = (Plan.ofPlace byte place rest decoder.bitPeriod decoder.invert).holds)
    (taken : before.sense (.ofLevel (Cycle.ofTime time) (decoder.driven byte place)) =
      (decoder.standing byte place (Edge.noted time (decoder.driven byte place)), finding)) :
    decoder.Brings before sights final finding (pending byte place ++ rest) := by
  have fits : 10 * decoder.bitPeriod.toNat < 2 ^ 32 := by
    unfold period at narrow
    omega
  exact (reads_of_tolerated narrow wide tolerated).hear_sighted fits sighted inside planned taken

/-- The owed edge closes its frame, as long as it is less than half a turn away. -/
theorem sense_owed {since : Int} (near : (11 - place : Int) * decoder.period < 2 ^ 31 - 1)
    (inside : place ≤ 8) (steady : Steady byte place (9 - place)) :
    (decoder.standing byte place since).sense
        (.ofLogical (Cycle.ofTime (decoder.dueTime place since)) true decoder.invert) =
      (decoder.resting (Edge.noted (decoder.dueTime place since) (true ^^ decoder.invert)),
        .completed byte) := by
  have positive := decoder.period_pos
  have := Edge.le_noted (decoder.dueTime place since) (true ^^ decoder.invert)
  have := Edge.noted_le (decoder.dueTime place since) (true ^^ decoder.invert)
  have split : (11 - place : Int) * decoder.period =
      (9 - place) * decoder.period + 2 * decoder.period := by grind
  have nonneg : 0 ≤ (9 - place : Int) * decoder.period := Int.mul_nonneg (by omega) (by omega)
  have due : decoder.dueTime place since = since + (11 - place) * decoder.period := rfl
  rw [sense_standing (by omega) (by rw [Edge.ofLogical, Edge.timestamp_ofLevel]) (by omega)
    (by omega), Edge.mark_ofLogical]
  exact account_closing byte (by omega) inside steady (by omega)

/-- Looks after the last edge of a message: the byte of an open frame comes in with the
first that is late enough. -/
theorem hear_looks_late {since : Int} (narrow : decoder.period ≤ 2 ^ 27) (looks : List Int)
    (started : 1 ≤ place) (inside : place ≤ 9) (steady : Steady byte place (10 - place))
    (within : ∀ look ∈ looks, since ≤ look ∧ look - since < 2 ^ 32) :
    ((∀ look ∈ looks, look < decoder.dueTime place since) ∧
        (decoder.standing byte place since).hear
            (looks.map fun look => .look (Cycle.ofTime look)) =
          ([], decoder.standing byte place since)) ∨
      ∃ moved, (decoder.standing byte place since).hear
          (looks.map fun look => .look (Cycle.ofTime look)) =
        ((pending byte place).map .completed, decoder.resting moved) := by
  have positive := decoder.period_pos
  by_cases stop : place = 9
  · subst stop
    obtain ⟨moved, heard, -⟩ := hear_looks_resting decoder since looks
    exact .inr ⟨moved, heard⟩
  · induction looks with
    | nil => exact .inl ⟨by simp, rfl⟩
    | cons look looks ih =>
      obtain ⟨after, near⟩ := within look (List.mem_cons_self ..)
      have later : ∀ look ∈ looks, since ≤ look ∧ look - since < 2 ^ 32 :=
        fun look member => within look (List.mem_cons_of_mem _ member)
      by_cases early : look < decoder.dueTime place since
      · rw [List.map_cons, hear, owedEdge?_early (by omega) inside after early]
        simp only [keepReach_standing (show place < 9 by omega)]
        rcases ih later with ⟨earlier, same⟩ | closed
        · refine .inl ⟨?_, same⟩
          intro other member
          rcases List.mem_cons.mp member with rfl | member
          · exact early
          · exact earlier other member
        · exact .inr closed
      · right
        rw [List.map_cons, hear, owedEdge?_due (by omega) started (by omega) (by omega) near,
          pending, if_pos (by omega)]
        have span : (11 - place : Int) * decoder.period ≤ 11 * decoder.period :=
          Int.mul_le_mul_of_nonneg_right (by omega) (by omega)
        simp only [sense_owed (show (11 - place : Int) * decoder.period < 2 ^ 31 - 1 by omega)
          (show place ≤ 8 by omega) fun later after before => steady later after (by omega)]
        rcases keepReach_resting decoder
          (Edge.noted (decoder.dueTime place since) (true ^^ decoder.invert)) look with same | trailing
        · obtain ⟨moved, heard, -⟩ := hear_looks_resting decoder _ looks
          exact ⟨moved, by rw [same, heard]; rfl⟩
        · obtain ⟨moved, heard, -⟩ := hear_looks_resting decoder _ looks
          exact ⟨moved, by rw [trailing, heard]; rfl⟩

/-- A look that comes after the last stop bit brings all that is left. -/
theorem Brings.settle {before : Decoder} {sights : List Sight} {last final : Int}
    {finding : Finding} {data : List UInt8} (brought : decoder.Brings before sights last finding data)
    (narrow : decoder.period ≤ 2 ^ 27) (late : List Int)
    (settling : ∀ look ∈ late, last < look ∧ look < last + 2 ^ 31)
    (past : last + 10 * decoder.period < final) (near : final < last + 2 ^ 31) :
    ∃ findings moved,
      before.hear (sights ++ (late ++ [final]).map fun look => .look (Cycle.ofTime look)) =
        (finding :: findings, decoder.resting moved) ∧
      .spurious ∉ findings ∧ completions findings = data := by
  have positive := decoder.period_pos
  obtain ⟨findings, ended, place, heard, started, inside, steady, clean, whole⟩ := brought
  have := Edge.le_noted last (decoder.driven ended place)
  have := Edge.noted_le last (decoder.driven ended place)
  have due : decoder.dueTime place (Edge.noted last (decoder.driven ended place)) ≤ final := by
    have : (11 - place : Int) * decoder.period ≤ 10 * decoder.period :=
      Int.mul_le_mul_of_nonneg_right (by omega) (by omega)
    unfold dueTime
    omega
  have seen : ∀ look ∈ late ++ [final],
      Edge.noted last (decoder.driven ended place) ≤ look ∧
        look - Edge.noted last (decoder.driven ended place) < 2 ^ 32 := by
    intro look member
    rcases List.mem_append.mp member with settled | once
    · have := settling look settled
      omega
    · have := List.mem_singleton.mp once
      omega
  rcases hear_looks_late narrow (late ++ [final]) started inside steady seen with
    ⟨before, -⟩ | ⟨moved, closed⟩
  · have := before final (by simp)
    omega
  · refine ⟨findings ++ (pending ended place).map .completed, moved, ?_, ?_, ?_⟩
    · rw [hear_append, heard, closed]
      rfl
    · simpa using clean
    · rw [completions_append, completions_pending, whole]

/-- A decoder that was reset shortly before takes the first start edge. -/
theorem hear_early {reset start : Int} (byte : UInt8) (narrow : decoder.period ≤ 2 ^ 26)
    (wide : 6 ≤ decoder.period) (early : List Int) (fresh : reset ≤ start)
    (recent : start - reset < 2 ^ 29) (waiting : ∀ look ∈ early, reset ≤ look ∧ look ≤ start) :
    ∃ waited,
      (decoder.reset (Cycle.ofTime reset)).hear (early.map fun look => .look (Cycle.ofTime look)) =
        ([], decoder.resting waited) ∧
      (decoder.resting waited).sense (.ofLevel (Cycle.ofTime start) (decoder.driven byte 0)) =
        (decoder.standing byte 0 (Edge.noted start (decoder.driven byte 0)), .progress) := by
  obtain ⟨waited, heardEarly, trailing⟩ := hear_looks_resting decoder (reset - 2 ^ 30) early
  have reach : 2 ^ 30 ≤ start - waited ∧ start - waited < 2 ^ 30 + 2 ^ 29 := by
    rcases trailing with stayed | ⟨look, member, trails⟩
    · omega
    · have := waiting look member
      omega
  have := Edge.le_noted start (decoder.driven byte 0)
  have := Edge.noted_le start (decoder.driven byte 0)
  exact ⟨waited, (reset_ofTime reset).symm ▸ heardEarly,
    sense_start byte (by omega) (by omega) (by omega)⟩

/-- Reception of a whole message by a decoder that was reset shortly before, up to a
look that comes after the last stop bit. -/
theorem hear_message {slack reset start last final : Int} {sights : List Sight} (byte : UInt8)
    (rest : List UInt8) (narrow : decoder.period ≤ 2 ^ 26) (wide : 6 ≤ decoder.period)
    (tolerated : slack ≤ decoder.period / 2 - 3) (early late : List Int) (fresh : reset ≤ start)
    (recent : start - reset < 2 ^ 29) (waiting : ∀ look ∈ early, reset ≤ look ∧ look ≤ start)
    (sighted : Sighted slack start
      (Plan.ofData (byte :: rest) decoder.bitPeriod decoder.invert).holds sights last)
    (settling : ∀ look ∈ late, last < look ∧ look ≤ last + 2 ^ 30)
    (past : last + 11 * decoder.period ≤ final) (near : final ≤ last + 2 ^ 30) :
    ∃ findings moved,
      (decoder.reset (Cycle.ofTime reset)).hear
          ((early.map fun look => .look (Cycle.ofTime look)) ++ sights ++
            (late ++ [final]).map fun look => .look (Cycle.ofTime look)) =
        (findings, decoder.resting moved) ∧
      .spurious ∉ findings ∧ completions findings = byte :: rest := by
  have positive := decoder.period_pos
  obtain ⟨waited, heardEarly, taken⟩ := hear_early byte narrow wide early fresh recent waiting
  rw [Plan.ofData_cons] at sighted
  have brought := hear_sighted narrow wide tolerated sighted (by omega) rfl taken
  obtain ⟨findings, moved, heard, clean, whole⟩ := brought.settle (by omega) late
    (fun look member => by have := settling look member; omega)
    (show last + 10 * decoder.period < final by omega) (by omega)
  refine ⟨.progress :: findings, moved, ?_, by simpa using clean, ?_⟩
  · rw [List.append_assoc, hear_append, heardEarly, heard]
    rfl
  · rw [completions_progress, whole, pending, if_pos (by omega)]
    rfl

/-- A message comes through, whatever its edges and the looks at the clock do within
their bounds: nothing is taken for noise, and the ring gets the first bytes that fit. -/
theorem observe_sighted_message {reset start last final : Int} {data : List UInt8}
    {sights : List Sight} (decoder : Decoder) (bytes : ByteRing) (early late : List Int)
    (sent : data ≠ []) (wide : 6 ≤ decoder.period) (narrow : decoder.period ≤ 2 ^ 26)
    (empty : bytes.toList = []) (fresh : reset ≤ start) (recent : start - reset < 2 ^ 29)
    (waiting : ∀ look ∈ early, reset ≤ look ∧ look ≤ start)
    (sighted : Sighted (decoder.period / 2 - 3) start
      (Plan.ofData data decoder.bitPeriod decoder.invert).holds sights last)
    (settling : ∀ look ∈ late, last < look ∧ look ≤ last + 2 ^ 30)
    (past : last + 11 * decoder.period ≤ final) (near : final ≤ last + 2 ^ 30) :
    let (outcomes, after, stored) :=
      (decoder.reset (Cycle.ofTime reset)).observe bytes
        ((early.map fun look => .look (Cycle.ofTime look)) ++ sights ++
          (late ++ [final]).map fun look => .look (Cycle.ofTime look))
    after.isIdle ∧ (∀ outcome ∈ outcomes, outcome.spurious = false) ∧
      stored.toList = data.take (bytes.capacity - 1) ∧
      (outcomes.map (·.stored)).sum = min data.length (bytes.capacity - 1) ∧
      (outcomes.map (·.dropped)).sum = data.length - min data.length (bytes.capacity - 1) := by
  obtain ⟨byte, rest, rfl⟩ := List.exists_cons_of_ne_nil sent
  obtain ⟨findings, moved, heard, clean, whole⟩ :=
    hear_message byte rest narrow wide (Int.le_refl _) early late fresh recent waiting sighted
      settling past near
  have nothing : bytes.size = 0 := by rw [← bytes.length_toList, empty, List.length_nil]
  obtain ⟨stored, dropped⟩ := bytes.counts_storeAll findings
  rw [whole, nothing, Nat.sub_zero] at stored dropped
  rw [observe_eq, heard]
  refine ⟨rfl, ?_, ?_, stored, by rw [dropped]; omega⟩
  · intro outcome member
    have marks := bytes.spurious_storeAll findings
    have listed : outcome.spurious ∈ findings.map (· == .spurious) := by
      rw [← marks]
      exact List.mem_map_of_mem member
    obtain ⟨finding, found, same⟩ := List.mem_map.mp listed
    rw [← same, beq_eq_false_iff_ne]
    intro noise
    exact clean (noise ▸ found)
  · rw [bytes.toList_storeAll, whole, empty, List.nil_append]

private theorem holds_pair :
    (Plan.ofData [0xFF, 0x00] (create 9 true).bitPeriod (create 9 true).invert).holds =
      [⟨true, 9⟩, ⟨false, 81⟩, ⟨true, 81⟩, ⟨false, 9⟩] := by
  repeat rw [Plan.holds_of_next? rfl]
  rw [Plan.holds_of_levels_nil rfl]
  rfl

/-- Two frames on an inverted line, at a turn of the counter, into a ring for one byte. -/
theorem observe_two_frames :
    let sights : List Sight :=
      [.edge (.ofLevel (Cycle.ofTime (-20)) true), .edge (.ofLevel (Cycle.ofTime (-12)) false),
        .look (Cycle.ofTime 60), .edge (.ofLevel (Cycle.ofTime 70) true),
        .edge (.ofLevel (Cycle.ofTime 150) false)]
    let (outcomes, after, stored) :=
      ((Decoder.create 9 true).reset (Cycle.ofTime (-50))).observe (Ring.empty 2 0)
        ([.look (Cycle.ofTime (-30))] ++ sights ++ [.look (Cycle.ofTime 249)])
    after.isIdle ∧ (∀ outcome ∈ outcomes, outcome.spurious = false) ∧ stored.toList = [0xFF] ∧
      (outcomes.map (·.stored)).sum = 1 ∧ (outcomes.map (·.dropped)).sum = 1 := by
  have fourth : Sighted 1 150 [⟨false, 9⟩] _ 150 := .last _ _
  have third := @Sighted.next 1 70 _ _ ⟨true, 81⟩ _ [] _ (by decide) (by decide) (by simp) fourth
  have second := @Sighted.next 1 (-12) _ _ ⟨false, 81⟩ _ [60] _ (by decide) (by decide)
    (by simp) third
  have first := @Sighted.next 1 (-20) _ _ ⟨true, 9⟩ _ [] _ (by decide) (by decide) (by simp)
    second
  exact @observe_sighted_message (-50) (-20) 150 249 [0xFF, 0x00] _ (Decoder.create 9 true)
    (Ring.empty 2 0) [-30] [] (by decide) (by decide) (by decide) rfl (by decide) (by decide)
    (by decide) (by rw [holds_pair]; exact first) (by decide) (by decide) (by decide)

end Decoder
end PinUart
