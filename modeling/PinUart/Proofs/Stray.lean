import PinUart.Proofs.Jitter

/-! A decoder that has missed a start edge. Whatever it takes for a start bit later lies
inside a frame, so that the frame looks shifted to it, and a shifted frame never carries
the byte of the frame itself. -/
namespace PinUart

namespace Frame

/-- What a frame looks like from one of its later places on, with the line at mark after
its end. -/
def shifted (byte : UInt8) (offset : Nat) : UInt8 :=
  .ofBitVec (byte.toBitVec >>> offset ||| BitVec.allOnes 8 <<< (8 - offset))

theorem shifted_zero (byte : UInt8) : shifted byte 0 = byte := by
  simp [shifted]

theorem level_shifted (byte : UInt8) {offset : Nat} (inside : offset ≤ 8)
    (space : level byte offset = false) (place : Nat) :
    level (shifted byte offset) place = level byte (offset + place) := by
  cases place with
  | zero => rw [level_start, Nat.add_zero, space]
  | succ place =>
    by_cases data : place < 8
    · rw [level_data _ data]
      change (byte.toBitVec >>> offset ||| BitVec.allOnes 8 <<< (8 - offset)).getLsbD place = _
      rw [BitVec.getLsbD_or, BitVec.getLsbD_ushiftRight, BitVec.getLsbD_shiftLeft]
      by_cases own : offset + place < 8
      · rw [← Nat.add_assoc, level_data byte own, decide_eq_true (show place < 8 - offset by omega)]
        simp
      · rw [level_stop byte (by omega), BitVec.getLsbD_of_ge _ _ (by omega),
          BitVec.getLsbD_allOnes]
        simp [show ¬ place < 8 - offset by omega, show place - (8 - offset) < 8 by omega, data]
    · rw [level_stop _ (by omega), level_stop _ (by omega)]

/-- A shifted frame carries another byte: else the space level at its start would come
back after every shift, also where the line is at mark for good. -/
theorem shifted_ne (byte : UInt8) {offset : Nat} (later : 1 ≤ offset) (inside : offset ≤ 8)
    (space : level byte offset = false) : shifted byte offset ≠ byte := by
  intro same
  have back : ∀ count, level byte (count * offset) = false := by
    intro count
    induction count with
    | zero => rw [Nat.zero_mul, level_start]
    | succ count ih =>
      rw [Nat.succ_mul, Nat.add_comm, ← level_shifted byte inside space, same]
      exact ih
  have stop := level_stop byte (show 9 ≤ 9 * offset by omega)
  rw [back 9] at stop
  cases stop

end Frame

namespace Decoder

variable {decoder : Decoder} {byte : UInt8} {place : Nat}

/-- What is seen of a frame after the edge at one of its places, up to its last edge, when
every edge comes at its exact time. -/
inductive Traced (decoder : Decoder) (byte : UInt8) : Nat → Int → List Sight → Nat → Int → Prop where
  | last {place : Nat} {time : Int} (inside : place ≤ 9) (steady : Steady byte place (10 - place)) :
      Traced decoder byte place time [] place time
  | next {place run lastPlace : Nat} {time lastTime : Int} {looks : List Int} {sights : List Sight}
      (positive : 0 < run) (inside : place + run ≤ 9) (steady : Steady byte place run)
      (between : ∀ look ∈ looks, time < look ∧ look ≤ time + run * decoder.period)
      (later : Traced decoder byte (place + run) (time + run * decoder.period) sights
        lastPlace lastTime) :
      Traced decoder byte place time
        ((looks.map fun look => .look (Cycle.ofTime look)) ++
          .edge (.ofLevel (Cycle.ofTime (time + run * decoder.period))
            (decoder.driven byte (place + run))) :: sights)
        lastPlace lastTime

theorem Traced.ended {time lastTime : Int} {sights : List Sight} {lastPlace : Nat}
    (traced : Traced decoder byte place time sights lastPlace lastTime) :
    place ≤ lastPlace ∧ lastPlace ≤ 9 ∧ Steady byte lastPlace (10 - lastPlace) ∧
      lastTime = time + (lastPlace - place) * decoder.period := by
  induction traced with
  | last inside steady => exact ⟨Nat.le_refl _, inside, steady, by simp⟩
  | @next place run lastPlace time lastTime looks sights positive inside steady between later ih =>
    obtain ⟨order, ended, resting, passed⟩ := ih
    refine ⟨by omega, ended, resting, ?_⟩
    rw [passed]
    push_cast
    grind

/-- The sights of a frame whose holds are kept exactly. -/
theorem traced_of_sighted {time lastTime : Int} {holds : List Hold} {sights : List Sight}
    (narrow : decoder.period ≤ 2 ^ 26) (sighted : Sighted 0 time holds sights lastTime)
    (inside : place ≤ 9)
    (planned : holds = (Plan.ofPlace byte place [] decoder.bitPeriod decoder.invert).holds) :
    ∃ later lastPlace,
      sights = .edge (.ofLevel (Cycle.ofTime time) (decoder.driven byte place)) :: later ∧
        Traced decoder byte place time later lastPlace lastTime := by
  have fits : 10 * decoder.bitPeriod.toNat < 2 ^ 32 := by
    unfold period at narrow
    omega
  induction sighted generalizing place with
  | last time hold =>
    obtain ⟨run, positive, within, -, high, steady, -, ended⟩ :=
      Plan.holds_ofPlace inside fits planned.symm
    have past : place + run = 10 := by
      apply Nat.le_antisymm within
      apply Nat.le_of_not_lt
      intro more
      exact Plan.holds_ofPlace_ne_nil (by omega) ended.symm
    rw [high]
    refine ⟨[], place, rfl, .last inside ?_⟩
    rw [show 10 - place = run by omega]
    exact steady
  | @next time next final hold holds looks sights soonest latest between later ih =>
    obtain ⟨run, positive, within, cycles, high, steady, -, left⟩ :=
      Plan.holds_ofPlace inside fits planned.symm
    have lasting : (hold.cycles.toNat : Int) = run * decoder.period := by
      rw [cycles, Int.natCast_mul]
      rfl
    have more : place + run ≤ 9 := by
      apply Nat.le_of_lt_succ
      apply Nat.lt_of_le_of_ne within
      intro past
      rw [past, Plan.holds_ofPlace_ended] at left
      subst left
      cases later
    have exact : next = time + run * decoder.period := by omega
    obtain ⟨sights, lastPlace, rfl, traced⟩ := ih more left
    subst exact
    rw [high]
    exact ⟨_, lastPlace, rfl, .next positive more steady between traced⟩

theorem steady_shifted {offset run : Nat} (before : offset ≤ place) (inside : offset ≤ 8)
    (space : Frame.level byte offset = false) (steady : Steady byte place run) :
    Steady (Frame.shifted byte offset) (place - offset) run := by
  intro later after within
  rw [Frame.level_shifted byte inside space, Frame.level_shifted byte inside space,
    show offset + (place - offset) = place by omega]
  exact steady _ (by omega) (by omega)

theorem driven_shifted {offset : Nat} (before : offset ≤ place) (inside : offset ≤ 8)
    (space : Frame.level byte offset = false) :
    decoder.driven (Frame.shifted byte offset) (place - offset) = decoder.driven byte place := by
  rw [driven, driven, Frame.level_shifted byte inside space,
    show offset + (place - offset) = place by omega]

/-- From the place that the decoder took for a start bit, it follows the shifted frame. -/
theorem hear_traced {time lastTime : Int} {sights : List Sight} {lastPlace offset : Nat}
    (narrow : decoder.period ≤ 2 ^ 26) (wide : 6 ≤ decoder.period)
    (traced : Traced decoder byte place time sights lastPlace lastTime) (before : offset ≤ place)
    (inside : offset ≤ 8) (space : Frame.level byte offset = false) :
    ∃ findings,
      (decoder.standing (Frame.shifted byte offset) (place - offset)
          (Edge.noted time (decoder.driven byte place))).hear sights =
        (findings, decoder.standing (Frame.shifted byte offset) (lastPlace - offset)
          (Edge.noted lastTime (decoder.driven byte lastPlace))) ∧
      completions findings ++ pending (Frame.shifted byte offset) (lastPlace - offset) =
        pending (Frame.shifted byte offset) (place - offset) := by
  induction traced with
  | last inside steady => exact ⟨[], rfl, rfl⟩
  | @next place run lastPlace time lastTime looks sights positive within steady between later ih =>
    have onward : place + run - offset = place - offset + run := by omega
    have positive' := decoder.period_pos
    have early : ∀ look ∈ looks, Edge.noted time (decoder.driven byte place) ≤ look ∧
        look < decoder.dueTime (place - offset) (Edge.noted time (decoder.driven byte place)) := by
      intro look member
      have := between look member
      have := Edge.le_noted time (decoder.driven byte place)
      have := Edge.noted_le time (decoder.driven byte place)
      have split : ((run : Int) + 2) * decoder.period = run * decoder.period + 2 * decoder.period := by
        grind
      have room : ((run : Int) + 2) * decoder.period ≤
          (11 - (place - offset : Nat)) * decoder.period :=
        Int.mul_le_mul_of_nonneg_right (by omega) (by omega)
      unfold dueTime
      omega
    have quiet := hear_looks_early (Frame.shifted byte offset) looks (by omega) (by omega) early
    have sensed := @sense_within decoder (Frame.shifted byte offset) (place - offset) time _ 0 run narrow
      (by omega) positive (by omega)
      (steady_shifted before inside space steady)
      (show run * decoder.period - 0 ≤ time + run * decoder.period - time by omega) (by omega)
    rw [← onward, driven_shifted before inside space,
      driven_shifted (show offset ≤ place + run by omega) inside space] at sensed
    obtain ⟨findings, heard, whole⟩ := ih (by omega)
    rw [hear_append, quiet]
    simp only [hear, sensed, heard, List.nil_append]
    refine ⟨_, rfl, ?_⟩
    have unfinished : pending (Frame.shifted byte offset) (place - offset) =
        [Frame.shifted byte offset] := if_pos (by omega)
    rw [unfinished]
    exact completions_reaching (by omega) (whole.trans (List.append_nil _).symm)

/-- A frame that the decoder has started with brings its byte, or is owed no more than its
stop bit. -/
theorem hear_frame {time lastTime : Int} {sights : List Sight} {lastPlace : Nat}
    (narrow : decoder.period ≤ 2 ^ 26) (wide : 6 ≤ decoder.period)
    (traced : Traced decoder byte 0 time sights lastPlace lastTime) :
    ∃ findings,
      (decoder.standing byte 0 (Edge.noted time (decoder.driven byte 0))).hear sights =
        (findings, decoder.standing byte lastPlace
          (Edge.noted lastTime (decoder.driven byte lastPlace))) ∧
      completions findings ++ pending byte lastPlace = [byte] := by
  have followed := hear_traced narrow wide traced (Nat.le_refl 0) (by omega) (Frame.level_start byte)
  rw [Frame.shifted_zero] at followed
  exact followed

/-! What an edge can do to a decoder whose times say nothing about it. -/

/-- The decoder in the middle of some frame. -/
def receiving (decoder : Decoder) (count : Fin 9) (register : BitVec 8) (since : Int) : Decoder :=
  { decoder with phase := .receiving count, register, last := Cycle.ofTime since }

@[simp] theorem invert_receiving (decoder : Decoder) (count : Fin 9) (register : BitVec 8)
    (since : Int) : (decoder.receiving count register since).invert = decoder.invert := rfl

/-- What an edge leads to when it starts a frame if it can. -/
def started (decoder : Decoder) (mark : Bool) (since : Int) : Decoder :=
  if mark then decoder.resting since else decoder.standing 0 0 since

/-- A decoder at rest leaves an edge out, or lets it start a frame. -/
theorem sense_resting_cases (decoder : Decoder) (since time : Int) (high : Bool) :
    (decoder.resting since).sense (.ofLevel (Cycle.ofTime time) high) =
        (decoder.resting since, .spurious) ∨
      (decoder.resting since).sense (.ofLevel (Cycle.ofTime time) high) =
        (decoder.started (high ^^ decoder.invert) (Edge.noted time high), .progress) := by
  rw [sense, Edge.timestamp_ofLevel]
  split
  · exact .inl rfl
  · right
    rw [Edge.mark, Edge.high_ofLevel]
    exact account_resting _ _

/-- The frame is over, and the level counts as the start of the next one or not. -/
private theorem complete_receiving (decoder : Decoder) (short : decoder.period < 2 ^ 31)
    (count : Fin 9) (register : BitVec 8) (since left : Int) (mark : Bool) :
    ∃ rests, (rests = mark ∨ rests = true) ∧
      (decoder.receiving count register since).complete register left mark =
        (decoder.started rests since, .completed (UInt8.ofBitVec register)) := by
  have signed : (decoder.receiving count register since).signedPeriod = decoder.period :=
    signedPeriod_eq short
  rw [complete, signed]
  by_cases past : decoder.period ≤ left
  · refine ⟨mark, .inl rfl, ?_⟩
    rw [if_pos past]
    cases mark <;> simp [started, arm, receiving, resting, standing, loaded_start]
  · refine ⟨true, .inr rfl, ?_⟩
    rw [if_neg past]
    rfl

/-- In the middle of a frame an edge may also bring a bit, or the byte that repeats the
last bit to its end. -/
theorem sense_receiving_cases (decoder : Decoder) (short : decoder.period < 2 ^ 31)
    (count : Fin 9) (register : BitVec 8) (since time : Int) (high : Bool) :
    (decoder.receiving count register since).sense (.ofLevel (Cycle.ofTime time) high) =
        (decoder.receiving count register since, .spurious) ∨
      (∃ later more, (decoder.receiving count register since).sense
          (.ofLevel (Cycle.ofTime time) high) =
        (decoder.receiving later more (Edge.noted time high), .progress)) ∨
      ∃ rests, (rests = (high ^^ decoder.invert) ∨ rests = true) ∧
        (decoder.receiving count register since).sense (.ofLevel (Cycle.ofTime time) high) =
          (decoder.started rests (Edge.noted time high),
            .completed (UInt8.ofBitVec (repeatLast register (8 - count.val)))) := by
  have positive := decoder.period_pos
  have signed : (decoder.receiving count register (Edge.noted time high)).signedPeriod =
      decoder.period := signedPeriod_eq short
  rw [sense, Edge.timestamp_ofLevel]
  split
  · exact .inl rfl
  · right
    rw [Edge.mark, Edge.high_ofLevel]
    change (∃ later more,
        (decoder.receiving count register (Edge.noted time high)).account _ _ = _) ∨
      ∃ rests, _ ∧ (decoder.receiving count register (Edge.noted time high)).account _ _ = _
    unfold account
    simp only [signed, show (decoder.receiving count register (Edge.noted time high)).phase =
      .receiving count from rfl, if_neg (show ¬ decoder.period < 0 by omega)]
    split
    · exact .inl ⟨_, _, rfl⟩
    · right
      have completed := complete_receiving decoder short count
        (repeatLast register (8 - count.val)) (Edge.noted time high)
      exact completed _ _

/-- Between frames, or in the middle of one, wherever that may be. -/
def Resting (decoder state : Decoder) : Prop := ∃ since, state = decoder.resting since

def Receiving (decoder state : Decoder) : Prop :=
  ∃ count register since, state = decoder.receiving count register since

theorem receiving_standing (byte : UInt8) (since : Int) (inside : place < 9) :
    Receiving decoder (decoder.standing byte place since) :=
  ⟨⟨place, inside⟩, loaded byte place, since, by simp [standing, receiving, inside]⟩

/-- What a stop bit owes is an edge to mark. -/
theorem owedEdge?_mark {now : Cycle} {edge : Edge} (owed : decoder.owedEdge? now = some edge) :
    ∃ time, edge = .ofLevel (Cycle.ofTime time) (true ^^ decoder.invert) := by
  unfold owedEdge? at owed
  split at owed
  · cases owed
  · dsimp only at owed
    split at owed
    · cases owed
    · split at owed
      · cases owed
      · rw [← Option.some.inj owed]
        exact ⟨_, by rw [Cycle.ofTime_toNat]; rfl⟩

/-- A look moves no more than the reference of a decoder at rest. -/
theorem resting_keepReach (decoder : Decoder) (since now : Int) :
    ∃ moved, (decoder.resting since).keepReach (Cycle.ofTime now) = decoder.resting moved := by
  rcases keepReach_resting decoder since now with same | trailing
  · exact ⟨_, same⟩
  · exact ⟨_, trailing⟩

/-- Looks let a frame go on, or close it with some byte. -/
theorem hear_looks_receiving (short : decoder.period < 2 ^ 31) {state : Decoder}
    (busy : Receiving decoder state) (looks : List Int) :
    (completions (state.hear (looks.map fun look => .look (Cycle.ofTime look))).1 = [] ∧
        Receiving decoder (state.hear (looks.map fun look => .look (Cycle.ofTime look))).2) ∨
      ∃ byte, completions (state.hear (looks.map fun look => .look (Cycle.ofTime look))).1 = [byte] ∧
        Resting decoder (state.hear (looks.map fun look => .look (Cycle.ofTime look))).2 := by
  induction looks generalizing state with
  | nil => exact .inl ⟨rfl, busy⟩
  | cons look looks ih =>
    obtain ⟨count, register, since, rfl⟩ := busy
    simp only [List.map_cons, hear]
    split
    · exact ih ⟨count, register, since, rfl⟩
    · rename_i edge owed
      obtain ⟨time, rfl⟩ := owedEdge?_mark owed
      rcases decoder.sense_receiving_cases short count register since time
        (true ^^ decoder.invert) with same | ⟨later, more, sensed⟩ | ⟨rests, mark, sensed⟩
      · simp only [invert_receiving, same, completions_spurious]
        exact ih ⟨count, register, since, rfl⟩
      · simp only [invert_receiving, sensed, completions_progress]
        exact ih ⟨later, more, _, rfl⟩
      · right
        have atMark : rests = true := by
          rcases mark with level | stop
          · simpa using level
          · exact stop
        subst atMark
        simp only [invert_receiving, sensed, completions_completed]
        obtain ⟨moved, kept⟩ := resting_keepReach decoder
          (Edge.noted time (true ^^ decoder.invert)) look
        obtain ⟨later, heard, -⟩ := hear_looks_resting decoder moved looks
        rw [show decoder.started true (Edge.noted time (true ^^ decoder.invert)) =
          decoder.resting (Edge.noted time (true ^^ decoder.invert)) from rfl, kept, heard]
        exact ⟨_, rfl, later, rfl⟩

/-! The rest of a frame, for a decoder that has not started with it. -/

/-- When a frame is over, the decoder is at rest, or has started inside the frame and
follows the shifted one. -/
def Missed (decoder : Decoder) (byte : UInt8) (lastPlace : Nat) (lastTime : Int)
    (state : Decoder) : Prop :=
  Resting decoder state ∨
    ∃ offset, 1 ≤ offset ∧ offset < lastPlace ∧ Frame.level byte offset = false ∧
      state = decoder.standing (Frame.shifted byte offset) (lastPlace - offset)
        (Edge.noted lastTime (decoder.driven byte lastPlace))

variable {time lastTime : Int} {sights : List Sight} {lastPlace : Nat}

/-- An edge inside the frame starts the shifted one, or leaves the decoder at rest. -/
private theorem missed_started (narrow : decoder.period ≤ 2 ^ 26) (wide : 6 ≤ decoder.period)
    (traced : Traced decoder byte place time sights lastPlace lastTime) (inner : 1 ≤ place)
    (rested : ∀ since, completions ((decoder.resting since).hear sights).1 = [] ∧
      Missed decoder byte lastPlace lastTime ((decoder.resting since).hear sights).2)
    {rests : Bool} (level : rests = Frame.level byte place ∨ rests = true) {state : Decoder}
    (same : state = decoder.started rests (Edge.noted time (decoder.driven byte place))) :
    completions (state.hear sights).1 = [] ∧
      Missed decoder byte lastPlace lastTime (state.hear sights).2 := by
  subst same
  cases rests with
  | true => exact rested _
  | false =>
    have space : Frame.level byte place = false := by
      rcases level with same | stop
      · exact same.symm
      · cases stop
    obtain ⟨order, inside, steady, -⟩ := traced.ended
    have proper : place ≠ lastPlace := by
      rintro rfl
      have stop := steady 9 inside (by omega)
      rw [space, Frame.level_stop byte (by omega)] at stop
      cases stop
    obtain ⟨findings, heard, whole⟩ := hear_traced narrow wide traced (Nat.le_refl _) (by omega) space
    have begun : decoder.started false (Edge.noted time (decoder.driven byte place)) =
        decoder.standing (Frame.shifted byte place) (place - place)
          (Edge.noted time (decoder.driven byte place)) := by
      rw [Nat.sub_self]
      exact standing_start 0 _
    rw [begun, heard]
    refine ⟨?_, .inr ⟨place, inner, by omega, space, rfl⟩⟩
    rw [pending, if_pos (by omega), pending, if_pos (by omega)] at whole
    simpa using whole

/-- At rest, the rest of a frame brings no byte. -/
theorem missed_resting (narrow : decoder.period ≤ 2 ^ 26) (wide : 6 ≤ decoder.period)
    (traced : Traced decoder byte place time sights lastPlace lastTime) (since : Int) :
    completions ((decoder.resting since).hear sights).1 = [] ∧
      Missed decoder byte lastPlace lastTime ((decoder.resting since).hear sights).2 := by
  induction traced generalizing since with
  | last inside steady => exact ⟨rfl, .inl ⟨since, rfl⟩⟩
  | @next place run lastPlace time lastTime looks sights positive inside steady between later ih =>
    obtain ⟨moved, looked, -⟩ := hear_looks_resting decoder since looks
    rw [hear_append, looked]
    rcases decoder.sense_resting_cases moved (time + run * decoder.period)
      (decoder.driven byte (place + run)) with same | sensed
    · simp only [hear, same]
      exact ih moved
    · simp only [hear, sensed]
      exact missed_started narrow wide later (by omega) ih (.inl (driven_xor_invert ..)) rfl

/-- In the middle of a frame, the decoder goes on with that, or closes it with some byte. -/
theorem missed_receiving (narrow : decoder.period ≤ 2 ^ 26) (wide : 6 ≤ decoder.period)
    (traced : Traced decoder byte place time sights lastPlace lastTime) {state : Decoder}
    (busy : Receiving decoder state) :
    (completions (state.hear sights).1 = [] ∧ Receiving decoder (state.hear sights).2) ∨
      ∃ other, completions (state.hear sights).1 = [other] ∧
        Missed decoder byte lastPlace lastTime (state.hear sights).2 := by
  induction traced generalizing state with
  | last inside steady => exact .inl ⟨rfl, busy⟩
  | @next place run lastPlace time lastTime looks sights positive inside steady between later ih =>
    have level := decoder.driven_xor_invert byte (place + run)
    have rested := missed_resting narrow wide later
    rw [hear_append]
    simp only [completions_append]
    rcases hear_looks_receiving (by omega) busy looks with ⟨silent, count, register, since, still⟩ |
      ⟨other, closed, moved, quiet⟩
    · rw [silent, still]
      rcases decoder.sense_receiving_cases (by omega) count register since
        (time + run * decoder.period) (decoder.driven byte (place + run)) with
        same | ⟨next, more, sensed⟩ | ⟨rests, mark, sensed⟩
      · simp only [hear, same]
        exact ih ⟨count, register, since, rfl⟩
      · simp only [hear, sensed]
        exact ih ⟨next, more, _, rfl⟩
      · simp only [hear, sensed]
        rw [level] at mark
        obtain ⟨nothing, missed⟩ := missed_started narrow wide later (by omega) rested mark rfl
        exact .inr ⟨_, congrArg (_ :: ·) nothing, missed⟩
    · rw [closed, quiet]
      right
      rcases decoder.sense_resting_cases moved (time + run * decoder.period)
        (decoder.driven byte (place + run)) with same | sensed
      · simp only [hear, same]
        obtain ⟨nothing, missed⟩ := rested moved
        exact ⟨other, congrArg (other :: ·) nothing, missed⟩
      · simp only [hear, sensed]
        obtain ⟨nothing, missed⟩ := missed_started narrow wide later (by omega) rested (.inl level) rfl
        exact ⟨other, congrArg (other :: ·) nothing, missed⟩

end Decoder
end PinUart
