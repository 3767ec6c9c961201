import PinUart.Proofs.Jitter

/-! How a decoder finds its way back into a message. Whatever it has been through, an edge to
space that comes after the length of a frame starts a new one: no bit of an interrupted frame
is left over, and at most one byte of it comes out. -/
namespace PinUart.Decoder

/-- What a decoder may be put through: edges at any times, stop edges that it is supplied with
once they are due, and whatever else its owner does to it. -/
inductive Treatment
  | decode (edge : Edge) (bytes : ByteRing)
  | supply (now : Cycle) (bytes : ByteRing)
  | reset (now : Cycle)
  | keepReach (now : Cycle)
  | withPeriod (bitPeriod : UInt32)

def treat (decoder : Decoder) : Treatment → Decoder
  | .decode edge bytes => (decoder.decode edge bytes).2.1
  | .supply now bytes =>
    match decoder.owedEdge? now with
    | none => decoder
    | some edge => (decoder.decode edge bytes).2.1
  | .reset now => decoder.reset now
  | .keepReach now => decoder.keepReach now
  | .withPeriod bitPeriod => decoder.withPeriod bitPeriod

def treatAll (decoder : Decoder) (treatments : List Treatment) : Decoder :=
  treatments.foldl treat decoder

variable {decoder : Decoder}

/-- Nothing is left of a frame once it is over. -/
def Blank (decoder : Decoder) : Prop := decoder.phase = .idle → decoder.register = 0

theorem blank_complete (decoder : Decoder) (register : BitVec 8) (left : Int) (mark : Bool) :
    (decoder.complete register left mark).1.Blank := fun _ => rfl

/-- A frame that goes on is none that is over, and one that ends empties the register. -/
theorem Blank.account (blank : decoder.Blank) (elapsed : Int) (mark : Bool) :
    (decoder.account elapsed mark).1.Blank := by
  unfold Decoder.account
  split
  · rename_i idle
    exact fun _ => blank idle
  · dsimp only
    split
    · exact blank_complete _ _ _ _
    · split
      · intro idle
        cases idle
      · exact blank_complete _ _ _ _

theorem Blank.sense (blank : decoder.Blank) (edge : Edge) : (decoder.sense edge).1.Blank := by
  unfold Decoder.sense
  dsimp only
  split
  · exact blank
  · have timed : { decoder with last := edge.timestamp }.Blank := blank
    exact timed.account _ _

theorem Blank.decode (blank : decoder.Blank) (edge : Edge) (bytes : ByteRing) :
    (decoder.decode edge bytes).2.1.Blank := by
  rw [decode_eq]
  exact blank.sense edge

theorem Blank.treat (blank : decoder.Blank) (treatment : Treatment) :
    (decoder.treat treatment).Blank := by
  cases treatment with
  | decode edge bytes => exact blank.decode edge bytes
  | supply now bytes =>
    rw [Decoder.treat]
    split
    · exact blank
    · exact blank.decode _ bytes
  | reset now => exact fun _ => rfl
  | keepReach now =>
    rw [Decoder.treat, Decoder.keepReach]
    split
    · exact blank
    · exact blank
  | withPeriod bitPeriod => exact blank

theorem Blank.treatAll (blank : decoder.Blank) (treatments : List Treatment) :
    (decoder.treatAll treatments).Blank := by
  induction treatments generalizing decoder with
  | nil => exact blank
  | cons treatment treatments ih => exact ih (blank.treat treatment)

theorem blank_create (bitPeriod : UInt32) (invert : Bool) : (create bitPeriod invert).Blank :=
  fun _ => rfl

/-- A decoder that has just seen a start edge. -/
def begun (decoder : Decoder) (last : Cycle) : Decoder :=
  { decoder with phase := arm false, register := 0, last }

theorem begun_eq_standing (decoder : Decoder) (byte : UInt8) (time : Int) :
    decoder.begun (Cycle.ofTime time) = decoder.standing byte 0 time := by
  rw [standing, loaded_start]
  rfl

/-- A space level that has lasted until after the end of any frame starts one. The byte of a
frame that was going on comes out. -/
theorem account_overdue {elapsed : Int} (blank : decoder.Blank) (short : decoder.period < 2 ^ 31)
    (overdue : 9 * decoder.period ≤ elapsed) :
    ∃ finding, decoder.account elapsed false = (decoder.begun decoder.last, finding) ∧
      .spurious ≠ finding ∧
      (completions [finding]).length = if decoder.isIdle then 0 else 1 := by
  have positive := decoder.period_pos
  have signed := signedPeriod_eq short
  unfold account
  cases phase : decoder.phase with
  | idle =>
    refine ⟨.progress, ?_, by simp, by simp [isIdle, phase]⟩
    rw [begun, ← blank phase]
  | receiving count =>
    have inside : ((8 - count.val : Nat) : Int) * decoder.period ≤ 8 * decoder.period :=
      Int.mul_le_mul_of_nonneg_right (by omega) (by omega)
    have frames : 9 ≤ elapsed / decoder.signedPeriod := by
      rw [signed]
      exact (Int.le_ediv_iff_mul_le positive).mpr overdue
    dsimp only
    rw [if_neg (by omega), dif_neg (by omega), complete, signed, if_pos (by omega)]
    exact ⟨_, rfl, by simp, by simp [isIdle, phase]⟩

/-- An edge to space that is overdue is taken for a start edge in whatever state the decoder
is. -/
theorem sense_overdue {edge : Edge} (blank : decoder.Blank) (narrow : decoder.period ≤ 2 ^ 26)
    (space : edge.mark decoder.invert = false)
    (overdue : 9 * decoder.period + decoder.period / 2 ≤ (edge.timestamp - decoder.last).toNat)
    (near : (edge.timestamp - decoder.last).toNat < 2 ^ 31) :
    ∃ finding, decoder.sense edge = (decoder.begun edge.timestamp, finding) ∧
      .spurious ≠ finding ∧
      (completions [finding]).length = if decoder.isIdle then 0 else 1 := by
  have positive := decoder.period_pos
  have stamp := Cycle.eq_ofTime_add_sub decoder.last edge.timestamp
  rw [sense_due (by omega) (Cycle.ofTime_toNat decoder.last).symm stamp (by omega) (by omega),
    space, ← stamp]
  have timed : { decoder with last := edge.timestamp }.Blank := blank
  exact account_overdue timed (show decoder.period < 2 ^ 31 by omega)
    (show 9 * decoder.period ≤ _ by omega)

/-- The rest of a message comes in after its first start edge, whatever state the decoder was
in before. -/
theorem hear_resumed {before : Decoder} {slack start last final : Int} {data : List UInt8}
    {sights : List Sight} {finding : Finding} (narrow : decoder.period ≤ 2 ^ 26)
    (wide : 6 ≤ decoder.period) (tolerated : slack ≤ decoder.period / 2 - 3)
    (sighted : Sighted slack start (Plan.ofData data decoder.bitPeriod decoder.invert).holds
      sights last)
    (taken : before.sense (.ofLevel (Cycle.ofTime start) decoder.invert) =
      (decoder.begun (Cycle.ofTime (Edge.noted start decoder.invert)), finding))
    (past : last + 10 * decoder.period < final) (near : final < last + 2 ^ 31) :
    ∃ findings moved, before.hear (sights ++ [.look (Cycle.ofTime final)]) =
        (finding :: findings, decoder.resting moved) ∧
      completions findings = data := by
  cases data with
  | nil =>
    rw [Plan.ofData, messageLevels_nil, Plan.holds_of_levels_nil rfl] at sighted
    cases sighted
  | cons byte rest =>
    have level : decoder.driven byte 0 = decoder.invert := by
      rw [driven, Frame.level_start, Bool.false_xor]
    rw [begun_eq_standing decoder byte, ← level] at taken
    rw [Plan.ofData_cons] at sighted
    obtain ⟨findings, moved, heard, -, whole⟩ :=
      (hear_sighted narrow wide tolerated sighted (by omega) rfl taken).settle (by omega) [] (by simp)
        past near
    refine ⟨findings, moved, heard, ?_⟩
    rw [whole, pending, if_pos (by omega)]
    rfl

/-- The first thing that is seen of holds is the edge to their first level. -/
theorem edge_of_sighted {slack time final : Int} {holds : List Hold} {sights : List Sight}
    {edge : Edge} (sighted : Sighted slack time holds sights final)
    (first : sights.head? = some (.edge edge)) :
    ∃ high, edge = .ofLevel (Cycle.ofTime time) high := by
  cases sighted with
  | last time hold =>
    cases first
    exact ⟨hold.high, rfl⟩
  | next =>
    cases first
    exact ⟨_, rfl⟩

/-- A decoder that has been through anything takes an edge to space that comes after the length
of a frame for a start edge. If that is the first edge of a message, then the ring gets what
the interrupted frame leaves, at most one byte, and after it the message. -/
theorem treated_resynchronises {bitPeriod : UInt32} {invert : Bool} {treatments : List Treatment}
    {decoder : Decoder} {edge : Edge}
    (treated : decoder = (create bitPeriod invert).treatAll treatments)
    (wide : 6 ≤ decoder.period) (narrow : decoder.period ≤ 2 ^ 26)
    (space : edge.mark decoder.invert = false)
    (overdue : 9 * decoder.period + decoder.period / 2 ≤ (edge.timestamp - decoder.last).toNat)
    (near : (edge.timestamp - decoder.last).toNat < 2 ^ 31) (bytes : ByteRing) :
    (let (outcome, after, _) := decoder.decode edge bytes;
      outcome.spurious = false ∧
        outcome.stored + outcome.dropped = (if decoder.isIdle then 0 else 1) ∧
        after.phase = .receiving 0 ∧ after.register = 0) ∧
      ∀ start last final data sights,
        Sighted (decoder.period / 2 - 3) start
          (Plan.ofData data decoder.bitPeriod decoder.invert).holds sights last →
        sights.head? = some (.edge edge) →
        last + 10 * decoder.period < final → final < last + 2 ^ 31 →
        bytes.size + (if decoder.isIdle then 0 else 1) + data.length < bytes.capacity →
        let (_, after, stored) := decoder.observe bytes (sights ++ [.look (Cycle.ofTime final)]);
        after.isIdle ∧ ∃ stray, stray.length = (if decoder.isIdle then 0 else 1) ∧
          (decoder.decode edge bytes).2.2.toList = bytes.toList ++ stray ∧
          stored.toList = bytes.toList ++ stray ++ data := by
  have blank : decoder.Blank := by
    rw [treated]
    exact (blank_create bitPeriod invert).treatAll treatments
  obtain ⟨finding, taken, clean, stray⟩ := sense_overdue blank narrow space overdue near
  rw [decode_eq, taken]
  constructor
  · refine ⟨?_, ?_, rfl, rfl⟩
    · cases finding with
      | spurious => exact absurd rfl clean
      | progress => rfl
      | completed byte =>
        rw [ByteRing.store_completed]
        split <;> rfl
    · rw [← stray]
      cases finding with
      | spurious => exact absurd rfl clean
      | progress => rfl
      | completed byte =>
        rw [ByteRing.store_completed]
        split <;> rfl
  · intro start last final data sights sighted first past soon room
    obtain ⟨high, rfl⟩ := edge_of_sighted sighted first
    have level : high = decoder.invert := by
      rw [Edge.mark, Edge.high_ofLevel] at space
      simpa using space
    rw [level, Edge.timestamp_ofLevel] at taken
    obtain ⟨findings, moved, heard, whole⟩ :=
      hear_resumed narrow wide (Int.le_refl _) sighted taken past soon
    have fits : (bytes.toList ++ completions [finding] ++ data).length ≤ bytes.capacity - 1 := by
      rw [List.length_append, List.length_append, stray, Ring.length_toList]
      omega
    rw [observe_eq, heard]
    refine ⟨rfl, completions [finding], stray, ?_, ?_⟩
    · have held := bytes.toList_storeAll [finding]
      rw [List.take_of_length_le (by rw [List.length_append] at fits; omega)] at held
      exact held
    · rw [bytes.toList_storeAll, completions_cons, whole, ← List.append_assoc,
        List.take_of_length_le fits]

/-- A start edge and a rise in the middle of a frame, then noise, and nothing more. -/
def interruption : List Treatment :=
  [.reset 0, .decode (.ofLevel 1000 false) (Ring.empty 2 0),
    .decode (.ofLevel 1300 true) (Ring.empty 2 0), .decode (.ofLevel 1310 false) (Ring.empty 2 0)]

private theorem holds_full : (Plan.ofData [0xFF] 100 false).holds = [⟨false, 100⟩, ⟨true, 900⟩] := by
  repeat rw [Plan.holds_of_next? rfl]
  rw [Plan.holds_of_levels_nil rfl]
  rfl

/-- The frame that was interrupted leaves a byte, and the next message comes in whole. -/
theorem interrupted_resynchronises :
    let decoder := (create 100 false).treatAll interruption
    let sights : List Sight := [.edge (.ofLevel 2300 false), .edge (.ofLevel 2400 true)]
    let (_, after, stored) := decoder.observe (Ring.empty 8 0) (sights ++ [.look 3500])
    decoder.phase ≠ .idle ∧ decoder.register ≠ 0 ∧ after.isIdle ∧
      ∃ stray, stray.length = 1 ∧ stored.toList = stray ++ [0xFF] := by
  have second : Sighted 47 2400 [⟨true, 900⟩] _ 2400 := .last _ _
  have first := @Sighted.next 47 2300 _ _ ⟨false, 100⟩ _ [] _ (by decide) (by decide) (by simp)
    second
  rw [← holds_full] at first
  have resumed := (@treated_resynchronises 100 false interruption _ (.ofLevel 2300 false) rfl
    (by decide) (by decide) (by decide) (by decide) (by decide) (Ring.empty 8 0)).2
  obtain ⟨idle, stray, one, -, whole⟩ :=
    resumed 2300 2400 3500 [0xFF] _ first rfl (by decide) (by decide) (by decide)
  exact ⟨by decide, by decide, idle, stray, one, whole⟩

end PinUart.Decoder
