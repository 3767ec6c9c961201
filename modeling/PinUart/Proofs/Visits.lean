import PinUart.Proofs.Stray

/-! Frames with pauses between them, and looks at the clock at any time. A decoder never
brings more bytes than there were frames, and once it has missed a start edge it does not
get back to the bytes that were sent. -/
namespace PinUart

/-- One frame as it is seen: its edges from first to last with the looks between them, and
the looks in the pause that follows. -/
structure Visit where
  byte : UInt8
  start : Int
  last : Int
  sights : List Sight
  looks : List Int

namespace Visit

def shown (visit : Visit) : List Sight :=
  visit.sights ++ visit.looks.map fun look => .look (Cycle.ofTime look)

/-- The edges come exactly as the frame is planned, and no look in the pause comes sooner
than the last edge or the look before. -/
structure Exact (decoder : Decoder) (visit : Visit) : Prop where
  seen : Sighted 0 visit.start (Plan.ofData [visit.byte] decoder.bitPeriod decoder.invert).holds
    visit.sights visit.last
  after : ∀ look ∈ visit.looks, visit.last < look
  ordered : visit.looks.Pairwise (· ≤ ·)

/-- The looks in the pause come within half a turn of the counter. -/
def Near (visit : Visit) : Prop := ∀ look ∈ visit.looks, look < visit.last + 2 ^ 31

end Visit

namespace Decoder

variable {decoder state : Decoder} {visit : Visit} {visits : List Visit}

/-- How many bytes a decoder will bring for the edges it has taken: one in the middle of
a frame, and none at rest. -/
def Carries (decoder : Decoder) (load : Nat) (state : Decoder) : Prop :=
  load = 0 ∧ Resting decoder state ∨ load = 1 ∧ Receiving decoder state

theorem exists_carries_looks (short : decoder.period < 2 ^ 31) {load : Nat}
    (carries : Carries decoder load state) (looks : List Int) :
    ∃ rest, Carries decoder rest
        (state.hear (looks.map fun look => .look (Cycle.ofTime look))).2 ∧
      (completions (state.hear (looks.map fun look => .look (Cycle.ofTime look))).1).length + rest ≤
        load := by
  rcases carries with ⟨rfl, since, rfl⟩ | ⟨rfl, busy⟩
  · obtain ⟨moved, heard, -⟩ := hear_looks_resting decoder since looks
    rw [heard]
    exact ⟨0, .inl ⟨rfl, moved, rfl⟩, by simp⟩
  · rcases hear_looks_receiving short busy looks with ⟨silent, still⟩ | ⟨byte, closed, rested⟩
    · exact ⟨1, .inr ⟨rfl, still⟩, by rw [silent]; simp⟩
    · exact ⟨0, .inl ⟨rfl, rested⟩, by rw [closed]; simp⟩

variable {byte : UInt8} {time lastTime : Int} {sights : List Sight} {lastPlace : Nat}

theorem Missed.carries (inside : lastPlace ≤ 9) (missed : Missed decoder byte lastPlace lastTime state) :
    ∃ load, Carries decoder load state ∧ load ≤ 1 := by
  rcases missed with rested | ⟨offset, later, inner, -, rfl⟩
  · exact ⟨0, .inl ⟨rfl, rested⟩, by simp⟩
  · exact ⟨1, .inr ⟨rfl, receiving_standing _ _ (by omega)⟩, Nat.le_refl _⟩

/-- After an edge that starts a frame or not, the frame brings at most one byte, now or
later. -/
theorem exists_carries_started (narrow : decoder.period ≤ 2 ^ 26) (wide : 6 ≤ decoder.period)
    (traced : Traced decoder byte 0 time sights lastPlace lastTime) (rests : Bool) :
    ∃ rest, Carries decoder rest
        ((decoder.started rests (Edge.noted time (decoder.driven byte 0))).hear sights).2 ∧
      (completions
        ((decoder.started rests (Edge.noted time (decoder.driven byte 0))).hear sights).1).length +
          rest ≤ 1 := by
  obtain ⟨-, inside, -⟩ := traced.ended
  cases rests with
  | true =>
    obtain ⟨nothing, missed⟩ := missed_resting narrow wide traced
      (Edge.noted time (decoder.driven byte 0))
    obtain ⟨rest, carried, bound⟩ := missed.carries inside
    refine ⟨rest, carried, ?_⟩
    rw [show decoder.started true _ = decoder.resting _ from rfl, nothing]
    simpa using bound
  | false =>
    obtain ⟨findings, heard, whole⟩ := hear_frame narrow wide traced
    have begun : decoder.started false (Edge.noted time (decoder.driven byte 0)) =
        decoder.standing byte 0 (Edge.noted time (decoder.driven byte 0)) := standing_start 0 _
    have counted := congrArg List.length whole
    rw [begun, heard]
    by_cases closed : lastPlace = 9
    · subst closed
      exact ⟨0, .inl ⟨rfl, _, standing_stop⟩, Nat.le_of_eq (by simpa [pending] using counted)⟩
    · have unfinished : lastPlace < 9 := by omega
      refine ⟨1, .inr ⟨rfl, receiving_standing _ _ (by omega)⟩, ?_⟩
      simp [pending, unfinished] at counted
      simp [counted]

/-- A frame adds no more than one byte to those that a decoder brings. -/
theorem exists_carries_visit (narrow : decoder.period ≤ 2 ^ 26) (wide : 6 ≤ decoder.period)
    (exact : visit.Exact decoder) {load : Nat} (carries : Carries decoder load state) :
    ∃ rest, Carries decoder rest (state.hear visit.shown).2 ∧
      (completions (state.hear visit.shown).1).length + rest ≤ load + 1 := by
  obtain ⟨later, lastPlace, shape, traced⟩ := traced_of_sighted narrow exact.seen (Nat.zero_le 9)
    (by rw [Plan.ofData_cons])
  obtain ⟨-, inside, -⟩ := traced.ended
  have busy : ∀ state, Receiving decoder state →
      ∃ rest, Carries decoder rest (state.hear later).2 ∧
        (completions (state.hear later).1).length + rest ≤ 2 := by
    intro state busy
    rcases missed_receiving narrow wide traced busy with ⟨silent, still⟩ | ⟨other, closed, missed⟩
    · exact ⟨1, .inr ⟨rfl, still⟩, by simp [silent]⟩
    · obtain ⟨rest, carried, bound⟩ := missed.carries inside
      refine ⟨rest, carried, ?_⟩
      rw [closed, List.length_singleton]
      omega
  have frame : ∃ rest, Carries decoder rest (state.hear visit.sights).2 ∧
      (completions (state.hear visit.sights).1).length + rest ≤ load + 1 := by
    rw [shape]
    rcases carries with ⟨rfl, since, rfl⟩ | ⟨rfl, count, register, since, rfl⟩
    · rcases decoder.sense_resting_cases since visit.start (decoder.driven visit.byte 0) with
        same | sensed
      · simp only [hear, same]
        obtain ⟨nothing, missed⟩ := missed_resting narrow wide traced since
        obtain ⟨rest, carried, bound⟩ := missed.carries inside
        exact ⟨rest, carried, by simp [nothing, bound]⟩
      · simp only [hear, sensed]
        exact exists_carries_started narrow wide traced _
    · rcases decoder.sense_receiving_cases (by omega) count register since visit.start
        (decoder.driven visit.byte 0) with same | ⟨next, more, sensed⟩ | ⟨rests, -, sensed⟩
      · simp only [hear, same]
        exact busy _ ⟨count, register, since, rfl⟩
      · simp only [hear, sensed]
        exact busy _ ⟨next, more, _, rfl⟩
      · simp only [hear, sensed]
        obtain ⟨rest, carried, bound⟩ := exists_carries_started narrow wide traced rests
        refine ⟨rest, carried, ?_⟩
        rw [completions_completed, List.length_cons]
        omega
  obtain ⟨middle, carried, counted⟩ := frame
  obtain ⟨rest, ended, settled⟩ := exists_carries_looks (by omega) carried visit.looks
  rw [Visit.shown, hear_append]
  refine ⟨rest, ended, ?_⟩
  simp only [completions_append, List.length_append]
  omega

/-- A decoder brings no more bytes than there are frames, and the one it is in. -/
theorem length_completions_le (narrow : decoder.period ≤ 2 ^ 26) (wide : 6 ≤ decoder.period)
    (exact : ∀ visit ∈ visits, visit.Exact decoder) {load : Nat}
    (carries : Carries decoder load state) :
    (completions (state.hear (visits.flatMap Visit.shown)).1).length ≤ load + visits.length := by
  induction visits generalizing load state with
  | nil => simp [hear]
  | cons visit visits ih =>
    obtain ⟨rest, carried, bound⟩ := exists_carries_visit narrow wide
      (exact visit (by simp)) carries
    have later := ih (fun other member => exact other (by simp [member])) carried
    rw [List.flatMap_cons, hear_append]
    simp only [completions_append, List.length_append, List.length_cons]
    omega

/-- The decoder is in a frame that rests at mark by now, but carries another byte. -/
def Wrong (decoder : Decoder) (byte : UInt8) (state : Decoder) : Prop :=
  ∃ other place since, other ≠ byte ∧ place ≤ 8 ∧ Steady other place (10 - place) ∧
    state = decoder.standing other place since

/-- The rest of the message never makes up for a frame that was missed. -/
private theorem completions_ne_of_missed (narrow : decoder.period ≤ 2 ^ 26)
    (wide : 6 ≤ decoder.period) (exact : ∀ visit ∈ visits, visit.Exact decoder)
    (after : ∀ look ∈ visit.looks, visit.last < look) (near : visit.Near)
    (astray : ∀ byte state, Wrong decoder byte state →
      completions (state.hear (visits.flatMap Visit.shown)).1 ≠ byte :: visits.map Visit.byte)
    (inside : lastPlace ≤ 9) (steady : Steady visit.byte lastPlace (10 - lastPlace))
    (missed : Missed decoder visit.byte lastPlace visit.last state) :
    completions (state.hear ((visit.looks.map fun look => .look (Cycle.ofTime look)) ++
      visits.flatMap Visit.shown)).1 ≠ visit.byte :: visits.map Visit.byte := by
  rw [hear_append]
  simp only [completions_append]
  rcases missed with ⟨since, rfl⟩ | ⟨offset, later, inner, space, rfl⟩
  · obtain ⟨moved, heard, -⟩ := hear_looks_resting decoder since visit.looks
    have bound := length_completions_le narrow wide exact (.inl ⟨rfl, moved, rfl⟩)
    rw [heard]
    intro same
    have := congrArg List.length same
    simp at this
    omega
  · have different := Frame.shifted_ne visit.byte later (by omega) space
    have rests : Steady (Frame.shifted visit.byte offset) (lastPlace - offset)
        (10 - (lastPlace - offset)) :=
      steady_shifted (by omega) (by omega) space (steady.beyond inside _)
    have within : ∀ look ∈ visit.looks,
        Edge.noted visit.last (decoder.driven visit.byte lastPlace) ≤ look ∧
          look - Edge.noted visit.last (decoder.driven visit.byte lastPlace) < 2 ^ 32 := by
      intro look member
      have := after look member
      have := near look member
      have := Edge.le_noted visit.last (decoder.driven visit.byte lastPlace)
      have := Edge.noted_le visit.last (decoder.driven visit.byte lastPlace)
      omega
    rcases hear_looks_late (show decoder.period ≤ 2 ^ 27 by omega) visit.looks (by omega)
        (by omega) rests within with
      ⟨-, still⟩ | ⟨moved, closed⟩
    · rw [still]
      exact astray _ _ ⟨_, _, _, different, by omega, rests, rfl⟩
    · rw [closed, pending, if_pos (by omega)]
      intro same
      exact different (List.cons.inj same).1

/-- In the middle of a frame that is not over yet, too few bytes are left to come, or the
next frame is missed. -/
private theorem completions_ne_of_receiving (narrow : decoder.period ≤ 2 ^ 26)
    (wide : 6 ≤ decoder.period) (exact : ∀ visit ∈ visits, visit.Exact decoder)
    (after : ∀ look ∈ visit.looks, visit.last < look) (near : visit.Near)
    (astray : ∀ byte state, Wrong decoder byte state →
      completions (state.hear (visits.flatMap Visit.shown)).1 ≠ byte :: visits.map Visit.byte)
    (traced : Traced decoder visit.byte 0 visit.start sights lastPlace visit.last)
    (busy : Receiving decoder state) :
    completions (state.hear (sights ++
        ((visit.looks.map fun look => .look (Cycle.ofTime look)) ++
          visits.flatMap Visit.shown))).1 ≠
      byte :: visit.byte :: visits.map Visit.byte := by
  obtain ⟨-, inside, steady, -⟩ := traced.ended
  rw [hear_append]
  simp only [completions_append]
  rcases missed_receiving narrow wide traced busy with ⟨silent, still⟩ | ⟨other, closed, missed⟩
  · obtain ⟨rest, carried, bound⟩ :=
      exists_carries_looks (by omega) (.inr ⟨rfl, still⟩) visit.looks
    have counted := length_completions_le narrow wide exact carried
    rw [silent, List.nil_append, hear_append]
    simp only [completions_append]
    intro same
    have total := congrArg List.length same
    simp only [List.length_append, List.length_cons, List.length_map] at total
    omega
  · rw [closed]
    intro same
    exact completions_ne_of_missed narrow wide exact after near astray inside steady missed
      (List.cons.inj same).2

/-- In a wrong frame, the decoder brings its byte, or is still in it when the next frame is
under way. -/
theorem completions_ne_of_wrong (narrow : decoder.period ≤ 2 ^ 26) (wide : 6 ≤ decoder.period)
    (exact : ∀ visit ∈ visits, visit.Exact decoder) (near : ∀ visit ∈ visits, visit.Near)
    {byte : UInt8} (wrong : Wrong decoder byte state) :
    completions (state.hear (visits.flatMap Visit.shown)).1 ≠ byte :: visits.map Visit.byte := by
  induction visits generalizing byte state with
  | nil => simp [hear]
  | cons visit visits ih =>
    have own := exact visit (by simp)
    have others : ∀ visit ∈ visits, visit.Exact decoder :=
      fun other member => exact other (by simp [member])
    have astray : ∀ byte state, Wrong decoder byte state →
        completions (state.hear (visits.flatMap Visit.shown)).1 ≠ byte :: visits.map Visit.byte :=
      fun byte state wrong => ih others (fun other member => near other (by simp [member])) wrong
    obtain ⟨later, lastPlace, shape, traced⟩ := traced_of_sighted narrow own.seen (Nat.zero_le 9)
      (by rw [Plan.ofData_cons])
    obtain ⟨other, place, since, different, within, rests, rfl⟩ := wrong
    have still : decoder.standing other place since =
        decoder.receiving ⟨place, by omega⟩ (loaded other place) since := by
      simp [standing, receiving, show place < 9 by omega]
    have repeated : repeatLast (loaded other place) (8 - place) = loaded other 8 := by
      rw [repeatLast_loaded other (by omega) fun later after before => rests later after (by omega)]
      congr 1
      omega
    rw [List.flatMap_cons, Visit.shown, shape, List.cons_append, List.cons_append,
      List.append_assoc, List.map_cons, still]
    rcases decoder.sense_receiving_cases (by omega) ⟨place, by omega⟩ (loaded other place) since
      visit.start (decoder.driven visit.byte 0) with same | ⟨next, more, sensed⟩ | ⟨rests, -, sensed⟩
    · simp only [hear, same, completions_spurious]
      exact completions_ne_of_receiving narrow wide others own.after (near visit (by simp)) astray
        traced ⟨_, _, _, rfl⟩
    · simp only [hear, sensed, completions_progress]
      exact completions_ne_of_receiving narrow wide others own.after (near visit (by simp)) astray
        traced ⟨next, more, _, rfl⟩
    · simp only [hear, sensed, completions_completed]
      rw [repeated, loaded_full]
      intro same
      exact different (List.cons.inj same).1

/-- Once a start edge is left out, the bytes that come in are not those that were sent. -/
theorem completions_ne_of_spurious (narrow : decoder.period ≤ 2 ^ 26) (wide : 6 ≤ decoder.period)
    (exact : ∀ other ∈ visit :: visits, other.Exact decoder)
    (near : ∀ other ∈ visit :: visits, other.Near) {since : Int}
    (early : (decoder.resting since).sense
        (.ofLevel (Cycle.ofTime visit.start) (decoder.driven visit.byte 0)) =
      (decoder.resting since, .spurious)) :
    completions ((decoder.resting since).hear ((visit :: visits).flatMap Visit.shown)).1 ≠
      (visit :: visits).map Visit.byte := by
  have own := exact visit (by simp)
  have others : ∀ other ∈ visits, other.Exact decoder :=
    fun other member => exact other (by simp [member])
  obtain ⟨later, lastPlace, shape, traced⟩ := traced_of_sighted narrow own.seen (Nat.zero_le 9)
    (by rw [Plan.ofData_cons])
  obtain ⟨-, inside, steady, -⟩ := traced.ended
  obtain ⟨nothing, missed⟩ := missed_resting narrow wide traced since
  rw [List.flatMap_cons, Visit.shown, shape, List.cons_append, List.cons_append,
    List.append_assoc, List.map_cons]
  simp only [hear, early, completions_spurious]
  rw [hear_append]
  simp only [completions_append]
  rw [nothing, List.nil_append]
  refine completions_ne_of_missed narrow wide others own.after (near visit (by simp)) ?_ inside
    steady missed
  exact fun byte state wrong => completions_ne_of_wrong narrow wide others
    (fun other member => near other (by simp [member])) wrong

end Decoder
end PinUart
