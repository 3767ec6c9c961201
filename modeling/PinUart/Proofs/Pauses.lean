import Mathlib.Data.List.Chain
import PinUart.Proofs.Visits

/-! What looks in the pauses between frames do to reception. A stop bit that brings no edge
is supplied by a look, with the time at which a bit period has passed since the end of the
frame. A start edge that comes less than half a bit period after that is left out. -/
namespace PinUart

namespace Visit

variable (decoder : Decoder)

/-- When the frame counts as over, if its stop bit brings no edge. -/
def due (visit : Visit) : Int :=
  Edge.noted visit.last (true ^^ decoder.invert) +
    (visit.start + 11 * decoder.period - visit.last)

/-- The time that the supplied edge carries. -/
def supplied (visit : Visit) : Int := Edge.noted (visit.due decoder) (true ^^ decoder.invert)

/-- The frame of `next` comes after a pause, and after the looks in it. -/
structure Paced (visit next : Visit) : Prop where
  apart : visit.start + 10 * decoder.period ≤ next.start
  soon : next.start < visit.start + 10 * decoder.period + 2 ^ 29
  within : ∀ look ∈ visit.looks, look < next.start

/-- A look has the stop bit supplied, and the start edge of `next` comes too early after
that. Where the supplied edge is ahead of the look itself, the reference is taken back at
once, and does no harm. -/
def Loses (visit next : Visit) : Prop :=
  visit.last < visit.start + 9 * decoder.period ∧
    ∃ look, visit.looks.find? (fun look => visit.due decoder ≤ look) = some look ∧
      visit.supplied decoder ≤ look ∧
      Edge.noted next.start (false ^^ decoder.invert) - visit.supplied decoder <
        decoder.period / 2

end Visit

namespace Decoder

variable {decoder : Decoder} {byte : UInt8} {place : Nat}

/-- The first look that is late enough closes the frame, and tells what the next edge is
measured from. -/
theorem hear_looks_first {since : Int} {looks : List Int} {first : Int}
    (narrow : decoder.period ≤ 2 ^ 26) (started : 1 ≤ place) (inside : place ≤ 8)
    (steady : Steady byte place (10 - place)) (ordered : looks.Pairwise (· ≤ ·))
    (within : ∀ look ∈ looks, since ≤ look ∧ look < decoder.dueTime place since + 2 ^ 30)
    (found : looks.find? (fun look => decoder.dueTime place since ≤ look) = some first) :
    (Edge.noted (decoder.dueTime place since) (true ^^ decoder.invert) ≤ first ∧
        (decoder.standing byte place since).hear
            (looks.map fun look => .look (Cycle.ofTime look)) =
          ([.completed byte], decoder.resting
            (Edge.noted (decoder.dueTime place since) (true ^^ decoder.invert)))) ∨
      first < Edge.noted (decoder.dueTime place since) (true ^^ decoder.invert) ∧
        ∃ look ∈ looks, decoder.dueTime place since ≤ look ∧
          (decoder.standing byte place since).hear
              (looks.map fun look => .look (Cycle.ofTime look)) =
            ([.completed byte], decoder.resting (look - 2 ^ 30)) := by
  obtain ⟨late, earlier, later, rfl, before⟩ := List.find?_eq_some_iff_append.mp found
  have positive := decoder.period_pos
  have span : (11 - place : Int) * decoder.period ≤ 11 * decoder.period :=
    Int.mul_le_mul_of_nonneg_right (by omega) (by omega)
  have due : decoder.dueTime place since = since + (11 - place) * decoder.period := rfl
  have late : decoder.dueTime place since ≤ first := of_decide_eq_true late
  obtain ⟨after, near⟩ := within first (by simp)
  have follows : ∀ look ∈ later, first ≤ look := by
    have chain := (List.pairwise_append.mp ordered).2.1
    exact (List.pairwise_cons.mp chain).1
  have early : ∀ look ∈ earlier, since ≤ look ∧ look < decoder.dueTime place since := by
    intro look member
    refine ⟨(within look (by simp [member])).1, ?_⟩
    simpa using before look member
  have := Edge.le_noted (decoder.dueTime place since) (true ^^ decoder.invert)
  have := Edge.noted_le (decoder.dueTime place since) (true ^^ decoder.invert)
  rw [List.map_append, List.map_cons, hear_append,
    hear_looks_early byte earlier (by omega) (by omega) early]
  simp only [hear, owedEdge?_due (by omega) started inside late (show first - since < 2 ^ 32 by omega),
    sense_owed (show (11 - place : Int) * decoder.period < 2 ^ 31 - 1 by omega) inside
      (fun later after before => steady later after (by omega))]
  by_cases behind : Edge.noted (decoder.dueTime place since) (true ^^ decoder.invert) ≤ first
  · have still : ∀ look ∈ later,
        Edge.noted (decoder.dueTime place since) (true ^^ decoder.invert) ≤ look ∧
          look - Edge.noted (decoder.dueTime place since) (true ^^ decoder.invert) ≤ 2 ^ 30 := by
      intro look member
      have := follows look member
      have := (within look (by simp [member])).2
      omega
    rw [keepReach_near behind (by omega), hear_looks_near decoder _ later still]
    exact .inl ⟨behind, rfl⟩
  · rw [keepReach_ahead (by omega) (by omega)]
    obtain ⟨moved, heard, trailing⟩ := hear_looks_resting decoder (first - 2 ^ 30) later
    rw [heard]
    refine .inr ⟨by omega, ?_⟩
    rcases trailing with stayed | ⟨look, member, trails⟩
    · exact ⟨first, by simp, late, by rw [stayed]; rfl⟩
    · exact ⟨look, by simp [member], Int.le_trans late (follows look member), by rw [trails]; rfl⟩

variable {visit next : Visit}

/-- What has become of the decoder after the looks in a pause: it takes the start edge of
`next`, or it is at rest and leaves that edge out. -/
inductive AfterPause (decoder : Decoder) (visit next : Visit) (place : Nat)
    (findings : List Finding) (state : Decoder) : Prop where
  | takes (finding : Finding) (kept : ¬ visit.Loses decoder next)
      (accepted : state.sense (.ofLevel (Cycle.ofTime next.start) (decoder.driven next.byte 0)) =
        (decoder.standing next.byte 0 (Edge.noted next.start (decoder.driven next.byte 0)), finding))
      (brought : completions findings ++ completions [finding] = pending visit.byte place)
  | misses {since : Int} (lost : visit.Loses decoder next) (rests : state = decoder.resting since)
      (early : state.sense (.ofLevel (Cycle.ofTime next.start) (decoder.driven next.byte 0)) =
        (state, .spurious))
      (brought : completions findings = pending visit.byte place)

theorem driven_start (decoder : Decoder) (byte : UInt8) :
    decoder.driven byte 0 = (false ^^ decoder.invert) := by
  rw [driven, Frame.level_start]

/-- The last edge of a frame leaves the line at mark. -/
theorem driven_steady (inside : place ≤ 9) (steady : Steady byte place (10 - place)) :
    decoder.driven byte place = (true ^^ decoder.invert) := by
  rw [driven, ← steady 9 inside (by omega), Frame.level_stop _ (Nat.le_refl 9)]

theorem dueTime_last (passed : visit.last = visit.start + place * decoder.period) :
    decoder.dueTime place (Edge.noted visit.last (true ^^ decoder.invert)) = visit.due decoder := by
  unfold dueTime Visit.due
  grind

/-- A decoder at rest takes the start edge after a pause, when its reference is not ahead
of the looks in the pause. -/
theorem sense_rested {since : Int} (narrow : decoder.period ≤ 2 ^ 26)
    (paced : visit.Paced decoder next) (after : visit.start + 9 * decoder.period ≤ since + 2 ^ 30)
    (spaced : decoder.period / 2 ≤ Edge.noted next.start (false ^^ decoder.invert) - since) :
    (decoder.resting since).sense
        (.ofLevel (Cycle.ofTime next.start) (decoder.driven next.byte 0)) =
      (decoder.standing next.byte 0 (Edge.noted next.start (decoder.driven next.byte 0)),
        .progress) := by
  have := Edge.noted_le next.start (false ^^ decoder.invert)
  have := paced.soon
  rw [← driven_start decoder next.byte] at *
  exact sense_start next.byte (by omega) spaced (by omega)

/-- After a frame whose stop bit brought an edge, no look does harm. -/
theorem pause_stopped (narrow : decoder.period ≤ 2 ^ 26) (wide : 6 ≤ decoder.period)
    (exact : visit.Exact decoder) (paced : visit.Paced decoder next)
    (passed : visit.last = visit.start + 9 * decoder.period) :
    ∃ state, (decoder.standing visit.byte 9
        (Edge.noted visit.last (true ^^ decoder.invert))).hear
          (visit.looks.map fun look => .look (Cycle.ofTime look)) = ([], state) ∧
      AfterPause decoder visit next 9 [] state := by
  have positive := decoder.period_pos
  obtain ⟨moved, heard, trailing⟩ := hear_looks_resting decoder
    (Edge.noted visit.last (true ^^ decoder.invert)) visit.looks
  have := Edge.le_noted visit.last (true ^^ decoder.invert)
  have := Edge.noted_le visit.last (true ^^ decoder.invert)
  have := Edge.le_noted next.start (false ^^ decoder.invert)
  have apart := paced.apart
  have reach : visit.start + 9 * decoder.period ≤ moved + 2 ^ 30 ∧
      decoder.period / 2 ≤ Edge.noted next.start (false ^^ decoder.invert) - moved := by
    rcases trailing with rfl | ⟨look, member, rfl⟩
    · omega
    · have := exact.after look member
      have := paced.within look member
      omega
  refine ⟨_, heard, .takes _ ?_ (sense_rested narrow paced reach.1 reach.2) rfl⟩
  rintro ⟨missing, -⟩
  omega

/-- While no look is late enough, the frame stays open until the next start edge. -/
theorem pause_open (narrow : decoder.period ≤ 2 ^ 26) (wide : 6 ≤ decoder.period)
    (inside : place ≤ 8) (steady : Steady visit.byte place (10 - place))
    (exact : visit.Exact decoder) (paced : visit.Paced decoder next)
    (passed : visit.last = visit.start + place * decoder.period)
    (none : visit.looks.find? (fun look => visit.due decoder ≤ look) = none) :
    let standing := decoder.standing visit.byte place
      (Edge.noted visit.last (true ^^ decoder.invert))
    standing.hear (visit.looks.map fun look => .look (Cycle.ofTime look)) = ([], standing) ∧
      AfterPause decoder visit next place [] standing := by
  have positive := decoder.period_pos
  have total : (10 - place : Int) * decoder.period =
      10 * decoder.period - place * decoder.period := by grind
  have ran : 0 ≤ (place : Int) * decoder.period := Int.mul_nonneg (by omega) (by omega)
  have := paced.apart
  have := paced.soon
  have early : ∀ look ∈ visit.looks, Edge.noted visit.last (true ^^ decoder.invert) ≤ look ∧
      look < decoder.dueTime place (Edge.noted visit.last (true ^^ decoder.invert)) := by
    intro look member
    have := exact.after look member
    have := Edge.noted_le visit.last (true ^^ decoder.invert)
    rw [dueTime_last passed]
    exact ⟨by omega, by simpa using List.find?_eq_none.mp none look member⟩
  refine ⟨hear_looks_early visit.byte visit.looks (by omega) (by omega) early,
    .takes (leaving visit.byte place) ?_ ?_ ?_⟩
  · rintro ⟨-, look, some, -⟩
    cases none.symm.trans some
  · rw [← driven_steady (show place ≤ 9 by omega) steady]
    exact sense_after next.byte narrow wide (by omega) steady (by omega) (by omega)
  · rw [completions_leaving]
    simp

/-- The first look that is late enough closes the frame. The start edge is taken if it
does not come too early after the end that this look supplies. -/
theorem pause_closed {first : Int} (narrow : decoder.period ≤ 2 ^ 26) (started : 1 ≤ place)
    (inside : place ≤ 8) (steady : Steady visit.byte place (10 - place))
    (exact : visit.Exact decoder) (paced : visit.Paced decoder next)
    (passed : visit.last = visit.start + place * decoder.period)
    (found : visit.looks.find? (fun look => visit.due decoder ≤ look) = some first) :
    ∃ state, (decoder.standing visit.byte place
        (Edge.noted visit.last (true ^^ decoder.invert))).hear
          (visit.looks.map fun look => .look (Cycle.ofTime look)) =
        ([.completed visit.byte], state) ∧
      AfterPause decoder visit next place [.completed visit.byte] state := by
  have positive := decoder.period_pos
  have unfinished : pending visit.byte place = [visit.byte] := if_pos (by omega)
  have short : (place : Int) * decoder.period ≤ 8 * decoder.period :=
    Int.mul_le_mul_of_nonneg_right (by omega) (by omega)
  have ran : 0 ≤ (place : Int) * decoder.period := Int.mul_nonneg (by omega) (by omega)
  have missing : visit.last < visit.start + 9 * decoder.period := by omega
  have := Edge.le_noted visit.last (true ^^ decoder.invert)
  have := Edge.noted_le visit.last (true ^^ decoder.invert)
  have := Edge.le_noted next.start (false ^^ decoder.invert)
  have closing : visit.due decoder = Edge.noted visit.last (true ^^ decoder.invert) +
      (visit.start + 11 * decoder.period - visit.last) := rfl
  have supplied : visit.supplied decoder =
      Edge.noted (visit.due decoder) (true ^^ decoder.invert) := rfl
  have := Edge.le_noted (visit.due decoder) (true ^^ decoder.invert)
  have := paced.apart
  have := paced.soon
  have within : ∀ look ∈ visit.looks, Edge.noted visit.last (true ^^ decoder.invert) ≤ look ∧
      look < visit.due decoder + 2 ^ 30 := by
    intro look member
    have := exact.after look member
    have := paced.within look member
    omega
  have same := dueTime_last passed
  have heard := hear_looks_first narrow started inside steady exact.ordered (by rw [same]; exact within)
    (by rw [same]; exact found)
  rw [same] at heard
  rcases heard with ⟨behind, heard⟩ | ⟨ahead, look, member, late, heard⟩
  · refine ⟨_, heard, ?_⟩
    by_cases close : Edge.noted next.start (false ^^ decoder.invert) - visit.supplied decoder <
        decoder.period / 2
    · refine .misses ⟨missing, first, found, behind, close⟩ rfl ?_ unfinished.symm
      rw [driven_start]
      have := paced.within first (List.mem_of_find?_eq_some found)
      exact sense_early (show decoder.period < 2 ^ 31 by omega) last_resting
        (Edge.timestamp_ofLevel ..) (show -2 ^ 31 ≤ _ - visit.supplied decoder by omega) close
    · refine .takes _ ?_ (sense_rested narrow paced ?_ (Int.not_lt.mp close)) unfinished.symm
      · rintro ⟨-, -, -, -, small⟩
        exact close small
      · omega
  · have := paced.within look member
    refine ⟨_, heard, .takes _ ?_ (sense_rested narrow paced ?_ ?_) unfinished.symm⟩
    · rintro ⟨-, other, same, behind, -⟩
      cases found.symm.trans same
      exact absurd behind (Int.not_le.mpr ahead)
    · omega
    · omega

/-- After a pause, the start edge is taken, or left out by a decoder at rest. -/
theorem sense_after_pause {sights : List Sight} {lastPlace : Nat}
    (narrow : decoder.period ≤ 2 ^ 26) (wide : 6 ≤ decoder.period)
    (traced : Traced decoder visit.byte 0 visit.start sights lastPlace visit.last)
    (exact : visit.Exact decoder) (paced : visit.Paced decoder next) :
    ∃ findings state,
      (decoder.standing visit.byte lastPlace
          (Edge.noted visit.last (decoder.driven visit.byte lastPlace))).hear
        (visit.looks.map fun look => .look (Cycle.ofTime look)) = (findings, state) ∧
      AfterPause decoder visit next lastPlace findings state := by
  obtain ⟨-, inside, steady, passed⟩ := traced.ended
  have passed : visit.last = visit.start + lastPlace * decoder.period := by simpa using passed
  rw [driven_steady inside steady]
  by_cases stop : lastPlace = 9
  · subst stop
    exact ⟨[], pause_stopped narrow wide exact paced passed⟩
  · cases found : visit.looks.find? (fun look => visit.due decoder ≤ look) with
    | none => exact ⟨[], _, pause_open narrow wide (by omega) steady exact paced passed found⟩
    | some first =>
      exact ⟨_, pause_closed narrow (steady.started inside) (by omega) steady exact paced passed
        found⟩

/-- All looks in a pause are near the frame before. -/
theorem near_of_paced {visits : List Visit} (narrow : decoder.period ≤ 2 ^ 26)
    (exact : ∀ visit ∈ visits, visit.Exact decoder)
    (paced : visits.IsChain (Visit.Paced decoder))
    (closing : ∀ ended ∈ visits.getLast?,
      (∃ final ∈ ended.looks, ended.last + 11 * decoder.period ≤ final) ∧
        ∀ look ∈ ended.looks, look < ended.last + 2 ^ 30) :
    ∀ visit ∈ visits, visit.Near := by
  have positive := decoder.period_pos
  induction visits with
  | nil => simp
  | cons visit visits ih =>
    intro other member
    rcases List.mem_cons.mp member with rfl | later
    · cases visits with
      | nil =>
        intro look there
        have := (closing other (by simp)).2 look there
        omega
      | cons next visits =>
        obtain ⟨later, lastPlace, -, traced⟩ := traced_of_sighted narrow
          (exact other (by simp)).seen (Nat.zero_le 9) (by rw [Plan.ofData_cons])
        obtain ⟨-, -, -, passed⟩ := traced.ended
        have : 0 ≤ (lastPlace : Int) * decoder.period := Int.mul_nonneg (by omega) (by omega)
        have passed : other.last = other.start + lastPlace * decoder.period := by simpa using passed
        have pace := (List.isChain_cons_cons.mp paced).1
        have := pace.soon
        intro look there
        have := pace.within look there
        omega
    · refine ih (fun visit there => exact visit (List.mem_cons_of_mem _ there))
        (List.IsChain.tail paced) ?_ other later
      intro ended final
      refine closing ended ?_
      cases visits with
      | nil => cases later
      | cons next visits => exact final

/-- The byte of the last frame comes in at the latest with the last look. -/
theorem completions_last_visit {before : Decoder} {finding : Finding}
    (narrow : decoder.period ≤ 2 ^ 26) (wide : 6 ≤ decoder.period) (exact : visit.Exact decoder)
    (closed : ∃ final ∈ visit.looks, visit.last + 11 * decoder.period ≤ final)
    (near : ∀ look ∈ visit.looks, look < visit.last + 2 ^ 30)
    (taken : before.sense (.ofLevel (Cycle.ofTime visit.start) (decoder.driven visit.byte 0)) =
      (decoder.standing visit.byte 0 (Edge.noted visit.start (decoder.driven visit.byte 0)),
        finding)) :
    completions (before.hear visit.shown).1 = completions [finding] ++ [visit.byte] := by
  have positive := decoder.period_pos
  obtain ⟨later, lastPlace, shape, traced⟩ := traced_of_sighted narrow exact.seen (Nat.zero_le 9)
    (by rw [Plan.ofData_cons])
  obtain ⟨inner, heard, whole⟩ := hear_frame narrow wide traced
  obtain ⟨-, inside, steady, passed⟩ := traced.ended
  obtain ⟨final, member, past⟩ := closed
  have started := steady.started inside
  have := Edge.le_noted visit.last (decoder.driven visit.byte lastPlace)
  have := Edge.noted_le visit.last (decoder.driven visit.byte lastPlace)
  have within : ∀ look ∈ visit.looks,
      Edge.noted visit.last (decoder.driven visit.byte lastPlace) ≤ look ∧
        look - Edge.noted visit.last (decoder.driven visit.byte lastPlace) < 2 ^ 32 := by
    intro look member
    have := exact.after look member
    have := near look member
    omega
  rw [Visit.shown, shape, List.cons_append]
  simp only [hear, taken, hear_append, heard]
  rcases hear_looks_late (show decoder.period ≤ 2 ^ 27 by omega) visit.looks started inside
      steady within with ⟨early, -⟩ | ⟨moved, done⟩
  · have most : (11 - lastPlace : Int) * decoder.period ≤ 10 * decoder.period :=
      Int.mul_le_mul_of_nonneg_right (by omega) (by omega)
    have := early final member
    unfold dueTime at this
    omega
  · rw [done, completions_cons, completions_append, completions_pending, whole]

/-- From an accepted start edge on, all bytes come in exactly if no later one is lost. -/
theorem completions_visits_iff {visits : List Visit} {before : Decoder} {finding : Finding}
    (narrow : decoder.period ≤ 2 ^ 26) (wide : 6 ≤ decoder.period)
    (exact : ∀ other ∈ visit :: visits, other.Exact decoder)
    (paced : (visit :: visits).IsChain (Visit.Paced decoder))
    (closing : ∀ ended ∈ (visit :: visits).getLast?,
      (∃ final ∈ ended.looks, ended.last + 11 * decoder.period ≤ final) ∧
        ∀ look ∈ ended.looks, look < ended.last + 2 ^ 30)
    (taken : before.sense (.ofLevel (Cycle.ofTime visit.start) (decoder.driven visit.byte 0)) =
      (decoder.standing visit.byte 0 (Edge.noted visit.start (decoder.driven visit.byte 0)),
        finding)) :
    completions (before.hear ((visit :: visits).flatMap Visit.shown)).1 =
        completions [finding] ++ (visit :: visits).map Visit.byte ↔
      (visit :: visits).IsChain fun visit next => ¬ visit.Loses decoder next := by
  induction visits generalizing visit before finding with
  | nil =>
    obtain ⟨closed, near⟩ := closing visit (by simp)
    have received := completions_last_visit narrow wide (exact visit (by simp)) closed near taken
    rw [List.flatMap_singleton]
    exact iff_of_true received (List.isChain_singleton _)
  | cons next visits ih =>
    have own := exact visit (by simp)
    obtain ⟨pace, paces⟩ := List.isChain_cons_cons.mp paced
    obtain ⟨later, lastPlace, shape, traced⟩ := traced_of_sighted narrow own.seen (Nat.zero_le 9)
      (by rw [Plan.ofData_cons])
    obtain ⟨inner, heard, whole⟩ := hear_frame narrow wide traced
    obtain ⟨findings, state, paused, outcome⟩ := sense_after_pause narrow wide traced own pace
    have others : ∀ other ∈ next :: visits, other.Exact decoder :=
      fun other member => exact other (List.mem_cons_of_mem _ member)
    have split : completions (before.hear ((visit :: next :: visits).flatMap Visit.shown)).1 =
        completions [finding] ++ (completions inner ++ (completions findings ++
          completions (state.hear ((next :: visits).flatMap Visit.shown)).1)) := by
      rw [List.flatMap_cons, Visit.shown, shape, List.cons_append, List.cons_append]
      simp only [hear, taken, hear_append, heard, paused]
      rw [completions_cons, List.append_assoc, completions_append, completions_append]
    rw [split, List.isChain_cons_cons]
    cases outcome with
    | takes following kept accepted brought =>
      have rest := ih others paces closing accepted
      change completions [finding] ++ _ = completions [finding] ++
        ([visit.byte] ++ (next :: visits).map Visit.byte) ↔ _
      rw [← whole, ← brought, List.append_cancel_left_eq, List.append_assoc, List.append_assoc,
        List.append_cancel_left_eq, List.append_cancel_left_eq]
      exact rest.trans (and_iff_right kept).symm
    | misses lost rests early brought =>
      subst rests
      have astray := completions_ne_of_spurious narrow wide others
        (near_of_paced narrow others paces closing) early
      refine iff_of_false ?_ fun chain => chain.1 lost
      change completions [finding] ++ _ ≠ completions [finding] ++
        ([visit.byte] ++ (next :: visits).map Visit.byte)
      rw [← whole, ← brought, List.append_assoc]
      intro same
      exact astray (List.append_cancel_left (List.append_cancel_left (List.append_cancel_left same)))

/-- Reception with pauses between the frames, and looks at any time: the ring holds exactly
the bytes that were sent, unless a start edge comes too early after a supplied stop bit. -/
theorem observe_visits_iff {reset : Int} {visits : List Visit} (decoder : Decoder)
    (bytes : ByteRing) (early : List Int) (wide : 6 ≤ decoder.period)
    (narrow : decoder.period ≤ 2 ^ 26) (empty : bytes.toList = [])
    (room : visits.length < bytes.capacity) (exact : ∀ visit ∈ visits, visit.Exact decoder)
    (paced : visits.IsChain (Visit.Paced decoder))
    (waiting : ∀ visit ∈ visits.head?, reset ≤ visit.start ∧ visit.start - reset < 2 ^ 29 ∧
      ∀ look ∈ early, reset ≤ look ∧ look ≤ visit.start)
    (closing : ∀ visit ∈ visits.getLast?,
      (∃ final ∈ visit.looks, visit.last + 11 * decoder.period ≤ final) ∧
        ∀ look ∈ visit.looks, look < visit.last + 2 ^ 30) :
    ((decoder.reset (Cycle.ofTime reset)).observe bytes
        ((early.map fun look => .look (Cycle.ofTime look)) ++
          visits.flatMap Visit.shown)).2.2.toList = visits.map Visit.byte ↔
      visits.IsChain fun visit next => ¬ visit.Loses decoder next := by
  rw [observe_eq, hear_append]
  dsimp only
  rw [bytes.toList_storeAll, empty, List.nil_append, completions_append]
  cases visits with
  | nil =>
    obtain ⟨moved, heard, -⟩ := hear_looks_resting decoder (reset - 2 ^ 30) early
    rw [reset_ofTime, heard]
    simp [hear]
  | cons visit visits =>
    obtain ⟨fresh, recent, looked⟩ := waiting visit (by simp)
    obtain ⟨waited, heard, taken⟩ := hear_early visit.byte narrow wide early fresh recent looked
    have counted := length_completions_le narrow wide exact (.inl ⟨rfl, waited, rfl⟩)
    rw [heard, completions_nil, List.nil_append]
    dsimp only
    rw [List.take_of_length_le (by omega)]
    exact completions_visits_iff narrow wide exact paced closing taken

/-- Two frames of a hundred cycles a bit, the first of which has no edge at its stop bit. -/
def twoFrames (looks : List Int) (start : Int) : List Visit :=
  [{ byte := 0xFF, start := 1000, last := 1100, looks
     sights := [.edge (.ofLevel (Cycle.ofTime 1000) false),
      .edge (.ofLevel (Cycle.ofTime 1100) true)] },
    { byte := 0x00, start, last := start + 900, looks := [5000]
      sights := [.edge (.ofLevel (Cycle.ofTime start) false),
        .edge (.ofLevel (Cycle.ofTime (start + 900)) true)] }]

private theorem holds_ones : (Plan.ofData [0xFF] 100 false).holds = [⟨false, 100⟩, ⟨true, 900⟩] := by
  repeat rw [Plan.holds_of_next? rfl]
  rw [Plan.holds_of_levels_nil rfl]
  rfl

private theorem holds_zeros : (Plan.ofData [0x00] 100 false).holds = [⟨false, 900⟩, ⟨true, 100⟩] := by
  repeat rw [Plan.holds_of_next? rfl]
  rw [Plan.holds_of_levels_nil rfl]
  rfl

private theorem exact_of_holds {first last : Hold} {visit : Visit}
    (holds : (Plan.ofData [visit.byte] 100 false).holds = [first, last])
    (timed : visit.last = visit.start + first.cycles.toNat)
    (shown : visit.sights = [.edge (.ofLevel (Cycle.ofTime visit.start) first.high),
      .edge (.ofLevel (Cycle.ofTime visit.last) last.high)])
    (after : ∀ look ∈ visit.looks, visit.last < look) (ordered : visit.looks.Pairwise (· ≤ ·)) :
    visit.Exact (create 100 false) := by
  refine ⟨?_, after, ordered⟩
  rw [shown]
  change Sighted 0 _ (Plan.ofData [visit.byte] 100 false).holds _ _
  rw [holds]
  exact @Sighted.next 0 _ _ _ first _ [] _ (by omega) (by omega) (by simp) (.last _ _)

private theorem exact_twoFrames {looks : List Int} {start : Int} (soon : start + 900 < 5000)
    (after : ∀ look ∈ looks, 1100 < look) (ordered : looks.Pairwise (· ≤ ·)) :
    ∀ visit ∈ twoFrames looks start, visit.Exact (create 100 false) := by
  intro visit member
  rcases List.mem_cons.mp member with rfl | second
  · exact exact_of_holds holds_ones rfl rfl after ordered
  · cases List.mem_singleton.mp second
    exact exact_of_holds holds_zeros rfl rfl (by simpa using soon) (by simp)

/-- Where the pause is half a bit period longer, a look in it does no harm. -/
theorem observe_twoFrames :
    (((create 100 false).reset (Cycle.ofTime 0)).observe (Ring.empty 8 0)
        ((twoFrames [2105] 2160).flatMap Visit.shown)).2.2.toList = [0xFF, 0x00] := by
  have paced : (twoFrames [2105] 2160).IsChain (Visit.Paced (create 100 false)) :=
    List.isChain_pair.mpr ⟨by decide, by decide, by decide⟩
  have closing : ∀ visit ∈ (twoFrames [2105] 2160).getLast?,
      (∃ final ∈ visit.looks, visit.last + 11 * (create 100 false).period ≤ final) ∧
        ∀ look ∈ visit.looks, look < visit.last + 2 ^ 30 := by
    rintro visit ⟨⟩
    exact ⟨⟨5000, by decide, by decide⟩, by decide⟩
  have kept : (twoFrames [2105] 2160).IsChain
      fun visit next => ¬ visit.Loses (create 100 false) next := by
    refine List.isChain_pair.mpr ?_
    rintro ⟨-, look, -, -, early⟩
    revert early
    decide
  exact (@observe_visits_iff 0 (twoFrames [2105] 2160) (create 100 false) (Ring.empty 8 0) []
    (by decide) (by decide) rfl (by decide) (exact_twoFrames (by decide) (by decide) (by decide))
    paced (by simp [twoFrames]) closing).mpr kept

/-- A look in a shorter pause costs the second byte, which comes in without that look. -/
theorem observe_look_loses_byte :
    (∀ visit ∈ twoFrames [2105] 2110, visit.Exact (create 100 false)) ∧
      (twoFrames [2105] 2110).IsChain (Visit.Paced (create 100 false)) ∧
      (((create 100 false).reset (Cycle.ofTime 0)).observe (Ring.empty 8 0)
        ((twoFrames [2105] 2110).flatMap Visit.shown)).2.2.toList = [0xFF] ∧
      (((create 100 false).reset (Cycle.ofTime 0)).observe (Ring.empty 8 0)
        ((twoFrames [] 2110).flatMap Visit.shown)).2.2.toList = [0xFF, 0x00] := by
  refine ⟨exact_twoFrames (by decide) (by decide) (by decide), ?_, by decide⟩
  exact List.isChain_pair.mpr ⟨by decide, by decide, by decide⟩

end Decoder
end PinUart
