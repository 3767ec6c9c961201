import PinUart.Proofs.Observation
import PinUart.Proofs.Register
import PinUart.Proofs.Time

/-! Where in a frame a decoder stands. The last edge that it took began one of the
bit periods of the frame, and its register holds the bits up to there. An edge that
comes after a whole number of bit periods, give or take less than half of one, moves
it on by that number. -/
namespace PinUart.Decoder

/-- Cycles in a bit period. -/
def period (decoder : Decoder) : Int := decoder.bitPeriod.toNat

/-- The decoder when the last edge began the bit period at a place of a frame. The
stop bit is at place 9, where the decoder comes to rest. -/
def standing (decoder : Decoder) (byte : UInt8) (place : Nat) (since : Int) : Decoder :=
  { decoder with
    phase := if inside : place < 9 then .receiving ⟨place, inside⟩ else .idle
    register := if place < 9 then loaded byte place else 0
    last := Cycle.ofTime since }

/-- The decoder on an idle line. -/
def resting (decoder : Decoder) (since : Int) : Decoder :=
  { decoder with phase := .idle, register := 0, last := Cycle.ofTime since }

variable {decoder : Decoder} {byte : UInt8} {place : Nat} {since : Int}

@[simp] theorem period_standing : (decoder.standing byte place since).period = decoder.period := rfl

@[simp] theorem invert_standing : (decoder.standing byte place since).invert = decoder.invert := rfl

@[simp] theorem last_standing :
    (decoder.standing byte place since).last = Cycle.ofTime since := rfl

@[simp] theorem period_resting : (decoder.resting since).period = decoder.period := rfl

@[simp] theorem invert_resting : (decoder.resting since).invert = decoder.invert := rfl

@[simp] theorem last_resting : (decoder.resting since).last = Cycle.ofTime since := rfl

theorem standing_stop : decoder.standing byte 9 since = decoder.resting since := rfl

theorem standing_start (byte other : UInt8) :
    decoder.standing byte 0 since = decoder.standing other 0 since := by
  simp [standing, loaded_start]

theorem reset_ofTime (now : Int) :
    decoder.reset (Cycle.ofTime now) = decoder.resting (now - 2 ^ 30) := by
  rw [reset, resting, Cycle.ofTime_sub]
  rfl

theorem signedPeriod_eq (short : decoder.period < 2 ^ 31) : decoder.signedPeriod = decoder.period :=
  Cycle.signed_of_lt (by unfold period at short; omega)

theorem period_pos (decoder : Decoder) : 0 < decoder.period := by
  have := decoder.bitPeriod_pos
  unfold period
  omega

private theorem half_eq (short : decoder.period < 2 ^ 31) :
    decoder.signedPeriod.tdiv 2 = decoder.period / 2 := by
  have := decoder.period_pos
  rw [signedPeriod_eq short, Int.tdiv_eq_ediv_of_nonneg (by omega)]

/-- An edge that comes less than half a bit period after the last is left out. -/
theorem sense_early {edge : Edge} {time : Int} (short : decoder.period < 2 ^ 31)
    (last : decoder.last = Cycle.ofTime since) (stamp : edge.timestamp = Cycle.ofTime time)
    (behind : -2 ^ 31 ≤ time - since) (early : time - since < decoder.period / 2) :
    decoder.sense edge = (decoder, .spurious) := by
  have := decoder.period_pos
  rw [sense, last, stamp, Cycle.span_ofTime (by omega) behind, half_eq short]
  exact if_pos (by omega)

/-- Any other edge is accounted for by the time since the middle of the last bit. -/
theorem sense_due {edge : Edge} {time : Int} (short : decoder.period < 2 ^ 31)
    (last : decoder.last = Cycle.ofTime since) (stamp : edge.timestamp = Cycle.ofTime time)
    (due : decoder.period / 2 ≤ time - since) (near : time - since < 2 ^ 31) :
    decoder.sense edge =
      { decoder with last := Cycle.ofTime time }.account (time - since - decoder.period / 2)
        (edge.mark decoder.invert) := by
  have := decoder.period_pos
  rw [sense, last, stamp, Cycle.span_ofTime near (by omega), half_eq short]
  exact if_neg (by omega)

theorem sense_standing {edge : Edge} {time : Int} (short : decoder.period < 2 ^ 31)
    (stamp : edge.timestamp = Cycle.ofTime time) (due : decoder.period / 2 ≤ time - since)
    (near : time - since < 2 ^ 31) :
    (decoder.standing byte place since).sense edge =
      (decoder.standing byte place time).account (time - since - decoder.period / 2)
        (edge.mark decoder.invert) :=
  sense_due short last_standing stamp due near

/-- On an idle line a space level starts a frame, and a mark level changes nothing. -/
theorem account_resting (elapsed : Int) (mark : Bool) :
    (decoder.resting since).account elapsed mark =
      (if mark then decoder.resting since else decoder.standing byte 0 since, .progress) := by
  cases mark <;> simp [account, resting, standing, arm, loaded_start]

/-- Bit periods that have gone by in an interval. -/
private theorem periods_elapsed {elapsed : Int} {run : Nat}
    (least : run * decoder.period ≤ elapsed) (most : elapsed < run * decoder.period + decoder.period) :
    (elapsed / decoder.period).toNat = run := by
  have : elapsed / decoder.period = run :=
    (Int.ediv_eq_iff_of_pos decoder.period_pos).mpr ⟨least, most⟩
  omega

/-- The line keeps its level from one place of a frame to the next edge, `run` bit
periods later. -/
def Steady (byte : UInt8) (place run : Nat) : Prop :=
  ∀ later, place ≤ later → later < place + run → Frame.level byte later = Frame.level byte place

/-- A frame does not begin with the level that it rests at. -/
theorem Steady.started (inside : place ≤ 9) (steady : Steady byte place (10 - place)) :
    1 ≤ place := by
  apply Nat.one_le_iff_ne_zero.mpr
  rintro rfl
  have same := steady 9 (by omega) (by omega)
  rw [Frame.level_start, Frame.level_stop byte (by omega)] at same
  cases same

/-- The level that a frame rests at stays after its end. -/
theorem Steady.beyond (inside : place ≤ 9) (steady : Steady byte place (10 - place)) (run : Nat) :
    Steady byte place run := by
  have stop := steady 9 inside (by omega)
  intro later after _
  by_cases within : later < 10
  · exact steady later after (by omega)
  · rw [← stop, Frame.level_stop byte (Nat.le_refl 9), Frame.level_stop byte (by omega)]

/-- An edge inside the frame moves the decoder to the place where it belongs; the
edge of the stop bit completes the byte. -/
theorem account_standing {elapsed : Int} {run : Nat} (short : decoder.period < 2 ^ 31)
    (inside : place + run < 9) (steady : Steady byte place (run + 1))
    (least : run * decoder.period ≤ elapsed) (most : elapsed < run * decoder.period + decoder.period) :
    (decoder.standing byte place since).account elapsed (Frame.level byte (place + run + 1)) =
      (decoder.standing byte (place + run + 1) since,
        if place + run + 1 = 9 then .completed byte else .progress) := by
  have positive := decoder.period_pos
  have signed : (decoder.standing byte place since).signedPeriod = decoder.period :=
    signedPeriod_eq short
  have loadedRun : repeatLast (loaded byte place) run = loaded byte (place + run) :=
    repeatLast_loaded byte (by omega) fun later after before => steady later after (by omega)
  have phase : (decoder.standing byte place since).phase = .receiving ⟨place, by omega⟩ := by
    simp [standing, show place < 9 by omega]
  have register : (decoder.standing byte place since).register = loaded byte place := by
    simp [standing, show place < 9 by omega]
  rw [account, phase]
  simp only [signed, register, if_neg (show ¬ decoder.period < 0 by omega),
    periods_elapsed least most]
  by_cases last : place + run = 8
  · have all : 8 - place = run := by omega
    have under : ¬ decoder.period ≤ elapsed - run * decoder.period := by omega
    rw [dif_neg (by omega), all, complete, signed, if_neg under, loadedRun, last, loaded_full,
      if_pos rfl]
    simp [standing]
  · rw [dif_pos (by omega), loadedRun, shiftIn_loaded byte (by omega), if_neg (by omega)]
    simp [standing, show place + run + 1 < 9 by omega]

/-- A level that lasts beyond the frame closes it. A space level then starts the next. -/
theorem account_closing {elapsed : Int} {mark : Bool} (next : UInt8)
    (short : decoder.period < 2 ^ 31) (inside : place ≤ 8) (steady : Steady byte place (9 - place))
    (least : (9 - place) * decoder.period ≤ elapsed) :
    (decoder.standing byte place since).account elapsed mark =
      (if mark then decoder.resting since else decoder.standing next 0 since,
        .completed byte) := by
  have positive := decoder.period_pos
  have signed : (decoder.standing byte place since).signedPeriod = decoder.period :=
    signedPeriod_eq short
  have loadedAll : repeatLast (loaded byte place) (8 - place) = loaded byte 8 := by
    rw [repeatLast_loaded byte (by omega) fun later after before => steady later after (by omega)]
    congr 1
    omega
  have phase : (decoder.standing byte place since).phase = .receiving ⟨place, by omega⟩ := by
    simp [standing, show place < 9 by omega]
  have register : (decoder.standing byte place since).register = loaded byte place := by
    simp [standing, show place < 9 by omega]
  have periods : ((9 - place : Nat) : Int) ≤ elapsed / decoder.period := by
    apply (Int.le_ediv_iff_mul_le positive).mpr
    rw [Int.ofNat_sub (by omega)]
    exact least
  have past : decoder.period ≤ elapsed - ((8 - place : Nat) : Int) * decoder.period := by
    have split : (9 - place : Int) * decoder.period =
        ((8 - place : Nat) : Int) * decoder.period + decoder.period := by
      rw [Int.ofNat_sub inside]
      grind
    omega
  rw [account, phase]
  simp only [signed, register, if_neg (show ¬ decoder.period < 0 by omega)]
  rw [dif_neg (by omega), complete, signed, if_pos past, loadedAll, loaded_full]
  cases mark <;> simp [standing, resting, arm, loaded_start]

/-! What looks at the clock do to a decoder that stands in a frame or rests. -/

/-- The time at which a frame counts as over, if no edge comes. -/
def dueTime (decoder : Decoder) (place : Nat) (since : Int) : Int :=
  since + (11 - place) * decoder.period

private theorem toNat_expected (short : 11 * decoder.period < 2 ^ 32) (inside : place ≤ 9) :
    ((UInt32.ofNat (11 - place) * decoder.bitPeriod).toNat : Int) = (11 - place) * decoder.period := by
  have bound : (11 - place) * decoder.bitPeriod.toNat ≤ 11 * decoder.bitPeriod.toNat :=
    Nat.mul_le_mul_right _ (by omega)
  unfold period at short
  rw [toNat_periods (by omega) (by omega), Int.natCast_mul, Int.ofNat_sub (by omega)]
  rfl

/-- Before that time a look brings nothing. -/
theorem owedEdge?_early {now : Int} (short : 11 * decoder.period < 2 ^ 32) (inside : place ≤ 9)
    (after : since ≤ now) (early : now < decoder.dueTime place since) :
    (decoder.standing byte place since).owedEdge? (Cycle.ofTime now) = none := by
  have expected := toNat_expected short inside
  unfold dueTime at early
  have bound : (11 - place : Int) * decoder.period ≤ 11 * decoder.period :=
    Int.mul_le_mul_of_nonneg_right (by omega) (by have := decoder.period_pos; omega)
  have gone := Cycle.toNat_sub_ofTime after (by omega)
  rw [owedEdge?]
  split
  · rfl
  · rename_i count phase
    split
    · rfl
    · have counted : count.val = place := by
        simp only [standing] at phase
        split at phase
        · exact (congrArg Fin.val (Phase.receiving.inj phase)).symm
        · cases phase
      rw [if_pos]
      apply UInt32.lt_iff_toNat_lt.mpr
      change (Cycle.ofTime now - Cycle.ofTime since).toNat < (UInt32.ofNat _ * decoder.bitPeriod).toNat
      rw [counted]
      omega

/-- From that time on a look brings the edge that the stop bit owes. -/
theorem owedEdge?_due {now : Int} (short : 11 * decoder.period < 2 ^ 32) (started : 1 ≤ place)
    (inside : place ≤ 8) (due : decoder.dueTime place since ≤ now) (near : now - since < 2 ^ 32) :
    (decoder.standing byte place since).owedEdge? (Cycle.ofTime now) =
      some (Edge.ofLogical (Cycle.ofTime (decoder.dueTime place since)) true decoder.invert) := by
  have expected := toNat_expected short (show place ≤ 9 by omega)
  have positive : 0 ≤ (11 - place : Int) * decoder.period :=
    Int.mul_nonneg (by omega) (by have := decoder.period_pos; omega)
  unfold dueTime at due ⊢
  have gone := Cycle.toNat_sub_ofTime (show since ≤ now by omega) near
  have phase : (decoder.standing byte place since).phase = .receiving ⟨place, by omega⟩ := by
    simp [standing, show place < 9 by omega]
  have moved : UInt32.ofNat (11 - place) * decoder.bitPeriod =
      Cycle.ofTime ((11 - place) * decoder.period) := by
    rw [← Cycle.ofTime_toNat (UInt32.ofNat (11 - place) * decoder.bitPeriod), expected]
  rw [owedEdge?, phase]
  simp only
  rw [if_neg (by intro none; have := congrArg Fin.val none; simp at this; omega), if_neg]
  · rw [Cycle.ofTime_add, ← moved]
    rfl
  · rw [UInt32.lt_iff_toNat_lt]
    change ¬ (Cycle.ofTime now - Cycle.ofTime since).toNat <
      (UInt32.ofNat (11 - place) * decoder.bitPeriod).toNat
    omega

theorem keepReach_standing (inside : place < 9) (now : Cycle) :
    (decoder.standing byte place since).keepReach now = decoder.standing byte place since := by
  simp [keepReach, isIdle, standing, inside]

/-- A recent reference of an idle line stays as it is. -/
theorem keepReach_near {now : Int} (after : since ≤ now) (near : now - since ≤ 2 ^ 30) :
    (decoder.resting since).keepReach (Cycle.ofTime now) = decoder.resting since := by
  have gone := Cycle.toNat_sub_ofTime after (by omega)
  have within : ¬ Cycle.idleReach < Cycle.ofTime now - Cycle.ofTime since := by
    rw [UInt32.lt_iff_toNat_lt]
    have : Cycle.idleReach.toNat = 2 ^ 30 := rfl
    omega
  rw [keepReach, last_resting, decide_eq_false within, Bool.and_false]
  rfl

/-- A reference that the counter has left too far behind, or that it takes for one, is moved. -/
theorem keepReach_beyond {now : Int} (beyond : 2 ^ 30 < (now - since) % 2 ^ 32) :
    (decoder.resting since).keepReach (Cycle.ofTime now) = decoder.resting (now - 2 ^ 30) := by
  have gone := Cycle.toNat_ofTime (now - since)
  have past : Cycle.idleReach < Cycle.ofTime now - Cycle.ofTime since := by
    rw [UInt32.lt_iff_toNat_lt, ← Cycle.ofTime_sub]
    have : Cycle.idleReach.toNat = 2 ^ 30 := rfl
    omega
  rw [keepReach, last_resting, decide_eq_true past, Bool.and_true]
  rw [resting, resting, Cycle.ofTime_sub]
  rfl

/-- A reference that is ahead of the counter is taken back. -/
theorem keepReach_ahead {now : Int} (before : now < since) (near : since - now ≤ 2 ^ 31) :
    (decoder.resting since).keepReach (Cycle.ofTime now) = decoder.resting (now - 2 ^ 30) :=
  keepReach_beyond (by omega)

/-- Any other reference moves along at a fixed distance. -/
theorem keepReach_resting (decoder : Decoder) (since now : Int) :
    (decoder.resting since).keepReach (Cycle.ofTime now) = decoder.resting since ∨
      (decoder.resting since).keepReach (Cycle.ofTime now) = decoder.resting (now - 2 ^ 30) := by
  rw [keepReach]
  split
  · right
    rw [resting, resting, Cycle.ofTime_sub]
    rfl
  · left
    rfl

theorem owedEdge?_resting (now : Cycle) : (decoder.resting since).owedEdge? now = none := rfl

/-- Looks leave an idle decoder idle. Its reference stays, or trails one of them. -/
theorem hear_looks_resting (decoder : Decoder) (since : Int) (looks : List Int) :
    ∃ moved, (decoder.resting since).hear (looks.map fun look => .look (Cycle.ofTime look)) =
        ([], decoder.resting moved) ∧
      (moved = since ∨ ∃ look ∈ looks, moved = look - 2 ^ 30) := by
  induction looks generalizing since with
  | nil => exact ⟨since, rfl, .inl rfl⟩
  | cons look looks ih =>
    simp only [List.map_cons, hear, owedEdge?_resting]
    rcases keepReach_resting decoder since look with same | trailing
    · obtain ⟨moved, heard, place⟩ := ih since
      rw [same]
      refine ⟨moved, heard, place.imp_right ?_⟩
      rintro ⟨other, member, trails⟩
      exact ⟨other, List.mem_cons_of_mem _ member, trails⟩
    · obtain ⟨moved, heard, place⟩ := ih (look - 2 ^ 30)
      rw [trailing]
      refine ⟨moved, heard, .inr ?_⟩
      rcases place with stayed | ⟨other, member, trails⟩
      · exact ⟨look, List.mem_cons_self .., stayed⟩
      · exact ⟨other, List.mem_cons_of_mem _ member, trails⟩

/-- Looks that come soon leave even the reference where it is. -/
theorem hear_looks_near (decoder : Decoder) (since : Int) (looks : List Int)
    (within : ∀ look ∈ looks, since ≤ look ∧ look - since ≤ 2 ^ 30) :
    (decoder.resting since).hear (looks.map fun look => .look (Cycle.ofTime look)) =
      ([], decoder.resting since) := by
  induction looks with
  | nil => rfl
  | cons look looks ih =>
    obtain ⟨after, near⟩ := within look (List.mem_cons_self ..)
    simp only [List.map_cons, hear, owedEdge?_resting, keepReach_near after near]
    exact ih fun look member => within look (List.mem_cons_of_mem _ member)

/-- Looks that come before the frame is over change nothing. -/
theorem hear_looks_early (byte : UInt8) (looks : List Int) (narrow : decoder.period ≤ 2 ^ 27)
    (inside : place ≤ 9)
    (within : ∀ look ∈ looks, since ≤ look ∧ look < decoder.dueTime place since) :
    (decoder.standing byte place since).hear (looks.map fun look => .look (Cycle.ofTime look)) =
      ([], decoder.standing byte place since) := by
  induction looks with
  | nil => rfl
  | cons look looks ih =>
    obtain ⟨after, early⟩ := within look (List.mem_cons_self ..)
    have kept : (decoder.standing byte place since).keepReach (Cycle.ofTime look) =
        decoder.standing byte place since := by
      by_cases idle : place = 9
      · subst idle
        unfold dueTime at early
        rw [standing_stop]
        exact keepReach_near after (by omega)
      · exact keepReach_standing (by omega) _
    rw [List.map_cons, hear, owedEdge?_early (by omega) inside after early]
    simp only [kept]
    exact ih fun look member => within look (List.mem_cons_of_mem _ member)

/-- The decoder is at rest, and its reference trails the time by an interval within bounds. -/
def Trails (base decoder : Decoder) (least most now : Int) : Prop :=
  ∃ since, decoder = base.resting since ∧ least ≤ now - since ∧ now - since ≤ most

variable {base : Decoder} {least most now : Int}

theorem trails_reset (base : Decoder) (now : Int) :
    base.Trails (base.reset (Cycle.ofTime now)) (2 ^ 30) (2 ^ 30) now :=
  ⟨now - 2 ^ 30, reset_ofTime now, by omega, by omega⟩

theorem Trails.later {less more later : Int} (trails : base.Trails decoder least most now)
    (lower : less ≤ least + (later - now)) (upper : most + (later - now) ≤ more) :
    base.Trails decoder less more later := by
  obtain ⟨since, same, above, below⟩ := trails
  exact ⟨since, same, by omega, by omega⟩

/-- Starting anew leaves nothing of where the decoder was. -/
theorem Trails.reset (trails : base.Trails decoder least most now) (cycle : Cycle) :
    decoder.reset cycle = base.reset cycle := by
  obtain ⟨since, rfl, -⟩ := trails
  rfl

/-- A poll keeps the reference of an idle line in reach, and takes it no nearer than it was or
than it is kept. -/
theorem Trails.keepReach (trails : base.Trails decoder least most now) (behind : -2 ^ 31 ≤ least)
    (within : least ≤ 2 ^ 30) (near : most < 2 ^ 32) :
    base.Trails (decoder.keepReach (Cycle.ofTime now)) least (2 ^ 30) now := by
  obtain ⟨since, rfl, above, below⟩ := trails
  by_cases reached : since ≤ now ∧ now - since ≤ 2 ^ 30
  · rw [keepReach_near reached.1 reached.2]
    exact ⟨since, rfl, above, reached.2⟩
  · rw [keepReach_beyond (by omega)]
    exact ⟨now - 2 ^ 30, rfl, by omega, by omega⟩

theorem Trails.look (trails : base.Trails decoder least most now) (positive : 0 ≤ least)
    (within : least ≤ 2 ^ 30) (near : most < 2 ^ 32) :
    ∃ after, decoder.hear [.look (Cycle.ofTime now)] = ([], after) ∧
      base.Trails after least (2 ^ 30) now := by
  have kept := trails.keepReach (by omega) within near
  obtain ⟨since, rfl, -⟩ := trails
  exact ⟨(base.resting since).keepReach (Cycle.ofTime now), rfl, kept⟩

/-- A decoder that a look leaves at rest has its reference in reach. -/
theorem trails_of_look {findings : List Finding} (now : Int)
    (heard : decoder.hear [.look (Cycle.ofTime now)] = (findings, base.resting since)) :
    base.Trails (base.resting since) 0 (2 ^ 30) now := by
  obtain ⟨before, kept⟩ : ∃ before : Decoder,
      before.keepReach (Cycle.ofTime now) = base.resting since := by
    unfold hear at heard
    split at heard
    · exact ⟨_, congrArg Prod.snd heard⟩
    · exact ⟨_, congrArg Prod.snd heard⟩
  have gone := Cycle.toNat_ofTime (now - since)
  have reached : ¬ Cycle.idleReach < Cycle.ofTime now - Cycle.ofTime since := by
    have idle : (before.keepReach (Cycle.ofTime now)).isIdle := by
      rw [kept]
      rfl
    have last : (before.keepReach (Cycle.ofTime now)).last = Cycle.ofTime since := by
      rw [kept]
      rfl
    unfold keepReach at idle last
    split at last
    · rw [← last, show ∀ cycle reach : UInt32, cycle - (cycle - reach) = reach by grind]
      exact UInt32.lt_irrefl _
    · rename_i still
      rw [if_neg still] at idle
      rw [idle, Bool.true_and, decide_eq_true_iff, last] at still
      exact still
  rw [UInt32.lt_iff_toNat_lt, ← Cycle.ofTime_sub] at reached
  have reach : Cycle.idleReach.toNat = 2 ^ 30 := rfl
  have turned : base.resting since = base.resting (now - (now - since) % 2 ^ 32) := by
    have same : Cycle.ofTime since = Cycle.ofTime (now - (now - since) % 2 ^ 32) := by
      apply UInt32.toNat_inj.mp
      have := Cycle.toNat_ofTime since
      have := Cycle.toNat_ofTime (now - (now - since) % 2 ^ 32)
      omega
    rw [resting, resting, same]
  exact ⟨_, turned, by omega, by omega⟩

end PinUart.Decoder
