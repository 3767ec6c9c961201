import Mathlib.Data.List.Induction
import PinUart.Proofs.Recovery
import PinUart.Proofs.Strides

/-! The edge that a frame owes. A frame that ends at mark gives no edge at its stop bit, and
its last bits none either while they repeat the one before. Whatever a decoder has been
through, the edge that stands in for them brings the byte that has come in, and it is not
supplied before the frame is over. -/
namespace PinUart

namespace Phase

/-- The number of data bits that are in. -/
def count : Phase → Nat
  | .idle => 0
  | .receiving count => count.val

@[simp] theorem count_idle : idle.count = 0 := rfl

@[simp] theorem count_receiving (count : Fin 9) : (receiving count).count = count.val := rfl

theorem count_le (phase : Phase) : phase.count ≤ 8 := by
  cases phase with
  | idle => exact Nat.zero_le _
  | receiving count => exact Nat.le_of_lt_succ count.isLt

/-- The data bits that are in once an edge to `mark` has taken a frame to a phase, after the
bits that were in before. Bit periods without an edge of their own repeat the last level. -/
def carry (bits : List Bool) (mark : Bool) (phase : Phase) : List Bool :=
  if phase.count = 0 then []
  else
    bits ++ List.replicate (phase.count - 1 - bits.length) (bits.getLastD false) ++ [mark]

theorem carry_receiving {bits : List Bool} {count : Fin 9} {hidden : Nat} (mark : Bool)
    (reached : count.val = bits.length + hidden + 1) :
    (receiving count).carry bits mark =
      bits ++ List.replicate hidden (bits.getLastD false) ++ [mark] := by
  rw [carry, count_receiving, if_neg (by omega),
    show count.val - 1 - bits.length = hidden by omega]

end Phase

namespace Decoder

/-- The register after bits in the order in which they came. -/
def pack (bits : List Bool) : BitVec 8 := bits.foldl shiftIn 0

@[simp] theorem pack_nil : pack [] = 0 := rfl

theorem pack_append (bits : List Bool) (bit : Bool) :
    pack (bits ++ [bit]) = shiftIn (pack bits) bit := by
  rw [pack, List.foldl_append]
  rfl

/-- The first of the bits lies lowest, as far down as there are bits after it. -/
theorem getLsbD_pack {bits : List Bool} (inside : bits.length ≤ 8) {index : Nat}
    (within : index < 8) :
    (pack bits).getLsbD index =
      (decide (8 - bits.length ≤ index) && bits[index - (8 - bits.length)]?.getD false) := by
  induction bits using List.reverseRecOn generalizing index with
  | nil => simp
  | append_singleton bits bit ih =>
    rw [List.length_append, List.length_singleton] at inside ⊢
    rw [pack_append, getLsbD_shiftIn _ _ within]
    by_cases last : index = 7
    · subst last
      rw [if_pos rfl, decide_eq_true (by omega), Bool.true_and,
        show 7 - (8 - (bits.length + 1)) = bits.length by omega,
        List.getElem?_append_right (Nat.le_refl _)]
      simp
    · rw [if_neg last, ih (by omega) (by omega)]
      by_cases reached : 8 - bits.length ≤ index + 1
      · rw [decide_eq_true reached, decide_eq_true (by omega),
          show index + 1 - (8 - bits.length) = index - (8 - (bits.length + 1)) by omega,
          List.getElem?_append_left (by omega)]
      · rw [decide_eq_false reached, decide_eq_false (by omega), Bool.false_and, Bool.false_and]

theorem msb_pack {bits : List Bool} (inside : bits.length ≤ 8) :
    (pack bits).msb = bits.getLastD false := by
  cases bits using List.reverseRecOn with
  | nil => rfl
  | append_singleton bits bit => rw [pack_append, msb_shiftIn, List.getLastD_concat]

theorem repeatLast_pack {bits : List Bool} {count : Nat} (inside : bits.length + count ≤ 8) :
    repeatLast (pack bits) count = pack (bits ++ List.replicate count (bits.getLastD false)) := by
  induction count with
  | zero => rw [repeatLast_zero, List.replicate_zero, List.append_nil]
  | succ count ih =>
    rw [repeatLast_succ _ (by omega), ih (by omega), msb_pack (by omega), List.replicate_succ',
      ← List.append_assoc, pack_append]

/-- The byte that eight bits make up. -/
def byteOf (bits : List Bool) : UInt8 := UInt8.ofBitVec (pack bits)

theorem getLsbD_byteOf {bits : List Bool} (whole : bits.length = 8) {index : Nat}
    (within : index < 8) : (byteOf bits).toBitVec.getLsbD index = bits[index]?.getD false := by
  have packed := getLsbD_pack (Nat.le_of_eq whole) within
  rw [whole, decide_eq_true (Nat.zero_le _), Bool.true_and] at packed
  exact packed

theorem bits_byteOf {bits : List Bool} (whole : bits.length = 8) :
    Frame.bits (byteOf bits) = bits := by
  apply List.ext_getElem
  · rw [Frame.length_bits, whole, dataBits]
  · intro index _ inside
    have bit := getLsbD_byteOf whole (show index < 8 by omega)
    rw [List.getElem?_eq_getElem inside, Option.getD_some] at bit
    rw [← bit]
    simp [Frame.bits, BitVec.getLsbD]

variable {decoder : Decoder} {bits : List Bool}

/-- The data bits of the frame that is going on, in the order in which they came: the number
is told by the phase, and the register holds them and nothing else. -/
structure Loads (decoder : Decoder) (bits : List Bool) : Prop where
  counted : bits.length = decoder.phase.count
  packed : decoder.register = pack bits

theorem Loads.inside (loads : decoder.Loads bits) : bits.length ≤ 8 :=
  loads.counted ▸ decoder.phase.count_le

/-- The data bits that are in after an edge; one that is no bit boundary adds none. -/
def gather (decoder : Decoder) (bits : List Bool) (edge : Edge) : List Bool :=
  let (after, finding) := decoder.sense edge
  if finding = .spurious then bits else after.phase.carry bits (edge.mark decoder.invert)

/-- The data bits that are in after a treatment. -/
def receive (decoder : Decoder) (bits : List Bool) : Treatment → List Bool
  | .decode edge _ => decoder.gather bits edge
  | .supply now _ =>
    match decoder.owedEdge? now with
    | none => bits
    | some edge => decoder.gather bits edge
  | .reset _ => []
  | .keepReach _ | .withPeriod _ => bits

def receiveAll (decoder : Decoder) (bits : List Bool) : List Treatment → List Bool
  | [] => bits
  | treatment :: treatments =>
    (decoder.treat treatment).receiveAll (decoder.receive bits treatment) treatments

@[simp] theorem count_arm (mark : Bool) : (arm mark).count = 0 := by
  cases mark <;> rfl

/-- Where no data bit is in, the register is empty. -/
theorem loads_carry_of_blank {mark : Bool} (none : decoder.phase.count = 0)
    (blank : decoder.register = 0) : decoder.Loads (decoder.phase.carry bits mark) := by
  rw [Phase.carry, if_pos none]
  exact ⟨none.symm, blank⟩

theorem loads_complete (decoder : Decoder) (register : BitVec 8) (left : Int) (mark : Bool) :
    (decoder.complete register left mark).1.Loads
      ((decoder.complete register left mark).1.phase.carry bits mark) := by
  apply loads_carry_of_blank
  · unfold complete
    dsimp only
    split
    · exact count_arm mark
    · rfl
  · rfl

/-- Hidden bits repeat the last one in the register as they do in the list. -/
theorem Loads.account (loads : decoder.Loads bits) (elapsed : Int) (mark : Bool) :
    (decoder.account elapsed mark).1.Loads
      ((decoder.account elapsed mark).1.phase.carry bits mark) := by
  have counted := loads.counted
  have packed := loads.packed
  unfold Decoder.account
  split
  · rename_i idle
    rw [idle, Phase.count_idle, List.length_eq_zero_iff] at counted
    rw [counted] at packed
    exact loads_carry_of_blank (count_arm mark) packed
  · rename_i count receiving
    rw [receiving, Phase.count_receiving] at counted
    dsimp only
    split
    · exact loads_complete _ _ _ _
    · split
      · rename_i within
        rw [Phase.carry_receiving mark (by rw [counted])]
        refine ⟨?_, ?_⟩
        · simp [counted, Nat.add_assoc]
        · dsimp only
          rw [packed, repeatLast_pack (by omega), pack_append]
      · exact loads_complete _ _ _ _

theorem Loads.gather (loads : decoder.Loads bits) (edge : Edge) :
    (decoder.sense edge).1.Loads (decoder.gather bits edge) := by
  rw [Decoder.gather]
  unfold sense
  dsimp only
  split
  · exact loads
  · have timed : { decoder with last := edge.timestamp }.Loads bits := ⟨loads.counted, loads.packed⟩
    rw [if_neg (account_ne_spurious _ _ _)]
    exact timed.account _ _

theorem Loads.receive (loads : decoder.Loads bits) (treatment : Treatment) :
    (decoder.treat treatment).Loads (decoder.receive bits treatment) := by
  cases treatment with
  | decode edge bytes =>
    rw [treat, decode_eq]
    exact loads.gather edge
  | supply now bytes =>
    unfold treat Decoder.receive
    dsimp only
    cases decoder.owedEdge? now with
    | none => exact loads
    | some edge =>
      dsimp only
      rw [decode_eq]
      exact loads.gather edge
  | reset now => exact ⟨rfl, rfl⟩
  | keepReach now =>
    rw [treat, Decoder.keepReach]
    split
    · exact ⟨loads.counted, loads.packed⟩
    · exact loads
  | withPeriod bitPeriod => exact ⟨loads.counted, loads.packed⟩

theorem Loads.receiveAll (loads : decoder.Loads bits) (treatments : List Treatment) :
    (decoder.treatAll treatments).Loads (decoder.receiveAll bits treatments) := by
  induction treatments generalizing decoder bits with
  | nil => exact loads
  | cons treatment treatments ih => exact ih (loads.receive treatment)

theorem loads_create (bitPeriod : UInt32) (invert : Bool) : (create bitPeriod invert).Loads [] :=
  ⟨rfl, rfl⟩

/-- The byte that comes of the bits that are in, when the level that came last goes on. -/
def prolong (bits : List Bool) (last : Bool) : UInt8 :=
  byteOf (bits ++ List.replicate (8 - bits.length) last)

theorem bits_prolong {bits : List Bool} (inside : bits.length ≤ 8) (last : Bool) :
    Frame.bits (prolong bits last) = bits ++ List.replicate (8 - bits.length) last :=
  bits_byteOf (by rw [List.length_append, List.length_replicate]; omega)

theorem getLsbD_prolong {bits : List Bool} (inside : bits.length ≤ 8) (last : Bool) {index : Nat}
    (within : index < 8) :
    (prolong bits last).toBitVec.getLsbD index = bits[index]?.getD last := by
  rw [prolong, getLsbD_byteOf (by rw [List.length_append, List.length_replicate]; omega) within]
  by_cases early : index < bits.length
  · rw [List.getElem?_append_left early, List.getElem?_eq_getElem early]
    rfl
  · rw [List.getElem?_append_right (by omega), List.getElem?_replicate, if_pos (by omega),
      List.getElem?_eq_none (by omega)]
    rfl

theorem loaded_prolong {bits : List Bool} (inside : bits.length ≤ 8) (last : Bool) :
    loaded (prolong bits last) bits.length = pack bits := by
  apply BitVec.eq_of_getLsbD_eq
  intro index within
  rw [getLsbD_loaded _ _ within, getLsbD_pack inside within]
  by_cases reached : 8 - bits.length ≤ index
  · rw [getLsbD_prolong inside last (by omega), List.getElem?_eq_getElem (by omega)]
    rfl
  · rw [decide_eq_false reached, Bool.false_and, Bool.false_and]

/-- The level that came last lasts to the end of the frame. -/
theorem steady_prolong {bits : List Bool} {last : Bool} (inside : bits.length ≤ 8)
    (latest : bits.getLast? = some last) :
    Steady (prolong bits last) bits.length (9 - bits.length) := by
  have some_bit : 1 ≤ bits.length := by
    cases bits with
    | nil => cases latest
    | cons => exact Nat.succ_pos _
  have data : ∀ later, bits.length ≤ later → later < 9 →
      Frame.level (prolong bits last) later = last := by
    intro later after before
    obtain ⟨place, rfl⟩ := Nat.exists_eq_add_of_le' (Nat.le_trans some_bit after)
    rw [Frame.level_data _ (by omega), getLsbD_prolong inside last (by omega)]
    by_cases final : place + 1 = bits.length
    · rw [List.getLast?_eq_getElem?, ← final, Nat.add_sub_cancel] at latest
      rw [latest, Option.getD_some]
    · rw [List.getElem?_eq_none (by omega), Option.getD_none]
  intro later after before
  rw [data later after (by omega), data _ (Nat.le_refl _) (by omega)]

/-- In the middle of a frame a decoder stands in the frame of the byte that comes of it. -/
theorem Loads.eq_standing (loads : decoder.Loads bits) (within : 1 ≤ bits.length) (last : Bool) :
    decoder = decoder.standing (prolong bits last) bits.length decoder.last.toNat := by
  have packed := loads.packed
  have counted := loads.counted
  have inside := loads.inside
  have phase : decoder.phase = .receiving ⟨bits.length, by omega⟩ := by
    cases receiving : decoder.phase with
    | idle =>
      rw [receiving, Phase.count_idle] at counted
      omega
    | receiving count =>
      rw [receiving, Phase.count_receiving] at counted
      exact congrArg Phase.receiving (Fin.ext counted.symm)
  rw [Decoder.standing, dif_pos (by omega), if_pos (by omega), loaded_prolong inside, ← packed,
    ← phase, Cycle.ofTime_toNat]

theorem Loads.cursor (loads : decoder.Loads bits)
    (unfinished : decoder.cursor ≤ 7) : (bits.length : Int) = decoder.cursor + 1 := by
  rw [loads.counted]
  unfold Decoder.cursor at unfinished ⊢
  cases phase : decoder.phase with
  | idle =>
    rw [phase] at unfinished
    exact absurd unfinished (by decide)
  | receiving count =>
    rw [Phase.cursor, Phase.count_receiving]
    omega

/-- The edge that a frame owes is supplied from the end of its stop bit on. -/
theorem Loads.owedEdge?_iff (loads : decoder.Loads bits) (within : 1 ≤ bits.length)
    (near : 11 * decoder.period < 2 ^ 32) (now : Cycle) :
    (decoder.owedEdge? now).isSome ↔
      (11 - bits.length) * decoder.period ≤ (now - decoder.last).toNat := by
  have inside := loads.inside
  have stamp := Cycle.eq_ofTime_add_sub decoder.last now
  have gone : (now - decoder.last).toNat < 2 ^ 32 := (now - decoder.last).toNat_lt
  generalize (now - decoder.last).toNat = ahead at stamp gone ⊢
  rw [loads.eq_standing within false, period_standing, stamp]
  by_cases due : (11 - bits.length) * decoder.period ≤ ahead
  · rw [owedEdge?_due near within inside (by unfold dueTime; omega) (by omega)]
    exact iff_of_true rfl due
  · rw [owedEdge?_early near (by omega) (by omega) (by unfold dueTime; omega)]
    exact iff_of_false Bool.false_ne_true due

/-- The supplied edge completes the byte and leaves the decoder at rest. -/
theorem Loads.sense_owed {last : Bool} (loads : decoder.Loads bits)
    (latest : bits.getLast? = some last) (near : 10 * decoder.period < 2 ^ 31 - 1) {now : Cycle}
    {edge : Edge} (owed : decoder.owedEdge? now = some edge) :
    ∃ since, decoder.sense edge = (decoder.resting since, .completed (prolong bits last)) := by
  have inside := loads.inside
  have positive := decoder.period_pos
  have within : 1 ≤ bits.length := List.length_pos_of_mem (List.mem_of_getLast? latest)
  have span : (11 - bits.length : Int) * decoder.period ≤ 10 * decoder.period :=
    Int.mul_le_mul_of_nonneg_right (by omega) (by omega)
  have due := (loads.owedEdge?_iff within (by omega) now).mp (Option.isSome_of_eq_some owed)
  have gone := (now - decoder.last).toNat_lt
  rw [loads.eq_standing within last, Cycle.eq_ofTime_add_sub decoder.last now,
    owedEdge?_due (by omega) within inside (by unfold dueTime; omega) (by omega)] at owed
  have closed := @Decoder.sense_owed decoder _ _ decoder.last.toNat (by omega) inside
    (steady_prolong inside latest)
  rw [Option.some.inj owed, ← loads.eq_standing within last] at closed
  exact ⟨_, closed⟩

/-- Whatever a decoder has been through, a frame that waits for its end gets the edge that it
owes exactly from the end of its stop bit on. That edge brings one byte, of the data bits that
are in and of the last of them over again, and nothing more is owed after it. -/
theorem treated_completes_owed {bitPeriod : UInt32} {invert : Bool} {treatments : List Treatment}
    {decoder : Decoder} {bits : List Bool}
    (treated : decoder = (create bitPeriod invert).treatAll treatments)
    (received : bits = (create bitPeriod invert).receiveAll [] treatments)
    (begun : 0 ≤ decoder.cursor) (unfinished : decoder.cursor ≤ 7)
    (near : 10 * decoder.period < 2 ^ 31 - 1) :
    bits.length = decoder.cursor + 1 ∧
      (∀ now, (decoder.owedEdge? now).isSome ↔
        (10 - decoder.cursor) * decoder.period ≤ (now - decoder.last).toNat) ∧
      ∃ byte last, bits.getLast? = some last ∧
        Frame.bits byte = bits ++ List.replicate (8 - bits.length) last ∧
        ∀ now edge, decoder.owedEdge? now = some edge → ∀ bytes,
          let (outcome, after, stored) := decoder.decode edge bytes
          outcome = (if bytes.isFull then { dropped := 1 } else { stored := 1 }) ∧
            stored.toList = (if bytes.isFull then bytes.toList else bytes.toList ++ [byte]) ∧
            after.isIdle ∧ ∀ later, after.owedEdge? later = none := by
  have loads : decoder.Loads bits := by
    rw [treated, received]
    exact (loads_create bitPeriod invert).receiveAll treatments
  have counted := loads.cursor unfinished
  have within : 1 ≤ bits.length := by omega
  refine ⟨counted, fun now => ?_, ?_⟩
  · rw [loads.owedEdge?_iff within (by omega), show (11 - bits.length : Int) = 10 - decoder.cursor
      by omega]
  · obtain ⟨last, latest⟩ :=
      Option.isSome_iff_exists.mp (List.getLast?_isSome.mpr (List.ne_nil_of_length_pos within))
    refine ⟨prolong bits last, last, latest, bits_prolong loads.inside last, ?_⟩
    intro now edge owed bytes
    obtain ⟨since, closed⟩ := loads.sense_owed latest near owed
    have full : bytes.isFull ↔ ¬ bytes.size + 1 < bytes.capacity := by
      have := bytes.size_lt
      rw [bytes.isFull_iff]
      omega
    rw [decode_eq, closed, ByteRing.store_completed]
    simp only [full, ite_not, Ring.toList_push]
    exact ⟨trivial, trivial, rfl, owedEdge?_resting⟩

/-- The frame that noise has interrupted has three bits in, two of which were hidden. -/
theorem interrupted_completes_owed :
    let decoder := (create 100 false).treatAll interruption
    (create 100 false).receiveAll [] interruption = [false, false, true] ∧
      decoder.owedEdge? 2099 = none ∧
      ∃ edge byte, decoder.owedEdge? 2100 = some edge ∧
        Frame.bits byte = [false, false, true, true, true, true, true, true] ∧
        let (outcome, after, stored) := decoder.decode edge (Ring.empty 2 0)
        outcome = { stored := 1 } ∧ stored.toList = [byte] ∧ after.isIdle := by
  have owing := @treated_completes_owed 100 false interruption _ _ rfl rfl (by decide) (by decide)
    (by decide)
  obtain ⟨-, due, byte, last, latest, whole, supplied⟩ := owing
  obtain ⟨edge, owed⟩ := Option.isSome_iff_exists.mp ((due 2100).mpr (by decide))
  have early := (due 2099).not.mpr (by decide)
  obtain ⟨outcome, stored, idle, -⟩ := supplied 2100 edge owed (Ring.empty 2 0)
  have last : last = true := Option.some.inj latest.symm
  subst last
  exact ⟨rfl, Option.not_isSome_iff_eq_none.mp early, edge, byte, owed, whole, outcome, stored,
    idle⟩

end Decoder
end PinUart
