import Mathlib.Algebra.Ring.Nat
import PinUart.Decoder
import PinUart.Ring.View

/-! A decoder that watches a line: edges come in, and between them the owner looks
at the clock. What is found does not depend on the byte ring, and the ring takes
the completed bytes in order for as long as there is room. -/
namespace PinUart

/-- Something that a decoder is shown: an edge, or the time of a poll. -/
inductive Sight
  | edge (edge : Edge)
  | look (now : Cycle)

/-- The byte that a finding brings, if any. -/
def Finding.byte? : Finding → Option UInt8
  | .completed byte => some byte
  | _ => none

/-- The bytes that were completed, in order. -/
def completions (findings : List Finding) : List UInt8 := findings.filterMap Finding.byte?

@[simp] theorem completions_nil : completions [] = [] := rfl

@[simp] theorem completions_append (earlier later : List Finding) :
    completions (earlier ++ later) = completions earlier ++ completions later :=
  List.filterMap_append ..

theorem completions_cons (finding : Finding) (later : List Finding) :
    completions (finding :: later) = completions [finding] ++ completions later :=
  completions_append [finding] later

@[simp] theorem completions_spurious (findings : List Finding) :
    completions (.spurious :: findings) = completions findings := rfl

@[simp] theorem completions_progress (findings : List Finding) :
    completions (.progress :: findings) = completions findings := rfl

@[simp] theorem completions_completed (byte : UInt8) (findings : List Finding) :
    completions (.completed byte :: findings) = byte :: completions findings := rfl

namespace ByteRing

/-- Puts a completed byte into the ring. -/
def store (bytes : ByteRing) : Finding → Outcome × ByteRing
  | .spurious => ({ spurious := true }, bytes)
  | .progress => ({}, bytes)
  | .completed byte =>
    match bytes.push byte with
    | (true, bytes) => ({ stored := 1 }, bytes)
    | (false, bytes) => ({ dropped := 1 }, bytes)

def storeAll (bytes : ByteRing) : List Finding → List Outcome × ByteRing
  | [] => ([], bytes)
  | finding :: findings =>
    let (outcome, bytes) := bytes.store finding
    let (outcomes, bytes) := bytes.storeAll findings
    (outcome :: outcomes, bytes)

theorem store_completed (bytes : ByteRing) (byte : UInt8) :
    bytes.store (.completed byte) =
      (if bytes.size + 1 < bytes.capacity then { stored := 1 } else { dropped := 1 },
        (bytes.push byte).2) := by
  have accepted := bytes.push_fst byte
  rw [store]
  split
  · rename_i whole
    rw [whole] at accepted
    simp [of_decide_eq_true accepted.symm, whole]
  · rename_i whole
    rw [whole] at accepted
    simp [of_decide_eq_false accepted.symm, whole]

theorem capacity_storeAll (bytes : ByteRing) (findings : List Finding) :
    (bytes.storeAll findings).2.capacity = bytes.capacity := by
  induction findings generalizing bytes with
  | nil => rfl
  | cons finding findings ih =>
    cases finding with
    | spurious => exact ih bytes
    | progress => exact ih bytes
    | completed byte => rw [storeAll, store_completed, ih, Ring.capacity_push]

theorem spurious_storeAll (bytes : ByteRing) (findings : List Finding) :
    (bytes.storeAll findings).1.map (·.spurious) = findings.map (· == .spurious) := by
  induction findings generalizing bytes with
  | nil => rfl
  | cons finding findings ih =>
    cases finding with
    | spurious => simp [storeAll, store, ih]
    | progress => simp [storeAll, store, ih]
    | completed byte =>
      rw [storeAll, store_completed, List.map_cons, List.map_cons, ih]
      split <;> rfl

/-- The ring keeps what it had and then the first completed bytes that fit. -/
theorem toList_storeAll (bytes : ByteRing) (findings : List Finding) :
    (bytes.storeAll findings).2.toList =
      (bytes.toList ++ completions findings).take (bytes.capacity - 1) := by
  have filled : bytes.toList.length ≤ bytes.capacity - 1 := by
    have := bytes.size_lt
    rw [Ring.length_toList]
    omega
  induction findings generalizing bytes with
  | nil =>
    rw [completions_nil, List.append_nil, List.take_of_length_le filled]
    rfl
  | cons finding findings ih =>
    cases finding with
    | spurious => exact ih bytes filled
    | progress => exact ih bytes filled
    | completed byte =>
      have pushed := bytes.toList_push byte
      have bound := (bytes.push byte).2.size_lt
      rw [Ring.capacity_push] at bound
      rw [storeAll, store_completed, ih _ (by rw [Ring.length_toList, Ring.capacity_push]; omega),
        Ring.capacity_push, completions_completed, pushed]
      split
      · rw [List.append_assoc, List.singleton_append]
      · rename_i full
        have size := bytes.length_toList
        rw [List.take_append_of_le_length (by omega), List.take_append_of_le_length (by omega)]

/-- Every completed byte is counted once, as stored or as dropped. -/
theorem counts_storeAll (bytes : ByteRing) (findings : List Finding) :
    ((bytes.storeAll findings).1.map (·.stored)).sum =
        min (completions findings).length (bytes.capacity - 1 - bytes.size) ∧
      ((bytes.storeAll findings).1.map (·.dropped)).sum =
        (completions findings).length - (bytes.capacity - 1 - bytes.size) := by
  induction findings generalizing bytes with
  | nil => simp [storeAll]
  | cons finding findings ih =>
    cases finding with
    | spurious => simpa [storeAll, store] using ih bytes
    | progress => simpa [storeAll, store] using ih bytes
    | completed byte =>
      obtain ⟨stored, dropped⟩ := ih (bytes.push byte).2
      have grown := congrArg List.length (bytes.toList_push byte)
      have bound := bytes.size_lt
      simp only [Ring.length_toList, Ring.capacity_push] at stored dropped grown
      rw [storeAll, store_completed]
      simp only [List.map_cons, List.sum_cons, stored, dropped, completions_completed,
        List.length_cons, grown]
      split <;> simp <;> omega

end ByteRing

namespace Decoder

/-- What a decoder finds in the sights it is shown. -/
def hear (decoder : Decoder) : List Sight → List Finding × Decoder
  | [] => ([], decoder)
  | .edge edge :: sights =>
    let (decoder, finding) := decoder.sense edge
    let (findings, decoder) := decoder.hear sights
    (finding :: findings, decoder)
  | .look now :: sights =>
    match decoder.owedEdge? now with
    | none => (decoder.keepReach now).hear sights
    | some edge =>
      let (decoder, finding) := decoder.sense edge
      let (findings, decoder) := (decoder.keepReach now).hear sights
      (finding :: findings, decoder)

/-- Shows a decoder the sights, one after the other, with a ring for its bytes. A
look is a poll; the outcomes are those of all edges, the owed ones included. -/
def observe (decoder : Decoder) (bytes : ByteRing) :
    List Sight → List Outcome × Decoder × ByteRing
  | [] => ([], decoder, bytes)
  | .edge edge :: sights =>
    let (outcome, decoder, bytes) := decoder.decode edge bytes
    let (outcomes, decoder, bytes) := decoder.observe bytes sights
    (outcome :: outcomes, decoder, bytes)
  | .look now :: sights =>
    match decoder.owedEdge? now with
    | none => (decoder.keepReach now).observe bytes sights
    | some edge =>
      let (outcome, decoder, bytes) := decoder.decode edge bytes
      let (outcomes, decoder, bytes) := (decoder.keepReach now).observe bytes sights
      (outcome :: outcomes, decoder, bytes)

theorem hear_append (decoder : Decoder) (earlier later : List Sight) :
    decoder.hear (earlier ++ later) =
      ((decoder.hear earlier).1 ++ ((decoder.hear earlier).2.hear later).1,
        ((decoder.hear earlier).2.hear later).2) := by
  induction earlier generalizing decoder with
  | nil => rfl
  | cons sight sights ih =>
    cases sight with
    | edge edge => simp only [List.cons_append, hear, ih]
    | look now =>
      simp only [List.cons_append, hear]
      split <;> simp only [ih, List.cons_append]

theorem decode_eq (decoder : Decoder) (edge : Edge) (bytes : ByteRing) :
    decoder.decode edge bytes =
      ((bytes.store (decoder.sense edge).2).1, (decoder.sense edge).1,
        (bytes.store (decoder.sense edge).2).2) := by
  rw [decode]
  split
  · rename_i whole
    rw [whole]
    rfl
  · rename_i whole
    rw [whole]
    rfl
  · rename_i next byte whole
    simp only [whole, ByteRing.store]
    cases bytes.push byte with
    | mk accepted stored => cases accepted <;> rfl

/-- The ring only stores what the decoder finds. -/
theorem observe_eq (decoder : Decoder) (bytes : ByteRing) (sights : List Sight) :
    decoder.observe bytes sights =
      ((bytes.storeAll (decoder.hear sights).1).1, (decoder.hear sights).2,
        (bytes.storeAll (decoder.hear sights).1).2) := by
  induction sights generalizing decoder bytes with
  | nil => rfl
  | cons sight sights ih =>
    cases sight with
    | edge edge => simp only [observe, hear, decode_eq, ih, ByteRing.storeAll]
    | look now =>
      simp only [observe, hear]
      split <;> simp only [decode_eq, ih, ByteRing.storeAll]

/-- Decoding edges and then polling shows the decoder those edges and one look. -/
theorem decodeAll_eq (decoder : Decoder) (bytes : ByteRing) (edges : List Edge) :
    decoder.decodeAll bytes edges =
      (((decoder.observe bytes (edges.map .edge)).1.map (·.dropped)).sum,
        (decoder.observe bytes (edges.map .edge)).2) := by
  induction edges generalizing decoder bytes with
  | nil => rfl
  | cons edge edges ih => simp only [decodeAll, ih, List.map_cons, observe, List.sum_cons]

theorem poll_eq (decoder : Decoder) (now : Cycle) (bytes : ByteRing) :
    decoder.poll now bytes =
      (((decoder.observe bytes [.look now]).1.map (·.dropped)).sum,
        (decoder.observe bytes [.look now]).2) := by
  simp only [poll, observe]
  cases decoder.owedEdge? now with
  | none => rfl
  | some edge => simp

end Decoder
end PinUart
