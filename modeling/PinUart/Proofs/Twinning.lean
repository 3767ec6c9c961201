import PinUart.Port.Reception
import PinUart.Proofs.Likeness

/-! Ports that nobody can tell apart. They differ in the places of their bytes, and before they
are started also in what is left over from an earlier session. Polled, they find the same. -/
namespace PinUart

/-- Decoding puts the same bytes into rings that are alike. -/
theorem Decoder.alike_decodeAll {one other : ByteRing} (alike : Ring.Alike one other)
    (decoder : Decoder) (edges : List Edge) :
    ∃ dropped after kept twin, decoder.decodeAll one edges = (dropped, after, kept) ∧
      decoder.decodeAll other edges = (dropped, after, twin) ∧ Ring.Alike kept twin := by
  obtain ⟨same, next, stored⟩ := decoder.alike_observe alike (edges.map .edge)
  rw [decodeAll_eq, decodeAll_eq, same]
  exact ⟨_, _, _, _, rfl, by rw [← next], stored⟩

theorem Decoder.alike_poll {one other : ByteRing} (alike : Ring.Alike one other)
    (decoder : Decoder) (now : Cycle) :
    ∃ dropped after kept twin, decoder.poll now one = (dropped, after, kept) ∧
      decoder.poll now other = (dropped, after, twin) ∧ Ring.Alike kept twin := by
  obtain ⟨same, next, stored⟩ := decoder.alike_observe alike [.look now]
  rw [poll_eq, poll_eq, same]
  exact ⟨_, _, _, _, rfl, by rw [← next], stored⟩

/-- The same capture, and bytes that are alike. Of stale ones only the room counts. -/
structure Reception.Alike (stale : Prop) (one other : Reception) : Prop where
  capture : other.capture = one.capture
  room : other.bytes.capacity = one.bytes.capacity
  bytes : ¬ stale → Ring.Alike one.bytes other.bytes

namespace Port

/-- The port as it is with something else left over in its receiver. -/
def leave (port : Port) (reception : Option Reception) (decoder : Decoder) (losses : Losses) :
    Port :=
  { port with reception, decoder, losses }

/-- Nothing differs but what is left over in the receiver, and that only shows if a capture
is spared. -/
inductive Alike (spared : Option Nat) (one : Port) : Port → Prop
  | intro {reception : Option Reception} {decoder : Decoder} {losses : Losses}
      (alike : Option.Rel (Reception.Alike (spared ≠ none)) one.reception reception)
      (invert : decoder.invert = one.decoder.invert)
      (fresh : spared = none → decoder = one.decoder ∧ losses = one.losses) :
      Alike spared one (one.leave reception decoder losses)

variable {spared : Option Nat} {one other : Port}

theorem Alike.same {β : Type} (alike : Alike spared one other) (field : Port → β)
    (blind : ∀ port reception decoder losses,
      field (port.leave reception decoder losses) = field port) : field other = field one := by
  cases alike
  exact blind ..

theorem Alike.refl (port : Port) : Alike none port port := by
  refine @Alike.intro none port port.reception port.decoder port.losses ?_ rfl fun _ => ⟨rfl, rfl⟩
  cases port.reception with
  | none => exact .none
  | some reception => exact .some ⟨rfl, rfl, fun _ => .refl _⟩

theorem Alike.decoder (alike : Alike none one other) : other.decoder = one.decoder := by
  obtain ⟨-, -, fresh⟩ := alike
  exact (fresh rfl).1

theorem Alike.losses (alike : Alike none one other) : other.losses = one.losses := by
  obtain ⟨-, -, fresh⟩ := alike
  exact (fresh rfl).2

/-- Receptions go in pairs. -/
theorem Alike.reception (alike : Alike spared one other) :
    (one.reception = none ∧ other.reception = none) ∨
      ∃ reception twin, one.reception = some reception ∧ other.reception = some twin ∧
        reception.Alike (spared ≠ none) twin := by
  cases alike with
  | @intro reception decoder losses alike =>
    unfold leave
    dsimp only
    generalize one.reception = first at alike ⊢
    cases alike with
    | none => exact .inl ⟨rfl, rfl⟩
    | some like => exact .inr ⟨_, _, rfl, rfl, like⟩

/-- What leaves the receiver alone keeps ports alike. -/
theorem Alike.map (alike : Alike spared one other) (act : Port → Port)
    (blind : ∀ port reception decoder losses, act (port.leave reception decoder losses) =
      (act port).leave reception decoder losses) : Alike spared (act one) (act other) := by
  cases alike with
  | @intro reception decoder losses alike invert fresh =>
    have own : act one = (act one).leave one.reception one.decoder one.losses :=
      blind one one.reception one.decoder one.losses
    have kept : (act one).reception = one.reception := (congrArg Port.reception own :)
    have same : (act one).decoder = one.decoder := (congrArg Port.decoder own :)
    have told : (act one).losses = one.losses := (congrArg Port.losses own :)
    rw [blind]
    refine .intro (kept ▸ alike) (same ▸ invert) ?_
    rw [same, told]
    exact fresh

/-- Two ports that are alike, on machines that are. -/
structure Twins (spared : Option Nat) (one other : Port × Machine) : Prop where
  port : Alike spared one.1 other.1
  machine : one.2.Alike spared other.2

structure Agrees {β : Type} (spared : Option Nat) (one other : β × Port × Machine) : Prop where
  answer : other.1 = one.1
  twins : Twins spared one.2 other.2

theorem Twins.split {one other : Port × Machine} (twins : Twins spared one other) :
    ∃ port twin before after, one = (port, before) ∧ other = (twin, after) ∧
      Twins spared (port, before) (twin, after) :=
  ⟨_, _, _, _, rfl, rfl, twins⟩

theorem Agrees.split {β : Type} {one other : β × Port × Machine}
    (agrees : Agrees spared one other) :
    ∃ answer port twin before after, one = (answer, port, before) ∧
      other = (answer, twin, after) ∧ Twins spared (port, before) (twin, after) :=
  ⟨one.1, one.2.1, other.2.1, one.2.2, other.2.2, rfl, Prod.ext agrees.answer rfl, agrees.twins⟩

theorem Agrees.told {β : Type} {one other : β × Port × Machine} (agrees : Agrees spared one other)
    (tell : β → Answer) : Agrees spared (tell one.1, one.2) (tell other.1, other.2) :=
  ⟨congrArg tell agrees.answer, agrees.twins⟩

variable {before after : Machine}

theorem Twins.warn (twins : Twins none (one, before) (other, after)) (text : String) :
    Twins none (one.warn before text) (other.warn after text) := by
  obtain ⟨port, machine⟩ := twins
  have throttle : other.throttle = one.throttle := port.same (·.throttle) fun _ _ _ _ => rfl
  have uptime : after.uptime = before.uptime := by
    cases machine
    rfl
  have verdict : other.throttle.warn after.uptime text = one.throttle.warn before.uptime text := by
    rw [throttle, uptime]
  unfold Port.warn
  rw [verdict]
  generalize one.throttle.warn before.uptime text = result
  obtain ⟨throttle, lines⟩ := result
  exact ⟨port.map ({ · with throttle }) fun _ _ _ _ => rfl,
    machine.map (fun machine => { machine with log := machine.log ++ lines }) fun _ _ => rfl⟩

theorem Alike.isSome_reception (alike : Alike spared one other) :
    other.reception.isSome = one.reception.isSome := by
  obtain ⟨first, second⟩ | ⟨reception, twin, first, second, like⟩ := alike.reception
  · rw [first, second]
  · rw [first, second]
    rfl

theorem Alike.withLosses (alike : Alike none one other) (losses : Losses) :
    Alike none { one with losses } { other with losses } := by
  cases alike with
  | intro alike invert fresh => exact .intro alike invert fun own => ⟨(fresh own).1, rfl⟩

theorem Alike.withDecoder (alike : Alike none one other) (decoder : Decoder) :
    Alike none { one with decoder } { other with decoder } := by
  cases alike with
  | intro alike invert fresh => exact .intro alike rfl fun own => ⟨rfl, (fresh own).2⟩

theorem Alike.withBytes (alike : Alike none one other) (capture : Nat) {kept twin : ByteRing}
    (bytes : Ring.Alike kept twin) :
    Alike none { one with reception := some ⟨capture, kept⟩ }
      { other with reception := some ⟨capture, twin⟩ } := by
  cases alike with
  | @intro _ decoder losses alike invert fresh =>
    exact @Alike.intro none { one with reception := some ⟨capture, kept⟩ } (some ⟨capture, twin⟩)
      decoder losses (.some ⟨rfl, bytes.room, fun _ => bytes⟩) invert fresh

theorem Twins.noteLostEdges (twins : Twins none (one, before) (other, after)) (capture : Nat) :
    Twins none (one.noteLostEdges before capture) (other.noteLostEdges after capture) := by
  obtain ⟨port, machine⟩ := twins
  obtain ⟨lost, next, twin, first, second, taken⟩ := (machine.takeLost capture).split
  unfold Port.noteLostEdges
  rw [first, second, port.losses]
  cases lost with
  | false => exact ⟨port, taken⟩
  | true => exact Twins.warn ⟨port.withLosses _, taken⟩ _

theorem Twins.noteDroppedBytes (twins : Twins none (one, before) (other, after)) (dropped : Nat) :
    Twins none (one.noteDroppedBytes before dropped) (other.noteDroppedBytes after dropped) := by
  obtain ⟨port, machine⟩ := twins
  have losses : other.losses = one.losses := port.losses
  unfold Port.noteDroppedBytes
  rw [losses]
  split
  · exact ⟨port, machine⟩
  · exact Twins.warn ⟨port.withLosses { one.losses with byte := true }, machine⟩ _

/-- Both decode the same. -/
theorem Twins.collect (twins : Twins none (one, before) (other, after)) :
    Twins none (one.collect before) (other.collect after) := by
  unfold Port.collect
  obtain ⟨first, second⟩ | ⟨reception, twin, first, second, like⟩ := twins.port.reception
  · rw [first, second]
    exact twins
  · rw [first, second]
    dsimp only
    rw [like.capture]
    obtain ⟨port, double, next, later, noted, notedToo, twins⟩ :=
      (twins.noteLostEdges reception.capture).split
    obtain ⟨refused, decoder, kept, keptToo, decoded, decodedToo, bytes⟩ :=
      port.decoder.alike_decodeAll (like.bytes (by simp)) (next.queued reception.capture)
    have emptied := twins.machine.changeQueue reception.capture fun like => like.discard
    obtain ⟨now, read, readToo, clock, clockToo, machine⟩ := emptied.readClock.split
    obtain ⟨late, final, stored, storedToo, polled, polledToo, alike⟩ :=
      decoder.alike_poll bytes now
    rw [noted, notedToo]
    dsimp only
    rw [twins.machine.queued, twins.port.decoder, decoded, decodedToo]
    dsimp only
    rw [clock, clockToo]
    dsimp only
    rw [polled, polledToo]
    dsimp only
    exact Twins.noteDroppedBytes
      ⟨(twins.port.withBytes reception.capture alike).withDecoder final, machine⟩ _

theorem Alike.buffered (alike : Alike none one other) : other.buffered = one.buffered := by
  unfold Port.buffered
  obtain ⟨first, second⟩ | ⟨reception, twin, first, second, like⟩ := alike.reception
  · rw [first, second]
  · rw [first, second]
    exact (like.bytes (by simp)).size

theorem Twins.patienceMicros (twins : Twins none (one, before) (other, after)) :
    other.patienceMicros after = one.patienceMicros before := by
  have rate : after.rate = before.rate := twins.machine.rate
  unfold Port.patienceMicros Machine.perMicrosecond
  rw [show other.decoder = one.decoder from twins.port.decoder, rate]

theorem Twins.available (twins : Twins none (one, before) (other, after)) :
    Agrees none (one.available before) (other.available after) := by
  have deaf : other.reception.isNone = one.reception.isNone := by
    rw [← Option.not_isSome, ← Option.not_isSome, twins.port.isSome_reception]
  unfold Port.available
  rw [deaf]
  split
  · exact ⟨rfl, twins⟩
  · obtain ⟨port, twin, between, betweenToo, first, second, collected⟩ := twins.collect.split
    rw [first, second]
    dsimp only
    rw [collected.port.buffered, collected.patienceMicros]
    split
    · have slept : Twins none (port, between.sleep (port.patienceMicros between))
          (twin, betweenToo.sleep (port.patienceMicros between)) :=
        ⟨collected.port, collected.machine.onBoard (·.sleep _)⟩
      exact ⟨slept.collect.port.buffered, slept.collect⟩
    · exact ⟨rfl, collected⟩

theorem Alike.takeByte (alike : Alike none one other) :
    other.takeByte.1 = one.takeByte.1 ∧ Alike none one.takeByte.2 other.takeByte.2 := by
  unfold Port.takeByte
  obtain ⟨first, second⟩ | ⟨reception, twin, first, second, like⟩ := alike.reception
  · rw [first, second]
    exact ⟨rfl, alike⟩
  · rw [first, second]
    have popped := (like.bytes (by simp)).pop?
    refine ⟨popped.1, ?_⟩
    dsimp only
    rw [like.capture]
    exact alike.withBytes reception.capture popped.2

theorem Twins.read (twins : Twins none (one, before) (other, after)) :
    Agrees none (one.read before) (other.read after) := by
  have looked : Twins none (if one.buffered = 0 then one.collect before else (one, before))
      (if one.buffered = 0 then other.collect after else (other, after)) := by
    split
    · exact twins.collect
    · exact twins
  have filled : other.buffered = one.buffered := twins.port.buffered
  unfold Port.read
  rw [filled]
  obtain ⟨port, twin, between, betweenToo, first, second, twins⟩ := looked.split
  rw [first, second]
  obtain ⟨same, taken⟩ := twins.port.takeByte
  exact ⟨same, taken, twins.machine⟩

theorem Twins.peek (twins : Twins none (one, before) (other, after)) :
    Agrees none (one.peek before) (other.peek after) := by
  refine ⟨?_, twins.collect⟩
  unfold Port.peek
  obtain ⟨first, second⟩ | ⟨reception, twin, first, second, like⟩ := twins.collect.port.reception
  · dsimp only
    rw [first, second]
  · dsimp only
    rw [first, second]
    exact (like.bytes (by simp)).peek?

theorem Twins.drainWith (twins : Twins none (one, before) (other, after)) (fuel : Nat) :
    Agrees none (one.drainWith before fuel) (other.drainWith after fuel) := by
  induction fuel generalizing one other before after with
  | zero => exact ⟨rfl, twins⟩
  | succ fuel ih =>
    obtain ⟨count, port, twin, between, betweenToo, first, second, counted⟩ := twins.available.split
    unfold Port.drainWith
    rw [first, second]
    dsimp only
    split
    · exact ⟨rfl, counted⟩
    · obtain ⟨byte, port, twin, between, betweenToo, first, second, taken⟩ := counted.read.split
      rw [first, second]
      dsimp only
      obtain ⟨rest, drained⟩ := ih taken
      exact ⟨congrArg (byte.toList ++ ·) rest, drained⟩

theorem Twins.drain (twins : Twins none (one, before) (other, after)) :
    Agrees none (one.drain before) (other.drain after) := by
  have bound : other.drainBound after = one.drainBound before := by
    unfold Port.drainBound
    obtain ⟨first, second⟩ | ⟨reception, twin, first, second, like⟩ := twins.port.reception
    · rw [first, second]
    · rw [first, second]
      dsimp only
      rw [like.capture, twins.machine.queued, (like.bytes (by simp)).size]
  unfold Port.drain
  rw [bound]
  exact twins.drainWith _

theorem Twins.reset (twins : Twins none (one, before) (other, after)) :
    Twins none ({ one with decoder := one.decoder.reset before.readClock.1 }, before.readClock.2)
      ({ other with decoder := other.decoder.reset after.readClock.1 }, after.readClock.2) := by
  obtain ⟨same, read⟩ := twins.machine.readClock
  refine ⟨?_, read⟩
  dsimp only
  rw [same, show other.decoder = one.decoder from twins.port.decoder]
  exact twins.port.withDecoder _

theorem Twins.flush (twins : Twins none (one, before) (other, after)) :
    Twins none (one.flush before) (other.flush after) := by
  unfold Port.flush
  obtain ⟨first, second⟩ | ⟨reception, twin, first, second, like⟩ := twins.port.reception
  · rw [first, second]
    exact twins.reset
  · rw [first, second]
    dsimp only
    rw [like.capture]
    have emptied : Twins none
        ({ one with reception := some { reception with bytes := reception.bytes.clear } },
          before.modifyQueue reception.capture EdgeQueue.discard)
        ({ other with reception := some ⟨reception.capture, twin.bytes.clear⟩ },
          after.modifyQueue reception.capture EdgeQueue.discard) :=
      ⟨twins.port.withBytes reception.capture (Ring.alike_clear like.room),
        twins.machine.changeQueue reception.capture fun like => like.discard⟩
    exact emptied.reset

theorem Twins.takeLosses (twins : Twins none (one, before) (other, after)) :
    Agrees none (one.takeLosses before) (other.takeLosses after) := by
  have losses : other.losses = one.losses := twins.port.losses
  have forgotten := twins.port.withLosses {}
  unfold Port.takeLosses
  rw [losses]
  obtain ⟨first, second⟩ | ⟨reception, twin, first, second, like⟩ := twins.port.reception
  · dsimp only at first second forgotten
    rw [first, second] at forgotten ⊢
    exact ⟨rfl, forgotten, twins.machine⟩
  · dsimp only at first second forgotten
    rw [first, second] at forgotten ⊢
    dsimp only
    obtain ⟨lost, next, later, asked, askedToo, taken⟩ :=
      (twins.machine.takeLost reception.capture).split
    rw [like.capture, asked, askedToo]
    exact ⟨rfl, forgotten, taken⟩

theorem Twins.anyLost (twins : Twins none (one, before) (other, after)) :
    Agrees none (one.anyLost before) (other.anyLost after) := by
  obtain ⟨same, taken⟩ := twins.takeLosses
  exact ⟨congrArg Losses.any same, taken⟩

theorem Twins.serve (twins : Twins none (one, before) (other, after)) :
    Twins none (one.serve before) (other.serve after) := by
  have callback : other.callback = one.callback := twins.port.same (·.callback) fun _ _ _ _ => rfl
  unfold Port.serve
  rw [callback]
  cases one.callback with
  | none => exact twins
  | some tag =>
    obtain ⟨first, second⟩ | ⟨reception, twin, first, second, like⟩ := twins.port.reception
    · rw [first, second]
      exact twins
    · rw [first, second]
      obtain ⟨port, twin, between, betweenToo, first, second, collected⟩ := twins.collect.split
      dsimp only
      rw [first, second]
      dsimp only
      rw [collected.port.buffered]
      split
      · exact collected
      · exact ⟨collected.port, collected.machine.note _⟩

end Port
end PinUart
