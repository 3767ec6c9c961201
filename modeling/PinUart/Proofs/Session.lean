import Mathlib.Logic.Function.Basic
import PinUart.Proofs.Dialogue
import PinUart.Proofs.Opening

/-! A session of two one-wire ports: both are started, and then they take turns in any order. Each
turn leaves both ports listening with nothing to read, and that is all that the next turn needs. -/
namespace PinUart

namespace World

/-- No port has a loss to tell. -/
def Lossless (world : World) : Prop :=
  ∀ index port, world.port? index = some port → (port.anyLost world.machine).1 = false

/-- A property holds before the operations of a run, and after each of them. -/
def Throughout (property : World → Prop) (world : World) (operations : List Operation) : Prop :=
  ∀ early later, operations = early ++ later → property (world.run early).2

/-- The loop that reads a port out ends by itself, after no more bytes than the given number. -/
def DrainEnds (world : World) (index count : Nat) : Prop :=
  ∃ port, world.port? index = some port ∧
    ∀ polls, count < polls → port.drainWith world.machine polls = port.drain world.machine

variable {property : World → Prop} {world : World} {operation : Operation}
  {operations later : List Operation}

theorem throughout_nil (holds : property world) : Throughout property world [] := by
  intro early late same
  obtain ⟨rfl, rfl⟩ := List.append_eq_nil_iff.mp same.symm
  exact holds

theorem throughout_cons (holds : property world)
    (rest : Throughout property (world.perform operation).2 operations) :
    Throughout property world (operation :: operations) := by
  intro early late same
  cases early with
  | nil => exact holds
  | cons first early =>
    obtain ⟨rfl, rfl⟩ := List.cons.inj same
    exact rest early late rfl

theorem Throughout.append (first : Throughout property world operations)
    (second : Throughout property (world.run operations).2 later) :
    Throughout property world (operations ++ later) := by
  intro early late same
  rcases List.append_eq_append_iff.mp same.symm with ⟨middle, rfl, -⟩ | ⟨middle, rfl, rfl⟩
  · exact first early middle rfl
  · rw [run_append]
    exact second middle late rfl

theorem lossless_of_mem
    (kept : ∀ port, some port ∈ world.ports.toList → (port.anyLost world.machine).1 = false) :
    world.Lossless := by
  intro index port found
  have held := Option.join_eq_some_iff.mp found
  exact kept port (Array.mem_toList_iff.mpr (Array.mem_of_getElem? held))

/-- A world of two ports. -/
def pair (machine : Machine) (ports : Bool → Port) : World :=
  { machine, ports := #[some (ports false), some (ports true)] }

variable {machine : Machine} {ports : Bool → Port}

theorem port?_pair (side : Bool) : (pair machine ports).port? side.toNat = some (ports side) := by
  cases side <;> rfl

theorem lossless_pair (kept : ∀ side, ((ports side).anyLost machine).1 = false) :
    (pair machine ports).Lossless := by
  refine lossless_of_mem fun port member => ?_
  rcases List.mem_pair.mp member with same | same
  · exact Option.some.inj same ▸ kept false
  · exact Option.some.inj same ▸ kept true

theorem drainEnds_pair {side : Bool} {count : Nat}
    (ends : ∀ polls, count < polls →
      (ports side).drainWith machine polls = (ports side).drain machine) :
    (pair machine ports).DrainEnds side.toNat count :=
  ⟨ports side, port?_pair side, ends⟩

theorem perform_pair {side : Bool} {operation : Port.Operation} {answer : Answer} {after : Port}
    {ready : Machine}
    (performed : (ports side).perform machine operation = (answer, after, ready)) :
    ∃ next : Bool → Port, (pair machine ports).perform (.port side.toNat operation) =
        (answer, pair ready next) ∧ next side = after ∧ next (!side) = ports !side := by
  refine ⟨Function.update ports side after, ?_, Function.update_self ..,
    Function.update_of_ne ?_ ..⟩
  · rw [perform, performPort, port?_pair]
    dsimp only
    rw [show (pair machine ports).machine = machine from rfl, performed]
    cases side <;> rfl
  · simp

end World

/-- A port sends, its peer reads that out, and then it looks for something to read itself. -/
structure Turn where
  who : Bool
  data : List UInt8

namespace Turn

def operations (turn : Turn) : List World.Operation :=
  [.port turn.who.toNat (.write turn.data), .port (!turn.who).toNat .drain,
    .port turn.who.toNat .drain]

def answers (turn : Turn) : List Answer :=
  [.count turn.data.length, .bytes turn.data, .bytes []]

/-- Both loops that read end by themselves. -/
def Ends (turn : Turn) (world : World) : Prop :=
  let sent := (world.perform (.port turn.who.toNat (.write turn.data))).2
  sent.DrainEnds (!turn.who).toNat turn.data.length ∧
    (sent.perform (.port (!turn.who).toNat .drain)).2.DrainEnds turn.who.toNat 0

end Turn

namespace Duplex

variable {duplex : Duplex} {machine : Machine} {slot : Bool → SlotIndex} {ports : Bool → Port}

theorem Ready.lossless (ready : duplex.Ready slot ports machine) :
    (World.pair machine ports).Lossless := by
  obtain ⟨time, waits⟩ := ready.waits
  exact World.lossless_pair fun side => (waits side).anyLost

theorem lossless_of_both {who : Bool} (own : ((ports who).anyLost machine).1 = false)
    (peer : ((ports !who).anyLost machine).1 = false) : (World.pair machine ports).Lossless := by
  refine World.lossless_pair fun side => ?_
  by_cases same : side = who
  · rw [same]
    exact own
  · rw [Bool.eq_not.mpr same]
    exact peer

/-- In a turn all that is sent is received, and both ports are ready again. -/
theorem Ready.turn (ready : duplex.Ready slot ports machine) (turn : Turn)
    (fits : duplex.Fits (!turn.who) turn.data) :
    ∃ after final, (World.pair machine ports).run turn.operations =
        (turn.answers, World.pair final after) ∧
      duplex.Ready slot after final ∧
      World.Throughout World.Lossless (World.pair machine ports) turn.operations ∧
      turn.Ends (World.pair machine ports) := by
  obtain ⟨who, data⟩ := turn
  obtain ⟨sender, receiver, idler, sent, heard, final, written, drained, ends, nothing, stops, told,
    its, looked, theirs, settled⟩ := ready.exchange who fits
  obtain ⟨one, first, own, peer⟩ := World.perform_pair
    (show (ports who).perform machine (.write data) = (.count data.length, sender, sent) by
      rw [Port.perform, written])
  rw [← peer] at drained ends its
  obtain ⟨two, second, reader, writer⟩ := World.perform_pair
    (show (one !who).perform sent .drain = (.bytes data, receiver, heard) by
      rw [Port.perform, drained])
  rw [Bool.not_not, own] at writer
  rw [← writer] at nothing stops looked
  obtain ⟨three, third, last, other⟩ := World.perform_pair
    (show (two who).perform heard .drain = (.bytes [], idler, final) by
      rw [Port.perform, nothing])
  have ended := settled three last (other.trans reader)
  refine ⟨three, final, ?_, ended, ?_, ?_⟩
  · rw [Turn.operations, World.run, first]
    simp only [World.run, second, third]
    rfl
  · refine World.throughout_cons ready.lossless ?_
    rw [first]
    refine World.throughout_cons (lossless_of_both (own ▸ told) its) ?_
    rw [second]
    refine World.throughout_cons (lossless_of_both looked (reader ▸ theirs)) ?_
    rw [third]
    exact World.throughout_nil ended.lossless
  · unfold Turn.Ends
    rw [first]
    dsimp only
    rw [second]
    refine ⟨World.drainEnds_pair fun polls enough => ?_,
      World.drainEnds_pair fun polls enough => ?_⟩
    · rw [drained]
      exact ends polls enough
    · rw [nothing]
      exact stops polls enough

/-- The pins are wired, both ports are made, and both are started. -/
def opening (duplex : Duplex) : List World.Operation :=
  [.machine (.connect duplex.wire.1 duplex.wire.2), .openPort (duplex.config false),
    .openPort (duplex.config true), .port duplex.leader.toNat (.start duplex.baud),
    .port (!duplex.leader).toNat (.start duplex.baud)]

theorem run_opening (duplex : Duplex) :
    ∃ slot ports machine, World.run { machine := duplex.fresh } duplex.opening =
        ([.nothing, .count 0, .count 1, .done, .done], World.pair machine ports) ∧
      duplex.Ready slot ports machine ∧
      World.Throughout World.Lossless { machine := duplex.fresh } duplex.opening := by
  obtain ⟨first, second, between, both, created, follows, alone, made, joins, laid, deaf, empty⟩ :=
    duplex.exists_made
  let ports (side : Bool) : Port := if side then second else first
  have ready : ∀ side, duplex.Made side (ports side) both := by
    intro side
    cases side with
    | false => exact made
    | true => exact joins
  obtain ⟨slot, leader, follower, middle, final, begun, joined, told, spared, settled⟩ :=
    start_both laid ready deaf empty
  obtain ⟨one, third, own, its⟩ := World.perform_pair
    (show (ports duplex.leader).perform both (.start duplex.baud) = (.done, leader, middle) by
      rw [Port.perform, begun]
      rfl)
  obtain ⟨two, fourth, later, earlier⟩ := World.perform_pair
    (show (one !duplex.leader).perform middle (.start duplex.baud) = (.done, follower, final) by
      rw [its, Port.perform, joined]
      rfl)
  rw [Bool.not_not, own] at earlier
  have connected : World.perform { machine := duplex.fresh }
      (.machine (.connect duplex.wire.1 duplex.wire.2)) =
        (.nothing, { machine := duplex.fresh.connect duplex.wire.1 duplex.wire.2 }) := rfl
  have opened : World.perform { machine := duplex.fresh.connect duplex.wire.1 duplex.wire.2 }
      (.openPort (duplex.config false)) =
        (.count 0, { machine := between, ports := #[some first] }) := by
    rw [World.perform, World.openPort, created]
    rfl
  have joint : World.perform { machine := between, ports := #[some first] }
      (.openPort (duplex.config true)) = (.count 1, World.pair both ports) := by
    rw [World.perform, World.openPort, follows]
    rfl
  have ended := settled two earlier later
  refine ⟨slot, two, final, ?_, ended, ?_⟩
  · simp only [opening, World.run, connected, opened, joint, third, fourth]
  · have vacant (machine : Machine) : World.Lossless { machine } :=
      World.lossless_of_mem fun _ member => absurd member List.not_mem_nil
    have single : World.Lossless { machine := between, ports := #[some first] } :=
      World.lossless_of_mem fun _ member =>
        Option.some.inj (List.mem_singleton.mp member) ▸ alone.anyLost
    refine World.throughout_cons (vacant _) ?_
    rw [connected]
    refine World.throughout_cons (vacant _) ?_
    rw [opened]
    refine World.throughout_cons single ?_
    rw [joint]
    refine World.throughout_cons (World.lossless_pair fun side => (ready side).anyLost) ?_
    rw [third]
    refine World.throughout_cons (lossless_of_both (own ▸ told) (its ▸ spared)) ?_
    rw [fourth]
    exact World.throughout_nil ended.lossless

/-- Whatever the turns are, all data comes through and nothing is lost on the way. -/
theorem Ready.run_turns (ready : duplex.Ready slot ports machine) (turns : List Turn)
    (fits : ∀ turn ∈ turns, duplex.Fits (!turn.who) turn.data) :
    ∃ after final, (World.pair machine ports).run (turns.flatMap Turn.operations) =
        (turns.flatMap Turn.answers, World.pair final after) ∧
      duplex.Ready slot after final ∧
      World.Throughout World.Lossless (World.pair machine ports)
        (turns.flatMap Turn.operations) := by
  induction turns generalizing machine ports with
  | nil => exact ⟨ports, machine, rfl, ready, World.throughout_nil ready.lossless⟩
  | cons turn turns ih =>
    obtain ⟨between, middle, first, settled, lossless, -⟩ :=
      ready.turn turn (fits turn List.mem_cons_self)
    obtain ⟨after, final, rest, ended, quiet⟩ :=
      ih settled fun other member => fits other (List.mem_cons_of_mem turn member)
    refine ⟨after, final, ?_, ended, ?_⟩
    · rw [List.flatMap_cons, World.run_append, first, rest, List.flatMap_cons]
    · rw [List.flatMap_cons]
      exact lossless.append (by rw [first]; exact quiet)

/-- Both ports receive: the interrupt of its pin is attached to each, and leads to its capture. -/
def Listening (duplex : Duplex) (world : World) : Prop :=
  ∀ side, ∃ port slot, world.port? side.toNat = some port ∧ port.mode = .receive ∧
    port.listening = true ∧ port.slot = some slot ∧
    world.machine.board.direction (duplex.pin side) = .input ∧
    world.machine.board.handler? (duplex.pin side) = some (.entry slot) ∧
    world.machine.slots.sink? slot = some (.capture side.toNat)

theorem Ready.listening (ready : duplex.Ready slot ports machine) :
    duplex.Listening (World.pair machine ports) := by
  obtain ⟨time, waits⟩ := ready.waits
  intro side
  have armed := (waits side).armed
  exact ⟨ports side, slot side, World.port?_pair side, armed.mode,
    congrArg Stake.listening armed.stake, congrArg Stake.slot armed.stake, armed.pin.input,
    armed.pin.entry, armed.bound⟩

/-- Two one-wire ports can take turns in any order. Each message that fits the buffers of the
peer is sent whole and received whole, and the sender hears nothing of it; the loops that read end
by themselves. After each turn both ports listen again, and nothing is lost at any time. -/
theorem run_takes_turns (duplex : Duplex) (turns : List Turn)
    (fits : ∀ turn ∈ turns, duplex.Fits (!turn.who) turn.data) :
    let operations := duplex.opening ++ turns.flatMap Turn.operations
    let (answers, world) := World.run { machine := duplex.fresh } operations
    answers = [.nothing, .count 0, .count 1, .done, .done] ++ turns.flatMap Turn.answers ∧
      duplex.Listening world ∧
      World.Throughout World.Lossless { machine := duplex.fresh } operations ∧
      ∀ turn : Turn, duplex.Fits (!turn.who) turn.data → turn.Ends world := by
  obtain ⟨slot, ports, machine, opened, ready, lossless⟩ := duplex.run_opening
  obtain ⟨after, final, taken, ended, quiet⟩ := ready.run_turns turns fits
  have ran : World.run { machine := duplex.fresh }
      (duplex.opening ++ turns.flatMap Turn.operations) =
        ([.nothing, .count 0, .count 1, .done, .done] ++ turns.flatMap Turn.answers,
          World.pair final after) := by
    rw [World.run_append, opened, taken]
  dsimp only
  rw [ran]
  refine ⟨rfl, ended.listening, lossless.append (by rw [opened]; exact quiet),
    fun turn fits => ?_⟩
  obtain ⟨-, -, -, -, -, ends⟩ := ended.turn turn fits
  exact ends

/-- A push-pull port and one that lets go of the wire, which masks interrupts while it sends, at
the shortest bit period and shortly before a turn of the counter. -/
def uneven : Duplex where
  timebase := { rate := 2000000, perRead := 3 }
  clock := 0xFFFFFFC0
  pin := fun side => if side then 3 else 7
  config := fun side =>
    if side then
      { rxPin := some 3, txPin := some 3, drive := .pullUpRelease, interruptible := false,
        byteCapacity := 2, edgeCapacity := some 11 }
    else
      { rxPin := some 7, txPin := some 7, byteCapacity := 4, edgeCapacity := some 31 }
  baud := 66666
  crossed := true
  leader := true
  differ := by decide
  shared := by decide
  upright := by decide
  edgesFit := by decide
  bytesFit := by decide
  paced := by decide
  narrow := by decide

/-- One port sends twice in a row, as much as its peer has room for, and the other not at all before
it answers. -/
theorem uneven_takes_turns :
    let turns : List Turn :=
      [⟨true, [0x00, 0xFF, 0x55]⟩, ⟨true, [0x0A]⟩, ⟨false, []⟩, ⟨false, [0x80]⟩]
    let operations := uneven.opening ++ turns.flatMap Turn.operations
    let (answers, world) := World.run { machine := uneven.fresh } operations
    answers = [.nothing, .count 0, .count 1, .done, .done, .count 3, .bytes [0x00, 0xFF, 0x55],
        .bytes [], .count 1, .bytes [0x0A], .bytes [], .count 0, .bytes [], .bytes [], .count 1,
        .bytes [0x80], .bytes []] ∧
      uneven.Listening world ∧
      World.Throughout World.Lossless { machine := uneven.fresh } operations ∧
      ∀ turn : Turn, uneven.Fits (!turn.who) turn.data → turn.Ends world :=
  run_takes_turns uneven
    [⟨true, [0x00, 0xFF, 0x55]⟩, ⟨true, [0x0A]⟩, ⟨false, []⟩, ⟨false, [0x80]⟩] (by decide)

end Duplex
end PinUart
