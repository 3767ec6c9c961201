import PinUart.Proofs.Course

/-! The two buffers of a port against a plain bounded list. Whatever is asked of a
buffer, in whatever order and however often its indices have gone round, it replies as
the list would. -/
namespace PinUart

variable {α : Type}

/-- Elements in the order in which they came, no more of them than the bound. -/
structure Fifo (α : Type) where
  bound : Nat
  items : List α := []
  deriving DecidableEq, Repr

namespace Fifo

/-- Appends an element, or refuses it at the bound. -/
def push (fifo : Fifo α) (value : α) : Bool × Fifo α :=
  if fifo.items.length < fifo.bound then (true, { fifo with items := fifo.items ++ [value] })
  else (false, fifo)

def pop? (fifo : Fifo α) : Option α × Fifo α :=
  (fifo.items.head?, { fifo with items := fifo.items.tail })

def clear (fifo : Fifo α) : Fifo α := { fifo with items := [] }

@[simp] theorem bound_push (fifo : Fifo α) (value : α) :
    (fifo.push value).2.bound = fifo.bound := by
  unfold push
  split <;> rfl

end Fifo

/-- What a buffer says to a request. -/
inductive Reply (α : Type)
  | done
  | verdict (holds : Bool)
  | element (found : Option α)
  | tally (count : Nat)
  deriving DecidableEq, Repr

section Serving

variable {State Other Request Answer : Type}

/-- Serves requests in order. -/
def serveAll (serve : State → Request → Answer × State) (state : State) :
    List Request → List Answer × State
  | [] => ([], state)
  | request :: requests =>
    let (answer, state) := serve state request
    let (answers, state) := serveAll serve state requests
    (answer :: answers, state)

variable {serve : State → Request → Answer × State} {other : Other → Request → Answer × Other}

/-- Two servers that answer each request alike from related states, and stay related,
answer all requests alike. -/
theorem serveAll_shows (Shows : State → Other → Prop)
    (step : ∀ {state shown}, Shows state shown → ∀ request,
      (serve state request).1 = (other shown request).1 ∧
        Shows (serve state request).2 (other shown request).2)
    {state : State} {shown : Other} (initial : Shows state shown) (requests : List Request) :
    (serveAll serve state requests).1 = (serveAll other shown requests).1 ∧
      Shows (serveAll serve state requests).2 (serveAll other shown requests).2 := by
  induction requests generalizing state shown with
  | nil => exact ⟨rfl, initial⟩
  | cons request requests ih =>
    obtain ⟨answered, kept⟩ := step initial request
    obtain ⟨answers, final⟩ := ih kept
    exact ⟨congrArg₂ List.cons answered answers, final⟩

theorem serveAll_keeps (keeps : State → Prop)
    (step : ∀ {state}, keeps state → ∀ request, keeps (serve state request).2)
    {state : State} (initial : keeps state) (requests : List Request) :
    keeps (serveAll serve state requests).2 := by
  induction requests generalizing state with
  | nil => exact initial
  | cons request requests ih => exact ih (step initial request)

end Serving

namespace Ring

inductive Request (α : Type)
  | push (value : α)
  | pop
  | peek
  | clear
  | size
  | isEmpty
  | isFull
  deriving DecidableEq, Repr

def serve (ring : Ring α) : Request α → Reply α × Ring α
  | .push value => (.verdict (ring.push value).1, (ring.push value).2)
  | .pop => (.element ring.pop?.1, ring.pop?.2)
  | .peek => (.element ring.peek?, ring)
  | .clear => (.done, ring.clear)
  | .size => (.tally ring.size, ring)
  | .isEmpty => (.verdict ring.isEmpty, ring)
  | .isFull => (.verdict ring.isFull, ring)

/-- The replies of a bounded list to what is asked of a ring. -/
def Request.expected (fifo : Fifo α) : Request α → Reply α × Fifo α
  | .push value => (.verdict (fifo.push value).1, (fifo.push value).2)
  | .pop => (.element fifo.pop?.1, fifo.pop?.2)
  | .peek => (.element fifo.items.head?, fifo)
  | .clear => (.done, fifo.clear)
  | .size => (.tally fifo.items.length, fifo)
  | .isEmpty => (.verdict fifo.items.isEmpty, fifo)
  | .isFull => (.verdict (fifo.items.length == fifo.bound), fifo)

/-- The bounded list that a ring stands for, wherever in the slots its elements lie. -/
def fifo (ring : Ring α) : Fifo α := { bound := ring.capacity - 1, items := ring.toList }

@[simp] theorem fifo_empty (capacity : Nat) (filler : α) :
    (empty capacity filler).fifo = { bound := max capacity 2 - 1 } := by
  rw [fifo, capacity_empty, toList_empty]

@[simp] theorem bound_fifo (ring : Ring α) : ring.fifo.bound = ring.capacity - 1 := rfl

@[simp] theorem items_fifo (ring : Ring α) : ring.fifo.items = ring.toList := rfl

/-- The number of elements as the distance from the tail to the head, around the end. -/
theorem size_eq_mod (ring : Ring α) :
    ring.size = (ring.head + ring.slots.size - ring.tail) % ring.slots.size := by
  have head_lt := ring.head_lt
  have tail_lt := ring.tail_lt
  unfold size
  split
  · rename_i ahead
    have around : ring.head + ring.slots.size - ring.tail =
        ring.head - ring.tail + ring.slots.size := by omega
    rw [around, Nat.add_mod_right, Nat.mod_eq_of_lt (by omega)]
  · exact (Nat.mod_eq_of_lt (by omega)).symm

theorem isEmpty_fifo (ring : Ring α) : ring.isEmpty = ring.fifo.items.isEmpty := by
  rw [Bool.eq_iff_iff, ring.isEmpty_iff, ← ring.length_toList, List.length_eq_zero_iff,
    List.isEmpty_iff, items_fifo]

theorem isFull_fifo (ring : Ring α) :
    ring.isFull = (ring.fifo.items.length == ring.fifo.bound) := by
  have := ring.size_lt
  rw [Bool.eq_iff_iff, ring.isFull_iff, beq_iff_eq, items_fifo, length_toList, bound_fifo]
  omega

theorem push_fifo (ring : Ring α) (value : α) :
    (ring.push value).1 = (ring.fifo.push value).1 ∧
      (ring.push value).2.fifo = (ring.fifo.push value).2 := by
  have room : ring.fifo.items.length < ring.fifo.bound ↔ ring.size + 1 < ring.capacity := by
    rw [items_fifo, length_toList, bound_fifo]
    omega
  have grown : (ring.push value).2.fifo =
      { bound := ring.capacity - 1
        items := if ring.size + 1 < ring.capacity then ring.toList ++ [value]
          else ring.toList } := by
    rw [fifo, toList_push, capacity_push]
  rw [push_fst, grown, Fifo.push]
  simp only [room]
  split
  · rename_i some
    exact ⟨decide_eq_true some, rfl⟩
  · rename_i none
    exact ⟨decide_eq_false none, rfl⟩

theorem pop?_fifo (ring : Ring α) :
    ring.pop?.1 = ring.fifo.pop?.1 ∧ ring.pop?.2.fifo = ring.fifo.pop?.2 := by
  refine ⟨ring.pop?_fst, ?_⟩
  rw [fifo, toList_pop, capacity_pop]
  rfl

theorem clear_fifo (ring : Ring α) : ring.clear.fifo = ring.fifo.clear := rfl

theorem discard_fifo (ring : Ring α) : ring.discard.fifo = ring.fifo.clear := by
  rw [fifo, toList_discard, capacity_discard]
  rfl

theorem Request.bound_expected (request : Request α) (fifo : Fifo α) :
    (request.expected fifo).2.bound = fifo.bound := by
  cases request with
  | push value => exact fifo.bound_push value
  | _ => rfl

theorem serve_fifo {ring : Ring α} {fifo : Fifo α} (same : ring.fifo = fifo)
    (request : Request α) :
    (ring.serve request).1 = (request.expected fifo).1 ∧
      (ring.serve request).2.fifo = (request.expected fifo).2 := by
  subst same
  cases request with
  | push value =>
    obtain ⟨taken, kept⟩ := ring.push_fifo value
    exact ⟨congrArg Reply.verdict taken, kept⟩
  | pop =>
    obtain ⟨given, kept⟩ := ring.pop?_fifo
    exact ⟨congrArg Reply.element given, kept⟩
  | peek => exact ⟨congrArg Reply.element ring.peek?_eq, rfl⟩
  | clear => exact ⟨rfl, ring.clear_fifo⟩
  | size => exact ⟨congrArg Reply.tally ring.length_toList.symm, rfl⟩
  | isEmpty => exact ⟨congrArg Reply.verdict ring.isEmpty_fifo, rfl⟩
  | isFull => exact ⟨congrArg Reply.verdict ring.isFull_fifo, rfl⟩

theorem bound_serveAll (fifo : Fifo α) (requests : List (Request α)) :
    (serveAll Request.expected fifo requests).2.bound = fifo.bound :=
  serveAll_keeps (fun later : Fifo α => later.bound = fifo.bound)
    (fun kept request => (request.bound_expected _).trans kept) rfl requests

/-- A ring serves all requests as the bounded list that it stands for. -/
theorem serveAll_fifo (ring : Ring α) (requests : List (Request α)) :
    (serveAll serve ring requests).1 = (serveAll Request.expected ring.fifo requests).1 ∧
      (serveAll serve ring requests).2.fifo = (serveAll Request.expected ring.fifo requests).2 :=
  serveAll_shows (fun (ring : Ring α) (fifo : Fifo α) => ring.fifo = fifo) serve_fifo rfl requests

theorem capacity_of_fifo {ring : Ring α} {fifo : Fifo α} (same : ring.fifo = fifo) :
    ring.capacity = fifo.bound + 1 := by
  have := ring.size_lt
  rw [← same, bound_fifo]
  omega

theorem fifo_of_reserve {width : Nat} {capacity : UInt64} {filler : α} {ring : Ring α}
    (made : reserve width capacity filler = .ok ring) :
    ring.fifo = { bound := max capacity.toNat 2 - 1 } := by
  rw [eq_empty_of_reserve made, fifo_empty]

end Ring

namespace ByteRing

/-- From its reservation on, a ring of bytes serves all requests as a list bounded by one
less than its slots; a push that is refused changes nothing. -/
theorem serves_as_fifo {capacity : UInt64} {ring : ByteRing}
    (made : reserve capacity = .ok ring) (requests : List (Ring.Request UInt8)) :
    let bound := max capacity.toNat 2 - 1
    let served := serveAll Ring.serve ring requests
    let listed := serveAll Ring.Request.expected { bound } requests
    served.1 = listed.1 ∧ served.2.toList = listed.2.items ∧ served.2.size ≤ bound ∧
      (∀ byte, served.2.size = bound → served.2.push byte = (false, served.2)) ∧
      served.2.peek? = served.2.pop?.1 := by
  intro bound served listed
  obtain ⟨answers, final⟩ := ring.serveAll_fifo requests
  rw [Ring.fifo_of_reserve made] at answers final
  have kept : listed.2.bound = bound := Ring.bound_serveAll _ requests
  have slots : served.2.capacity = bound + 1 := (Ring.capacity_of_fifo final).trans (by rw [kept])
  refine ⟨answers, congrArg Fifo.items final, ?_, fun byte full => ?_, ?_⟩
  · have := served.2.size_lt
    omega
  · exact Ring.push_of_full byte (by rw [full, slots])
  · rw [Ring.peek?_eq, Ring.pop?_fst]

/-- Three slots hold two bytes. The third is refused, the next goes round the end, and the
ring is cleared from there. -/
theorem serves_as_fifo_rotated :
    ∃ ring, reserve 3 = .ok ring ∧
      (serveAll Ring.serve ring
        [.push 1, .push 2, .push 3, .pop, .push 4, .isFull, .peek, .pop, .pop, .pop, .push 5,
          .clear, .peek, .push 6, .size, .pop]).1 =
        [.verdict true, .verdict true, .verdict false, .element (some 1), .verdict true,
          .verdict true, .element (some 2), .element (some 2), .element (some 4), .element none,
          .verdict true, .done, .element none, .verdict true, .tally 1, .element (some 6)] :=
  have made : reserve 3 = .ok (Ring.empty 3 0) := rfl
  ⟨_, made, (serves_as_fifo made _).1.trans (by decide)⟩

end ByteRing

/-- A bounded list that keeps what it refused until it is asked about losses. -/
structure LossyFifo extends Fifo Edge where
  refused : List Edge := []
  deriving DecidableEq, Repr

namespace EdgeQueue

inductive Request
  | push (edge : Edge)
  | pop
  | discard
  | takeLost
  | size
  | isEmpty
  deriving DecidableEq, Repr

def serve (queue : EdgeQueue) : Request → Reply Edge × EdgeQueue
  | .push edge => (.verdict (queue.push edge).1, (queue.push edge).2)
  | .pop => (.element queue.pop?.1, queue.pop?.2)
  | .discard => (.done, queue.discard)
  | .takeLost => (.verdict queue.takeLost.1, queue.takeLost.2)
  | .size => (.tally queue.size, queue)
  | .isEmpty => (.verdict queue.isEmpty, queue)

/-- The replies of a bounded list that keeps account of its refusals. -/
def Request.expected (listed : LossyFifo) : Request → Reply Edge × LossyFifo
  | .push edge =>
    let (room, fifo) := listed.push edge
    (.verdict room,
      { toFifo := fifo, refused := if room then listed.refused else listed.refused ++ [edge] })
  | .pop => (.element listed.pop?.1, { listed with toFifo := listed.pop?.2 })
  | .discard => (.done, { listed with toFifo := listed.clear })
  | .takeLost => (.verdict !listed.refused.isEmpty, { listed with refused := [] })
  | .size => (.tally listed.items.length, listed)
  | .isEmpty => (.verdict listed.items.isEmpty, listed)

/-- The flag is up while there are refusals that nobody has asked about. -/
structure Shows (queue : EdgeQueue) (listed : LossyFifo) : Prop where
  fifo : queue.ring.fifo = listed.toFifo
  lost : queue.lost = !listed.refused.isEmpty

theorem ring_push (queue : EdgeQueue) (edge : Edge) :
    (queue.push edge).1 = (queue.ring.push edge).1 ∧
      (queue.push edge).2.ring = (queue.ring.push edge).2 := by
  unfold push
  split <;> simp_all

theorem Shows.push {queue : EdgeQueue} {listed : LossyFifo} (same : queue.Shows listed)
    (edge : Edge) :
    (queue.serve (.push edge)).1 = (Request.expected listed (.push edge)).1 ∧
      (queue.serve (.push edge)).2.Shows (Request.expected listed (.push edge)).2 := by
  obtain ⟨taken, kept⟩ := queue.ring_push edge
  obtain ⟨room, grown⟩ := queue.ring.push_fifo edge
  rw [same.fifo] at room grown
  have flag := queue.lost_push edge
  rw [taken, room, same.lost] at flag
  refine ⟨congrArg Reply.verdict (taken.trans room), (congrArg Ring.fifo kept).trans grown, ?_⟩
  refine flag.trans ?_
  dsimp only [Request.expected]
  cases (listed.push edge).1 <;> simp

theorem Shows.serve {queue : EdgeQueue} {listed : LossyFifo} (same : queue.Shows listed)
    (request : Request) :
    (queue.serve request).1 = (request.expected listed).1 ∧
      (queue.serve request).2.Shows (request.expected listed).2 := by
  cases request with
  | push edge => exact same.push edge
  | pop =>
    obtain ⟨given, kept⟩ := queue.ring.pop?_fifo
    rw [same.fifo] at given kept
    exact ⟨congrArg Reply.element given, kept, same.lost⟩
  | discard =>
    have kept := queue.ring.discard_fifo
    rw [same.fifo] at kept
    exact ⟨rfl, kept, same.lost⟩
  | takeLost => exact ⟨congrArg Reply.verdict same.lost, same.fifo, rfl⟩
  | size =>
    have length : queue.ring.fifo.items.length = queue.size := queue.ring.length_toList
    rw [same.fifo] at length
    exact ⟨congrArg Reply.tally length.symm, same⟩
  | isEmpty =>
    have empty := queue.ring.isEmpty_fifo
    rw [same.fifo] at empty
    exact ⟨congrArg Reply.verdict empty, same⟩

theorem Request.bound_expected (request : Request) (listed : LossyFifo) :
    (request.expected listed).2.bound = listed.bound := by
  cases request with
  | push edge => exact listed.toFifo.bound_push edge
  | _ => rfl

theorem bound_serveAll (listed : LossyFifo) (requests : List Request) :
    (serveAll Request.expected listed requests).2.bound = listed.bound :=
  serveAll_keeps (fun later : LossyFifo => later.bound = listed.bound)
    (fun kept request => (request.bound_expected _).trans kept) rfl requests

theorem shows_of_reserve {capacity : UInt64} {queue : EdgeQueue}
    (made : reserve capacity = .ok queue) :
    queue.Shows { bound := max capacity.toNat 2 - 1 } := by
  unfold reserve at made
  cases stored : Ring.reserve slotWidth capacity (⟨0⟩ : Edge) with
  | error refusal =>
    rw [stored] at made
    cases made
  | ok ring =>
    rw [stored] at made
    cases made
    exact ⟨Ring.fifo_of_reserve stored, rfl⟩

/-- From its reservation on, a queue of edges serves all requests as a list bounded by one
less than its slots, and says that an edge was lost exactly if one was refused since it
was last asked. Its indices stay inside the slots. -/
theorem serves_as_lossy_fifo {capacity : UInt64} {queue : EdgeQueue}
    (made : reserve capacity = .ok queue) (requests : List Request) :
    let slots := max capacity.toNat 2
    let served := serveAll serve queue requests
    let listed := serveAll Request.expected { bound := slots - 1 } requests
    served.1 = listed.1 ∧ served.2.toList = listed.2.items ∧
      served.2.lost = !listed.2.refused.isEmpty ∧ served.2.size ≤ slots - 1 ∧
      served.2.ring.head < slots ∧ served.2.ring.tail < slots ∧
      served.2.size = (served.2.ring.head + slots - served.2.ring.tail) % slots := by
  intro slots served listed
  obtain ⟨answers, final⟩ := serveAll_shows Shows Shows.serve (shows_of_reserve made) requests
  have kept : listed.2.bound = slots - 1 := bound_serveAll _ requests
  have width : served.2.ring.slots.size = slots := by
    have := Ring.capacity_of_fifo final.fifo
    rw [kept] at this
    exact this.trans (by omega)
  refine ⟨answers, congrArg Fifo.items final.fifo, final.lost, ?_, ?_, ?_, ?_⟩
  · have := served.2.ring.size_lt
    unfold Ring.capacity at this
    unfold size
    omega
  · exact width ▸ served.2.ring.head_lt
  · exact width ▸ served.2.ring.tail_lt
  · rw [← width]
    exact served.2.ring.size_eq_mod

/-- Three slots hold two edges. The loss of the third is told once, and edges that came
round the end are discarded with those before it. -/
theorem serves_as_lossy_fifo_rotated :
    ∃ queue, reserve 3 = .ok queue ∧
      (serveAll serve queue
        [.takeLost, .push ⟨10⟩, .push ⟨21⟩, .push ⟨30⟩, .pop, .push ⟨41⟩, .size, .takeLost,
          .takeLost, .discard, .isEmpty, .pop, .push ⟨50⟩, .push ⟨61⟩, .pop, .takeLost, .pop]).1 =
        [.verdict false, .verdict true, .verdict true, .verdict false, .element (some ⟨10⟩),
          .verdict true, .tally 2, .verdict true, .verdict false, .done, .verdict true,
          .element none, .verdict true, .verdict true, .element (some ⟨50⟩), .verdict false,
          .element (some ⟨61⟩)] :=
  have made : reserve 3 = .ok { ring := Ring.empty 3 ⟨0⟩ } := rfl
  ⟨_, made, (serves_as_lossy_fifo made _).1.trans (by decide)⟩

end EdgeQueue

end PinUart
