import PinUart.Proofs.Deeds
import PinUart.Proofs.Reporting

/-! Masked interrupts. While they are masked no handler runs, and what is noticed of the pins is
kept as a queue: the first edge that a handler could hear puts it there, later edges of the pin add
nothing, and taking the handler off drops what waits. Once interrupts are let in, the queue runs in
the order of those first edges. -/
namespace PinUart

/-- What is noticed of a pin: an edge that is recorded, with the handler attached at that time, or
that the handler is taken off. -/
inductive Notice
  | edge (pin : Pin) (handler : Option Handler)
  | detached (pin : Pin)
  deriving DecidableEq

namespace Notice

/-- Takes a notice into the queue of waiting handlers. -/
def queue (waiting : List (Pin × Handler)) : Notice → List (Pin × Handler)
  | .edge _ none => waiting
  | .edge pin (some handler) =>
    if waiting.any (·.1 == pin) then waiting else waiting ++ [(pin, handler)]
  | .detached pin => waiting.filter (·.1 != pin)

/-- At that place a handler could hear an edge of the pin, and none was taken off the pin later. -/
def Stands (notices : List Notice) (place : Nat) (pin : Pin) (handler : Handler) : Prop :=
  notices[place]? = some (.edge pin (some handler)) ∧
    ∀ later, place < later → notices[later]? ≠ some (.detached pin)

/-- The first edge of the pin that stands. -/
def Leads (notices : List Notice) (place : Nat) (pin : Pin) (handler : Handler) : Prop :=
  Stands notices place pin handler ∧
    ∀ earlier other, earlier < place → ¬ Stands notices earlier pin other

/-- A list of the first edges that stand, in order. -/
structure Lists (notices : List Notice) (calls : List (Nat × Pin × Handler)) : Prop where
  mem_iff : ∀ place pin handler,
    (place, pin, handler) ∈ calls ↔ Leads notices place pin handler
  ordered : calls.Pairwise (·.1 < ·.1)

variable {notices : List Notice} {place : Nat} {pin : Pin} {handler : Handler}

theorem Stands.lt (stands : Stands notices place pin handler) : place < notices.length :=
  (List.getElem?_eq_some_iff.mp stands.1).1

/-- A pin with an edge that stands has a first one. -/
theorem Stands.exists_leads (stands : Stands notices place pin handler) :
    ∃ first other, Leads notices first pin other := by
  induction place using Nat.strong_induction_on generalizing handler with
  | _ place ih =>
    by_cases earlier : ∃ first < place, ∃ other, Stands notices first pin other
    · obtain ⟨first, before, other, also⟩ := earlier
      exact ih first before also
    · exact ⟨place, handler, stands, fun first other before also =>
        earlier ⟨first, before, other, also⟩⟩

theorem Leads.unique {other : Nat} {another : Handler} (leads : Leads notices place pin handler)
    (also : Leads notices other pin another) : place = other := by
  rcases Nat.lt_trichotomy place other with before | same | after
  · exact absurd leads.1 (also.2 place handler before)
  · exact same
  · exact absurd also.1 (leads.2 other another after)

/-- What one more notice does to the edges that stand. -/
theorem stands_append (notice : Notice) :
    Stands (notices ++ [notice]) place pin handler ↔
      Stands notices place pin handler ∧ notice ≠ .detached pin ∨
        place = notices.length ∧ notice = .edge pin (some handler) := by
  unfold Stands
  grind

/-- A further edge leads if a handler hears it and no edge of the pin stands before it. -/
theorem leads_append_edge (heard : Option Handler) {other : Pin} :
    Leads (notices ++ [.edge pin heard]) place other handler ↔
      Leads notices place other handler ∨
        (place = notices.length ∧ other = pin ∧ heard = some handler) ∧
          ∀ earlier third, ¬ Stands notices earlier pin third := by
  unfold Leads
  simp only [stands_append]
  constructor
  · rintro ⟨⟨stands, -⟩ | ⟨rfl, same⟩, first⟩
    · exact .inl ⟨stands, fun earlier third before also =>
        first earlier third before (.inl ⟨also, nofun⟩)⟩
    · cases same
      exact .inr ⟨⟨rfl, rfl, rfl⟩, fun earlier third also =>
        first earlier third also.lt (.inl ⟨also, nofun⟩)⟩
  · rintro (⟨stands, first⟩ | ⟨⟨rfl, rfl, rfl⟩, first⟩)
    · refine ⟨.inl ⟨stands, nofun⟩, ?_⟩
      rintro earlier third before (⟨also, -⟩ | ⟨rfl, -⟩)
      · exact first earlier third before also
      · exact absurd (before.trans stands.lt) (Nat.lt_irrefl _)
    · refine ⟨.inr ⟨rfl, rfl⟩, ?_⟩
      rintro earlier third before (⟨also, -⟩ | ⟨rfl, -⟩)
      · exact first earlier third also
      · exact absurd before (Nat.lt_irrefl _)

/-- Taking the handler off a pin leaves the edges of the other pins. -/
theorem leads_append_detached {other : Pin} :
    Leads (notices ++ [.detached pin]) place other handler ↔
      Leads notices place other handler ∧ other ≠ pin := by
  have stands (place : Nat) (handler : Handler) :
      Stands (notices ++ [.detached pin]) place other handler ↔
        Stands notices place other handler ∧ other ≠ pin := by
    rw [stands_append]
    simp [ne_comm]
  unfold Leads
  simp only [stands]
  tauto

variable {calls : List (Nat × Pin × Handler)}

theorem lists_nil : Lists [] [] := by
  refine ⟨fun place pin handler => ⟨fun member => absurd member List.not_mem_nil, ?_⟩, .nil⟩
  exact fun leads => absurd leads.1.lt (Nat.not_lt_zero place)

/-- The pins that are listed are those with an edge that stands. -/
theorem Lists.mem_pins_iff (lists : Lists notices calls) (pin : Pin) :
    pin ∈ calls.map (fun call => call.2.1) ↔ ∃ place handler, Stands notices place pin handler := by
  rw [List.mem_map]
  constructor
  · rintro ⟨⟨place, other, handler⟩, member, rfl⟩
    exact ⟨place, handler, ((lists.mem_iff ..).mp member).1⟩
  · rintro ⟨place, handler, stands⟩
    obtain ⟨first, other, leads⟩ := stands.exists_leads
    exact ⟨_, (lists.mem_iff ..).mpr leads, rfl⟩

theorem Lists.any_iff (lists : Lists notices calls) (pin : Pin) :
    (calls.map Prod.snd).any (·.1 == pin) ↔ ∃ place handler, Stands notices place pin handler := by
  rw [← lists.mem_pins_iff, List.any_map, List.any_eq_true, List.mem_map]
  exact exists_congr fun call => and_congr_right fun _ => beq_iff_eq

/-- An edge that no handler hears, or that is not the first to stand, changes nothing. -/
theorem Lists.pass (lists : Lists notices calls) {heard : Option Handler}
    (idle : ∀ handler, heard = some handler → ∃ place other, Stands notices place pin other) :
    Lists (notices ++ [.edge pin heard]) calls := by
  refine ⟨fun place other handler => ?_, lists.ordered⟩
  rw [lists.mem_iff, leads_append_edge]
  refine (or_iff_left ?_).symm
  rintro ⟨⟨-, -, same⟩, first⟩
  obtain ⟨earlier, third, stands⟩ := idle handler same
  exact first earlier third stands

/-- The first edge to stand comes last in order. -/
theorem Lists.push (lists : Lists notices calls)
    (first : ∀ place other, ¬ Stands notices place pin other) (handler : Handler) :
    Lists (notices ++ [.edge pin (some handler)]) (calls ++ [(notices.length, pin, handler)]) := by
  refine ⟨fun place other heard => ?_, List.pairwise_append.mpr
    ⟨lists.ordered, List.pairwise_singleton _ _, fun call member last same => ?_⟩⟩
  · rw [List.mem_append, List.mem_singleton, lists.mem_iff, leads_append_edge, and_iff_left first,
      Prod.mk.injEq, Prod.mk.injEq, Option.some.injEq, eq_comm (a := handler)]
  · rw [List.mem_singleton.mp same]
    exact ((lists.mem_iff ..).mp member).1.lt

theorem Lists.drop (lists : Lists notices calls) (pin : Pin) :
    Lists (notices ++ [.detached pin]) (calls.filter fun call => call.2.1 != pin) := by
  refine ⟨fun place other heard => ?_, lists.ordered.filter _⟩
  rw [List.mem_filter, lists.mem_iff, leads_append_detached, bne_iff_ne]

/-- What waits after those notices are the handlers of the first edges that stand. -/
theorem exists_lists (notices : List Notice) :
    ∃ calls, Lists notices calls ∧ calls.map Prod.snd = notices.foldl queue [] := by
  induction notices using List.reverseRecOn with
  | nil => exact ⟨[], lists_nil, rfl⟩
  | append_singleton notices notice ih =>
    obtain ⟨calls, lists, same⟩ := ih
    rw [List.foldl_append, ← same, List.foldl_cons, List.foldl_nil]
    cases notice with
    | edge pin heard =>
      cases heard with
      | none => exact ⟨calls, lists.pass nofun, rfl⟩
      | some handler =>
        unfold queue
        dsimp only
        split
        · rename_i waiting
          exact ⟨calls, lists.pass fun _ _ => (lists.any_iff pin).mp waiting, rfl⟩
        · rename_i free
          refine ⟨_, lists.push (fun place earlier stands => free ?_) handler, List.map_append⟩
          exact (lists.any_iff pin).mpr ⟨place, earlier, stands⟩
    | detached pin =>
      refine ⟨_, lists.drop pin, ?_⟩
      change _ = (calls.map Prod.snd).filter (·.1 != pin)
      rw [List.filter_map]
      rfl

/-- No pin is listed twice. -/
theorem Lists.nodup (lists : Lists notices calls) : (calls.map fun call => call.2.1).Nodup := by
  rw [List.Nodup, List.pairwise_map]
  refine lists.ordered.imp_of_mem fun {early late} mine theirs before same => ?_
  obtain ⟨place, pin, handler⟩ := early
  obtain ⟨later, other, another⟩ := late
  cases same
  exact before.ne (((lists.mem_iff ..).mp mine).unique ((lists.mem_iff ..).mp theirs))

end Notice

namespace Board

/-- An edge on those pins, as it is noticed. -/
def edges (board : Board) (pins : List Pin) : List Notice :=
  pins.map fun pin => .edge pin (board.handler? pin)

/-- The pins of a net that gain a record. -/
def grown (before after : Board) (net : List Pin) : List Pin :=
  net.filter fun pin => (before.transitions pin).length < (after.transitions pin).length

theorem grown_eq_self {before after : Board} {net : List Pin} (records : ∀ pin ∈ net,
    ∃ added, after.transitions pin = before.transitions pin ++ [added]) :
    before.grown after net = net := by
  refine List.filter_eq_self.mpr fun pin inside => ?_
  obtain ⟨added, gained⟩ := records pin inside
  rw [gained, List.length_append, List.length_singleton]
  exact decide_eq_true (Nat.lt_succ_self _)

theorem grown_eq_nil {before after : Board} (same : after.history = before.history)
    (net : List Pin) : before.grown after net = [] := by
  refine List.filter_eq_nil_iff.mpr fun pin _ => ?_
  unfold transitions
  rw [same]
  simp

theorem notePin_masked (board : Board) (pin : Pin) (level : Bool) (masked : board.masked = true) :
    ∃ history, board.notePin pin level =
      ({ board with
        history
        pending := Notice.queue board.pending (.edge pin (board.handler? pin)) }, none) := by
  refine ⟨board.history.modify pin (·.push ⟨board.clock, level⟩), ?_⟩
  unfold notePin handler? Notice.queue
  dsimp only
  cases (board.pins.get pin).handler with
  | none => rfl
  | some handler =>
    dsimp only
    rw [if_pos masked]
    split <;> rfl

/-- While interrupts are masked, an edge only queues handlers. -/
theorem noteEdge_masked (board : Board) (level : Bool) (pins : List Pin)
    (masked : board.masked = true) :
    ∃ history, board.noteEdge level pins =
      ({ board with
        history
        pending := (board.edges pins).foldl Notice.queue board.pending }, []) := by
  induction pins generalizing board with
  | nil => exact ⟨board.history, rfl⟩
  | cons pin pins ih =>
    obtain ⟨early, noted⟩ := board.notePin_masked pin level masked
    obtain ⟨history, later⟩ := ih (board.notePin pin level).1 (by rw [noted]; exact masked)
    refine ⟨history, ?_⟩
    unfold noteEdge
    dsimp only
    rw [later, noted]
    rfl

/-- Nothing waits while interrupts are let in. -/
structure Prompt (board : Board) : Prop where
  parted : board.Parted
  clear : board.masked = false → board.pending = []

variable {board : Board} {pin : Pin} {act : Board → Board}

theorem Prompt.change (prompt : board.Prompt) (parted : (act board).Parted)
    (shape : ∃ nets pins, act board = { board with nets, pins }) :
    (board.change pin act).1.Prompt := by
  obtain ⟨nets, pins, same⟩ := shape
  obtain ⟨-, changed⟩ | ⟨-, changed⟩ := board.change_cases pin act
  · rw [changed]
    generalize PinMap.set _ _ _ = levels
    obtain ⟨history, noted⟩ := noteEdge_calls { act board with levels }
      ((act board).netLevel ((act board).net pin)) (parted.nodup_net pin)
    rw [noted]
    refine ⟨parted.of_nets rfl, fun unmasked => ?_⟩
    rw [same] at unmasked ⊢
    dsimp only [withheld] at unmasked ⊢
    rw [if_neg (by rw [unmasked]; exact Bool.false_ne_true), List.append_nil]
    exact prompt.clear unmasked
  · rw [changed]
    refine ⟨parted.of_nets rfl, ?_⟩
    rw [same]
    exact prompt.clear

/-- What one deed preserves. -/
theorem Deed.prompt {before after : Board} (deed : before.Deed after) (prompt : before.Prompt) :
    after.Prompt := by
  obtain ⟨parted, clear⟩ := prompt
  cases deed with
  | pass | attach | forget => exact ⟨parted.of_nets rfl, clear⟩
  | mask => exact ⟨parted.of_nets rfl, nofun⟩
  | unmask => exact ⟨parted.of_nets rfl, fun _ => rfl⟩
  | detach pin =>
    refine ⟨parted.of_nets rfl, fun unmasked => ?_⟩
    change before.pending.filter _ = []
    rw [clear unmasked]
    rfl
  | setUp pin spares => exact Prompt.change ⟨parted, clear⟩ (parted.of_nets rfl) ⟨_, _, rfl⟩
  | connect one other =>
    exact Prompt.change ⟨parted, clear⟩ (parted.join one other)
      ⟨(before.join one other).nets, before.pins, before.join_shape one other⟩

end Board

namespace Machine

/-- The pin whose net an operation may change, and what it does to the board. -/
def Operation.change? : Operation → Option (Pin × (Board → Board))
  | .connect one other => some (one, (·.join one other))
  | .inject pin forced =>
    some (pin, fun board => { board with pins := board.pins.modify pin ({ · with forced }) })
  | .setDirection pin way =>
    some (pin, fun board =>
      { board with pins := board.pins.modify pin ({ · with direction := way }) })
  | .setPull pin pull =>
    some (pin, fun board => { board with pins := board.pins.modify pin ({ · with pull }) })
  | .setOutput pin output =>
    some (pin, fun board => { board with pins := board.pins.modify pin ({ · with output }) })
  | _ => none

/-- What can be done while interrupts stay masked. Handlers can be entered by hand all the same; a
message that is forced on a pin is made of changes of the pin. -/
def Operation.keepsMask : Operation → Bool
  | .unmask | .dispatch _ | .entry _ | .forceMessage .. => false
  | _ => true

/-- The handlers that an operation runs. -/
def calls (machine : Machine) (operation : Operation) : List Handler :=
  match operation.change?, operation with
  | some (pin, act), _ => (machine.board.change pin act).2
  | none, .unmask => machine.board.unmask.2
  | none, _ => []

/-- An operation enters these handlers one after the other, after all else is done. -/
def Runs (machine : Machine) (operation : Operation) (handlers : List Handler) : Prop :=
  ∃ between : Machine, between.events = machine.events ∧ between.captures = machine.captures ∧
    (machine.perform operation).2 = handlers.foldl enter between

/-- What an operation has noticed: which pins gain a record, or which is not heard any more. -/
def notices (machine : Machine) (operation : Operation) : List Notice :=
  match operation.change?, operation with
  | some (pin, _), _ =>
    let after := (machine.perform operation).2.board
    machine.board.edges (machine.board.grown after (after.net pin))
  | none, .detach pin => [.detached pin]
  | none, _ => []

/-- Carries out operations in order. -/
def follow (machine : Machine) (operations : List Operation) : Machine :=
  operations.foldl (fun machine operation => (machine.perform operation).2) machine

/-- What a series of operations has noticed. -/
def trace (machine : Machine) : List Operation → List Notice
  | [] => []
  | operation :: operations =>
    machine.notices operation ++ (machine.perform operation).2.trace operations

variable {machine : Machine} {operation : Operation}

theorem perform_change (machine : Machine) {pin : Pin} {act : Board → Board}
    (changes : operation.change? = some (pin, act)) :
    (machine.perform operation).2 = machine.settle (machine.board.change pin act) := by
  cases operation with
  | connect | inject | setDirection | setPull | setOutput =>
    cases changes
    rfl
  | _ => cases changes

theorem shape_of_change {pin : Pin} {act : Board → Board}
    (changes : operation.change? = some (pin, act)) (board : Board) :
    (∃ nets pins, act board = { board with nets, pins }) ∧
      (∀ one, (act board).handler? one = board.handler? one) ∧
      (board.Parted → (act board).Parted) := by
  cases operation with
  | connect one other =>
    cases changes
    refine ⟨⟨_, board.pins, board.join_shape pin other⟩, fun one => ?_, fun parted =>
      parted.join pin other⟩
    change (board.join pin other).handler? one = _
    rw [Board.join_shape]
    rfl
  | inject | setDirection | setPull | setOutput =>
    cases changes
    exact ⟨⟨_, _, rfl⟩, board.handler?_modify _ fun _ => rfl, fun parted => parted.of_nets rfl⟩
  | _ => cases changes

end Machine

namespace Board

variable {board : Board} {pin : Pin} {act : Board → Board}

/-- While interrupts are masked, a change raises no handler, and the pins that gain a record are
queued. -/
theorem change_masked (pin : Pin) (shape : ∃ nets pins, act board = { board with nets, pins })
    (handlers : ∀ one, (act board).handler? one = board.handler? one)
    (parted : (act board).Parted) (masked : board.masked = true) :
    ∃ after, board.change pin act = (after, []) ∧ after.masked = true ∧
      after.pending = (board.edges (board.grown after (after.net pin))).foldl Notice.queue
        board.pending := by
  obtain ⟨nets, pins, same⟩ := shape
  obtain ⟨-, changed⟩ | ⟨-, changed⟩ := board.change_cases pin act
  · rw [changed]
    generalize (act board).levels.set _ _ = levels
    have before (one : Pin) :
        { act board with levels }.transitions one = board.transitions one := by
      rw [same]
      rfl
    have records := transitions_noteEdge { act board with levels }
      ((act board).netLevel ((act board).net pin)) (parted.nodup_net pin)
    obtain ⟨history, noted⟩ := noteEdge_masked { act board with levels }
      ((act board).netLevel ((act board).net pin)) ((act board).net pin)
      (by rw [same]; exact masked)
    rw [noted] at records
    refine ⟨_, noted, by rw [same]; exact masked, ?_⟩
    have all : board.grown _ ((act board).net pin) = (act board).net pin :=
      grown_eq_self fun one inside => ⟨_, by rw [records one, before, if_pos inside]⟩
    have heard : { act board with levels }.edges ((act board).net pin) =
        board.edges ((act board).net pin) :=
      List.map_congr_left fun one _ => congrArg (Notice.edge one) (handlers one)
    change (Board.edges _ _).foldl _ (act board).pending =
      (board.edges (board.grown _ ((act board).net pin))).foldl _ _
    rw [all, heard, same]
  · refine ⟨_, changed, by rw [same]; exact masked, ?_⟩
    rw [grown_eq_nil (by rw [same])]
    change (act board).pending = board.pending
    rw [same]

end Board

namespace Machine

variable {machine : Machine} {operation : Operation}

/-- An operation runs no handler, and what it has noticed is queued. -/
structure Queues (machine : Machine) (operation : Operation) : Prop where
  masked : machine.board.masked = true → (machine.perform operation).2.board.masked = true
  silent : machine.calls operation = []
  pending : (machine.perform operation).2.board.pending =
    (machine.notices operation).foldl Notice.queue machine.board.pending
  events : (machine.perform operation).2.events = machine.events
  captures : (machine.perform operation).2.captures = machine.captures

theorem queues_change {pin : Pin} {act : Board → Board} (parted : machine.board.Parted)
    (masked : machine.board.masked = true) (changes : operation.change? = some (pin, act)) :
    machine.Queues operation := by
  obtain ⟨shape, handlers, joins⟩ := shape_of_change changes machine.board
  obtain ⟨after, changed, still, queued⟩ :=
    Board.change_masked pin shape handlers (joins parted) masked
  have performed : (machine.perform operation).2 = { machine with board := after } := by
    rw [machine.perform_change changes, changed]
    rfl
  refine ⟨fun _ => by rw [performed]; exact still, ?_, ?_, by rw [performed], by rw [performed]⟩
  · unfold calls
    rw [changes]
    exact congrArg Prod.snd changed
  · unfold notices
    rw [changes, performed]
    exact queued

/-- Neither does a handler run, nor does the queue of those that wait change. -/
structure Idles (before after : Machine) : Prop where
  masked : after.board.masked = before.board.masked
  pending : after.board.pending = before.board.pending
  events : after.events = before.events
  captures : after.captures = before.captures

theorem idles_attach (machine : Machine) (pin : Pin) (handler : Handler) :
    machine.Idles (machine.attachAnswering pin handler).2 := by
  unfold attachAnswering attach
  cases machine.faults with
  | cons fault faults => exact ⟨rfl, rfl, rfl, rfl⟩
  | nil => cases machine.board.isUsable pin <;> exact ⟨rfl, rfl, rfl, rfl⟩

theorem idles_claim (machine : Machine) (sink : Sink) :
    machine.Idles (machine.claimAnswering sink).2 := by
  unfold claimAnswering claim
  cases machine.slots.claim? sink <;> exact ⟨rfl, rfl, rfl, rfl⟩

theorem idles_release (machine : Machine) (slot : SlotIndex) :
    machine.Idles (machine.release slot) := by
  unfold release
  split <;> exact ⟨rfl, rfl, rfl, rfl⟩

/-- An operation that changes no net and takes no handler off has nothing to queue. -/
theorem Idles.queues (idles : machine.Idles (machine.perform operation).2)
    (silent : machine.calls operation = []) (unnoticed : machine.notices operation = []) :
    machine.Queues operation :=
  ⟨idles.masked.trans, silent, by rw [unnoticed]; exact idles.pending, idles.events,
    idles.captures⟩

theorem queues_unchanging (unchanging : operation.change? = none) (keeps : operation.keepsMask) :
    machine.Queues operation := by
  cases operation with
  | connect | inject | setDirection | setPull | setOutput => cases unchanging
  | unmask | dispatch | entry | forceMessage => cases keeps
  | mask => exact ⟨fun _ => rfl, rfl, rfl, rfl, rfl⟩
  | attach pin handler => exact (machine.idles_attach pin handler).queues rfl rfl
  | attachSlot pin slot =>
    have idles : machine.Idles (machine.perform (.attachSlot pin slot)).2 := by
      unfold perform
      dsimp only
      split
      · exact ⟨rfl, rfl, rfl, rfl⟩
      · exact machine.idles_attach pin _
    exact idles.queues rfl rfl
  | claim sink => exact (machine.idles_claim sink).queues rfl rfl
  | release slot =>
    have idles : machine.Idles (machine.perform (.release slot)).2 := by
      unfold perform
      dsimp only
      split
      · exact ⟨rfl, rfl, rfl, rfl⟩
      · exact machine.idles_release _
    exact idles.queues rfl rfl
  | _ => exact ⟨id, rfl, rfl, rfl, rfl⟩

/-- What one operation does while interrupts are masked. -/
theorem queues_perform (parted : machine.board.Parted) (masked : machine.board.masked = true)
    (keeps : operation.keepsMask) : machine.Queues operation := by
  cases changes : operation.change? with
  | some change => exact queues_change parted masked changes
  | none => exact queues_unchanging changes keeps

/-- What runs in an operation are its handlers. -/
theorem perform_calls (machine : Machine) (keeps : operation.keepsMask ∨ operation = .unmask) :
    machine.Runs operation (machine.calls operation) := by
  cases changes : operation.change? with
  | some change =>
    refine ⟨{ machine with board := (machine.board.change change.1 change.2).1 }, rfl, rfl, ?_⟩
    rw [machine.perform_change changes]
    unfold calls
    rw [changes]
    rfl
  | none =>
    rcases keeps with keeps | rfl
    · have queues : machine.Queues operation := queues_unchanging changes keeps
      refine ⟨(machine.perform operation).2, queues.events, queues.captures, ?_⟩
      rw [queues.silent]
      rfl
    · exact ⟨{ machine with board := machine.board.unmask.1 }, rfl, rfl, rfl⟩

/-- What a series of operations does. -/
theorem follow_masked {span : List Operation} (parted : machine.board.Parted)
    (masked : machine.board.masked = true) (keeps : ∀ operation ∈ span, operation.keepsMask) :
    (machine.follow span).board.pending =
        (machine.trace span).foldl Notice.queue machine.board.pending ∧
      (machine.follow span).events = machine.events ∧
      (machine.follow span).captures = machine.captures ∧
      ∀ prior operation later, span = prior ++ operation :: later →
        (machine.follow prior).calls operation = [] := by
  induction span generalizing machine with
  | nil =>
    refine ⟨rfl, rfl, rfl, fun prior operation later same => ?_⟩
    cases prior <;> cases same
  | cons first span ih =>
    have queues := queues_perform parted masked (keeps first (List.mem_cons_self ..))
    obtain ⟨pending, events, captures, silent⟩ := ih
      (@World.parted_perform { machine } parted (.machine first)) (queues.masked masked)
      fun operation member => keeps operation (List.mem_cons_of_mem _ member)
    refine ⟨?_, events.trans queues.events, captures.trans queues.captures, ?_⟩
    · unfold trace
      rw [List.foldl_append, ← queues.pending]
      exact pending
    · intro prior operation later same
      cases prior with
      | nil =>
        cases same
        exact queues.silent
      | cons early prior =>
        cases same
        exact silent prior operation later rfl

end Machine

namespace World

theorem prompt_run {world : World} {timebase : Timebase} {clock : Cycle}
    {usable : Option (List Pin)} (fresh : world.machine.board = { timebase, clock, usable })
    (operations : List Operation) : (world.run operations).2.machine.board.Prompt :=
  (world.deeds_run operations).keep (fun deed => deed.prompt)
    (fresh ▸ ⟨Board.parted_of_bare rfl, fun _ => rfl⟩)

/-- Masked edges coalesce, without loss and without repetition. In whatever state a run leaves a
fresh board with interrupts let in, nothing waits. While they are masked no operation enters a
handler. Once they are let in, the handlers that are entered are those of the first edges that
stand, one for each pin that has any, in the order of these edges. -/
theorem run_masked_coalesces {world : World} {timebase : Timebase} {clock : Cycle}
    {usable : Option (List Pin)} (fresh : world.machine.board = { timebase, clock, usable })
    (operations : List Operation) {span : List Machine.Operation}
    (unmasked : (world.run operations).2.machine.board.masked = false)
    (keeps : ∀ operation ∈ span, operation.keepsMask) :
    let machine := (world.run operations).2.machine
    let notices := machine.mask.trace span
    let ended := machine.mask.follow span
    machine.board.pending = [] ∧
      (∀ prior operation later, span = prior ++ operation :: later →
        (machine.mask.follow prior).calls operation = [] ∧
          (machine.mask.follow prior).Runs operation []) ∧
      (ended.events = machine.events ∧ ended.captures = machine.captures) ∧
      ∃ calls : List (Nat × Pin × Handler),
        ended.unmask = (calls.map fun call => call.2.2).foldl Machine.enter
          { ended with board := { ended.board with masked := false, pending := [] } } ∧
        Notice.Lists notices calls ∧ (calls.map fun call => call.2.1).Nodup ∧
        ∀ pin, pin ∈ calls.map (fun call => call.2.1) ↔
          ∃ place handler, Notice.Stands notices place pin handler := by
  intro machine notices ended
  have prompt : machine.board.Prompt := prompt_run fresh operations
  have clear := prompt.clear unmasked
  obtain ⟨pending, events, captures, silent⟩ :=
    @Machine.follow_masked machine.mask span (prompt.parted.of_nets rfl) rfl keeps
  obtain ⟨calls, lists, queued⟩ := Notice.exists_lists notices
  refine ⟨clear, fun prior operation later same => ?_, ⟨events, captures⟩, calls, ?_, lists,
    lists.nodup, lists.mem_pins_iff⟩
  · have member : operation ∈ span := same ▸ List.mem_append_right prior List.mem_cons_self
    have nothing := silent prior operation later same
    have runs := (machine.mask.follow prior).perform_calls (.inl (keeps operation member))
    rw [nothing] at runs
    exact ⟨nothing, runs⟩
  · have waiting : ended.board.pending = calls.map Prod.snd := by
      rw [queued]
      exact pending.trans (congrArg (notices.foldl Notice.queue) clear)
    change (ended.board.pending.map Prod.snd).foldl Machine.enter _ = _
    rw [waiting, List.map_map]
    rfl

/-- Two pins are heard. -/
def heard : List Operation := [.machine (.attach 5 (.probe 0)), .machine (.attach 6 (.probe 1))]

/-- One of them is heard by another handler after its first edge; the other is not heard for a
while, and by another handler then. -/
def hushed : List Machine.Operation :=
  [.inject 6 (some true), .inject 5 (some true), .attach 6 (.probe 2), .inject 6 (some false),
    .detach 5, .inject 5 none, .attach 5 (.probe 3), .inject 5 (some false)]

/-- Each pin is heard once more, by the handler of its first edge that stands. -/
theorem hushed_coalesces :
    let machine := (run {} heard).2.machine
    let notices := machine.mask.trace hushed
    let ended := machine.mask.follow hushed
    ended.board.pending = [(6, .probe 1), (5, .probe 3)] ∧ ended.events = #[] ∧
      ended.unmask.events = #[.handler 1, .handler 3] ∧
      ∃ calls : List (Nat × Pin × Handler),
        ended.unmask = (calls.map fun call => call.2.2).foldl Machine.enter
          { ended with board := { ended.board with masked := false, pending := [] } } ∧
        Notice.Lists notices calls := by
  obtain ⟨-, -, -, calls, runs, lists, -⟩ :=
    @run_masked_coalesces {} _ _ _ rfl heard hushed (by decide +kernel) (by decide)
  exact ⟨by decide +kernel, by decide +kernel, by decide +kernel, calls, runs, lists⟩

end World
end PinUart
