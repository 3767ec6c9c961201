import PinUart.Proofs.Nets

/-! What a board reports of a change. The level of a net is what its pins do to it, and what is on
record for it where they do nothing, so that a change of one pin reaches the pins of its net and
no others. Each pin that it moves gains one record, and its handler runs, or waits as long as
interrupts are masked, if none waits for the pin already. -/
namespace PinUart

namespace Board

theorem keyPin_mem {net : List Pin} (filled : net ≠ []) : keyPin net ∈ net := by
  unfold keyPin
  cases least : net.min? with
  | none => exact absurd (List.min?_eq_none_iff.mp least) filled
  | some key => exact List.min?_mem least

theorem net_ne_nil (board : Board) (pin : Pin) : board.net pin ≠ [] :=
  List.ne_nil_of_mem (board.mem_net pin)

theorem keyPin_net_mem (board : Board) (pin : Pin) : keyPin (board.net pin) ∈ board.net pin :=
  keyPin_mem (board.net_ne_nil pin)

/-- The level of a net depends on its own pins, and on the record under one of them. -/
theorem netLevel_congr {one other : Board} {net : List Pin} (filled : net ≠ [])
    (pins : ∀ pin ∈ net, (one.pins.get pin).drives? = (other.pins.get pin).drives? ∧
      (one.pins.get pin).pull = (other.pins.get pin).pull)
    (levels : ∀ pin ∈ net, one.levels.get pin = other.levels.get pin) :
    one.netLevel net = other.netLevel net := by
  have driven : net.filterMap (fun pin => (one.pins.get pin).drives?) =
      net.filterMap fun pin => (other.pins.get pin).drives? :=
    List.filterMap_congr fun pin inside => (pins pin inside).1
  have pulled : net.any (fun pin => (one.pins.get pin).pull == .up) =
      net.any fun pin => (other.pins.get pin).pull == .up := by
    rw [Bool.eq_iff_iff, List.any_eq_true, List.any_eq_true]
    exact exists_congr fun pin => and_congr_right fun inside => by rw [(pins pin inside).2]
  unfold netLevel
  rw [driven, pulled, levels _ (keyPin_mem filled)]

/-- A net whose level is put on record has that level. -/
theorem netLevel_recorded (board : Board) (net : List Pin) :
    { board with levels := board.levels.set (keyPin net) (some (board.netLevel net)) }.netLevel
      net = board.netLevel net := by
  unfold netLevel
  dsimp only
  rw [PinMap.get_set_self]
  split
  · dsimp only
    cases net.any fun pin => (board.pins.get pin).pull == .up with
    | true => rfl
    | false => simp
  · rfl

variable {board : Board} {pin : Pin}

/-- The pin that a net goes by is in no other net. -/
theorem Parted.keyPin_ne (parted : board.Parted) {one other : Pin} (foreign : one ∉ board.net pin)
    (inside : other ∈ board.net one) : keyPin (board.net pin) ≠ other := by
  rintro rfl
  have shared := (parted.net_eq (board.keyPin_net_mem pin)).symm.trans (parted.net_eq inside)
  exact foreign (shared ▸ board.mem_net one)

/-- A net that shares no pin with another does not hear of what is recorded for it. -/
theorem Parted.netLevel_apart (parted : board.Parted) {one : Pin} (foreign : one ∉ board.net pin)
    (level : Option Bool) :
    { board with levels := board.levels.set (keyPin (board.net pin)) level }.netLevel
      (board.net one) = board.netLevel (board.net one) := by
  refine netLevel_congr (board.net_ne_nil one) (fun _ _ => ⟨rfl, rfl⟩) fun other inside => ?_
  exact (PinMap.get_set ..).trans (if_neg (parted.keyPin_ne foreign inside))

/-- A change leaves behind what it did, with the level of the net on record. -/
theorem change_recorded (board : Board) (pin : Pin) (act : Board → Board) :
    let changed := act board
    let net := changed.net pin
    ∃ history pending, (board.change pin act).1 = { changed with
      levels := changed.levels.set (keyPin net) (some (changed.netLevel net))
      history
      pending } := by
  unfold change
  dsimp only
  split
  · exact noteEdge_shape _ _ _
  · exact ⟨_, _, rfl⟩

/-- Once a change is settled, the pins of its net have the level that it led to, and all other
pins the level that it left them. -/
theorem level_change (board : Board) (pin : Pin) {act : Board → Board}
    (parted : (act board).Parted) (one : Pin) :
    let changed := act board
    (board.change pin act).1.level one =
      if one ∈ changed.net pin then changed.netLevel (changed.net pin) else changed.level one := by
  intro changed
  obtain ⟨history, pending, same⟩ := board.change_recorded pin act
  rw [same]
  change { changed with levels := _ }.netLevel (changed.net one) = _
  split
  · rename_i inside
    rw [parted.net_eq inside]
    exact netLevel_recorded changed (changed.net pin)
  · rename_i foreign
    exact parted.netLevel_apart foreign _

/-- A new set-up of a pin does not reach the pins of other nets. -/
theorem Parted.level_modify (parted : board.Parted) {one : Pin} (foreign : one ∉ board.net pin)
    (act : PinState → PinState) :
    { board with pins := board.pins.modify pin act }.level one = board.level one := by
  refine netLevel_congr (board.net_ne_nil one) (fun other inside => ?_) fun _ _ => rfl
  have different : pin ≠ other := by
    rintro rfl
    exact foreign (parted.net_eq inside ▸ board.mem_net one)
  dsimp only
  rw [PinMap.get_modify_of_ne different]
  exact ⟨rfl, rfl⟩

/-- The level that a new set-up of a pin leads to, on every pin of its net and no other. -/
theorem Parted.level_setUp (parted : board.Parted) (act : PinState → PinState) (one : Pin) :
    (board.setUp pin act).1.level one =
      if one ∈ board.net pin then
        { board with pins := board.pins.modify pin act }.netLevel (board.net pin)
      else board.level one := by
  refine (board.level_change pin (parted.of_nets rfl) one).trans ?_
  change (if one ∈ board.net pin then _ else _) = _
  split
  · rfl
  · rename_i foreign
    exact parted.level_modify foreign act

theorem handler?_modify (board : Board) (pin : Pin) {act : PinState → PinState}
    (spares : ∀ state, (act state).handler = state.handler) (one : Pin) :
    { board with pins := board.pins.modify pin act }.handler? one = board.handler? one := by
  unfold handler?
  dsimp only
  rw [PinMap.get_modify]
  split
  · exact spares _
  · rfl

/-- The pins that have a handler, each with its own. -/
def listeners (board : Board) (pins : List Pin) : List (Pin × Handler) :=
  pins.filterMap fun pin => (board.handler? pin).map (pin, ·)

/-- Whether a handler waits for the pin. -/
def isWaiting (board : Board) (pin : Pin) : Bool := board.pending.any (·.1 == pin)

/-- The handlers of the pins that moved, each of them once. -/
structure Calls (board : Board) (moved : Pin → Prop) (calls : List (Pin × Handler)) : Prop where
  once : (calls.map Prod.fst).Nodup
  mem_iff : ∀ pin handler,
    (pin, handler) ∈ calls ↔ moved pin ∧ board.handler? pin = some handler

theorem calls_nil {moved : Pin → Prop} (still : ∀ pin, ¬ moved pin) : board.Calls moved [] :=
  ⟨.nil, fun pin _ =>
    ⟨fun member => absurd member List.not_mem_nil, fun ⟨changed, _⟩ => absurd changed (still pin)⟩⟩

theorem mem_listeners {pins : List Pin} {handler : Handler} :
    (pin, handler) ∈ board.listeners pins ↔ pin ∈ pins ∧ board.handler? pin = some handler := by
  unfold listeners
  rw [List.mem_filterMap]
  constructor
  · rintro ⟨other, inside, listed⟩
    obtain ⟨theirs, attached, same⟩ := Option.map_eq_some_iff.mp listed
    obtain ⟨rfl, rfl⟩ := Prod.mk.inj same
    exact ⟨inside, attached⟩
  · rintro ⟨inside, attached⟩
    exact ⟨pin, inside, by rw [attached]; rfl⟩

theorem fst_listeners (board : Board) (pins : List Pin) :
    (board.listeners pins).map Prod.fst = pins.filter fun pin => (board.handler? pin).isSome := by
  induction pins with
  | nil => rfl
  | cons first pins ih =>
    unfold listeners at ih ⊢
    rw [List.filterMap_cons, List.filter_cons]
    cases board.handler? first with
    | none => exact ih
    | some handler => exact congrArg (first :: ·) ih

theorem calls_listeners {pins : List Pin} (distinct : pins.Nodup) :
    board.Calls (· ∈ pins) (board.listeners pins) := by
  refine ⟨?_, fun pin handler => mem_listeners⟩
  rw [fst_listeners]
  exact distinct.filter _

theorem Calls.filter {moved : Pin → Prop} {calls : List (Pin × Handler)}
    (called : board.Calls moved calls) (wanted : Pin → Bool) :
    board.Calls (fun pin => moved pin ∧ wanted pin) (calls.filter fun call => wanted call.1) := by
  refine ⟨?_, fun pin handler => ?_⟩
  · exact called.once.sublist (List.filter_sublist.map Prod.fst)
  · rw [List.mem_filter, called.mem_iff]
    tauto

theorem Calls.congr {moved other : Pin → Prop} {calls : List (Pin × Handler)}
    (called : board.Calls moved calls) (same : ∀ pin, moved pin ↔ other pin) :
    board.Calls other calls :=
  ⟨called.once, fun pin handler => by rw [called.mem_iff, same]⟩

/-- The handlers that run on an edge at those pins. -/
def raised (board : Board) (pins : List Pin) : List (Pin × Handler) :=
  if board.masked then [] else board.listeners pins

/-- The handlers that an edge at those pins leaves waiting. -/
def withheld (board : Board) (pins : List Pin) : List (Pin × Handler) :=
  if board.masked then (board.listeners pins).filter fun call => !board.isWaiting call.1 else []

theorem notePin_shape (board : Board) (pin : Pin) (level : Bool) :
    ∃ history, board.notePin pin level =
      ({ board with history, pending := board.pending ++ board.withheld [pin] },
        if board.masked then none else board.handler? pin) := by
  refine ⟨board.history.modify pin (·.push ⟨board.clock, level⟩), ?_⟩
  have alone : board.listeners [pin] = ((board.handler? pin).map (pin, ·)).toList := by
    unfold listeners
    rw [List.filterMap_cons]
    cases board.handler? pin <;> rfl
  unfold notePin withheld
  dsimp only
  rw [alone]
  unfold handler? isWaiting
  cases (board.pins.get pin).handler with
  | none => simp
  | some handler =>
    cases board.masked with
    | false => simp
    | true => cases waiting : board.pending.any (·.1 == pin) <;> simp [waiting]

/-- A handler that now waits for another pin does not keep one from waiting. -/
theorem withheld_cons (board : Board) {first : Pin} {pins : List Pin} (outside : first ∉ pins) :
    board.withheld (first :: pins) = board.withheld [first] ++
      { board with pending := board.pending ++ board.withheld [first] }.withheld pins := by
  cases masked : board.masked with
  | false =>
    unfold withheld
    simp [masked]
  | true =>
    have parts :
        board.listeners (first :: pins) = board.listeners [first] ++ board.listeners pins :=
      List.filterMap_append (l := [first])
    unfold withheld
    simp only [masked, if_true]
    rw [parts, List.filter_append]
    refine congrArg (_ ++ ·) (List.filter_congr fun call member => congrArg (!·) ?_)
    have different : first ≠ call.1 := fun same => outside (same ▸ (mem_listeners.mp member).1)
    have own : ((board.listeners [first]).filter fun call => !board.isWaiting call.1).any
        (·.1 == call.1) = false := by
      rw [List.any_eq_false]
      intro other kept
      have alone := (mem_listeners.mp (List.mem_filter.mp kept).1).1
      rw [List.mem_singleton.mp alone]
      simpa using different
    change _ = List.any (_ ++ _) _
    rw [List.any_append, own, Bool.or_false]
    rfl

theorem raised_cons (board : Board) (first : Pin) (pins : List Pin) :
    (board.raised (first :: pins)).map Prod.snd =
      (if board.masked then none else board.handler? first).toList ++
        (board.raised pins).map Prod.snd := by
  unfold raised listeners
  cases board.masked with
  | true => rfl
  | false =>
    rw [List.filterMap_cons]
    cases board.handler? first <;> rfl

theorem calls_raised (board : Board) {pins : List Pin} (distinct : pins.Nodup) :
    board.Calls (fun pin => pin ∈ pins ∧ board.masked = false) (board.raised pins) := by
  unfold raised
  split
  · rename_i masked
    exact calls_nil fun pin told => by simp [masked] at told
  · rename_i unmasked
    exact (calls_listeners distinct).congr fun pin => by simp [unmasked]

theorem calls_withheld (board : Board) {pins : List Pin} (distinct : pins.Nodup) :
    board.Calls (fun pin => pin ∈ pins ∧ board.masked = true ∧ board.isWaiting pin = false)
      (board.withheld pins) := by
  unfold withheld
  split
  · rename_i masked
    exact ((calls_listeners distinct).filter (!board.isWaiting ·)).congr fun pin => by
      simp [masked]
  · rename_i unmasked
    exact calls_nil fun pin told => unmasked told.2.1

/-- What an edge leaves behind, and the handlers that run on it. -/
theorem noteEdge_calls (board : Board) (level : Bool) {pins : List Pin} (distinct : pins.Nodup) :
    ∃ history, board.noteEdge level pins =
      ({ board with history, pending := board.pending ++ board.withheld pins },
        (board.raised pins).map Prod.snd) := by
  induction pins generalizing board with
  | nil =>
    have nobody : board.withheld [] = [] ∧ board.raised [] = [] := by
      unfold withheld raised
      cases board.masked <;> exact ⟨rfl, rfl⟩
    refine ⟨board.history, ?_⟩
    rw [nobody.1, nobody.2, List.append_nil]
    rfl
  | cons first pins ih =>
    obtain ⟨outside, distinct⟩ := List.nodup_cons.mp distinct
    obtain ⟨early, noted⟩ := board.notePin_shape first level
    obtain ⟨history, later⟩ := ih (board.notePin first level).1 distinct
    refine ⟨history, ?_⟩
    rw [withheld_cons board outside, raised_cons]
    unfold noteEdge
    dsimp only
    rw [later, noted, List.append_assoc]
    rfl

/-- A change counts as an edge: its net has another level than before, or has grown and does not
have that level on record. -/
def Jolts (board : Board) (pin : Pin) (act : Board → Board) : Prop :=
  let changed := act board
  let net := changed.net pin
  ((board.net pin).length ≠ net.length ∧
      changed.levels.get (keyPin net) ≠ some (changed.netLevel net)) ∨
    board.level pin ≠ changed.netLevel net

theorem change_cases (board : Board) (pin : Pin) (act : Board → Board) :
    let changed := act board
    let net := changed.net pin
    let settled := { changed with
      levels := changed.levels.set (keyPin net) (some (changed.netLevel net)) }
    (board.Jolts pin act ∧ board.change pin act = settled.noteEdge (changed.netLevel net) net) ∨
      ¬ board.Jolts pin act ∧ board.change pin act = (settled, []) := by
  intro changed net settled
  by_cases jolts : board.Jolts pin act
  · exact .inl ⟨jolts, if_pos jolts⟩
  · exact .inr ⟨jolts, if_neg jolts⟩

end Board

namespace Machine

/-- The pins told of a change of their level are these: each of them gains one record, and its
handler is entered, or waits while interrupts are masked, if none waits for the pin yet. Beyond the
board nothing happens but what those handlers do, entered one after the other. -/
structure Tells (before after : Machine) (told : Pin → Prop) : Prop where
  gained : ∀ pin, told pin → after.board.transitions pin =
    before.board.transitions pin ++ [⟨before.board.clock, after.board.level pin⟩]
  kept : ∀ pin, ¬ told pin → after.board.transitions pin = before.board.transitions pin
  heard : ∃ calls, before.board.Calls (fun pin => told pin ∧ before.board.masked = false) calls ∧
    after = (calls.map Prod.snd).foldl enter
      { before with board := { after.board with clock := before.board.clock } }
  held : ∃ calls, before.board.Calls (fun pin =>
      told pin ∧ before.board.masked = true ∧ before.board.isWaiting pin = false) calls ∧
    after.board.pending = before.board.pending ++ calls

variable {machine : Machine} {pin : Pin} {act : Board → Board}

/-- The handlers that run on a change do not take part in what is told of it. -/
theorem tells_settle {told : Pin → Prop} {result : Board × List Handler}
    (clock : result.1.clock = machine.board.clock)
    (gained : ∀ pin, told pin → result.1.transitions pin =
      machine.board.transitions pin ++ [⟨machine.board.clock, result.1.level pin⟩])
    (kept : ∀ pin, ¬ told pin → result.1.transitions pin = machine.board.transitions pin)
    (heard : ∃ calls, machine.board.Calls
      (fun pin => told pin ∧ machine.board.masked = false) calls ∧ result.2 = calls.map Prod.snd)
    (held : ∃ calls, machine.board.Calls (fun pin =>
        told pin ∧ machine.board.masked = true ∧ machine.board.isWaiting pin = false) calls ∧
      result.1.pending = machine.board.pending ++ calls) :
    machine.Tells (machine.settle result) told := by
  obtain ⟨late, same⟩ := machine.board_settle result
  have restored : { (machine.settle result).board with clock := machine.board.clock } =
      result.1 := by
    rw [same, ← clock]
  obtain ⟨calls, called, ran⟩ := heard
  refine ⟨?_, ?_, ⟨calls, called, ?_⟩, ?_⟩
  · rw [same]
    exact gained
  · rw [same]
    exact kept
  · rw [restored, ← ran]
    rfl
  · rw [same]
    exact held

/-- An edge is told to the pins that it is noted on. -/
theorem tells_noteEdge {net : List Pin} {high : Bool} {settled : Board}
    (shape : ∃ nets pins levels, settled = { machine.board with nets, pins, levels })
    (handlers : ∀ pin, settled.handler? pin = machine.board.handler? pin) (distinct : net.Nodup)
    (level : ∀ pin ∈ net, (settled.noteEdge high net).1.level pin = high) :
    machine.Tells (machine.settle (settled.noteEdge high net)) (· ∈ net) := by
  have records := settled.transitions_noteEdge high distinct
  have waits := settled.calls_withheld distinct
  have runs := settled.calls_raised distinct
  obtain ⟨history, noted⟩ := settled.noteEdge_calls high distinct
  obtain ⟨nets, pins, levels, same⟩ := shape
  have clock : settled.clock = machine.board.clock := by rw [same]
  have before (pin : Pin) : settled.transitions pin = machine.board.transitions pin := by
    rw [same]
    rfl
  refine tells_settle ?_ (fun pin told => ?_) (fun pin foreign => ?_) ⟨settled.raised net, ?_, ?_⟩
    ⟨settled.withheld net, ?_, ?_⟩
  · rw [noted]
    exact clock
  · rw [records, if_pos told, level pin told, before, clock]
  · rw [records, if_neg foreign, List.append_nil, before]
  · refine ⟨runs.once, fun pin handler => ?_⟩
    rw [runs.mem_iff, handlers, same]
  · rw [noted]
  · refine ⟨waits.once, fun pin handler => ?_⟩
    rw [waits.mem_iff, handlers, same]
    rfl
  · rw [noted, same]

/-- What a change does to the board is told to its net if it counts as an edge, else to nobody. -/
theorem tells_change (parted : (act machine.board).Parted)
    (shape : ∃ nets pins, act machine.board = { machine.board with nets, pins })
    (handlers : ∀ one, (act machine.board).handler? one = machine.board.handler? one) :
    machine.Tells (machine.settle (machine.board.change pin act)) fun one =>
      machine.board.Jolts pin act ∧ one ∈ (act machine.board).net pin := by
  have level := machine.board.level_change pin parted
  obtain ⟨nets, pins, same⟩ := shape
  obtain ⟨jolts, changed⟩ | ⟨still, changed⟩ := machine.board.change_cases pin act
  · rw [changed] at level ⊢
    simp only [jolts, true_and]
    have shape (levels : PinMap (Option Bool)) : ∃ nets pins recorded,
        { act machine.board with levels } =
          { machine.board with nets, pins, levels := recorded } :=
      ⟨nets, pins, levels, by rw [same]⟩
    exact tells_noteEdge (shape _) handlers (parted.nodup_net pin) fun one inside =>
      (level one).trans (if_pos inside)
  · rw [changed]
    refine tells_settle (by rw [same]) (fun one told => absurd told.1 still) (fun one _ => ?_)
      ⟨[], Board.calls_nil fun one told => still told.1.1, rfl⟩
      ⟨[], Board.calls_nil fun one told => still told.1.1, ?_⟩
    · rw [same]
      rfl
    · rw [same]
      exact (List.append_nil _).symm

theorem Tells.congr {before after : Machine} {told other : Pin → Prop}
    (tells : before.Tells after told) (same : ∀ pin, told pin ↔ other pin) :
    before.Tells after other := by
  have alike : told = other := funext fun pin => propext (same pin)
  exact alike ▸ tells

theorem level_settle (machine : Machine) (result : Board × List Handler) (pin : Pin) :
    (machine.settle result).board.level pin = result.1.level pin := by
  obtain ⟨clock, same⟩ := machine.board_settle result
  rw [same]
  rfl

/-- A new set-up of a pin is told to the pins whose level it changes. -/
theorem tells_setUp (parted : machine.board.Parted) (pin : Pin) {act : PinState → PinState}
    (spares : ∀ state, (act state).handler = state.handler) :
    let after := machine.settle (machine.board.setUp pin act)
    let moved := fun one => after.board.level one ≠ machine.board.level one
    (∀ one, moved one → one ∈ machine.board.net pin) ∧ machine.Tells after moved := by
  intro after moved
  let changed := { machine.board with pins := machine.board.pins.modify pin act }
  have level (one : Pin) : after.board.level one =
      if one ∈ machine.board.net pin then changed.netLevel (machine.board.net pin)
      else machine.board.level one :=
    (machine.level_settle _ one).trans (parted.level_setUp act one)
  have within (one : Pin) (differs : moved one) : one ∈ machine.board.net pin := by
    by_contra foreign
    exact differs ((level one).trans (if_neg foreign))
  refine ⟨within, (tells_change (parted.of_nets rfl) ⟨_, _, rfl⟩
    (machine.board.handler?_modify pin spares)).congr fun one => ?_⟩
  · have counts : machine.board.Jolts pin (fun board =>
        { board with pins := board.pins.modify pin act }) ↔
        machine.board.level pin ≠ changed.netLevel (machine.board.net pin) :=
      ⟨fun jolts => jolts.resolve_left fun grown => grown.1 rfl, .inr⟩
    rw [counts]
    change _ ∧ one ∈ machine.board.net pin ↔ after.board.level one ≠ machine.board.level one
    rw [level one]
    split
    · rename_i inside
      have shared : machine.board.level one = machine.board.level pin :=
        congrArg machine.board.netLevel (parted.net_eq inside)
      rw [shared, and_iff_left inside, ne_comm]
    · rename_i foreign
      simp [foreign]

/-- The pin that an operation sets up anew. -/
def Operation.setPin? : Operation → Option Pin
  | .inject pin _ | .setDirection pin _ | .setPull pin _ | .setOutput pin _ => some pin
  | _ => none

theorem perform_setPin (machine : Machine) {operation : Operation}
    (sets : operation.setPin? = some pin) :
    ∃ act : PinState → PinState, (∀ state, (act state).handler = state.handler) ∧
      (machine.perform operation).2 = machine.settle (machine.board.setUp pin act) := by
  cases operation with
  | inject | setDirection | setPull | setOutput =>
    cases sets
    refine ⟨_, ?_, rfl⟩
    exact fun _ => rfl
  | _ => cases sets

end Machine

namespace World

/-- The board reports exactly the changes of level. In whatever state a run leaves it, a new set-up
of a pin changes no level outside the net of that pin. The pins whose level changes are told of it,
each once, and nobody else is. -/
theorem run_reports_changes {world : World} (bare : world.machine.board.nets = [])
    (operations : List Operation) {operation : Machine.Operation} {pin : Pin}
    (sets : operation.setPin? = some pin) :
    let machine := (world.run operations).2.machine
    let after := (machine.perform operation).2
    let moved := fun one => after.board.level one ≠ machine.board.level one
    (∀ one, moved one → one ∈ machine.board.net pin) ∧ machine.Tells after moved := by
  intro machine after moved
  have parted : machine.board.Parted := parted_run (Board.parted_of_bare bare) operations
  obtain ⟨act, spares, performed⟩ := machine.perform_setPin sets
  have told := Machine.tells_setUp parted pin spares
  rw [← performed] at told
  exact told

/-- Two pins are wired together and both are heard, the one through an interrupt slot. -/
def overheard : List Operation :=
  [.machine (.connect 4 5), .machine (.attach 5 (.probe 0)), .machine (.claim (.probe 3)),
    .machine (.attachSlot 4 0)]

/-- The level of the one is forced, and each is told once. -/
theorem overheard_reports_changes :
    let machine := (run {} overheard).2.machine
    let after := (machine.perform (.inject 4 (some true))).2
    let moved := fun one => after.board.level one ≠ machine.board.level one
    moved 5 ∧ machine.events = #[] ∧ after.events = #[.sink 3, .handler 0] ∧
      (∀ one, moved one → one ∈ machine.board.net 4) ∧ machine.Tells after moved :=
  ⟨by decide +kernel, by decide +kernel, by decide +kernel,
    @run_reports_changes {} rfl overheard (.inject 4 (some true)) 4 rfl⟩

/-- A handler that was attached after the first edge is neither entered nor made to wait at the
second: while interrupts are masked, the earlier one goes on waiting in its place. -/
theorem reattached_not_waiting :
    let machine := (run {} ([.attach 5 (.probe 0), .mask, .inject 5 (some true),
      .attach 5 (.probe 1)].map .machine)).2.machine
    let after := (machine.perform (.inject 5 (some false))).2
    machine.board.masked = true ∧ after.board.level 5 ≠ machine.board.level 5 ∧
      machine.board.handler? 5 = some (.probe 1) ∧ after.events = #[] ∧
      (5, .probe 1) ∉ after.board.pending := by
  decide +kernel

end World
end PinUart
