import PinUart.Proofs.Lifecycle

/-! Which way the line of a port is turned, and whether the port listens. Turning disarms
the receive interrupt before the port sends; only arming it by hand brings it back. -/
namespace PinUart

namespace Port

variable {port other : Port} {machine : Machine}

/-- A port that is turned to sending does not listen. -/
def Averted (port : Port) : Prop := port.mode = .transmit → port.listening = false

theorem Averted.of_same (averted : port.Averted) (stake : other.stake = port.stake)
    (posture : other.posture = port.posture) : other.Averted := by
  have listening : other.listening = port.listening := congrArg Stake.listening stake
  have mode : other.mode = port.mode := congrArg Posture.mode posture
  unfold Averted
  rw [mode, listening]
  exact averted

theorem Averted.turnLine (averted : port.Averted) (orderly : port.Orderly) (machine : Machine)
    (on : Bool) : (port.turnLine machine on).2.1.Averted := by
  obtain ⟨-, ⟨-, same⟩ | ⟨-, posture, silent⟩⟩ := orderly.turnLine machine on
  · rw [same]
    exact averted
  · intro sending
    cases on with
    | true => exact congrArg Stake.listening (silent rfl)
    | false => cases (congrArg Posture.mode posture).symm.trans sending

/-- A start turns a receiver back, and a port without a capture never listens. -/
theorem Averted.start (averted : port.Averted) (orderly : port.Orderly) (machine : Machine)
    (baud : UInt32) : (port.start machine baud).2.1.Averted := by
  intro sending
  rcases port.start_outcome machine baud with ⟨failure, -, refused⟩ | ⟨-, begun⟩
  · obtain ⟨mode, turned, posture⟩ := refused.posture
    have same : mode = .transmit := (congrArg Posture.mode posture).symm.trans sending
    have before : port.listening = false := by
      refine averted ?_
      rcases turned with kept | back
      · exact kept.symm.trans same
      · cases back.symm.trans same
    rcases refused.stake with kept | ⟨-, kept⟩
    · exact (congrArg Stake.listening kept).trans before
    · exact (congrArg Stake.listening kept).trans before
  · obtain ⟨mode, -, posture, receives⟩ := begun.posture
    obtain ⟨slot, listening, stake, -, -, owns, listens⟩ := begun.stake
    have same : mode = .transmit := (congrArg Posture.mode posture).symm.trans sending
    have captureless : port.stake.capture = none := by
      rw [← Option.not_isSome_iff_eq_none]
      intro captured
      cases (receives captured (orderly.placed captured)).symm.trans same
    have free := Stake.Orderly.slot_of_captureless orderly captureless
    have without : slot.isSome = false := by
      refine Bool.eq_false_iff.mpr fun held => ?_
      rcases owns held with own | captured
      · rw [show port.slot = none from free] at own
        cases own
      · rw [captureless] at captured
        cases captured
    refine (congrArg Stake.listening stake).trans ?_
    rcases listens with kept | held
    · exact kept.trans (Stake.Orderly.silent orderly free)
    · cases without.symm.trans held

/-- Every operation keeps a port averted, but for arming the interrupt of one that sends. -/
theorem Averted.perform (averted : port.Averted) (orderly : port.Orderly) {machine : Machine}
    {operation : Operation}
    (unarmed : operation = .setListening true → port.mode = .transmit →
      (port.setListening machine true).2.1.listening = false) :
    (port.perform machine operation).2.1.Averted := by
  by_cases plain : operation.isPlain
  · obtain ⟨stake, posture⟩ := port.perform_plain machine plain
    exact averted.of_same stake posture
  · cases operation with
    | start baud => exact averted.start orderly machine baud
    | stop => exact fun _ => congrArg Stake.listening (orderly.stop machine).1
    | turnLine on => exact averted.turnLine orderly machine on
    | setListening on =>
      cases on with
      | true =>
        intro sending
        refine unarmed rfl ?_
        exact (congrArg Posture.mode (port.posture_setListening machine true)).symm.trans sending
      | false => exact fun _ => congrArg Stake.listening (orderly.disarm machine)
    | write data =>
      exact (@write_induction port (fun port => port.Orderly ∧ port.Averted)
        (fun both stake posture =>
          ⟨both.1.of_same stake (by rw [posture]), both.2.of_same stake posture⟩)
        (fun both machine on =>
          ⟨(both.1.turnLine machine on).1, both.2.turnLine both.1 machine on⟩)
        ⟨orderly, averted⟩ machine data).2
    | _ => exact absurd rfl plain

theorem averted_create (machine : Machine) (config : Config) :
    (create machine config).1.Averted := fun sending => by cases sending

end Port

namespace World

variable {world : World} {operations : List Operation} {index : Nat}

/-- On a sound world, what can be entered for a pin is the slot of a port that listens on
that pin. -/
theorem Sound.leads_to_listener (sound : world.Sound) {pin : Pin} {handler : Handler}
    (entered : world.machine.board.Reaches pin handler) :
    ∃ other port, world.port? other = some port ∧ port.rxPin = some pin ∧
      port.listening = true := by
  obtain ⟨slot, capture, rfl, bound, placed⟩ := sound.routed pin handler entered
  obtain ⟨other, port, shared, live, own, led⟩ := sound.owned slot _ bound
  cases led
  have mine := sound.ports other port live
  have holds := (mine.bound _ slot own).mp bound
  refine ⟨other, port, live, mine.pin holds entered, ?_⟩
  exact eq_true_of_ne_false fun silent => mine.unheard silent slot holds pin entered

/-- No other port receives on the receive pin of a port. -/
def Alone (world : World) (index : Nat) : Prop :=
  ∀ port other theirs pin, world.port? index = some port → world.port? other = some theirs →
    port.rxPin = some pin → theirs.rxPin = some pin → other = index

/-- A port that is turned to sending does not listen, and nothing is attached to its receive
pin, or pending for it, if the port is alone there. -/
def Averted (world : World) (index : Nat) : Prop :=
  ∀ port, world.port? index = some port → port.mode = .transmit →
    port.listening = false ∧
      (world.Alone index → ∀ pin, port.rxPin = some pin →
        ∀ handler, ¬ world.machine.board.Reaches pin handler)

theorem Sound.averted (sound : world.Sound)
    (ports : ∀ port, world.port? index = some port → port.Averted) : world.Averted index := by
  intro port live sending
  have silent := ports port live sending
  refine ⟨silent, ?_⟩
  intro alone pin receive handler entered
  obtain ⟨other, theirs, there, shared, listens⟩ := sound.leads_to_listener entered
  cases alone port other theirs pin live there receive shared
  cases live.symm.trans there
  cases silent.symm.trans listens

/-- In the whole course of a run a port that is turned to sending is averted, exactly if its
interrupt is never armed by hand while it is turned to sending. -/
theorem run_averted_iff (fresh : world.Fresh)
    (spare : ∀ operation ∈ operations, operation.sparesInterrupts) :
    (∀ earlier, earlier <+: operations → (world.run earlier).2.Averted index) ↔
      ∀ earlier, earlier ++ [.port index (.setListening true)] <+: operations →
        ∀ port, (world.run earlier).2.port? index = some port → port.mode = .transmit →
          (port.setListening (world.run earlier).2.machine true).2.1.listening = false := by
  constructor
  · intro averted earlier began port live sending
    have later := averted _ began
    rw [run_append] at later
    refine (later _ (perform_port live (.setListening true)).1 ?_).1
    exact (congrArg Posture.mode (port.posture_setListening _ true)).trans sending
  · intro unarmed earlier began
    refine Sound.averted (fresh.sound.run fun operation member =>
      spare operation (began.subset member)) ?_
    induction earlier using List.reverseRecOn with
    | nil =>
      intro port live
      cases (port?_of_no_ports fresh.ports index).symm.trans live
    | append_singleton earlier operation ih =>
      intro port live
      have before := ih ((List.prefix_append earlier [operation]).trans began)
      rw [run_append] at live
      rcases port?_perform live with ⟨config, -, rfl⟩ | ⟨old, there, rfl | ⟨own, rfl, rfl⟩⟩
      · exact Port.averted_create _ _
      · exact before _ there
      · refine (before old there).perform (run_orderly fresh.ports there) ?_
        rintro rfl sending
        exact unarmed earlier began old there sending

/-- A one-wire port that was started and turned to sending. -/
def turned : List Operation :=
  [.openPort { rxPin := some 5, txPin := some 5 }, .port 0 (.start 9600),
    .port 0 (.turnLine true)]

/-- It sends, and is averted. -/
theorem turned_averted :
    ((run {} turned).2.port? 0).map (·.mode) = some .transmit ∧
      (run {} turned).2.Averted 0 := by
  refine ⟨by decide +kernel, ?_⟩
  refine (run_averted_iff fresh_empty (by decide)).mpr ?_ turned (List.prefix_refl turned)
  intro earlier began
  have member := began.subset (List.mem_append_right earlier (List.mem_singleton.mpr rfl))
  exact absurd member (by decide)

/-- Armed by hand, it listens to what it sends itself. -/
theorem turned_armed_not_averted :
    ¬ (run {} (turned ++ [.port 0 (.setListening true)])).2.Averted 0 := by
  have before : ((run {} (turned ++ [.port 0 (.setListening true)])).2.port? 0).map
      (fun port => (port.mode, port.listening)) = some (.transmit, true) := by
    decide +kernel
  obtain ⟨port, live, same⟩ := Option.map_eq_some_iff.mp before
  obtain ⟨sending, listens⟩ := Prod.mk.inj same
  intro averted
  cases (averted port live sending).1.symm.trans listens

end World
end PinUart
