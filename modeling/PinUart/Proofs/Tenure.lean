import PinUart.Proofs.Lifecycle

/-! Whether a receiver holds a slot as long as it runs. Every operation sees to that, but for
a start of a running port that the hardware refuses: it costs the slot, and the port runs on. -/
namespace PinUart

namespace Port

variable {port other : Port} {machine after : Machine}

/-- A receiver holds a slot exactly while it runs. -/
def Tenured (port : Port) : Prop := port.reception.isSome → (port.started ↔ port.slot.isSome)

/-- A running receiver that is orderly needs no more than a slot. -/
theorem Orderly.tenured (orderly : port.Orderly)
    (held : port.stake.capture.isSome → port.started → port.slot.isSome) : port.Tenured := by
  intro receives
  rw [reception_isSome] at receives
  exact ⟨held receives, orderly.runs⟩

theorem Tenured.of_same (tenured : port.Tenured) (stake : other.stake = port.stake)
    (started : other.started = port.started) : other.Tenured := by
  have slot : other.slot = port.slot := congrArg Stake.slot stake
  unfold Tenured
  rw [reception_isSome, stake, ← reception_isSome, started, slot]
  exact tenured

/-- Arming and disarming give no slot back. -/
theorem Tenured.setListening (tenured : port.Tenured) (machine : Machine) (on : Bool) :
    (port.setListening machine on).2.1.Tenured := by
  have started := congrArg Posture.started (port.posture_setListening machine on)
  rcases port.setListening_cases machine on with ⟨same, -⟩ | ⟨-, -, same⟩
  · exact tenured.of_same same started
  · intro receives
    rw [reception_isSome, same, ← reception_isSome port] at receives
    have slot : (port.setListening machine on).2.1.slot = port.slot := congrArg Stake.slot same
    rw [slot]
    exact (iff_of_eq (congrArg (· = true) started)).trans (tenured receives)

theorem Tenured.turnLine (tenured : port.Tenured) (machine : Machine) (on : Bool) :
    (port.turnLine machine on).2.1.Tenured := by
  cases shared : port.sharedPin? with
  | none =>
    rw [turnLine_unshared shared]
    exact tenured
  | some pin =>
    cases on with
    | true =>
      obtain ⟨other, between, disarmed, same⟩ := turnLine_away shared machine
      have kept := tenured.setListening machine false
      rw [disarmed] at kept
      rw [same]
      exact kept
    | false =>
      obtain ⟨answer, other, between, log, armed, same⟩ := turnLine_back shared machine
      have turned : { port with mode := .receive }.Tenured := tenured
      have kept := turned.setListening ((machine.setPull pin .up).setDirection pin .input) true
      rw [armed] at kept
      rw [same]
      exact kept

/-- Only the hardware can refuse to arm a port. -/
theorem startListening_error {failure : PortError} {result : Port × Machine}
    (failed : port.startListening machine = (.error failure, result)) :
    failure.isFault := by
  unfold startListening at failed
  split at failed
  · cases failed
  · split at failed
    · cases failed
    · rename_i refused
      cases failed
      unfold Port.setListening at refused
      split at refused
      · rw [if_pos rfl] at refused
        dsimp only at refused
        split at refused
        · cases refused
          rfl
        · cases refused
      · cases refused

/-- A start that the hardware refuses costs a receiver its slot. Any other refusal leaves it
what it had. -/
theorem start_error {failure : PortError} {baud : UInt32}
    (failed : (port.start machine baud).1 = .error failure) :
    failure.isFault = false ∧ (port.start machine baud).2.1.stake = port.stake ∨
      failure.isFault ∧ (port.slot.isSome ∨ port.stake.capture.isSome) ∧
        (port.start machine baud).2.1.stake = { port.stake with slot := none } := by
  rcases port.start_cases machine baud with ⟨other, plain, same⟩ | ⟨other, plain, same⟩ |
    ⟨period, first, between, second, bound, -, -, ready, claimed, same⟩
  · rw [same] at failed ⊢
    cases failed
    exact .inl ⟨plain, rfl⟩
  · rw [same] at failed ⊢
    cases failed
    exact .inl ⟨plain, (port.idles_startEnablePin machine).stake⟩
  · obtain ⟨slot, mode, prepared⟩ := prepared_refresh ready claimed baud period
    rw [same] at failed ⊢
    generalize second.refresh bound baud period = result at prepared failed ⊢
    obtain ⟨third, fresh⟩ := result
    have armed := third.startListening_cases fresh
    unfold launch at failed ⊢
    split at failed
    · rename_i _ fourth late refused
      cases failed
      rw [refused] at armed
      rcases armed with ⟨done, -⟩ | ⟨-, lost, -, holds, -, without, -⟩
      · cases done
      · have own : slot = some lost := (congrArg Stake.slot prepared.stake).symm.trans holds
        refine .inr ⟨startListening_error refused, prepared.owns (by rw [own]; rfl), ?_⟩
        exact without.trans
          (congrArg (fun stake : Stake => { stake with slot := none }) prepared.stake)
    · cases failed

/-- A start leaves a receiver with a slot while it runs, exactly unless the port ran before and
the hardware refuses. -/
theorem Tenured.start_iff (tenured : port.Tenured) (orderly : port.Orderly) (machine : Machine)
    (baud : UInt32) :
    (port.start machine baud).2.1.Tenured ↔
      (port.started → ∀ fault, (port.start machine baud).1 ≠ .error (.hardware fault)) := by
  have kept := orderly.start machine baud
  rcases port.start_outcome machine baud with ⟨failure, failed, refused⟩ | ⟨done, begun⟩
  · obtain ⟨mode, -, posture⟩ := refused.posture
    have started : (port.start machine baud).2.1.started = port.started :=
      congrArg Posture.started posture
    rcases start_error failed with ⟨plain, same⟩ | ⟨fault, placed, same⟩
    · refine ⟨fun _ _ fault came => ?_, fun _ => tenured.of_same same started⟩
      cases failed.symm.trans came
      cases plain
    · have receives : port.stake.capture.isSome := placed.elim orderly.receives id
      have free : (port.start machine baud).2.1.slot = none := congrArg Stake.slot same
      constructor
      · intro held running
        rw [Tenured, reception_isSome, same, free, started] at held
        cases (held receives).mp running
      · intro spared
        refine kept.tenured fun _ running => ?_
        obtain ⟨cause, rfl⟩ : ∃ cause, failure = .hardware cause := by
          cases failure with
          | hardware cause => exact ⟨cause, rfl⟩
          | _ => cases fault
        exact absurd failed (spared (started ▸ running) cause)
  · obtain ⟨slot, listening, same, -, gains, -⟩ := begun.stake
    have own : (port.start machine baud).2.1.slot = slot := congrArg Stake.slot same
    refine ⟨fun _ _ fault came => ?_, fun _ => kept.tenured fun receives _ => ?_⟩
    · cases done.symm.trans came
    · rw [same] at receives
      rw [own]
      exact gains receives

/-- Every other operation keeps a slot with a running receiver. -/
theorem Tenured.perform (tenured : port.Tenured) (orderly : port.Orderly) (machine : Machine)
    {operation : Operation} (other : ∀ baud, operation ≠ .start baud) :
    (port.perform machine operation).2.1.Tenured := by
  by_cases plain : operation.isPlain
  · obtain ⟨stake, posture⟩ := port.perform_plain machine plain
    exact tenured.of_same stake (congrArg Posture.started posture)
  · cases operation with
    | start baud => exact absurd rfl (other baud)
    | stop =>
      obtain ⟨stake, posture⟩ := orderly.stop machine
      have stopped : (port.stop machine).1.started = false := congrArg Posture.started posture
      refine Orderly.tenured (orderly.perform machine .stop) fun _ running => ?_
      cases stopped.symm.trans running
    | turnLine on => exact tenured.turnLine machine on
    | setListening on => exact tenured.setListening machine on
    | write data =>
      exact @write_induction port Tenured
        (fun tenured stake posture =>
          tenured.of_same stake (congrArg Posture.started posture))
        (fun tenured machine on => tenured.turnLine machine on) tenured machine data
    | _ => exact absurd rfl plain

theorem tenured_create (machine : Machine) (config : Config) :
    (create machine config).1.Tenured := by
  refine (orderly_create machine config).tenured fun _ running => ?_
  cases running

end Port

namespace World

variable {world : World} {operations : List Operation} {index : Nat}

/-- In the whole course of a run a receiver holds a slot exactly while it runs, provided that
the hardware never refuses a start of the port while it runs, and only then. -/
theorem run_tenured_iff (empty : world.ports = #[]) :
    (∀ earlier, earlier <+: operations → ∀ port, (world.run earlier).2.port? index = some port →
        port.Tenured) ↔
      ∀ earlier baud, earlier ++ [.port index (.start baud)] <+: operations →
        ∀ port, (world.run earlier).2.port? index = some port → port.started →
          ∀ fault, (port.start (world.run earlier).2.machine baud).1 ≠
            .error (.hardware fault) := by
  constructor
  · intro tenured earlier baud began port live
    have before := tenured earlier ((List.prefix_append _ _).trans began) port live
    have later := tenured _ began
    rw [run_append] at later
    exact (before.start_iff (run_orderly empty live) _ baud).mp
      (later _ (perform_port live (.start baud)).1)
  · intro spared earlier began
    induction earlier using List.reverseRecOn with
    | nil =>
      intro port live
      cases (port?_of_no_ports empty index).symm.trans live
    | append_singleton earlier operation ih =>
      intro port live
      have before := ih ((List.prefix_append earlier [operation]).trans began)
      rw [run_append] at live
      rcases port?_perform live with ⟨config, -, rfl⟩ | ⟨old, there, rfl | ⟨own, rfl, rfl⟩⟩
      · exact Port.tenured_create _ _
      · exact before _ there
      · have orderly := run_orderly empty there
        by_cases restart : ∃ baud, own = .start baud
        · obtain ⟨baud, rfl⟩ := restart
          exact ((before old there).start_iff orderly _ baud).mpr
            (spared earlier baud began old there)
        · exact (before old there).perform orderly _ fun baud same => restart ⟨baud, same⟩

/-- A receiver that was started, muted, and started again. -/
def restarted : List Operation :=
  [.openPort { rxPin := some 5, txPin := some 4 }, .port 0 (.start 9600),
    .port 0 (.setListening false), .port 0 (.start 9600)]

/-- The hardware lets it start again, so it still has its slot. -/
theorem restarted_tenured :
    ((run {} restarted).2.port? 0).map (·.started) = some true ∧
      ∀ port, (run {} restarted).2.port? 0 = some port → port.Tenured := by
  have granted : ∀ place < 4, ((run {} (restarted.take place)).2.port? 0).all (fun port =>
      (port.start (run {} (restarted.take place)).2.machine 9600).1.isOk) := by
    decide +kernel
  refine ⟨by decide +kernel, ?_⟩
  refine (run_tenured_iff rfl).mpr ?_ restarted (List.prefix_refl restarted)
  intro earlier baud began port live _ fault failed
  have member := began.subset (List.mem_append_right earlier (List.mem_singleton.mpr rfl))
  have same : baud = 9600 := by simpa [restarted] using member
  have front : earlier = restarted.take earlier.length :=
    List.prefix_iff_eq_take.mp ((List.prefix_append _ _).trans began)
  have short := began.length_le
  rw [List.length_append] at short
  have done := granted earlier.length short
  rw [← front, live, Option.all_some, ← same, failed] at done
  cases done

/-- A receiver that was muted, and then started again with an interrupt that cannot be
attached. -/
def evicted : List Operation :=
  [.openPort { rxPin := some 5, txPin := some 4 }, .port 0 (.start 9600),
    .port 0 (.setListening false), .machine (.queueFault (.attach 5 "busy")),
    .port 0 (.start 9600)]

/-- It runs on without a slot. -/
theorem evicted_not_tenured :
    ∃ port, (run {} evicted).2.port? 0 = some port ∧ ¬ port.Tenured := by
  have before : ((run {} evicted).2.port? 0).map
      (fun port => (port.reception.isSome, port.started, port.slot.isSome)) =
        some (true, true, false) := by
    decide +kernel
  obtain ⟨port, live, same⟩ := Option.map_eq_some_iff.mp before
  obtain ⟨receives, same⟩ := Prod.mk.inj same
  obtain ⟨running, free⟩ := Prod.mk.inj same
  refine ⟨port, live, fun tenured => ?_⟩
  cases free.symm.trans ((tenured receives).mp running)

end World
end PinUart
