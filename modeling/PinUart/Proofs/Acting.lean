import PinUart.Proofs.Starting

/-! What every operation of a sound port does to its intake. Edges come in only while the
port listens, which it does from arming its interrupt to disarming it. -/
namespace PinUart

namespace Intake

/-- Actions that neither hand out nor give up anything. -/
def Action.isMild : Action → Bool
  | .take | .ask | .discard => false
  | _ => true

/-- Actions that are admitted at any time. -/
def Action.isFree : Action → Bool
  | .edge _ | .mute => false
  | _ => true

variable {intake : Intake} {actions earlier later : List Action}

theorem legal_of_free (free : ∀ action ∈ actions, action.isFree) : intake.Legal actions := by
  induction actions generalizing intake with
  | nil => trivial
  | cons action actions ih =>
    refine ⟨?_, ih fun other member => free other (List.mem_cons_of_mem _ member)⟩
    have := free action (by simp)
    cases action with
    | edge | mute => cases this
    | _ => trivial

theorem legal_edges {edges : List Edge} (listens : intake.listening = true ∨ edges = []) :
    intake.Legal (edges.map .edge) := by
  induction edges generalizing intake with
  | nil => trivial
  | cons edge edges ih =>
    rcases listens with listens | none
    · exact ⟨listens, ih (.inl listens)⟩
    · cases none

/-- A list of actions that only lets edges in. -/
def OnlyEdges (actions : List Action) : Prop := ∃ edges : List Edge, actions = edges.map .edge

def Mild (actions : List Action) : Prop := ∀ action ∈ actions, action.isMild

theorem Mild.nil : Mild [] := fun _ member => by cases member

theorem Mild.append (first : Mild earlier) (second : Mild later) : Mild (earlier ++ later) := by
  intro action member
  rcases List.mem_append.mp member with before | after
  · exact first action before
  · exact second action after

theorem OnlyEdges.mild (only : OnlyEdges actions) : Mild actions := by
  obtain ⟨edges, rfl⟩ := only
  intro action member
  obtain ⟨edge, -, rfl⟩ := List.mem_map.mp member
  rfl

theorem OnlyEdges.listen_notMem (only : OnlyEdges actions) : .listen ∉ actions := by
  obtain ⟨edges, rfl⟩ := only
  simp

end Intake

/-- Nothing leads to the capture of a sound port that does not listen. -/
theorem Stake.Sound.unreached {stake : Stake} {machine : Machine} {index : Nat}
    (sound : stake.Sound machine) (capture : stake.capture = some index)
    (silent : stake.listening = false) : machine.Unreached index := by
  intro slot bound
  exact sound.unheard silent slot ((sound.bound index slot capture).mp bound)

namespace Port

open Intake

/-- A sound port does deeds of its own, which act on its intake by a list of actions that
fits. -/
def Does (port : Port) (machine : Machine) (fits : List Action → Prop)
    (after : Port × Machine) : Prop :=
  port.stake.Sound machine →
    Machine.Deeds port.stake.capture machine after.2 ∧
      ∃ actions, fits actions ∧ ∀ before, port.intake? machine = some before →
        before.Legal actions ∧ after.1.intake? after.2 = some (before.run actions).2

variable {port other : Port} {machine between : Machine} {after : Port × Machine}
  {fits first second : List Action → Prop}

theorem Does.weaken (does : port.Does machine first after)
    (weaker : ∀ actions, first actions → fits actions) : port.Does machine fits after := by
  intro sound
  obtain ⟨deeds, actions, told, acts⟩ := does sound
  exact ⟨deeds, actions, weaker actions told, acts⟩

theorem Does.trans (goes : port.Goes machine (other, between))
    (one : port.Does machine first (other, between)) (two : other.Does between second after)
    (join : ∀ earlier later, first earlier → second later → fits (earlier ++ later)) :
    port.Does machine fits after := by
  intro sound
  obtain ⟨halfway, same, -⟩ := goes sound
  obtain ⟨deeds, earlier, fitsEarlier, acts⟩ := one sound
  obtain ⟨more, later, fitsLater, actsLater⟩ := two halfway
  refine ⟨deeds.trans (same ▸ more), earlier ++ later, join _ _ fitsEarlier fitsLater, ?_⟩
  intro before found
  obtain ⟨legal, reached⟩ := acts before found
  obtain ⟨legalLater, ended⟩ := actsLater _ reached
  rw [legal_append, run_append]
  exact ⟨⟨legal, legalLater⟩, ended⟩

theorem Tends.does {actions : List Action} (tends : port.Tends machine actions after)
    (free : ∀ action ∈ actions, action.isFree) : port.Does machine (· = actions) after := by
  intro _
  refine ⟨tends.deeds, actions, rfl, fun before found => ⟨legal_of_free free, ?_⟩⟩
  exact tends.intake before found

/-- Guarded steps that have nothing to do with captures leave the intake as it is. -/
theorem Goes.does (goes : port.Goes machine after) (captures : after.2.captures = machine.captures)
    (rate : after.2.rate = machine.rate) (same : after.1.intake? = port.intake?) :
    port.Does machine (· = []) after := by
  intro sound
  refine ⟨.single (.turn (goes sound).2.2 captures rate), [], rfl, ?_⟩
  refine fun before found => ⟨trivial, ?_⟩
  obtain ⟨reception, queue, held, known, rfl⟩ := intake?_eq_some.mp found
  rw [same]
  refine intake?_eq_some.mpr ⟨reception, queue, held, ?_, rfl⟩
  exact (Machine.queue?_of_captures captures _).trans known

/-- What feeds the capture of a sound port lets edges in, if the port listens. -/
theorem acts_of_fed {reception : Reception} (sound : port.stake.Sound machine)
    (held : port.reception = some reception)
    (fed : Machine.Fed reception.capture machine between) :
    ∃ actions, OnlyEdges actions ∧ ∀ before, port.intake? machine = some before →
      before.Legal actions ∧ port.intake? between = some (before.run actions).2 := by
  obtain ⟨edges, grown, none⟩ := fed
  refine ⟨edges.map .edge, ⟨edges, rfl⟩, fun before found => ?_⟩
  obtain ⟨own, queue, holds, known, rfl⟩ := intake?_eq_some.mp found
  cases held.symm.trans holds
  refine ⟨legal_edges ?_, ?_⟩
  · by_cases listens : port.listening = true
    · exact .inl listens
    · exact .inr (none (sound.unreached (stake_capture held) (Bool.eq_false_iff.mpr listens)))
  · rw [run_edges]
    refine intake?_eq_some.mpr ⟨reception, queue.pushAll edges, held, ?_, rfl⟩
    rw [grown, known]
    rfl

theorem does_stirs (stirs : machine.Stirs between) (same : other.intake? = port.intake?) :
    port.Does machine OnlyEdges (other, between) := by
  intro sound
  refine ⟨stirs.deeds, ?_⟩
  rw [same]
  cases held : port.reception with
  | none =>
    refine ⟨[], ⟨[], rfl⟩, fun before found => ?_⟩
    obtain ⟨reception, -, holds, -⟩ := intake?_eq_some.mp found
    cases held.symm.trans holds
  | some reception => exact acts_of_fed sound held (stirs.fed reception.capture)

/-- What changes only the port, and not its intake, is no action. -/
theorem does_nothing (same : other.intake? = port.intake?) :
    port.Does machine (· = []) (other, machine) := by
  intro _
  refine ⟨.refl, [], rfl, fun before found => ⟨trivial, ?_⟩⟩
  rw [same]
  exact found

theorem does_useEnablePin (port : Port) (machine : Machine) (pin : Pin) :
    port.Does machine OnlyEdges (port.useEnablePin machine pin).2 := by
  unfold useEnablePin
  split
  · exact does_stirs ((machine.stirs_restLine _ _ _).trans (Machine.stirs_write _ _ _)) rfl
  · exact does_stirs .refl rfl

theorem does_startEnablePin (port : Port) (machine : Machine) :
    port.Does machine OnlyEdges (port.startEnablePin machine).2 := by
  unfold startEnablePin
  split
  · exact port.does_useEnablePin machine _
  · exact does_stirs .refl rfl

/-- Arming drops a partial frame before the port listens. -/
theorem does_arm (port : Port) (machine : Machine) :
    port.Does machine Mild (port.setListening machine true).2 := by
  unfold setListening
  split
  · rename_i pin slot receive own
    rw [if_pos rfl]
    have quiet := machine.quiet_readClock
    have read := machine.stirs_readClock
    have captures : machine.readClock.2.captures = machine.captures := rfl
    generalize machine.readClock = result at quiet read captures ⊢
    obtain ⟨now, between⟩ := result
    dsimp only at quiet read captures ⊢
    intro sound
    rcases between.attach_cases pin (.entry slot) with
      done | ⟨fault, refused, failed, calm, kept, rate⟩
    · rw [done]
      obtain ⟨-, steps⟩ := (sound.quiet quiet).attach receive own
      refine ⟨read.deeds.tail (.turn steps rfl rfl), [.rest now, .listen],
        by simp [Mild, Action.isMild], ?_⟩
      intro before found
      obtain ⟨reception, queue, held, known, rfl⟩ := intake?_eq_some.mp found
      refine ⟨⟨trivial, trivial, trivial⟩, intake?_eq_some.mpr ⟨reception, queue, held, ?_, rfl⟩⟩
      exact (Machine.queue?_of_captures captures _).trans known
    · rw [failed]
      refine ⟨read.deeds.tail (.stir (.aside calm kept rate)), [.rest now],
        by simp [Mild, Action.isMild], ?_⟩
      intro before found
      obtain ⟨reception, queue, held, known, rfl⟩ := intake?_eq_some.mp found
      refine ⟨⟨trivial, trivial⟩, intake?_eq_some.mpr ⟨reception, queue, held, ?_, rfl⟩⟩
      exact (Machine.queue?_of_captures (kept.trans captures) _).trans known
  · exact (does_nothing rfl).weaken fun actions none => none ▸ Mild.nil

/-- Disarming decodes what is queued before the port stops to listen. -/
theorem does_disarm (port : Port) (machine : Machine) :
    port.Does machine (fun actions => Mild actions ∧ .listen ∉ actions)
      (port.setListening machine false).2 := by
  unfold setListening
  split
  · rename_i pin slot receive own
    rw [if_neg Bool.false_ne_true]
    intro sound
    have tends := port.tends_collect (machine.detach pin)
    generalize port.collect (machine.detach pin) = result at tends ⊢
    obtain ⟨other, after⟩ := result
    -- The interrupt goes first, so that no edge comes in between the look and the end of listening.
    refine ⟨.head (.turn (.single (.detach machine pin)) rfl rfl) tends.deeds,
      [.look (machine.detach pin).readClock.1, .mute], ⟨?_, ?_⟩, ?_⟩
    · intro action member
      rcases List.mem_cons.mp member with rfl | member
      · rfl
      · rw [List.mem_singleton.mp member]
        rfl
    · simp
    · intro before found
      have looked := tends.intake before found
      obtain ⟨reception, queue, held, known, same⟩ := intake?_eq_some.mp looked
      refine ⟨⟨trivial, EdgeQueue.toList_discard _, trivial⟩, ?_⟩
      refine intake?_eq_some.mpr ⟨reception, queue, held, known, ?_⟩
      rw [run_singleton] at same
      change { (before.act (.look (machine.detach pin).readClock.1)).2 with listening := false } = _
      rw [same]
  · exact (does_nothing rfl).weaken fun actions none => none ▸ ⟨Mild.nil, List.not_mem_nil⟩

theorem does_turnLine (port : Port) (machine : Machine) (on : Bool) :
    port.Does machine Mild (port.turnLine machine on).2 := by
  unfold turnLine
  split
  · exact (does_nothing rfl).weaken fun actions none => none ▸ Mild.nil
  · rename_i pin _
    split
    · have goes := port.goes_disarm machine
      have does := port.does_disarm machine
      split
      · rename_i failed
        rw [failed] at does
        exact does.weaken fun _ told => told.1
      · rename_i other between done
        rw [done] at goes does
        refine does.trans goes (does_stirs ?_ rfl) fun _ _ early late => early.1.append late.mild
        exact (between.stirs_restLine _ _ _).trans (Machine.stirs_write _ _ _)
    · have prepared : port.Goes machine ({ port with mode := .receive },
          (machine.setPull pin .up).setDirection pin .input) :=
        Idles.goes ⟨rfl, (machine.quiet_setPull _ _).trans (Machine.quiet_setDirection _ _ _)⟩
      have stirred : port.Does machine OnlyEdges ({ port with mode := .receive },
          (machine.setPull pin .up).setDirection pin .input) :=
        does_stirs ((machine.stirs_setPull _ _).trans (Machine.stirs_setDirection _ _ _)) rfl
      have armed := Does.trans prepared stirred (does_arm _ _)
        (fun _ _ early late => early.mild.append late)
      dsimp only
      split
      · rename_i failed
        rw [failed] at armed
        exact armed
      · rename_i other between done
        have goes := prepared.trans (goes_arm _ _)
        rw [done] at goes armed
        exact armed.trans goes (does_stirs (between.stirs_write _ _) rfl)
          fun _ _ early late => early.append late.mild

theorem does_turnLineOrWarn (port : Port) (machine : Machine) (transmit : Bool) :
    port.Does machine Mild (port.turnLineOrWarn machine transmit) := by
  have goes := (port.moves_turnLine machine transmit).goes
  have does := port.does_turnLine machine transmit
  unfold turnLineOrWarn
  split
  · rename_i done
    rw [done] at does
    exact does
  · rename_i failure other between failed
    rw [failed] at goes does
    exact does.trans goes (does_stirs (between.stirs_write _ _) rfl)
      fun _ _ early late => early.append late.mild

theorem stirs_setEnable (port : Port) (machine : Machine) (on : Bool) :
    machine.Stirs (port.setEnable machine on) := by
  unfold setEnable
  split
  · exact .refl
  · exact machine.stirs_setLine _ _ _

theorem stirs_sendOn (port : Port) (machine : Machine) (pin : Pin) (data : List UInt8) :
    machine.Stirs (port.sendOn machine pin data).2 :=
  (port.stirs_setEnable machine true).trans
    ((port.transmitter.stirs_send _ pin data).trans (port.stirs_setEnable _ false))

theorem stirs_startSending (port : Port) (machine : Machine) :
    machine.Stirs (port.startSending machine) := by
  unfold startSending
  split
  · exact .refl
  · split
    · exact .refl
    · exact machine.stirs_restLine _ _ _

/-- Sending arms the interrupt only of a port whose line it had to turn. -/
theorem does_write (port : Port) (machine : Machine) (data : List UInt8) :
    port.Does machine (fun actions => Mild actions ∧ (port.mode = .transmit → .listen ∉ actions))
      (port.write machine data).2 := by
  have tends := port.tends_collect machine
  have goes := (port.idles_collect machine).goes
  have does := tends.does (by simp [Action.isFree])
  have mode := congrArg Posture.mode tends.posture
  unfold write
  generalize port.collect machine = result at goes does mode ⊢
  obtain ⟨other, between⟩ := result
  have looked : ∀ {actions}, actions = [.look machine.readClock.1] →
      Mild actions ∧ .listen ∉ actions := by
    rintro _ rfl
    simp [Mild, Action.isMild]
  have plain : ∀ actions, actions = [.look machine.readClock.1] →
      Mild actions ∧ (port.mode = .transmit → .listen ∉ actions) :=
    fun _ look => ⟨(looked look).1, fun _ => (looked look).2⟩
  dsimp only
  split
  · exact does.weaken plain
  · rename_i pin _
    split
    · exact does.weaken plain
    · split
      · rename_i turns
        have receiving : port.mode = .receive := by
          have := (Bool.and_eq_true_iff.mp turns).2
          exact mode.symm.trans (eq_of_beq this)
        have turned := does.trans goes (other.does_turnLineOrWarn between true)
          fun _ _ early late => (looked early).1.append late
        have gone := goes.trans (other.moves_turnLineOrWarn between true).goes
        generalize other.turnLineOrWarn between true = result at turned gone ⊢
        obtain ⟨sender, ready⟩ := result
        have sent := turned.trans gone (does_stirs (sender.stirs_sendOn ready pin data) rfl)
          fun _ _ early late => early.append late.mild
        refine sent.trans (gone.trans (Idles.of_quiet (sender.quiet_sendOn ready pin data)).goes)
          (does_turnLineOrWarn _ _ false) fun _ _ early late => ⟨early.append late, ?_⟩
        intro sending
        cases receiving.symm.trans sending
      · refine does.trans goes (does_stirs (stirs_sendOn _ _ pin data) rfl)
          fun _ _ early late => ⟨(looked early).1.append late.mild, fun _ member => ?_⟩
        rcases List.mem_append.mp member with first | second
        · exact (looked early).2 first
        · exact late.listen_notMem second

theorem does_giveSlotBack (goes : port.Goes machine (port.giveSlotBack machine)) :
    port.Does machine (· = []) (port.giveSlotBack machine) := by
  have aside : (port.giveSlotBack machine).2.captures = machine.captures ∧
      (port.giveSlotBack machine).2.rate = machine.rate ∧
      (port.giveSlotBack machine).1.intake? = port.intake? := by
    unfold giveSlotBack Machine.release
    split
    · exact ⟨rfl, rfl, rfl⟩
    · dsimp only
      split <;> exact ⟨rfl, rfl, rfl⟩
  exact goes.does aside.1 aside.2.1 aside.2.2

theorem does_startSlot (port : Port) (machine : Machine) :
    port.Does machine (· = []) (port.startSlot machine).2 := by
  have aside : (port.startSlot machine).2.2.captures = machine.captures ∧
      (port.startSlot machine).2.2.rate = machine.rate ∧
      (port.startSlot machine).2.1.intake? = port.intake? := by
    unfold startSlot Machine.claim
    split
    · cases machine.slots.claim? _ <;> exact ⟨rfl, rfl, rfl⟩
    · exact ⟨rfl, rfl, rfl⟩
  exact (port.goes_startSlot machine).does aside.1 aside.2.1 aside.2.2

theorem does_stop (port : Port) (machine : Machine) :
    port.Does machine Mild (port.stop machine) := by
  unfold stop
  split
  · exact (does_nothing rfl).weaken fun actions none => none ▸ Mild.nil
  · intro sound
    have silent := fun slot => @listening_disarm port machine slot sound
    have goes := port.goes_disarm machine
    have does := port.does_disarm machine
    generalize port.setListening machine false = result at goes does silent ⊢
    obtain ⟨answer, other, between⟩ := result
    have gave := goes_giveSlotBack between silent
    refine (((does.trans goes (does_giveSlotBack gave)
      fun _ _ early none => ?_).trans (goes.trans gave)
        (does_stirs (Machine.stirs_write _ _ _) rfl)
        fun _ _ early late => Mild.append early late.mild)) sound
    rw [none, List.append_nil]
    exact early.1

theorem does_startListening (port : Port) (machine : Machine) :
    port.Does machine Mild (port.startListening machine).2 := by
  unfold startListening
  split
  · exact (does_nothing rfl).weaken fun actions none => none ▸ Mild.nil
  · rename_i silent
    have goes := port.goes_arm machine
    have does := port.does_arm machine
    split
    · rename_i done
      rw [done] at does
      exact does
    · rename_i failure other after failed
      rw [failed] at goes does
      refine does.trans goes (does_giveSlotBack (goes_giveSlotBack after ?_))
        fun _ _ early none => ?_
      · intro _ _
        rw [listening_of_arm_error failed]
        simpa using silent
      · rw [none, List.append_nil]
        exact early

/-- Actions that start a reception over: all that was received is dropped, and losses are
forgotten. What comes later counts. -/
def Renewing (actions : List Action) : Prop :=
  ∃ earlier later, actions = earlier ++ .discard :: .ask :: later ∧ Mild later

theorem renewing_afresh (period : UInt32) (now : Cycle) (edges : List Edge) :
    Renewing (.pace period :: .discard :: .ask :: .rest now :: edges.map .edge) := by
  refine ⟨[.pace period], _, rfl, ?_⟩
  intro action member
  rcases List.mem_cons.mp member with rfl | member
  · rfl
  · exact OnlyEdges.mild ⟨edges, rfl⟩ action member

/-- Without a reception there is no queue to empty. -/
theorem stirs_refresh (without : port.reception = none) (baud period : UInt32) :
    machine.Stirs (port.refresh machine baud period).2 := by
  have unchanged : (port.withSpeed baud period).startReception machine =
      (port.withSpeed baud period, machine) := by
    unfold startReception
    rw [show (port.withSpeed baud period).reception = none from without]
  unfold refresh
  rw [unchanged]
  exact machine.stirs_readClock.trans (stirs_startSending _ _)

/-- The reception of a receiver starts over empty, on a machine that stirs once the queue is
emptied. -/
theorem refresh_of_held {reception : Reception} {pin : Pin}
    (held : port.reception = some reception) (placed : port.rxPin = some pin)
    (baud period : UInt32) :
    ∃ now after, port.refresh machine baud period =
        ({ port.withSpeed baud period with
            reception := some { reception with bytes := reception.bytes.clear }
            mode := .receive
            losses := {}
            decoder := (port.decoder.withPeriod period).reset now },
          after) ∧
      (machine.modifyQueue reception.capture fun queue => queue.discard.takeLost.2).Stirs
        after := by
  have renewed : (port.withSpeed baud period).startReception machine =
      ({ port.withSpeed baud period with
          reception := some { reception with bytes := reception.bytes.clear }
          mode := .receive },
        ((machine.modifyQueue reception.capture fun queue =>
          queue.discard.takeLost.2).setPull pin .up).setDirection pin .input) := by
    unfold startReception
    split
    · rename_i own other holds shared
      cases held.symm.trans holds
      cases placed.symm.trans shared
      rfl
    · rename_i without
      exact absurd placed (without reception pin held)
  unfold refresh
  rw [renewed]
  refine ⟨_, _, rfl, ?_⟩
  exact (Machine.stirs_setPull _ pin .up).trans ((Machine.stirs_setDirection _ pin .input).trans
    ((Machine.stirs_readClock _).trans (stirs_startSending _ _)))

theorem does_refresh (port : Port) (machine : Machine) (baud period : UInt32) :
    port.Does machine Renewing (port.refresh machine baud period) := by
  intro sound
  cases held : port.reception with
  | none =>
    refine ⟨(stirs_refresh held baud period).deeds, _, renewing_afresh period 0 [], ?_⟩
    intro before found
    obtain ⟨reception, -, holds, -⟩ := intake?_eq_some.mp found
    cases held.symm.trans holds
  | some reception =>
    have capture := stake_capture held
    obtain ⟨pin, placed, -⟩ := sound.placed reception.capture capture
    obtain ⟨now, after, same, stirs⟩ := refresh_of_held held placed baud period
    obtain ⟨edges, grown, none⟩ := stirs.fed reception.capture
    rw [same, capture]
    refine ⟨.head (.queue machine (fun queue => queue.discard.takeLost.2) rfl) stirs.deeds, _,
      renewing_afresh period now edges, ?_⟩
    intro before found
    obtain ⟨own, queue, holds, known, rfl⟩ := intake?_eq_some.mp found
    cases held.symm.trans holds
    refine ⟨⟨trivial, trivial, trivial, trivial, legal_edges ?_⟩, ?_⟩
    -- Turning the pin to its pull-up may raise edges, and only a port that listens gets them.
    · by_cases listens : port.listening = true
      · exact .inl listens
      · have quiet := machine.quiet_modifyQueue reception.capture
          fun queue => queue.discard.takeLost.2
        exact .inr (none ((sound.quiet quiet).unreached capture (Bool.eq_false_iff.mpr listens)))
    · change _ = some (Intake.run
        { queue := queue.discard.takeLost.2
          decoder := (port.decoder.withPeriod period).reset now
          bytes := reception.bytes.clear, losses := {}, listening := port.listening }
        (edges.map .edge)).2
      rw [run_edges]
      refine intake?_eq_some.mpr ⟨{ reception with bytes := reception.bytes.clear },
        queue.discard.takeLost.2.pushAll edges, rfl, ?_, rfl⟩
      rw [grown, Machine.queue?_modifyQueue, if_pos rfl, known]
      rfl

theorem Renewing.append {actions later : List Action} (renewing : Renewing actions)
    (mild : Mild later) : Renewing (actions ++ later) := by
  obtain ⟨earlier, since, rfl, gentle⟩ := renewing
  exact ⟨earlier, since ++ later, by simp, gentle.append mild⟩

theorem Renewing.preceded {actions : List Action} (renewing : Renewing actions)
    (before : List Action) : Renewing (before ++ actions) := by
  obtain ⟨earlier, since, rfl, gentle⟩ := renewing
  exact ⟨before ++ earlier, since, by simp, gentle⟩

/-- A start that succeeds starts the reception over. -/
theorem does_start (port : Port) (machine : Machine) (baud : UInt32) :
    port.Does machine (fun actions => (port.start machine baud).1 = .ok () → Renewing actions)
      (port.start machine baud).2 := by
  have goes := (port.idles_startEnablePin machine).goes
  have does := port.does_startEnablePin machine
  rcases port.start_cases machine baud with ⟨failure, -, same⟩ | ⟨failure, -, same⟩ |
    ⟨period, first, between, second, bound, -, -, ready, claimed, same⟩
  · rw [same]
    exact (does_nothing rfl).weaken fun _ _ done => by cases done
  · rw [same]
    exact does.weaken fun _ _ done => by cases done
  · rw [ready] at goes does
    have gone := goes.trans (goes_startSlot first between)
    have slotted : port.Does machine (fun _ => True) (first.startSlot between).2 :=
      does.trans goes (first.does_startSlot between) fun _ _ _ _ => trivial
    rw [claimed] at gone slotted
    have renewed : port.Does machine Renewing (second.refresh bound baud period) :=
      slotted.trans gone (second.does_refresh bound baud period)
        fun earlier _ _ late => Renewing.preceded late earlier
    have idles := (second.idles_refresh bound baud period).goes
    rw [same]
    generalize second.refresh bound baud period = result at renewed idles ⊢
    obtain ⟨third, fresh⟩ := result
    have arrived := gone.trans idles
    have listened : port.Does machine Renewing (third.startListening fresh).2 :=
      renewed.trans arrived (third.does_startListening fresh)
        fun _ _ early late => Renewing.append early late
    have settled := arrived.trans (third.moves_startListening fresh).goes
    unfold launch
    split
    · rename_i failed
      rw [failed] at listened
      exact listened.weaken fun _ told _ => told
    · rename_i fourth after done
      rw [done] at listened settled
      refine listened.trans settled (does_stirs (Machine.stirs_write _ _ _) rfl) ?_
      exact fun _ _ early late _ => Renewing.append early late.mild

/-- The actions that an operation of a port comes to. Polls look, only arming the interrupt
makes the port listen, and only reading, asking, flushing and starting over take something
away. -/
def Operation.Fits (mode : LineMode) (actions : List Action) : Operation → Prop
  | .start _ => True
  | .stop | .turnLine _ | .setListening _ => Mild actions
  | .write _ => Mild actions ∧ (mode = .transmit → .listen ∉ actions)
  | .read => ∃ looks : List Cycle, actions = looks.map .look ++ [.take]
  | .peek | .available | .serve => ∃ looks : List Cycle, actions = looks.map .look
  | .setSpeed _ => ∃ periods : List UInt32, actions = periods.map .pace
  | .anyLost | .takeLosses => actions = [.ask]
  | .drain => ∀ action ∈ actions, action = .take ∨ ∃ now, action = .look now
  | .flush => ∃ now, actions = [.discard, .rest now]
  | .useEnablePin _ => OnlyEdges actions
  | .setCallback _ | .setInterruptible _ | .report | .describe => actions = []

theorem does_perform (port : Port) (machine : Machine) (operation : Operation) :
    port.Does machine (operation.Fits port.mode ·) (port.perform machine operation).2 := by
  cases operation with
  | start baud => exact (port.does_start machine baud).weaken fun _ _ => trivial
  | stop => exact port.does_stop machine
  | setSpeed baud =>
    obtain ⟨periods, tends⟩ := port.tends_setSpeed machine baud
    exact (tends.does (by simp [Action.isFree])).weaken fun _ same => ⟨periods, same⟩
  | read =>
    obtain ⟨looks, tends, -⟩ := port.tends_read machine
    refine (tends.does ?_).weaken fun _ same => ⟨looks, same⟩
    simp only [List.forall_mem_append, List.forall_mem_map, List.forall_mem_singleton]
    exact ⟨fun _ _ => rfl, rfl⟩
  | peek =>
    exact ((port.tends_collect machine).does (by simp [Action.isFree])).weaken
      fun _ same => ⟨[_], same⟩
  | available =>
    obtain ⟨looks, tends⟩ := port.tends_available machine
    exact (tends.does (by simp [Action.isFree])).weaken fun _ same => ⟨looks, same⟩
  | drain =>
    obtain ⟨actions, kinds, tends⟩ := port.tends_drainWith machine (port.drainBound machine)
    refine (tends.does fun action member => ?_).weaken fun _ same => same ▸ kinds
    rcases kinds action member with rfl | ⟨now, rfl⟩ <;> rfl
  | flush =>
    exact ((port.tends_flush machine).does (by simp [Action.isFree])).weaken
      fun _ same => ⟨_, same⟩
  | write data => exact port.does_write machine data
  | anyLost | takeLosses =>
    exact (port.tends_takeLosses machine).1.does (by simp [Action.isFree])
  | serve =>
    obtain ⟨looks, tends⟩ := port.tends_serve machine
    exact (tends.does (by simp [Action.isFree])).weaken fun _ same => ⟨looks, same⟩
  | turnLine on => exact port.does_turnLine machine on
  | setListening on =>
    cases on with
    | true => exact port.does_arm machine
    | false => exact (port.does_disarm machine).weaken fun _ told => told.1
  | useEnablePin pin => exact port.does_useEnablePin machine pin
  | setCallback | setInterruptible | report | describe => exact does_nothing rfl

end Port
end PinUart
