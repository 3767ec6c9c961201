import PinUart.Proofs.Opening
import PinUart.Proofs.Twinning

/-! Ports that nobody can tell apart stay so, whatever is done to them, and a start makes such
ports of any two that differ in no more than what is left over in their receivers. -/
namespace PinUart.Port

variable {spared : Option Nat} {one other : Port} {before after : Machine}

/-- What a port with a slot does about its interrupt. -/
theorem setListening_eq {port : Port} {pin : Pin} {slot : SlotIndex}
    (receive : port.rxPin = some pin) (own : port.slot = some slot) (machine : Machine)
    (on : Bool) :
    port.setListening machine on =
      if on then
        match machine.readClock.2.attach pin (.entry slot) with
        | (.error fault, after) =>
          (.error (.hardware fault),
            { port with decoder := port.decoder.reset machine.readClock.1 }, after)
        | (.ok (), after) =>
          (.ok (),
            { port with decoder := port.decoder.reset machine.readClock.1, listening := true },
            after)
      else
        (.ok (), { (port.collect (machine.detach pin)).1 with listening := false },
          (port.collect (machine.detach pin)).2) := by
  unfold setListening
  split
  · rename_i place held there holds
    cases receive.symm.trans there
    cases own.symm.trans holds
    rfl
  · rename_i without
    exact absurd own (without pin slot receive)

theorem setListening_of_unplaced {port : Port} (without : port.rxPin = none ∨ port.slot = none)
    (machine : Machine) (on : Bool) : port.setListening machine on = (.ok (), port, machine) := by
  unfold setListening
  split
  · rename_i receive own
    rcases without with none | none
    · cases none.symm.trans receive
    · cases none.symm.trans own
  · rfl

theorem Twins.setListening (twins : Twins none (one, before) (other, after)) (on : Bool) :
    Agrees none (one.setListening before on) (other.setListening after on) := by
  have placed : other.rxPin = one.rxPin := twins.port.same (·.rxPin) fun _ _ _ _ => rfl
  have held : other.slot = one.slot := twins.port.same (·.slot) fun _ _ _ _ => rfl
  by_cases without : one.rxPin = none ∨ one.slot = none
  · rw [setListening_of_unplaced without, setListening_of_unplaced (placed ▸ held ▸ without)]
    exact ⟨rfl, twins⟩
  · obtain ⟨pin, receive⟩ := Option.ne_none_iff_exists'.mp fun none => without (.inl none)
    obtain ⟨slot, own⟩ := Option.ne_none_iff_exists'.mp fun none => without (.inr none)
    rw [setListening_eq receive own, setListening_eq (placed.trans receive) (held.trans own)]
    cases on with
    | false =>
      have detached : Twins none (one, before.detach pin) (other, after.detach pin) :=
        ⟨twins.port, twins.machine.onBoard (·.detach pin)⟩
      exact ⟨rfl, detached.collect.port.map ({ · with listening := false }) fun _ _ _ _ => rfl,
        detached.collect.machine⟩
    | true =>
      have ready := twins.reset
      obtain ⟨answer, next, later, first, second, attached⟩ :=
        (ready.machine.attach pin (.entry slot)).split
      dsimp only at first second
      rw [if_pos rfl, if_pos rfl, first, second]
      cases answer with
      | error fault => exact ⟨rfl, ready.port, attached⟩
      | ok =>
        exact ⟨rfl, ready.port.map ({ · with listening := true }) fun _ _ _ _ => rfl, attached⟩

theorem Twins.restLine (twins : Twins spared (one, before) (other, after)) (pin : Pin)
    (level : Transmitter → Bool) :
    (before.restLine pin (level one.transmitter) one.transmitter.drive).Alike spared
      (after.restLine pin (level other.transmitter) other.transmitter.drive) := by
  rw [show other.transmitter = one.transmitter from
    twins.port.same (·.transmitter) fun _ _ _ _ => rfl]
  exact twins.machine.restLine pin _ _

theorem Twins.turnLine (twins : Twins none (one, before) (other, after)) (on : Bool) :
    Agrees none (one.turnLine before on) (other.turnLine after on) := by
  have shared : other.sharedPin? = one.sharedPin? :=
    twins.port.same (·.sharedPin?) fun _ _ _ _ => rfl
  unfold Port.turnLine
  rw [shared]
  cases one.sharedPin? with
  | none => exact ⟨rfl, twins⟩
  | some pin =>
    cases on with
    | true =>
      obtain ⟨answer, port, twin, between, betweenToo, first, second, deaf⟩ :=
        (twins.setListening false).split
      dsimp only
      rw [if_pos rfl, if_pos rfl, first, second]
      cases answer with
      | error failure => exact ⟨rfl, deaf⟩
      | ok =>
        exact ⟨rfl, deaf.port.map ({ · with mode := .transmit }) fun _ _ _ _ => rfl,
          (deaf.restLine pin (·.markLevel)).write _ _⟩
    | false =>
      have turned : Twins none
          ({ one with mode := .receive }, (before.setPull pin .up).setDirection pin .input)
          ({ other with mode := .receive }, (after.setPull pin .up).setDirection pin .input) :=
        ⟨twins.port.map ({ · with mode := .receive }) fun _ _ _ _ => rfl,
          (twins.machine.setPull pin .up).setDirection pin .input⟩
      obtain ⟨answer, port, twin, between, betweenToo, first, second, heard⟩ :=
        (turned.setListening true).split
      have mode : twin.mode = port.mode := heard.port.same (·.mode) fun _ _ _ _ => rfl
      dsimp only
      rw [if_neg Bool.false_ne_true, if_neg Bool.false_ne_true, first, second]
      cases answer with
      | error failure => exact ⟨rfl, heard⟩
      | ok =>
        refine ⟨rfl, heard.port, ?_⟩
        dsimp only [noteMode]
        rw [mode]
        exact heard.machine.write _ _

theorem Twins.useEnablePin (twins : Twins spared (one, before) (other, after)) (pin : Pin) :
    Agrees spared (one.useEnablePin before pin) (other.useEnablePin after pin) := by
  have board : after.board = before.board := twins.machine.board
  unfold Port.useEnablePin
  rw [board]
  split
  · refine ⟨rfl, twins.port.map (fun port => { port with
      enablePin := some pin, config := { port.config with enablePin := some pin } })
      fun _ _ _ _ => rfl, (twins.restLine pin fun _ => false).write _ _⟩
  · exact ⟨rfl, twins.port.map (fun port => { port with
      enablePin := none, config := { port.config with enablePin := none } })
      fun _ _ _ _ => rfl, twins.machine⟩

theorem Twins.turnLineOrWarn (twins : Twins none (one, before) (other, after)) (transmit : Bool) :
    Twins none (one.turnLineOrWarn before transmit) (other.turnLineOrWarn after transmit) := by
  obtain ⟨answer, port, twin, between, betweenToo, first, second, turned⟩ :=
    (twins.turnLine transmit).split
  unfold Port.turnLineOrWarn
  rw [first, second]
  cases answer with
  | error failure => exact ⟨turned.port, turned.machine.write _ _⟩
  | ok => exact turned

theorem Twins.setEnable (twins : Twins none (one, before) (other, after)) (on : Bool) :
    (one.setEnable before on).Alike none (other.setEnable after on) := by
  have enable : other.enablePin = one.enablePin :=
    twins.port.same (·.enablePin) fun _ _ _ _ => rfl
  have sends : other.transmitter = one.transmitter :=
    twins.port.same (·.transmitter) fun _ _ _ _ => rfl
  unfold Port.setEnable
  rw [enable, sends]
  cases one.enablePin with
  | none => exact twins.machine
  | some pin => exact twins.machine.setLine pin on _

theorem Twins.sendOn (twins : Twins none (one, before) (other, after)) (pin : Pin)
    (data : List UInt8) :
    Agrees none ((one.sendOn before pin data).1, one, (one.sendOn before pin data).2)
      ((other.sendOn after pin data).1, other, (other.sendOn after pin data).2) := by
  have sends : other.transmitter = one.transmitter :=
    twins.port.same (·.transmitter) fun _ _ _ _ => rfl
  obtain ⟨sent, machine⟩ := one.transmitter.alike_send (twins.setEnable true) pin data
  have done : Twins none (one, (one.transmitter.send (one.setEnable before true) pin data).2)
      (other, (other.transmitter.send (other.setEnable after true) pin data).2) :=
    ⟨twins.port, sends.symm ▸ machine⟩
  refine ⟨?_, twins.port, done.setEnable false⟩
  unfold Port.sendOn
  rw [sends]
  exact sent

theorem Twins.write (twins : Twins none (one, before) (other, after)) (data : List UInt8) :
    Agrees none (one.write before data) (other.write after data) := by
  obtain ⟨port, twin, between, betweenToo, first, second, collected⟩ := twins.collect.split
  have send : twin.txPin = port.txPin := collected.port.same (·.txPin) fun _ _ _ _ => rfl
  have started : twin.started = port.started := collected.port.same (·.started) fun _ _ _ _ => rfl
  have config : twin.config = port.config := collected.port.same (·.config) fun _ _ _ _ => rfl
  have mode : twin.mode = port.mode := collected.port.same (·.mode) fun _ _ _ _ => rfl
  unfold Port.write
  rw [first, second]
  dsimp only
  rw [send]
  cases port.txPin with
  | none => exact ⟨rfl, collected⟩
  | some pin =>
    dsimp only
    rw [started, config, mode]
    split
    · exact ⟨rfl, collected⟩
    · split
      · have turned := collected.turnLineOrWarn true
        have sent := Twins.sendOn turned pin data
        exact ⟨sent.answer, Twins.turnLineOrWarn sent.twins false⟩
      · exact collected.sendOn pin data

theorem Twins.giveSlotBack (twins : Twins none (one, before) (other, after)) :
    Twins none (one.giveSlotBack before) (other.giveSlotBack after) := by
  have held : other.slot = one.slot := twins.port.same (·.slot) fun _ _ _ _ => rfl
  have free := twins.port.map ({ · with slot := none }) fun _ _ _ _ => rfl
  unfold Port.giveSlotBack
  cases own : one.slot with
  | none =>
    rw [held.trans own]
    exact twins
  | some slot =>
    rw [held.trans own]
    exact ⟨free, twins.machine.release slot⟩

theorem Twins.startEnablePin (twins : Twins spared (one, before) (other, after)) :
    Agrees spared (one.startEnablePin before) (other.startEnablePin after) := by
  have enable : other.enablePin = one.enablePin :=
    twins.port.same (·.enablePin) fun _ _ _ _ => rfl
  have config : other.config = one.config := twins.port.same (·.config) fun _ _ _ _ => rfl
  unfold Port.startEnablePin
  rw [enable, config]
  split
  · exact twins.useEnablePin _
  · exact ⟨rfl, twins⟩

theorem startSlot_of_idle {port : Port} (idle : port.reception = none ∨ port.slot.isSome)
    (machine : Machine) : port.startSlot machine = (.ok (), port, machine) := by
  unfold startSlot
  split
  · rename_i free held
    rcases idle with without | own
    · cases without.symm.trans held
    · rw [free] at own
      cases own
  · rfl

theorem startSlot_eq {port : Port} {reception : Reception} (free : port.slot = none)
    (held : port.reception = some reception) (machine : Machine) :
    port.startSlot machine =
      match machine.claim (.capture reception.capture) with
      | (.error failure, machine) => (.error failure, port, machine)
      | (.ok slot, machine) => (.ok (), { port with slot := some slot }, machine) := by
  unfold startSlot
  split
  · rename_i other without found
    cases held.symm.trans found
    rfl
  · rename_i without
    exact absurd held (without reception free)

theorem Twins.startSlot (twins : Twins spared (one, before) (other, after)) :
    Agrees spared (one.startSlot before) (other.startSlot after) := by
  have same : other.slot = one.slot := twins.port.same (·.slot) fun _ _ _ _ => rfl
  cases own : one.slot with
  | some slot =>
    rw [startSlot_of_idle (.inr (by rw [own]; rfl)),
      startSlot_of_idle (.inr (by rw [same, own]; rfl))]
    exact ⟨rfl, twins⟩
  | none =>
    obtain ⟨first, second⟩ | ⟨reception, twin, first, second, like⟩ := twins.port.reception
    · rw [startSlot_of_idle (.inl first), startSlot_of_idle (.inl second)]
      exact ⟨rfl, twins⟩
    · obtain ⟨answer, next, later, claimed, claimedToo, machine⟩ :=
        (twins.machine.claim (.capture reception.capture)).split
      dsimp only at first second claimed claimedToo
      rw [startSlot_eq own first, startSlot_eq (same.trans own) second, like.capture, claimed,
        claimedToo]
      cases answer with
      | error failure => exact ⟨rfl, twins.port, machine⟩
      | ok slot =>
        exact ⟨rfl, twins.port.map ({ · with slot := some slot }) fun _ _ _ _ => rfl, machine⟩

theorem Twins.startSending (twins : Twins spared (one, before) (other, after)) :
    (one.startSending before).Alike spared (other.startSending after) := by
  have send : other.txPin = one.txPin := twins.port.same (·.txPin) fun _ _ _ _ => rfl
  have config : other.config = one.config := twins.port.same (·.config) fun _ _ _ _ => rfl
  unfold Port.startSending
  rw [send, config]
  split
  · exact twins.machine
  · split
    · exact twins.machine
    · exact twins.restLine _ (·.markLevel)

theorem Twins.startListening (twins : Twins none (one, before) (other, after)) :
    Agrees none (one.startListening before) (other.startListening after) := by
  have armed : other.listening = one.listening := twins.port.same (·.listening) fun _ _ _ _ => rfl
  unfold Port.startListening
  rw [armed]
  split
  · exact ⟨rfl, twins⟩
  · obtain ⟨answer, port, twin, between, betweenToo, first, second, heard⟩ :=
      (twins.setListening true).split
    rw [first, second]
    cases answer with
    | error failure => exact ⟨rfl, heard.giveSlotBack⟩
    | ok => exact ⟨rfl, heard⟩

theorem Twins.noteStarted (twins : Twins none (one, before) (other, after)) :
    (one.noteStarted before).Alike none (other.noteStarted after) := by
  obtain ⟨port, machine⟩ := twins
  have rate : after.rate = before.rate := machine.rate
  cases port
  unfold Port.noteStarted speed
  rw [rate]
  exact machine.write .info _

/-- The end of a start. -/
theorem Twins.launch (twins : Twins none (one, before) (other, after)) :
    Agrees none (one.launch before) (other.launch after) := by
  obtain ⟨answer, port, twin, between, betweenToo, first, second, heard⟩ :=
    twins.startListening.split
  unfold Port.launch
  rw [first, second]
  cases answer with
  | error failure => exact ⟨rfl, heard⟩
  | ok =>
    have runs : Twins none ({ port with started := true }, between)
        ({ twin with started := true }, betweenToo) :=
      ⟨heard.port.map ({ · with started := true }) fun _ _ _ _ => rfl, heard.machine⟩
    exact ⟨rfl, runs.port, runs.noteStarted⟩

theorem Alike.withSpeed (alike : Alike spared one other) (baud period : UInt32) :
    Alike spared (one.withSpeed baud period) (other.withSpeed baud period) := by
  cases alike with
  | @intro reception decoder losses alike invert fresh =>
    exact @Alike.intro spared (one.withSpeed baud period) reception (decoder.withPeriod period)
      losses alike invert fun own => ⟨congrArg (·.withPeriod period) (fresh own).1, (fresh own).2⟩

/-- A port that has been given everything anew. -/
theorem Alike.renew (alike : Alike spared one other) (capture : Nat) {kept twin : ByteRing}
    (bytes : Ring.Alike kept twin) (decoder : Decoder) (losses : Losses) :
    Alike none { one with reception := some ⟨capture, kept⟩, decoder, losses }
      { other with reception := some ⟨capture, twin⟩, decoder, losses } := by
  cases alike
  exact @Alike.intro none { one with reception := some ⟨capture, kept⟩, decoder, losses }
    (some ⟨capture, twin⟩) decoder losses (.some ⟨rfl, bytes.room, fun _ => bytes⟩) rfl
    fun _ => ⟨rfl, rfl⟩

theorem startReception_of_deaf {port : Port} (deaf : ¬ (port.rxPin.isSome ∧ port.reception.isSome))
    (baud period : UInt32) (machine : Machine) :
    (port.withSpeed baud period).startReception machine =
      (port.withSpeed baud period, machine) := by
  unfold startReception
  split
  · rename_i reception pin held receive
    have placed : port.rxPin = some pin := receive
    have holds : port.reception = some reception := held
    rw [placed, holds] at deaf
    exact absurd ⟨rfl, rfl⟩ deaf
  · rfl

/-- A receiver that starts shows nothing of what was left over. -/
theorem Twins.refresh_of_held {reception : Reception} {pin : Pin}
    (twins : Twins spared (one, before) (other, after)) (placed : one.rxPin = some pin)
    (held : one.reception = some reception)
    (covers : ∀ index, spared = some index → reception.capture = index)
    (baud period : UInt32) :
    Twins none (one.refresh before baud period) (other.refresh after baud period) := by
  obtain ⟨none, -⟩ | ⟨own, twin, first, second, like⟩ := twins.port.reception
  · cases none.symm.trans held
  · cases first.symm.trans held
    have there : other.rxPin = some pin :=
      (twins.port.same (·.rxPin) fun _ _ _ _ => rfl).trans placed
    have emptied := twins.machine.modifyQueue reception.capture (·.discard.takeLost.2)
      (fun index spares => (covers index spares).symm)
      fun room _ => ⟨Ring.alike_discard room, rfl⟩
    obtain ⟨now, read, readToo, clock, clockToo, machine⟩ :=
      ((emptied.setPull pin .up).setDirection pin .input).readClock.split
    have polarity : other.decoder.invert = one.decoder.invert := by
      cases twins.port
      assumption
    have speed := twins.port.withSpeed baud period
    have port := (speed.renew reception.capture (Ring.alike_clear like.room)
      ((Decoder.create period one.decoder.invert).reset now) {}).map ({ · with mode := .receive })
      fun _ _ _ _ => rfl
    unfold refresh
    rw [@startReception_eq (one.withSpeed baud period) before pin _ held placed,
      @startReception_eq (other.withSpeed baud period) after pin _ second there, like.capture]
    dsimp only at clock clockToo ⊢
    rw [clock, clockToo]
    have renewed : Twins none
        ({ one.withSpeed baud period with
            reception := some { reception with bytes := reception.bytes.clear }
            mode := .receive
            losses := {}
            decoder := (one.decoder.withPeriod period).reset now }, read)
        ({ other.withSpeed baud period with
            reception := some { reception with bytes := twin.bytes.clear }
            mode := .receive
            losses := {}
            decoder := (other.decoder.withPeriod period).reset now }, readToo) := by
      refine ⟨?_, machine⟩
      have same : (other.decoder.withPeriod period).reset now =
          (Decoder.create period one.decoder.invert).reset now := polarity ▸ rfl
      dsimp only
      rw [same]
      exact port
    exact ⟨renewed.port, renewed.startSending⟩

/-- Whatever is left over, there is nothing of it after this. -/
theorem Twins.refresh (twins : Twins spared (one, before) (other, after)) (baud period : UInt32)
    (covers : ∀ index, spared = some index → one.rxPin.isSome ∧
      ∃ reception, one.reception = some reception ∧ reception.capture = index) :
    Twins none (one.refresh before baud period) (other.refresh after baud period) := by
  by_cases receives : one.rxPin.isSome ∧ one.reception.isSome
  · obtain ⟨placed, holds⟩ := receives
    obtain ⟨pin, receive⟩ := Option.isSome_iff_exists.mp placed
    obtain ⟨reception, held⟩ := Option.isSome_iff_exists.mp holds
    refine twins.refresh_of_held receive held (fun index spares => ?_) baud period
    obtain ⟨-, own, found, same⟩ := covers index spares
    cases held.symm.trans found
    exact same
  · have fresh : spared = none := by
      cases spared with
      | none => rfl
      | some index =>
        obtain ⟨placed, reception, held, -⟩ := covers index rfl
        exact absurd ⟨placed, held ▸ rfl⟩ receives
    subst fresh
    have placed : other.rxPin = one.rxPin := twins.port.same (·.rxPin) fun _ _ _ _ => rfl
    have deaf : ¬ (other.rxPin.isSome ∧ other.reception.isSome) := by
      rw [placed, twins.port.isSome_reception]
      exact receives
    have kept : Twins none (one.withSpeed baud period, before)
        (other.withSpeed baud period, after) :=
      ⟨twins.port.withSpeed baud period, twins.machine⟩
    have renewed : Twins none
        ({ one.withSpeed baud period with
            losses := {}
            decoder := (one.withSpeed baud period).decoder.reset before.readClock.1 },
          before.readClock.2)
        ({ other.withSpeed baud period with
            losses := {}
            decoder := (other.withSpeed baud period).decoder.reset after.readClock.1 },
          after.readClock.2) :=
      ⟨kept.reset.port.withLosses {}, kept.reset.machine⟩
    unfold refresh
    rw [startReception_of_deaf receives, startReception_of_deaf deaf]
    exact ⟨renewed.port, renewed.startSending⟩

theorem startEnablePin_keeps (port : Port) (machine : Machine) :
    (port.startEnablePin machine).2.1.rxPin = port.rxPin ∧
      (port.startEnablePin machine).2.1.reception = port.reception := by
  unfold startEnablePin
  split
  · unfold useEnablePin
    split <;> exact ⟨rfl, rfl⟩
  · exact ⟨rfl, rfl⟩

theorem startSlot_keeps (port : Port) (machine : Machine) :
    (port.startSlot machine).2.1.rxPin = port.rxPin ∧
      (port.startSlot machine).2.1.reception = port.reception := by
  unfold startSlot
  split
  · split <;> exact ⟨rfl, rfl⟩
  · exact ⟨rfl, rfl⟩

theorem Twins.periodFor_eq (twins : Twins spared (one, before) (other, after)) (baud : UInt32) :
    periodFor after baud = periodFor before baud := by
  unfold periodFor
  rw [show after.rate = before.rate from twins.machine.rate]

/-- A start is answered alike, whatever is left over. If it succeeds there is nothing of it
afterwards. -/
theorem Twins.start (twins : Twins spared (one, before) (other, after)) (baud : UInt32)
    (covers : ∀ index, spared = some index → one.rxPin.isSome ∧
      ∃ reception, one.reception = some reception ∧ reception.capture = index) :
    (other.start after baud).1 = (one.start before baud).1 ∧
      (spared = none ∨ (one.start before baud).1 = .ok () →
        Twins none (one.start before baud).2 (other.start after baud).2) := by
  have fails : ∀ {failure : PortError} {first second : Port × Machine},
      Twins spared first second → (Except.error failure : Except PortError Unit) = .error failure ∧
        (spared = none ∨ (Except.error failure : Except PortError Unit) = .ok () →
          Twins none first second) := by
    intro failure first second same
    refine ⟨rfl, ?_⟩
    rintro (rfl | done)
    · exact same
    · cases done
  have period := twins.periodFor_eq baud
  have refused : other.refused = one.refused := twins.port.same (·.refused) fun _ _ _ _ => rfl
  obtain ⟨enabled, port, twin, between, betweenToo, first, second, prepared⟩ :=
    twins.startEnablePin.split
  obtain ⟨claimed, bound, boundToo, next, later, third, fourth, slotted⟩ :=
    prepared.startSlot.split
  unfold Port.start
  rw [period, refused]
  cases periodFor before baud with
  | error failure => exact fails twins
  | ok period =>
    cases one.refused with
    | some requested => exact fails twins
    | none =>
      dsimp only
      rw [first, second]
      cases enabled with
      | error failure => exact fails prepared
      | ok =>
        dsimp only
        rw [third, fourth]
        cases claimed with
        | error failure => exact fails slotted
        | ok =>
          have renewed := slotted.refresh baud period ?_
          · have launched := Twins.launch renewed
            exact ⟨launched.answer, fun _ => launched.twins⟩
          · intro index spares
            obtain ⟨placed, reception, held, same⟩ := covers index spares
            have enabling := one.startEnablePin_keeps before
            have slotting := port.startSlot_keeps between
            rw [first] at enabling
            rw [third] at slotting
            exact ⟨by rw [slotting.1, enabling.1]; exact placed, reception,
              by rw [slotting.2, enabling.2]; exact held, same⟩

theorem Twins.setSpeed (twins : Twins none (one, before) (other, after)) (baud : UInt32) :
    Agrees none (one.setSpeed before baud) (other.setSpeed after baud) := by
  have period := twins.periodFor_eq baud
  unfold Port.setSpeed
  rw [period]
  split
  · exact ⟨rfl, twins⟩
  · exact ⟨rfl, twins.port.withSpeed baud _, twins.machine.write _ _⟩

theorem Twins.stop (twins : Twins none (one, before) (other, after)) :
    Twins none (one.stop before) (other.stop after) := by
  have started : other.started = one.started := twins.port.same (·.started) fun _ _ _ _ => rfl
  have held : other.slot = one.slot := twins.port.same (·.slot) fun _ _ _ _ => rfl
  unfold Port.stop
  rw [started, held]
  split
  · exact twins
  · have freed := Twins.giveSlotBack (twins.setListening false).twins
    exact ⟨freed.port.map ({ · with started := false }) fun _ _ _ _ => rfl,
      freed.machine.write _ _⟩

/-- All that is done to a port is answered alike. -/
theorem Twins.perform (twins : Twins none (one, before) (other, after)) (operation : Operation) :
    Agrees none (one.perform before operation) (other.perform after operation) := by
  cases operation with
  | start baud =>
    obtain ⟨same, started⟩ := twins.start baud (by simp)
    exact ⟨congrArg Answer.ofResult same, started (.inl rfl)⟩
  | stop => exact ⟨rfl, twins.stop⟩
  | setSpeed baud => exact (twins.setSpeed baud).told .ofResult
  | read => exact twins.read.told fun byte => .found (byte.map UInt8.toNat)
  | peek => exact twins.peek.told fun byte => .found (byte.map UInt8.toNat)
  | available => exact twins.available.told .count
  | drain => exact twins.drain.told .bytes
  | flush => exact ⟨rfl, twins.flush⟩
  | write data => exact (twins.write data).told .count
  | anyLost => exact twins.anyLost.told .flag
  | takeLosses => exact twins.takeLosses.told .losses
  | setCallback tag =>
    exact ⟨rfl, twins.port.map (·.setCallback tag) fun _ _ _ _ => rfl, twins.machine⟩
  | serve => exact ⟨rfl, twins.serve⟩
  | turnLine on => exact (twins.turnLine on).told .ofResult
  | setListening on => exact (twins.setListening on).told .ofResult
  | useEnablePin pin => exact (twins.useEnablePin pin).told .ofResult
  | setInterruptible on =>
    exact ⟨rfl, twins.port.map (·.setInterruptible on) fun _ _ _ _ => rfl, twins.machine⟩
  | report =>
    refine ⟨?_, twins⟩
    obtain ⟨port, machine⟩ := twins
    have rate : after.rate = before.rate := machine.rate
    cases port
    unfold Port.perform speed
    dsimp only
    rw [rate]
    rfl
  | describe =>
    exact ⟨congrArg Answer.text (twins.port.same (·.describe) fun _ _ _ _ => rfl), twins⟩

theorem agrees_reserveBuffers {one other : Machine} (alike : one.Alike spared other)
    (config : Config) (pin : Pin) :
    Machine.Agrees spared (reserveBuffers one config pin) (reserveBuffers other config pin) := by
  unfold reserveBuffers
  split
  · exact ⟨rfl, alike.write _ _⟩
  · split
    · exact ⟨rfl, alike.write _ _⟩
    · rename_i queue _ _ bytes _
      obtain ⟨capture, before, after, first, second, added⟩ := (alike.addCapture pin queue).split
      rw [first, second]
      exact ⟨rfl, added⟩

theorem usablePins_of_board {one other : Machine} (same : other.board = one.board)
    (config : Config) : usablePins other config = usablePins one config := by
  unfold usablePins
  rw [same]

theorem alike_noteUnusablePins {one other : Machine} (alike : one.Alike spared other)
    (config : Config) :
    (noteUnusablePins one config).Alike spared (noteUnusablePins other config) := by
  unfold noteUnusablePins
  rw [usablePins_of_board alike.board]
  split
  · exact alike
  · exact alike.write _ _

theorem agrees_openReception {one other : Machine} (alike : one.Alike spared other)
    (config : Config) :
    ∃ reception refused before after, openReception one config = (reception, refused, before) ∧
      openReception other config = (reception, refused, after) ∧ before.Alike spared after := by
  unfold openReception
  rw [usablePins_of_board alike.board]
  cases (usablePins one config).1 with
  | none => exact ⟨_, _, _, _, rfl, rfl, alike⟩
  | some pin =>
    obtain ⟨answer, before, after, first, second, later⟩ :=
      (agrees_reserveBuffers alike config pin).split
    dsimp only
    rw [first, second]
    cases answer <;> exact ⟨_, _, _, _, rfl, rfl, later⟩

/-- New ports are the same on machines that are alike. -/
theorem agrees_create {one other : Machine} (alike : one.Alike spared other) (config : Config) :
    Machine.Agrees spared (create one config) (create other config) := by
  obtain ⟨reception, refused, before, after, first, second, later⟩ :=
    agrees_openReception (alike_noteUnusablePins alike config) config
  have uptime : after.uptime = before.uptime := by
    cases later
    rfl
  have rate : after.rate = before.rate := later.rate
  unfold create
  rw [usablePins_of_board alike.board, first, second]
  dsimp only
  rw [rate, uptime]
  exact ⟨rfl, later⟩

end PinUart.Port
