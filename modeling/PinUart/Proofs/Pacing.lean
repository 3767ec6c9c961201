import PinUart.Proofs.Idling
import PinUart.Proofs.Nets

/-! Where a port keeps its line speed. The configuration, the decoder and the transmitter each hold
a copy; they are changed together, by a start or a change of speed that succeeds. Between a speed
and its bit period stands a division of the counter rate that is rounded down, and to divide back
and forth once more changes nothing. -/
namespace PinUart

namespace Decoder

theorem bitPeriod_decode (decoder : Decoder) (edge : Edge) (bytes : ByteRing) :
    (decoder.decode edge bytes).2.1.bitPeriod = decoder.bitPeriod := by
  have sensed := decoder.bitPeriod_sense edge
  unfold decode
  split
  · rename_i same
    rw [same] at sensed
    exact sensed
  · rename_i same
    rw [same] at sensed
    exact sensed
  · rename_i same
    rw [same] at sensed
    split
    · exact sensed
    · exact sensed

theorem bitPeriod_decodeAll (decoder : Decoder) (bytes : ByteRing) (edges : List Edge) :
    (decoder.decodeAll bytes edges).2.1.bitPeriod = decoder.bitPeriod := by
  induction edges generalizing decoder bytes with
  | nil => rfl
  | cons edge edges ih => exact (ih _ _).trans (decoder.bitPeriod_decode edge bytes)

theorem bitPeriod_keepReach (decoder : Decoder) (now : Cycle) :
    (decoder.keepReach now).bitPeriod = decoder.bitPeriod := by
  unfold keepReach
  split
  · rfl
  · rfl

theorem bitPeriod_poll (decoder : Decoder) (now : Cycle) (bytes : ByteRing) :
    (decoder.poll now bytes).2.1.bitPeriod = decoder.bitPeriod := by
  unfold poll
  split
  · exact decoder.bitPeriod_keepReach now
  · exact (bitPeriod_keepReach _ now).trans (decoder.bitPeriod_decode _ bytes)

end Decoder

/-- The copies of its line speed that a port has. -/
structure Tempo where
  baud : UInt32
  receiving : UInt32
  sending : UInt32
  deriving DecidableEq

/-- They agree, on a counter of that rate. -/
structure Tempo.Paced (tempo : Tempo) (rate : UInt32) : Prop where
  together : tempo.receiving = tempo.sending
  least : 1 ≤ tempo.sending
  rounded : tempo.sending = max (rate / max tempo.baud 1) 1

namespace Port

def tempo (port : Port) : Tempo where
  baud := port.config.baud
  receiving := port.decoder.bitPeriod
  sending := port.transmitter.bitPeriod

section

variable (port : Port) (machine : Machine)

theorem tempo_noteLostEdges (capture : Nat) :
    (port.noteLostEdges machine capture).1.tempo = port.tempo := by
  unfold noteLostEdges
  split
  · rfl
  · rfl

theorem tempo_noteDroppedBytes (dropped : Nat) :
    (port.noteDroppedBytes machine dropped).1.tempo = port.tempo := by
  unfold noteDroppedBytes
  split
  · rfl
  · rfl

theorem tempo_collect : (port.collect machine).1.tempo = port.tempo := by
  unfold collect
  split
  · rfl
  · rename_i reception _
    have noted := port.tempo_noteLostEdges machine reception.capture
    dsimp only
    refine (tempo_noteDroppedBytes _ _ _).trans (Eq.trans ?_ noted)
    refine congrArg (Tempo.mk _ · _) ?_
    exact (Decoder.bitPeriod_poll _ _ _).trans (Decoder.bitPeriod_decodeAll _ _ _)

theorem tempo_available : (port.available machine).2.1.tempo = port.tempo := by
  unfold available
  split
  · rfl
  · dsimp only
    split
    · exact (tempo_collect _ _).trans (port.tempo_collect machine)
    · exact port.tempo_collect machine

theorem tempo_takeByte : port.takeByte.2.tempo = port.tempo := by
  unfold takeByte
  split
  · rfl
  · rfl

theorem tempo_read : (port.read machine).2.1.tempo = port.tempo := by
  unfold read
  dsimp only
  split
  · exact (tempo_takeByte _).trans (port.tempo_collect machine)
  · exact port.tempo_takeByte

theorem tempo_drainWith (fuel : Nat) :
    (port.drainWith machine fuel).2.1.tempo = port.tempo := by
  induction fuel generalizing port machine with
  | zero => rfl
  | succ fuel ih =>
    unfold drainWith
    dsimp only
    split
    · exact port.tempo_available machine
    · exact (ih _ _).trans ((tempo_read _ _).trans (port.tempo_available machine))

theorem tempo_flush : (port.flush machine).1.tempo = port.tempo := by
  unfold flush
  cases port.reception with
  | none => rfl
  | some reception => rfl

theorem tempo_serve : (port.serve machine).1.tempo = port.tempo := by
  unfold serve
  split
  · exact port.tempo_collect machine
  · rfl

theorem tempo_setListening (on : Bool) :
    (port.setListening machine on).2.1.tempo = port.tempo := by
  unfold setListening
  split
  · split
    · dsimp only
      split
      · rfl
      · rfl
    · exact port.tempo_collect _
  · rfl

theorem tempo_turnLine (on : Bool) : (port.turnLine machine on).2.1.tempo = port.tempo := by
  cases shared : port.sharedPin? with
  | none => rw [turnLine_unshared shared]
  | some pin =>
    cases on with
    | true =>
      obtain ⟨other, between, disarmed, same⟩ := turnLine_away shared machine
      have kept := port.tempo_setListening machine false
      rw [disarmed] at kept
      rw [same]
      exact kept
    | false =>
      obtain ⟨answer, other, between, log, armed, same⟩ := turnLine_back shared machine
      have kept := tempo_setListening { port with mode := .receive }
        ((machine.setPull pin .up).setDirection pin .input) true
      rw [armed] at kept
      rw [same]
      exact kept

theorem tempo_turnLineOrWarn (on : Bool) :
    (port.turnLineOrWarn machine on).1.tempo = port.tempo := by
  have turned := port.tempo_turnLine machine on
  unfold turnLineOrWarn
  split
  · rename_i done
    rw [done] at turned
    exact turned
  · rename_i failed
    rw [failed] at turned
    exact turned

theorem tempo_write (data : List UInt8) : (port.write machine data).2.1.tempo = port.tempo := by
  have collected := port.tempo_collect machine
  unfold write
  dsimp only
  split
  · exact collected
  · split
    · exact collected
    · split
      · exact (tempo_turnLineOrWarn _ _ _).trans ((tempo_turnLineOrWarn _ _ _).trans collected)
      · exact collected

theorem tempo_giveSlotBack : (port.giveSlotBack machine).1.tempo = port.tempo := by
  unfold giveSlotBack
  split
  · rfl
  · rfl

theorem tempo_stop : (port.stop machine).1.tempo = port.tempo := by
  unfold stop
  split
  · rfl
  · exact (tempo_giveSlotBack _ _).trans (port.tempo_setListening machine false)

theorem tempo_useEnablePin (pin : Pin) :
    (port.useEnablePin machine pin).2.1.tempo = port.tempo := by
  unfold useEnablePin
  split
  · rfl
  · rfl

theorem tempo_startEnablePin : (port.startEnablePin machine).2.1.tempo = port.tempo := by
  unfold startEnablePin
  split
  · exact port.tempo_useEnablePin machine _
  · rfl

theorem tempo_startListening : (port.startListening machine).2.1.tempo = port.tempo := by
  have armed := port.tempo_setListening machine true
  unfold startListening
  split
  · rfl
  · split
    · rename_i done
      rw [done] at armed
      exact armed
    · rename_i failed
      rw [failed] at armed
      exact (tempo_giveSlotBack _ _).trans armed

theorem tempo_refresh (baud bitPeriod : UInt32) :
    (port.refresh machine baud bitPeriod).1.tempo = (port.withSpeed baud bitPeriod).tempo := by
  unfold refresh startReception
  dsimp only
  split
  · rfl
  · rfl

theorem tempo_launch : (port.launch machine).2.1.tempo = port.tempo := by
  have armed := port.tempo_startListening machine
  unfold launch
  split
  · rename_i failed
    rw [failed] at armed
    exact armed
  · rename_i done
    rw [done] at armed
    exact armed

end

theorem one_le_iff_ne_zero {baud : UInt32} : 1 ≤ baud ↔ baud ≠ 0 := by
  rw [UInt32.le_iff_toNat_le, ← UInt32.toNat_inj.ne]
  exact Nat.one_le_iff_ne_zero

/-- The counter can represent the speeds up to its own rate. -/
theorem periodFor_of_fits {machine : Machine} {baud : UInt32} (least : 1 ≤ baud)
    (most : baud ≤ machine.rate) : periodFor machine baud = .ok (machine.rate / baud) := by
  rw [periodFor, if_neg]
  rintro (zero | above)
  · exact one_le_iff_ne_zero.mp least zero
  · exact UInt32.not_lt.mpr most above

theorem periodFor_of_unfit {machine : Machine} {baud : UInt32}
    (unfit : ¬ (1 ≤ baud ∧ baud ≤ machine.rate)) :
    periodFor machine baud = .error (.invalidBaud baud) := by
  rw [periodFor, if_pos]
  rw [one_le_iff_ne_zero, not_and_or, not_not, UInt32.not_le] at unfit
  exact unfit

theorem fits_of_periodFor {machine : Machine} {baud bitPeriod : UInt32}
    (fits : periodFor machine baud = .ok bitPeriod) :
    (1 ≤ baud ∧ baud ≤ machine.rate) ∧ bitPeriod = machine.rate / baud := by
  by_cases range : 1 ≤ baud ∧ baud ≤ machine.rate
  · rw [periodFor_of_fits range.1 range.2] at fits
    exact ⟨range, (Except.ok.inj fits).symm⟩
  · rw [periodFor_of_unfit range] at fits
    cases fits

/-- An operation leaves the tempo of a port as it is, or sets a speed that the counter can
represent. -/
theorem tempo_perform (port : Port) (machine : Machine) (operation : Operation) :
    (port.perform machine operation).2.1.tempo = port.tempo ∨
      ∃ baud, (1 ≤ baud ∧ baud ≤ machine.rate) ∧
        (port.perform machine operation).2.1.tempo =
          ⟨baud, max (machine.rate / baud) 1, machine.rate / baud⟩ := by
  cases operation with
  | start baud =>
    rcases port.start_cases machine baud with ⟨failure, -, same⟩ | ⟨failure, -, same⟩ |
      ⟨period, first, between, second, bound, -, fits, -, -, same⟩
    · exact .inl (congrArg (·.2.1.tempo) same)
    · exact .inl ((congrArg (·.2.1.tempo) same).trans (port.tempo_startEnablePin machine))
    · obtain ⟨range, rfl⟩ := fits_of_periodFor fits
      refine .inr ⟨baud, range, (congrArg (·.2.1.tempo) same).trans ?_⟩
      exact (tempo_launch _ _).trans (second.tempo_refresh bound baud _)
  | setSpeed baud =>
    change (port.setSpeed machine baud).2.1.tempo = _ ∨ ∃ baud, _ ∧
      (port.setSpeed machine _).2.1.tempo = _
    unfold setSpeed
    split
    · exact .inl rfl
    · rename_i fits
      obtain ⟨range, rfl⟩ := fits_of_periodFor fits
      exact .inr ⟨baud, range, rfl⟩
  | stop => exact .inl (port.tempo_stop machine)
  | read => exact .inl (port.tempo_read machine)
  | peek => exact .inl (port.tempo_collect machine)
  | available => exact .inl (port.tempo_available machine)
  | drain => exact .inl (port.tempo_drainWith machine _)
  | flush => exact .inl (port.tempo_flush machine)
  | write data => exact .inl (port.tempo_write machine data)
  | serve => exact .inl (port.tempo_serve machine)
  | turnLine on => exact .inl (port.tempo_turnLine machine on)
  | setListening on => exact .inl (port.tempo_setListening machine on)
  | useEnablePin pin => exact .inl (port.tempo_useEnablePin machine pin)
  | anyLost | takeLosses | setCallback | setInterruptible | report | describe => exact .inl rfl

end Port

namespace Tempo

section

variable {rate baud : UInt32}

theorem one_le_div (least : 1 ≤ baud) (most : baud ≤ rate) : 1 ≤ rate / baud := by
  rw [UInt32.le_iff_toNat_le] at *
  rw [UInt32.toNat_div]
  exact Nat.div_pos most least

theorem div_le_rate (rate baud : UInt32) : rate / baud ≤ rate := by
  rw [UInt32.le_iff_toNat_le, UInt32.toNat_div]
  exact Nat.div_le_self _ _

/-- The speed that comes of a bit period that was rounded down is no less than what was asked. -/
theorem le_div_div (least : 1 ≤ baud) (most : baud ≤ rate) : baud ≤ rate / (rate / baud) := by
  have positive := one_le_div least most
  rw [UInt32.le_iff_toNat_le] at *
  rw [UInt32.toNat_div] at *
  rw [UInt32.toNat_div]
  exact (Nat.le_div_iff_mul_le positive).mpr (Nat.mul_div_le _ _)

/-- To round down twice more is to round down once. -/
theorem div_div_div (least : 1 ≤ baud) (most : baud ≤ rate) :
    rate / (rate / (rate / baud)) = rate / baud := by
  have back := le_div_div least most
  have again := le_div_div (one_le_div least most) (div_le_rate rate baud)
  refine UInt32.le_antisymm ?_ again
  rw [UInt32.le_iff_toNat_le] at *
  rw [UInt32.toNat_div, UInt32.toNat_div rate baud]
  exact Nat.div_le_div_left back least

theorem max_one_of_le {number : UInt32} (least : 1 ≤ number) : max number 1 = number := by
  rw [UInt32.le_iff_toNat_le] at least
  rw [← UInt32.toNat_inj, UInt32.toNat_max]
  exact Nat.max_eq_left least

theorem one_le_max (number : UInt32) : 1 ≤ max number 1 := by
  rw [UInt32.le_iff_toNat_le, UInt32.toNat_max]
  exact Nat.le_max_right _ _

end

namespace Paced

variable {tempo : Tempo} {rate : UInt32}

theorem of_div {baud : UInt32} (least : 1 ≤ baud) (most : baud ≤ rate) :
    Paced ⟨baud, max (rate / baud) 1, rate / baud⟩ rate := by
  have positive := one_le_div least most
  refine ⟨max_one_of_le positive, positive, ?_⟩
  rw [max_one_of_le least, max_one_of_le positive]

/-- A speed beyond the counter gets the bit period that the rate itself has. -/
theorem exists_div (paced : tempo.Paced rate) (ticks : 1 ≤ rate) :
    ∃ divisor, 1 ≤ divisor ∧ divisor ≤ rate ∧ tempo.sending = rate / divisor := by
  by_cases within : max tempo.baud 1 ≤ rate
  · refine ⟨max tempo.baud 1, one_le_max _, within, ?_⟩
    exact paced.rounded.trans (max_one_of_le (one_le_div (one_le_max _) within))
  · refine ⟨rate, ticks, UInt32.le_refl rate, paced.rounded.trans ?_⟩
    rw [UInt32.not_le, UInt32.lt_iff_toNat_lt] at within
    rw [UInt32.le_iff_toNat_le] at ticks
    rw [← UInt32.toNat_inj, UInt32.toNat_max, UInt32.toNat_div, UInt32.toNat_div,
      Nat.div_eq_of_lt within, Nat.div_self ticks]
    rfl

end Paced

end Tempo

namespace Port

open Tempo

variable {port : Port} {machine : Machine}

theorem paced_create (machine : Machine) (config : Config) :
    (create machine config).1.tempo.Paced machine.rate := by
  obtain ⟨log, captures, same⟩ := create_shape machine config
  have rate : (create machine config).2.rate = machine.rate := by
    rw [same]
    rfl
  have told : (create machine config).1.tempo.Paced (create machine config).2.rate :=
    ⟨max_one_of_le (one_le_max _), one_le_max _, rfl⟩
  rw [rate] at told
  exact told

theorem paced_perform (paced : port.tempo.Paced machine.rate) (operation : Operation) :
    (port.perform machine operation).2.1.tempo.Paced machine.rate := by
  rcases port.tempo_perform machine operation with same | ⟨baud, range, same⟩
  · rw [same]
    exact paced
  · rw [same]
    exact .of_div range.1 range.2

/-- When a change of speed succeeds, and what it does. -/
structure Retimes (port : Port) (machine : Machine) : Prop where
  accepted : ∀ baud, (port.setSpeed machine baud).1 = .ok () ↔ 1 ≤ baud ∧ baud ≤ machine.rate
  refused : ∀ baud, ¬ (1 ≤ baud ∧ baud ≤ machine.rate) →
    port.setSpeed machine baud = (.error (.invalidBaud baud), port, machine)
  /-- The effective speed is no less than what was asked for, and no more than the rate. -/
  effective : ∀ baud answer after reached, port.setSpeed machine baud = (answer, after, reached) →
    answer = .ok () → baud ≤ after.speed reached ∧ after.speed reached ≤ machine.rate
  /-- To ask for the effective speed changes neither it nor the bit period. -/
  settled : ∃ after reached, port.setSpeed machine (port.speed machine) = (.ok (), after, reached) ∧
    after.bitPeriod = port.bitPeriod ∧ after.speed reached = port.speed machine

theorem setSpeed_of_fits (port : Port) {baud : UInt32} (least : 1 ≤ baud) (most : baud ≤ machine.rate) :
    ∃ reached, reached.rate = machine.rate ∧
      port.setSpeed machine baud = (.ok (), port.withSpeed baud (machine.rate / baud), reached) := by
  unfold setSpeed
  rw [periodFor_of_fits least most]
  refine ⟨_, ?_, rfl⟩
  rfl

theorem setSpeed_of_unfit {baud : UInt32} (unfit : ¬ (1 ≤ baud ∧ baud ≤ machine.rate)) :
    port.setSpeed machine baud = (.error (.invalidBaud baud), port, machine) := by
  unfold setSpeed
  rw [periodFor_of_unfit unfit]

theorem retimes_of_paced (paced : port.tempo.Paced machine.rate) (ticks : 1 ≤ machine.rate) :
    port.Retimes machine := by
  refine ⟨fun baud => ?_, fun baud => setSpeed_of_unfit, ?_, ?_⟩
  · by_cases range : 1 ≤ baud ∧ baud ≤ machine.rate
    · obtain ⟨reached, -, done⟩ := port.setSpeed_of_fits range.1 range.2
      rw [done]
      exact iff_of_true rfl range
    · rw [setSpeed_of_unfit range]
      exact iff_of_false (fun done => by cases done) range
  · rintro baud answer after reached done rfl
    by_cases range : 1 ≤ baud ∧ baud ≤ machine.rate
    · obtain ⟨known, rate, same⟩ := port.setSpeed_of_fits range.1 range.2
      cases same.symm.trans done
      unfold speed
      rw [rate]
      exact ⟨le_div_div range.1 range.2, div_le_rate _ _⟩
    · rw [setSpeed_of_unfit range] at done
      cases done
  · obtain ⟨divisor, least, most, same⟩ := paced.exists_div ticks
    have period : port.bitPeriod = machine.rate / divisor := same
    have back : machine.rate / port.speed machine = port.bitPeriod := by
      rw [speed, period]
      exact div_div_div least most
    have slowest : 1 ≤ port.speed machine := one_le_div paced.least (period ▸ div_le_rate _ _)
    obtain ⟨reached, rate, done⟩ := port.setSpeed_of_fits slowest (div_le_rate _ _)
    refine ⟨_, reached, done, back, ?_⟩
    change reached.rate / (machine.rate / port.speed machine) = _
    rw [rate, back]
    rfl

end Port

namespace World

variable {world : World}

/-- No operation changes the counter rate. -/
theorem counter_perform (world : World) (operation : Operation) :
    (world.perform operation).2.machine.rate = world.machine.rate := by
  have told (machine : Machine) : machine.rate =
      machine.rig.fixture.statedRate.getD machine.rig.fixture.timebase.rate := rfl
  rw [told, told]
  rcases world.fixture_cases operation with same | ⟨one, other, joined⟩
  · rw [same]
  · rw [joined]

/-- What one operation preserves. -/
theorem paced_perform
    (paced : ∀ index port, world.port? index = some port → port.tempo.Paced world.machine.rate)
    (operation : Operation) {index : Nat} {port : Port}
    (live : (world.perform operation).2.port? index = some port) :
    port.tempo.Paced (world.perform operation).2.machine.rate := by
  rw [counter_perform]
  rcases port?_perform live with ⟨config, -, rfl⟩ | ⟨before, held, rfl | ⟨own, -, rfl⟩⟩
  · exact Port.paced_create _ _
  · exact paced index _ held
  · exact Port.paced_perform (paced index before held) own

/-- What a whole run preserves. -/
theorem paced_run
    (paced : ∀ index port, world.port? index = some port → port.tempo.Paced world.machine.rate)
    (operations : List Operation) {index : Nat} {port : Port}
    (live : (world.run operations).2.port? index = some port) :
    port.tempo.Paced world.machine.rate ∧
      (world.run operations).2.machine.rate = world.machine.rate := by
  induction operations generalizing world with
  | nil => exact ⟨paced index port live, rfl⟩
  | cons operation operations ih =>
    have later := ih (fun _ _ found => paced_perform paced operation found) live
    rw [counter_perform] at later
    exact later

/-- Whatever is done to the ports of a world, and however it fails, both directions of each of them
keep the one bit period that its speed is rounded to, and the speed that comes of it is one that
rounding leaves alone. -/
theorem run_retimes (empty : world.ports = #[]) (ticks : 1 ≤ world.machine.rate)
    {operations : List Operation} {index : Nat} {port : Port}
    (live : (world.run operations).2.port? index = some port) :
    (world.run operations).2.machine.rate = world.machine.rate ∧
      port.tempo.Paced world.machine.rate ∧ port.Retimes (world.run operations).2.machine := by
  have none (index : Nat) (port : Port) (found : world.port? index = some port) :
      port.tempo.Paced world.machine.rate := by
    cases (port?_of_no_ports empty index).symm.trans found
  obtain ⟨paced, rate⟩ := paced_run none operations live
  exact ⟨rate, paced, Port.retimes_of_paced (rate ▸ paced) (rate ▸ ticks)⟩

/-- A port is started at a speed that the counter has to round; it is configured for one that is
too fast for the counter, and cannot be set back to it. -/
def retuned : List Operation :=
  [.openPort { rxPin := some 5, txPin := some 4, baud := 4000000000 }, .port 0 (.start 0),
    .port 0 (.start 115200), .port 0 (.setSpeed 4000000000)]

theorem retimes_retuned :
    ∃ port, (run {} retuned).2.port? 0 = some port ∧
      1 ≤ ({} : World).machine.rate ∧ port.tempo = ⟨115200, 694, 694⟩ ∧
      port.tempo.Paced ({} : World).machine.rate ∧ port.Retimes (run {} retuned).2.machine := by
  have told : ((run {} retuned).2.port? 0).map Port.tempo = some ⟨115200, 694, 694⟩ := by
    decide +kernel
  have ticks : 1 ≤ ({} : World).machine.rate := by decide +kernel
  obtain ⟨port, live, tempo⟩ := Option.map_eq_some_iff.mp told
  obtain ⟨-, paced, retimes⟩ := run_retimes rfl ticks live
  exact ⟨port, live, ticks, tempo, paced, retimes⟩

end World
end PinUart
