import PinUart.Proofs.Runs

/-! A message planned hold by hold, in integers of fixed width. The planner keeps its place in the
message and a hold that may yet grow. Its arithmetic is checked: an operation whose exact result
the type does not hold has none. None of them comes up, and the holds are those of the plan. -/
namespace PinUart

/-- The numbers that an integer type holds. -/
structure Width where
  least : Int
  most : Int

namespace Width

def byte : Width := ⟨0, 2 ^ 8 - 1⟩
def word : Width := ⟨0, 2 ^ 32 - 1⟩
def size : Width := ⟨0, 2 ^ 64 - 1⟩
def signed : Width := ⟨-2 ^ 31, 2 ^ 31 - 1⟩

/-- A result, if the type holds it. -/
def exact (width : Width) (value : Int) : Option Int :=
  if width.least ≤ value ∧ value ≤ width.most then some value else none

def add (width : Width) (one other : Int) : Option Int := width.exact (one + other)

def sub (width : Width) (one other : Int) : Option Int := width.exact (one - other)

def mul (width : Width) (one other : Int) : Option Int := width.exact (one * other)

/-- Division rounds towards zero. -/
def div (width : Width) (one other : Int) : Option Int :=
  if other = 0 then none else width.exact (one.tdiv other)

/-- Where the exact difference is too much, the nearest number is taken. -/
def saturatingSub (width : Width) (one other : Int) : Int :=
  max width.least (min width.most (one - other))

variable {width : Width}

theorem exact_eq {value : Int} (least : width.least ≤ value) (most : value ≤ width.most) :
    width.exact value = some value := if_pos ⟨least, most⟩

theorem of_exact {value result : Int} (fits : width.exact value = some result) :
    value ≤ width.most ∧ result = value := by
  unfold exact at fits
  split at fits
  · rename_i within
    exact ⟨within.2, (Option.some.inj fits).symm⟩
  · cases fits

theorem signed_exact {value : Int} (least : -2 ^ 31 ≤ value) (most : value < 2 ^ 31) :
    signed.exact value = some value :=
  exact_eq least (Int.le_sub_one_of_lt most)

theorem word_exact {number : Nat} (fits : number < 2 ^ 32) :
    word.exact number = some (number : Int) :=
  exact_eq (Int.natCast_nonneg number) (Int.le_sub_one_of_lt (Int.ofNat_lt.mpr fits))

theorem size_exact {number : Nat} (fits : number < 2 ^ 64) :
    size.exact number = some (number : Int) :=
  exact_eq (Int.natCast_nonneg number) (Int.le_sub_one_of_lt (Int.ofNat_lt.mpr fits))

end Width

section

variable {bits : Nat}

/-- A shift upwards, if it is by fewer bits than there are and none gets lost. -/
def shiftUp (value : BitVec bits) (amount : Int) : Option (BitVec bits) :=
  if 0 ≤ amount ∧ amount < bits ∧ value.toNat * 2 ^ amount.toNat < 2 ^ bits then
    some (value <<< amount.toNat)
  else none

/-- A shift downwards, if it is by fewer bits than there are. -/
def shiftDown (value : BitVec bits) (amount : Int) : Option (BitVec bits) :=
  if 0 ≤ amount ∧ amount < bits then some (value >>> amount.toNat) else none

end

structure Planner where
  data : List UInt8
  bitPeriod : UInt32
  invert : Bool
  byte : Int := 0
  bit : Int := 0
  /-- The hold that the next levels may prolong. -/
  pending : Option Hold := none

namespace Planner

/-- The logical level of a bit of a frame, the start bit being number zero. -/
def frameMark (byte : UInt8) (bit : Int) : Option Bool := do
  if bit = 0 then return false
  else if 1 ≤ bit ∧ bit ≤ 8 then
    let shifted ← shiftDown byte.toBitVec (← Width.signed.sub bit 1)
    return shifted &&& 1 == 1
  else return true

/-- Goes on to the next bit of the message. -/
def forward (planner : Planner) : Option Planner := do
  let bit ← Width.signed.add planner.bit 1
  if bit = frameBits then return { planner with bit := 0, byte := ← Width.size.add planner.byte 1 }
  else return { planner with bit }

/-- The bytes that are left, and the numbers that are left for bits. -/
def left (planner : Planner) : Nat × Nat :=
  ((planner.data.length - planner.byte).toNat, (Width.signed.most - planner.bit).toNat)

theorem left_forward {planner later : Planner} {byte : UInt8}
    (found : planner.data[planner.byte.toNat]? = some byte)
    (moved : planner.forward = some later) :
    Prod.Lex (· < ·) (· < ·) later.left planner.left := by
  obtain ⟨inside, -⟩ := List.getElem?_eq_some_iff.mp found
  obtain ⟨bit, counted, moved⟩ := Option.bind_eq_some_iff.mp moved
  obtain ⟨most, rfl⟩ := Width.of_exact counted
  split at moved
  · obtain ⟨number, passed, same⟩ := Option.bind_eq_some_iff.mp moved
    obtain ⟨-, rfl⟩ := Width.of_exact passed
    cases same
    apply Prod.Lex.left
    dsimp only
    omega
  · cases moved
    apply Prod.Lex.right
    dsimp only
    omega

/-- The next hold: it is known once a level comes that differs, or the message is over. -/
def next (planner : Planner) : Option (Option Hold × Planner) :=
  match _found : planner.data[planner.byte.toNat]? with
  | none => some (planner.pending, { planner with pending := none })
  | some byte => do
    let high := (← frameMark byte planner.bit) ^^ planner.invert
    match _moved : planner.forward with
    | none => none
    | some planner =>
      match planner.pending with
      | none => next { planner with pending := some ⟨high, planner.bitPeriod⟩ }
      | some hold =>
        if hold.high = high then
          let cycles ← Width.word.add hold.cycles.toNat planner.bitPeriod.toNat
          next { planner with pending := some ⟨high, UInt32.ofNat cycles.toNat⟩ }
        else some (some hold, { planner with pending := some ⟨high, planner.bitPeriod⟩ })
termination_by planner.left
decreasing_by all_goals exact (left_forward _found _moved :)

/-- The answer to one of many requests, counted from zero. -/
def ask (planner : Planner) : Nat → Option (Option Hold)
  | 0 => return (← planner.next).1
  | count + 1 => do
    let (_, planner) ← planner.next
    planner.ask count

end Planner

/-- A run of equal levels that ends is the next hold. -/
theorem Plan.next?_of_run {plan : Plan} {run : Nat} {high : Bool} {later : List Bool}
    (some : 1 ≤ run) (whole : plan.levels = List.replicate run high ++ later)
    (changed : later.head? ≠ .some high) :
    plan.next? = .some (⟨high, UInt32.ofNat run * plan.bitPeriod⟩, { plan with levels := later }) := by
  obtain ⟨run, rfl⟩ := Nat.exists_eq_add_of_le' some
  rw [List.replicate_succ, List.cons_append] at whole
  have held : ∀ level ∈ List.replicate run high, (level == high) = true := by
    intro level member
    rw [List.eq_of_mem_replicate member, beq_self_eq_true]
  have stops : later.takeWhile (· == high) = [] ∧ later.dropWhile (· == high) = later := by
    cases later with
    | nil => exact ⟨rfl, rfl⟩
    | cons level later =>
      have differs : ¬ (level == high) = true := by
        rw [beq_iff_eq]
        rintro rfl
        exact changed rfl
      exact ⟨List.takeWhile_cons_of_neg differs, List.dropWhile_cons_of_neg differs⟩
  unfold next?
  rw [whole]
  dsimp only
  rw [List.takeWhile_append_of_pos held, List.dropWhile_append_of_pos held, stops.1, stops.2,
    List.append_nil, List.length_replicate]

namespace Planner

theorem frameMark_eq (byte : UInt8) {place : Nat} (inside : place < 10) :
    frameMark byte place = some (Frame.level byte place) := by
  unfold frameMark
  split
  · rename_i start
    rw [Int.natCast_eq_zero.mp start, Frame.level_start]
    rfl
  · rename_i later
    split
    · obtain ⟨index, rfl⟩ := Nat.exists_eq_add_of_le' (show 1 ≤ place by omega)
      have before : Width.signed.sub ((index + 1 : Nat) : Int) 1 = some (index : Int) := by
        rw [Width.sub, show ((index + 1 : Nat) : Int) - 1 = index by omega]
        exact Width.signed_exact (by omega) (by omega)
      have shifted : shiftDown byte.toBitVec (index : Int) = some (byte.toBitVec >>> index) := by
        rw [shiftDown, if_pos ⟨by omega, by omega⟩]
        rfl
      rw [before, Frame.level_data byte (by omega)]
      dsimp only [Option.bind_eq_bind, Option.bind_some]
      rw [shifted]
      dsimp only [Option.bind_some]
      have lowest : (byte.toBitVec >>> index &&& 1 == 1) = byte.toBitVec.getLsbD index := by
        rw [show (1 : BitVec 8) = 1#8 from rfl, BitVec.and_one_eq_setWidth_ofBool_getLsbD,
          BitVec.getLsbD_ushiftRight, Nat.add_zero]
        cases byte.toBitVec.getLsbD index <;> rfl
      rw [lowest]
      rfl
    · rw [Frame.level_stop byte (by omega)]
      rfl

/-- A planner that has come to a place of its message, counted in bits. -/
def reach (data : List UInt8) (bitPeriod : UInt32) (invert : Bool) (place : Nat)
    (pending : Option Hold) : Planner where
  data := data
  bitPeriod := bitPeriod
  invert := invert
  byte := (place / 10 : Nat)
  bit := (place % 10 : Nat)
  pending := pending

variable {data : List UInt8} {bitPeriod : UInt32} {invert : Bool} {place : Nat}
  {pending : Option Hold}

theorem forward_reach (inside : place < 10 * data.length) (fits : data.length < 2 ^ 64) :
    (reach data bitPeriod invert place pending).forward =
      some (reach data bitPeriod invert (place + 1) pending) := by
  have bit : Width.signed.add (place % 10 : Nat) 1 = some ((place % 10 + 1 : Nat) : Int) :=
    Width.signed_exact (by omega) (by omega)
  have byte : Width.size.add (place / 10 : Nat) 1 = some ((place / 10 + 1 : Nat) : Int) :=
    Width.size_exact (show place / 10 + 1 < 2 ^ 64 by omega)
  unfold forward reach
  dsimp only
  rw [bit]
  dsimp only [Option.bind_eq_bind, Option.bind_some]
  split
  · rename_i last
    have last : place % 10 + 1 = 10 := Int.ofNat.inj last
    rw [byte, show (place + 1) / 10 = place / 10 + 1 by omega, show (place + 1) % 10 = 0 by omega]
    rfl
  · rename_i within
    have within : place % 10 + 1 ≠ 10 := fun same => within (congrArg Int.ofNat same)
    rw [show (place + 1) / 10 = place / 10 by omega,
      show (place + 1) % 10 = place % 10 + 1 by omega]
    rfl

/-- What a planner has yet to answer: a run that is pending, and the levels from its place on. -/
structure Owes (message : Plan) (place : Nat) (pending : Option Hold) (plan : Plan) : Prop where
  bitPeriod : plan.bitPeriod = message.bitPeriod
  suffix : plan.levels <:+ message.levels
  held : ∃ run high, plan.levels = List.replicate run high ++ message.levels.drop place ∧
    pending = if run = 0 then none else some ⟨high, UInt32.ofNat run * message.bitPeriod⟩

theorem drop_levels (bitPeriod : UInt32) (invert : Bool) (inside : place < 10 * data.length) :
    ∃ byte, data[place / 10]? = some byte ∧
      (Plan.ofData data bitPeriod invert).levels.drop place =
        (Frame.level byte (place % 10) ^^ invert) ::
          (Plan.ofData data bitPeriod invert).levels.drop (place + 1) := by
  have frame : place / 10 < data.length := by omega
  have bit : place % 10 < frameBits := Nat.mod_lt _ (by decide)
  refine ⟨data[place / 10], List.getElem?_eq_getElem frame, ?_⟩
  have found : (messageLevels data)[place]? =
      some (Frame.level data[place / 10] (place % 10)) := by
    have whole := getElem?_messageLevels data frame bit
    rw [show frameBits * (place / 10) + place % 10 = place from Nat.div_add_mod place 10] at whole
    rw [whole, Frame.level, List.getElem?_eq_getElem (by rw [Frame.length_levels]; exact bit)]
    rfl
  have level : (Plan.ofData data bitPeriod invert).levels[place]? =
      some (Frame.level data[place / 10] (place % 10) ^^ invert) := by
    rw [Plan.ofData, List.getElem?_map, found]
    rfl
  obtain ⟨bound, same⟩ := List.getElem?_eq_some_iff.mp level
  rw [List.drop_eq_getElem_cons bound, same]

/-- A step of the planner inside of its message. -/
theorem next_inside {byte : UInt8} (fits : data.length < 2 ^ 64)
    (found : data[place / 10]? = some byte) :
    (reach data bitPeriod invert place pending).next =
      match pending with
      | none => (reach data bitPeriod invert (place + 1)
          (some ⟨Frame.level byte (place % 10) ^^ invert, bitPeriod⟩)).next
      | some hold =>
        if hold.high = (Frame.level byte (place % 10) ^^ invert) then
          (Width.word.add hold.cycles.toNat bitPeriod.toNat).bind fun cycles =>
            (reach data bitPeriod invert (place + 1)
              (some ⟨Frame.level byte (place % 10) ^^ invert, UInt32.ofNat cycles.toNat⟩)).next
        else some (some hold, reach data bitPeriod invert (place + 1)
          (some ⟨Frame.level byte (place % 10) ^^ invert, bitPeriod⟩)) := by
  have inside : place < 10 * data.length := by
    obtain ⟨bound, -⟩ := List.getElem?_eq_some_iff.mp found
    omega
  rw [next]
  have here : (reach data bitPeriod invert place pending).data[
      (reach data bitPeriod invert place pending).byte.toNat]? = some byte := found
  rw [here]
  dsimp only
  rw [show (reach data bitPeriod invert place pending).bit = (place % 10 : Nat) from rfl,
    frameMark_eq byte (Nat.mod_lt _ (by decide)), forward_reach inside fits]
  rfl

/-- A run of less than nine bit periods may grow by one. -/
theorem add_run {run : Nat} (narrow : 9 * bitPeriod.toNat < 2 ^ 32) (short : run + 1 ≤ 9) :
    Width.word.add (UInt32.ofNat run * bitPeriod).toNat bitPeriod.toNat =
      some ((UInt32.ofNat (run + 1) * bitPeriod).toNat : Int) := by
  have bound : (run + 1) * bitPeriod.toNat ≤ 9 * bitPeriod.toNat := Nat.mul_le_mul_right _ short
  have grown : (run + 1) * bitPeriod.toNat = run * bitPeriod.toNat + bitPeriod.toNat :=
    Nat.succ_mul _ _
  rw [toNat_periods (by omega) (by omega), toNat_periods (by omega) (by omega), grown]
  exact Width.word_exact (by omega)

/-- Past its message a planner answers what is pending. -/
theorem next_outside (past : 10 * data.length ≤ place) :
    (reach data bitPeriod invert place pending).next =
      some (pending, reach data bitPeriod invert place none) := by
  have nothing : data[place / 10]? = none := List.getElem?_eq_none (by omega)
  have here : (reach data bitPeriod invert place pending).data[
      (reach data bitPeriod invert place pending).byte.toNat]? = none := nothing
  rw [next, here]
  rfl

theorem drop_levels_outside (bitPeriod : UInt32) (invert : Bool)
    (past : 10 * data.length ≤ place) :
    (Plan.ofData data bitPeriod invert).levels.drop place = [] := by
  refine List.drop_of_length_le ?_
  rw [Plan.ofData, List.length_map, length_messageLevels]
  exact past

/-- The next answer of a planner is the next hold of what it owes, and it owes the rest. -/
theorem next_reach {plan : Plan} (narrow : 9 * bitPeriod.toNat < 2 ^ 32)
    (fits : data.length < 2 ^ 64) (inside : place ≤ 10 * data.length)
    (owes : Owes (Plan.ofData data bitPeriod invert) place pending plan) :
    ∃ later left, (reach data bitPeriod invert place pending).next =
        some (plan.next?.map (·.1), reach data bitPeriod invert later left) ∧
      later ≤ 10 * data.length ∧
      Owes (Plan.ofData data bitPeriod invert) later left ((plan.next?.map (·.2)).getD plan) := by
  -- Up to the answer the planner goes through levels of one run, and what is pending grows with it.
  induction remains : 10 * data.length - place generalizing place pending plan with
  | zero =>
    have past : 10 * data.length ≤ place := Nat.sub_eq_zero_iff_le.mp remains
    have none := drop_levels_outside bitPeriod invert past
    obtain ⟨run, high, whole, held⟩ := owes.held
    rw [none] at whole
    refine ⟨place, .none, ?_⟩
    rw [next_outside past, held]
    by_cases fresh : run = 0
    · subst fresh
      have nothing : plan.next? = .none := by
        unfold Plan.next?
        rw [whole]
        rfl
      rw [nothing]
      exact ⟨rfl, inside, owes.bitPeriod, owes.suffix, 0, high, whole.trans (by rw [none]), rfl⟩
    · rw [Plan.next?_of_run (Nat.pos_of_ne_zero fresh) whole (by simp), if_neg fresh,
        owes.bitPeriod]
      exact ⟨rfl, inside, rfl, List.nil_suffix, 0, high, none.symm, rfl⟩
  | succ remains ih =>
    have before : place < 10 * data.length := by omega
    obtain ⟨byte, found, levels⟩ := drop_levels bitPeriod invert before
    obtain ⟨run, high, whole, held⟩ := owes.held
    change pending = if run = 0 then none else some ⟨high, UInt32.ofNat run * bitPeriod⟩ at held
    subst held
    rw [levels] at whole
    rw [next_inside fits found]
    generalize (Frame.level byte (place % 10) ^^ invert) = level at whole ⊢
    by_cases fresh : run = 0
    · subst fresh
      rw [if_pos rfl]
      refine ih before ⟨owes.bitPeriod, owes.suffix, 1, level, whole, ?_⟩ (by omega)
      rw [if_neg Nat.one_ne_zero]
      exact congrArg (fun cycles => some (Hold.mk level cycles)) (UInt32.one_mul bitPeriod).symm
    · rw [if_neg fresh]
      dsimp only
      by_cases same : high = level
      · subst same
        have longer : plan.levels = List.replicate (run + 1) high ++
            (Plan.ofData data bitPeriod invert).levels.drop (place + 1) := by
          rw [List.replicate_succ', List.append_assoc]
          exact whole
        have short : run + 1 ≤ 9 := by
          have held : List.replicate (run + 1) high <:+: plan.levels :=
            (longer ▸ List.prefix_append _ _).isInfix
          exact run_le_of_infix (held.trans owes.suffix.isInfix)
        rw [if_pos rfl, add_run narrow short, Option.bind_some, Int.toNat_natCast,
          UInt32.ofNat_toNat]
        refine ih before ⟨owes.bitPeriod, owes.suffix, run + 1, high, longer, ?_⟩ (by omega)
        rw [if_neg (Nat.succ_ne_zero run)]
        rfl
      · have differs : (level :: (Plan.ofData data bitPeriod invert).levels.drop
            (place + 1)).head? ≠ some high := fun first => same (Option.some.inj first).symm
        rw [if_neg same, Plan.next?_of_run (Nat.pos_of_ne_zero fresh) whole differs,
          owes.bitPeriod]
        refine ⟨place + 1, _, rfl, before, rfl, ?_, 1, level, rfl, ?_⟩
        · exact (whole ▸ List.suffix_append _ _).trans owes.suffix
        · exact congrArg (fun cycles => some (Hold.mk level cycles)) (UInt32.one_mul bitPeriod).symm

/-- Requests, one after the other, meet no overflow, and bring the holds of what is owed. -/
theorem ask_reach {plan : Plan} (narrow : 9 * bitPeriod.toNat < 2 ^ 32)
    (fits : data.length < 2 ^ 64) (inside : place ≤ 10 * data.length)
    (owes : Owes (Plan.ofData data bitPeriod invert) place pending plan) (count : Nat) :
    (reach data bitPeriod invert place pending).ask count = some (plan.ask count) := by
  induction count generalizing place pending plan with
  | zero =>
    obtain ⟨later, left, answered, -⟩ := next_reach narrow fits inside owes
    rw [ask, answered]
    rfl
  | succ count ih =>
    obtain ⟨later, left, answered, within, owes⟩ := next_reach narrow fits inside owes
    rw [ask, answered]
    refine (ih within owes).trans ?_
    rw [Plan.ask]
    cases plan.next? with
    | none => rfl
    | some answer => rfl

/-- A planner at the beginning of its message owes all of the plan. -/
theorem ask_ofData (narrow : 9 * bitPeriod.toNat < 2 ^ 32) (fits : data.length < 2 ^ 64)
    (count : Nat) :
    ({ data, bitPeriod, invert } : Planner).ask count =
      some ((Plan.ofData data bitPeriod invert).ask count) :=
  ask_reach narrow fits (Nat.zero_le _) ⟨rfl, List.suffix_refl _, 0, true, rfl, rfl⟩ count

/-- A planner brings the holds that encode the frames of its message, one by one, and nothing once
they are through. -/
theorem ask_frames (data : List UInt8) {bitPeriod : UInt32} (invert : Bool)
    (positive : 1 ≤ bitPeriod.toNat) (most : bitPeriod.toNat ≤ (2 ^ 32 - 1) / 9)
    (fits : data.length < 2 ^ 64) :
    ∃ holds, Plan.Frames data bitPeriod invert holds ∧
      ∀ count, ({ data, bitPeriod, invert } : Planner).ask count = some holds[count]? := by
  refine ⟨_, Plan.frames_holds data invert positive most, fun count => ?_⟩
  rw [ask_ofData (by omega) fits, Plan.ask_eq]

end Planner
end PinUart
