import PinUart.Frame

/-! The stretches of constant level that carry a message: equal neighbours among
its bit periods form one hold. -/
namespace PinUart

/-- A level, as driven on the line, and how long it stays. -/
structure Hold where
  high : Bool
  cycles : UInt32
  deriving DecidableEq, Repr

/-- What is left to hold: one level per bit period. -/
structure Plan where
  levels : List Bool
  bitPeriod : UInt32

namespace Plan

/-- The plan of a message; an inverted line carries mark as low. -/
def ofData (data : List UInt8) (bitPeriod : UInt32) (invert : Bool) : Plan where
  levels := (messageLevels data).map (· ^^ invert)
  bitPeriod := bitPeriod

/-- The next hold spans all bit periods up to the next change of level. -/
def next? (plan : Plan) : Option (Hold × Plan) :=
  match plan.levels with
  | [] => none
  | level :: later =>
    let run := (later.takeWhile (· == level)).length + 1
    some (⟨level, UInt32.ofNat run * plan.bitPeriod⟩,
      { plan with levels := later.dropWhile (· == level) })

private theorem length_dropWhile_le (p : α → Bool) (items : List α) :
    (items.dropWhile p).length ≤ items.length :=
  (List.dropWhile_sublist p).length_le

theorem length_next? {plan rest : Plan} {hold : Hold} (found : plan.next? = some (hold, rest)) :
    rest.levels.length < plan.levels.length := by
  unfold next? at found
  split at found
  · cases found
  · rename_i level later whole
    simp only [Option.some.injEq, Prod.mk.injEq] at found
    obtain ⟨-, rfl⟩ := found
    have := length_dropWhile_le (· == level) later
    simp [whole]
    omega

private theorem takeWhile_eq_replicate (level : Bool) (levels : List Bool) :
    levels.takeWhile (· == level) =
      List.replicate (levels.takeWhile (· == level)).length level := by
  refine List.eq_replicate_iff.mpr ⟨rfl, ?_⟩
  intro found member
  have := List.all_takeWhile (l := levels) (p := (· == level))
  exact eq_of_beq (List.all_eq_true.mp this found member)

private theorem head?_dropWhile_ne (level : Bool) (levels : List Bool) :
    (levels.dropWhile (· == level)).head? ≠ some level := by
  induction levels with
  | nil => simp
  | cons first rest ih =>
    by_cases same : first = level
    · subst same
      simpa [List.dropWhile_cons] using ih
    · simp [same]

/-- A hold stands for a run of equal levels, which the next level ends. -/
theorem levels_of_next? {plan rest : Plan} {hold : Hold}
    (found : plan.next? = some (hold, rest)) :
    ∃ run, 0 < run ∧ hold.cycles = UInt32.ofNat run * plan.bitPeriod ∧
      plan.levels = List.replicate run hold.high ++ rest.levels ∧
      rest.levels.head? ≠ some hold.high ∧ rest.bitPeriod = plan.bitPeriod := by
  unfold next? at found
  split at found
  · cases found
  · rename_i level later whole
    cases found
    refine ⟨_, Nat.succ_pos _, rfl, ?_, head?_dropWhile_ne level later, rfl⟩
    rw [whole, List.replicate_succ, List.cons_append, ← takeWhile_eq_replicate,
      List.takeWhile_append_dropWhile]

/-- All holds of the plan, in order. -/
def holds (plan : Plan) : List Hold :=
  match _found : plan.next? with
  | none => []
  | some (hold, rest) => hold :: rest.holds
  termination_by plan.levels.length
  decreasing_by exact length_next? _found

theorem holds_of_next? {plan rest : Plan} {hold : Hold}
    (found : plan.next? = some (hold, rest)) : plan.holds = hold :: rest.holds := by
  rw [holds]
  split <;> simp_all

theorem holds_of_levels_nil {plan : Plan} (ended : plan.levels = []) : plan.holds = [] := by
  rw [holds]
  split
  · rfl
  · simp_all [next?]

end Plan
end PinUart
