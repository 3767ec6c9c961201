import PinUart.Ring

/-! A ring seen as the list of its elements: pushing appends to a list that is not
too long, popping takes the head off. Where in the slots the elements lie does not
show. -/
namespace PinUart.Ring

variable {α : Type}

private theorem mod_of_lt_twice {index size : Nat} (small : index < 2 * size) :
    index % size = if index < size then index else index - size := by
  split
  · rename_i inside
    exact Nat.mod_eq_of_lt inside
  · rename_i outside
    rw [Nat.mod_eq_sub_mod (by omega), Nat.mod_eq_of_lt (by omega)]

theorem next_eq (ring : Ring α) {index : Nat} (inside : index < ring.slots.size) :
    ring.next index = if index + 1 = ring.slots.size then 0 else index + 1 := by
  rw [next, mod_of_lt_twice (by omega)]
  split <;> split <;> omega

theorem size_lt (ring : Ring α) : ring.size < ring.capacity := by
  have := ring.head_lt
  have := ring.tail_lt
  unfold size capacity
  split <;> omega

/-- The free slot comes right after the elements. -/
theorem tail_add_size (ring : Ring α) : (ring.tail + ring.size) % ring.slots.size = ring.head := by
  have := ring.head_lt
  have := ring.tail_lt
  have := ring.size_lt
  unfold capacity at this
  rw [mod_of_lt_twice (by omega)]
  unfold size at this ⊢
  split at this <;> split <;> split <;> omega

theorem isEmpty_iff (ring : Ring α) : ring.isEmpty ↔ ring.size = 0 := by
  have := ring.head_lt
  have := ring.tail_lt
  unfold isEmpty size
  rw [beq_iff_eq]
  split <;> omega

theorem isFull_iff (ring : Ring α) : ring.isFull ↔ ring.size + 1 = ring.capacity := by
  have := ring.head_lt
  have := ring.tail_lt
  have := ring.two_le_size
  unfold isFull size capacity
  rw [beq_iff_eq, ring.next_eq ring.head_lt]
  split <;> split <;> omega

@[simp] theorem length_toList (ring : Ring α) : ring.toList.length = ring.size := by
  rw [toList, List.length_map, List.length_range]

@[simp] theorem toList_empty (capacity : Nat) (filler : α) :
    (empty capacity filler).toList = [] := rfl

@[simp] theorem capacity_empty (capacity : Nat) (filler : α) :
    (empty capacity filler).capacity = max capacity 2 := by
  rw [Ring.capacity, empty, Array.size_replicate]

@[simp] theorem toList_clear (ring : Ring α) : ring.clear.toList = [] := rfl

@[simp] theorem toList_discard (ring : Ring α) : ring.discard.toList = [] := by
  apply List.eq_nil_of_length_eq_zero
  rw [length_toList, size, discard, if_pos (Nat.le_refl _), Nat.sub_self]

@[simp] theorem capacity_clear (ring : Ring α) : ring.clear.capacity = ring.capacity := rfl

@[simp] theorem capacity_discard (ring : Ring α) : ring.discard.capacity = ring.capacity := rfl

/-- The element at a distance from the oldest. -/
private theorem getElem_toList (ring : Ring α) {offset : Nat} (inside : offset < ring.toList.length)
    (slot : (ring.tail + offset) % ring.slots.size < ring.slots.size) :
    ring.toList[offset] = ring.slots[(ring.tail + offset) % ring.slots.size] := by
  simp only [toList, List.getElem_map, List.getElem_range]

theorem push_of_full {ring : Ring α} (value : α) (full : ring.size + 1 = ring.capacity) :
    ring.push value = (false, ring) := by
  have := ring.isFull_iff.mpr full
  rw [isFull, beq_iff_eq] at this
  rw [push, if_pos this]

private theorem next_head_ne {ring : Ring α} (room : ring.size + 1 < ring.capacity) :
    ring.next ring.head ≠ ring.tail := by
  intro same
  have full : ring.isFull := by rw [isFull, beq_iff_eq, same]
  have := ring.isFull_iff.mp full
  omega

/-- A push is taken exactly while one slot besides the new element stays free. -/
theorem push_fst (ring : Ring α) (value : α) :
    (ring.push value).1 = decide (ring.size + 1 < ring.capacity) := by
  have := ring.size_lt
  by_cases room : ring.size + 1 < ring.capacity
  · rw [push, if_neg (next_head_ne room), decide_eq_true room]
  · rw [push_of_full value (by omega), decide_eq_false room]

theorem toList_push_of_room {ring : Ring α} (value : α) (room : ring.size + 1 < ring.capacity) :
    (ring.push value).2.toList = ring.toList ++ [value] := by
  have head_lt := ring.head_lt
  have tail_lt := ring.tail_lt
  have bound := ring.size_lt
  have free := ring.tail_add_size
  have grown : (ring.push value).2.size = ring.size + 1 := by
    rw [push, if_neg (next_head_ne room)]
    unfold capacity at room
    unfold size at room ⊢
    simp only [Array.size_set]
    rw [ring.next_eq head_lt]
    split at room <;> split <;> split <;> omega
  unfold capacity at bound room
  apply List.ext_getElem
  · rw [length_toList, grown, List.length_append, length_toList, List.length_singleton]
  · intro offset inside within
    rw [length_toList, grown] at inside
    have slots : (ring.push value).2.slots = ring.slots.set ring.head value head_lt := by
      rw [push, if_neg (next_head_ne (by unfold capacity; omega))]
    have tails : (ring.push value).2.tail = ring.tail := by
      rw [push, if_neg (next_head_ne (by unfold capacity; omega))]
    rw [getElem_toList _ _ (Nat.mod_lt _ (by have := (ring.push value).2.two_le_size; omega))]
    simp only [slots, tails, Array.size_set, Array.getElem_set]
    by_cases last : offset = ring.size
    · subst last
      rw [if_pos free.symm, List.getElem_append_right (Nat.le_of_eq ring.length_toList)]
      simp only [length_toList, Nat.sub_self, List.getElem_cons_zero]
    · have early : offset < ring.size := by omega
      have apart : ring.head ≠ (ring.tail + offset) % ring.slots.size := by
        rw [← free, mod_of_lt_twice (by omega), mod_of_lt_twice (by omega)]
        split <;> split <;> omega
      rw [if_neg apart, List.getElem_append_left (by rw [length_toList]; exact early),
        getElem_toList]

theorem toList_push (ring : Ring α) (value : α) :
    (ring.push value).2.toList =
      if ring.size + 1 < ring.capacity then ring.toList ++ [value] else ring.toList := by
  have := ring.size_lt
  split
  · rename_i room
    exact toList_push_of_room value room
  · rename_i full
    rw [push_of_full value (by omega)]

theorem size_push (ring : Ring α) (value : α) :
    (ring.push value).2.size =
      if ring.size + 1 < ring.capacity then ring.size + 1 else ring.size := by
  rw [← length_toList, toList_push]
  split
  · rw [List.length_append, length_toList, List.length_singleton]
  · exact ring.length_toList

@[simp] theorem capacity_push (ring : Ring α) (value : α) :
    (ring.push value).2.capacity = ring.capacity := by
  unfold push
  split
  · rfl
  · simp only [capacity, Array.size_set]

theorem peek?_eq (ring : Ring α) : ring.peek? = ring.toList.head? := by
  have tail_lt := ring.tail_lt
  unfold peek?
  split
  · rename_i nothing
    have := ring.isEmpty_iff.mp nothing
    rw [List.eq_nil_of_length_eq_zero (ring.length_toList.trans this), List.head?_nil]
  · rename_i something
    have filled : 0 < ring.toList.length := by
      rw [length_toList]
      exact Nat.pos_of_ne_zero fun nothing => something (ring.isEmpty_iff.mpr nothing)
    have first : (ring.tail + 0) % ring.slots.size = ring.tail := Nat.mod_eq_of_lt tail_lt
    rw [List.head?_eq_getElem?, List.getElem?_eq_getElem filled,
      getElem_toList ring filled (by rw [first]; exact tail_lt)]
    simp only [first]

theorem pop?_fst (ring : Ring α) : ring.pop?.1 = ring.toList.head? := by
  rw [← peek?_eq, pop?]
  split <;> simp_all

private theorem pop?_snd_of_filled {ring : Ring α} (filled : ring.size ≠ 0) :
    ring.pop?.2 = { ring with tail := ring.next ring.tail, tail_lt := ring.next_lt _ } := by
  rw [pop?]
  split
  · rename_i nothing
    rw [peek?_eq, List.head?_eq_none_iff] at nothing
    have := ring.length_toList
    rw [nothing, List.length_nil] at this
    exact absurd this.symm filled
  · rfl

theorem toList_pop (ring : Ring α) : ring.pop?.2.toList = ring.toList.tail := by
  have head_lt := ring.head_lt
  have tail_lt := ring.tail_lt
  by_cases nothing : ring.size = 0
  · have none : ring.toList = [] := List.eq_nil_of_length_eq_zero (ring.length_toList.trans nothing)
    have : ring.pop?.2 = ring := by
      rw [pop?, peek?_eq, none]
      rfl
    rw [this, none, List.tail_nil]
  · have step := ring.next_eq tail_lt
    have shrunk : ring.pop?.2.size + 1 = ring.size := by
      rw [pop?_snd_of_filled nothing]
      unfold size at nothing ⊢
      simp only [step]
      split at nothing <;> split <;> split <;> omega
    have bound := ring.size_lt
    unfold capacity at bound
    apply List.ext_getElem
    · rw [length_toList, List.length_tail, length_toList]
      omega
    · intro offset inside within
      rw [length_toList] at inside
      have slots : ring.pop?.2.slots = ring.slots := by rw [pop?_snd_of_filled nothing]
      have tails : ring.pop?.2.tail = ring.next ring.tail := by rw [pop?_snd_of_filled nothing]
      have place : (ring.next ring.tail + offset) % ring.slots.size =
          (ring.tail + (offset + 1)) % ring.slots.size := by
        rw [step, mod_of_lt_twice (by split <;> omega), mod_of_lt_twice (by omega)]
        split <;> split <;> split <;> omega
      rw [List.getElem_tail,
        getElem_toList ring.pop?.2 _ (Nat.mod_lt _ (by have := ring.pop?.2.two_le_size; omega)),
        getElem_toList ring _ (Nat.mod_lt _ (by have := ring.two_le_size; omega))]
      simp only [slots, tails, place]

@[simp] theorem capacity_pop (ring : Ring α) : ring.pop?.2.capacity = ring.capacity := by
  unfold pop?
  split <;> rfl

end PinUart.Ring
