import ShowdownCli.Queue

/-! Complete calls of the queue. Between them its two indices delimit a list of
fewer than `n` values; `push` appends to it unless it is full and `pop` takes its
first. -/

namespace ShowdownCli.SPSCQueue
open Library

variable {α : Type} {n : Nat} (queue : SPSCQueue α n)

theorem held_lt : queue.held < n := Nat.mod_lt _ queue.head.pos

@[simp] theorem contents_length : queue.contents.length = queue.held := by simp [contents]

theorem contents_shows : Ring.Shows queue.head.pos queue.queue queue.head queue.contents := by
  intro index inside
  simp [contents]

/-- The number held and the cells determine the contents. -/
theorem contents_eq {queue : SPSCQueue α n} {items : List α} (count : queue.held = items.length)
    (shown : Ring.Shows queue.head.pos queue.queue queue.head items) : queue.contents = items := by
  apply List.ext_getElem
  · rw [contents_length, count]
  · intro index inside within
    rw [← queue.contents_shows index inside]
    exact shown index within

/-- The distance from the head to the tail wraps around at most once. -/
theorem held_eq : queue.held =
    if queue.head.val ≤ queue.tail.val then queue.tail.val - queue.head.val
    else queue.tail.val + n - queue.head.val := by
  have head := queue.head.isLt
  have tail := queue.tail.isLt
  rw [held]
  split
  next ahead =>
    rw [show queue.tail.val + n - queue.head.val = queue.tail.val - queue.head.val + n by omega,
      Nat.add_mod_right, Nat.mod_eq_of_lt (by omega)]
  next => exact Nat.mod_eq_of_lt (by omega)

theorem next_eq (index : Fin n) : (Ring.next index).val = if index.val + 1 = n then 0 else index.val + 1 := by
  have inside := index.isLt
  simp only [Ring.next, Ring.slot]
  split
  next last => rw [last, Nat.mod_self]
  next => exact Nat.mod_eq_of_lt (by omega)

theorem tail_eq : queue.tail = Ring.slot queue.head.pos (queue.head.val + queue.held) := by
  have head := queue.head.isLt
  have tail := queue.tail.isLt
  apply Fin.ext
  simp only [Ring.slot, held_eq]
  split
  next => rw [Nat.add_sub_cancel' (by omega), Nat.mod_eq_of_lt tail]
  next => rw [Nat.add_sub_cancel' (by omega), Nat.add_mod_right, Nat.mod_eq_of_lt tail]

/-- One slot always stays free. -/
theorem full_iff : queue.head = Ring.next queue.tail ↔ n ≤ queue.held + 1 := by
  have head := queue.head.isLt
  have tail := queue.tail.isLt
  rw [Fin.ext_iff, next_eq, held_eq]
  split <;> split <;> omega

theorem empty_iff : queue.head = queue.tail ↔ queue.contents = [] := by
  have head := queue.head.isLt
  have tail := queue.tail.isLt
  rw [← List.length_eq_zero_iff, contents_length, Fin.ext_iff, held_eq]
  split <;> omega

variable {queue}

theorem push_full (full : n ≤ queue.contents.length + 1) (val : α) : queue.push val = (false, queue) := by
  rw [contents_length] at full
  simp [push, queue.full_iff.mpr full]

theorem push_room (room : queue.contents.length + 1 < n) (val : α) :
    (queue.push val).1 = true ∧ (queue.push val).2.contents = queue.contents ++ [val] := by
  have written := queue.contents_shows.write (by omega) val
  rw [contents_length] at room
  have space : queue.head ≠ Ring.next queue.tail := fun full => absurd (queue.full_iff.mp full) (by omega)
  rw [contents_length, ← tail_eq] at written
  simp only [push, space, if_false, true_and]
  refine contents_eq ?_ written
  have head := queue.head.isLt
  have tail := queue.tail.isLt
  have count := queue.held_eq
  rw [held_eq, List.length_append, contents_length, List.length_singleton]
  simp only [next_eq]
  split at count <;> split <;> split <;> omega

/-- A push either appends or changes nothing. -/
theorem push_cases (queue : SPSCQueue α n) (val : α) :
    (queue.push val).2.contents = queue.contents ++ [val] ∨ (queue.push val).2.contents = queue.contents := by
  by_cases room : queue.contents.length + 1 < n
  · exact Or.inl (push_room room val).2
  · rw [push_full (by omega) val]
    exact Or.inr rfl

variable [Inhabited α]

theorem pop_none : queue.pop = none ↔ queue.contents = [] := by
  rw [← empty_iff]
  simp [pop]

theorem pop_some {val : α} {after : SPSCQueue α n} (popped : queue.pop = some (val, after)) :
    queue.contents = val :: after.contents := by
  simp only [pop] at popped
  split at popped
  next => cases popped
  next filled =>
    cases popped
    have shown := queue.contents_shows
    have count := queue.contents_length
    cases items : queue.contents with
    | nil => exact absurd (queue.empty_iff.mpr items) filled
    | cons item rest =>
      rw [items] at shown count
      have first := shown.head
      rw [Ring.slot_val] at first
      rw [first]
      congr 1
      symm
      apply contents_eq
      · have head := queue.head.isLt
        have tail := queue.tail.isLt
        rw [List.length_cons, held_eq] at count
        rw [held_eq]
        simp only [next_eq]
        split at count <;> split <;> split <;> omega
      · have short := queue.held_lt
        have moved := (shown.tail.outside (by simp at count; omega) default).wrap
        rw [Ring.slot_val] at moved
        exact moved

end ShowdownCli.SPSCQueue
