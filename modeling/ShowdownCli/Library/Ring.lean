import Mathlib.Data.List.Basic
import Mathlib.Logic.Function.Basic

/-! Cells addressed by an unbounded count modulo their number. A window of the
count shows a list as long as it is no longer than the ring. -/

namespace ShowdownCli.Library.Ring

universe u
variable {α : Type u} {n : Nat}

/-- The cell of a count; counts that differ by the size share it. -/
def slot (positive : 0 < n) (count : Nat) : Fin n := ⟨count % n, Nat.mod_lt _ positive⟩

def next (index : Fin n) : Fin n := slot index.pos (index.val + 1)

theorem slot_val (index : Fin n) : slot index.pos index.val = index :=
  Fin.ext (Nat.mod_eq_of_lt index.isLt)

theorem next_slot (positive : 0 < n) (count : Nat) : next (slot positive count) = slot positive (count + 1) := by
  apply Fin.ext
  simp only [next, slot]
  rw [Nat.add_mod, Nat.mod_mod, ← Nat.add_mod]

theorem slot_add_size (positive : 0 < n) (count : Nat) : slot positive (count + n) = slot positive count :=
  Fin.ext (Nat.add_mod_right count n)

/-- Two counts less than a whole turn apart only share a cell if equal. -/
theorem slot_eq_iff (positive : 0 < n) {first last : Nat} (ordered : first ≤ last) (near : last < first + n) :
    slot positive first = slot positive last ↔ first = last := by
  constructor
  · intro same
    have congruent : last % n = first % n := (congrArg Fin.val same).symm
    have turns := Nat.sub_mod_eq_zero_of_mod_eq congruent
    rw [Nat.mod_eq_of_lt (by omega)] at turns
    omega
  · intro same
    subst same
    rfl

/-- The cells show the list, beginning at the cell of the count. -/
def Shows (positive : 0 < n) (cells : Fin n → α) (start : Nat) (items : List α) : Prop :=
  ∀ index (inside : index < items.length), cells (slot positive (start + index)) = items[index]

theorem Shows.nil (positive : 0 < n) (cells : Fin n → α) (start : Nat) : Shows positive cells start [] :=
  fun _ inside => absurd inside (Nat.not_lt_zero _)

theorem Shows.head {positive : 0 < n} {cells : Fin n → α} {start : Nat} {item : α} {rest : List α}
    (shown : Shows positive cells start (item :: rest)) : cells (slot positive start) = item :=
  shown 0 (by simp)

theorem Shows.tail {positive : 0 < n} {cells : Fin n → α} {start : Nat} {item : α} {rest : List α}
    (shown : Shows positive cells start (item :: rest)) : Shows positive cells (start + 1) rest := by
  intro index inside
  have := shown (index + 1) (by simpa using inside)
  rwa [show start + (index + 1) = start + 1 + index by omega] at this

/-- Writing the cell just past the window extends the list shown. -/
theorem Shows.write {positive : 0 < n} {cells : Fin n → α} {start : Nat} {items : List α}
    (shown : Shows positive cells start items) (room : items.length < n) (item : α) :
    Shows positive (Function.update cells (slot positive (start + items.length)) item) start (items ++ [item]) := by
  intro index inside
  rw [List.length_append, List.length_singleton] at inside
  by_cases last : index = items.length
  · subst last
    simp
  · have apart : slot positive (start + index) ≠ slot positive (start + items.length) := by
      rw [Ne, slot_eq_iff positive (by omega) (by omega)]
      omega
    rw [Function.update_of_ne apart, List.getElem_append_left (by omega)]
    exact shown index (by omega)

/-- Only the cell where a window begins matters, not the count. -/
theorem Shows.wrap {positive : 0 < n} {cells : Fin n → α} {start : Nat} {items : List α}
    (shown : Shows positive cells start items) : Shows positive cells (slot positive start).val items := by
  intro index inside
  have same : slot positive ((slot positive start).val + index) = slot positive (start + index) :=
    Fin.ext (Nat.mod_add_mod start n index)
  rw [same]
  exact shown index inside

/-- A cell outside of the window may be overwritten. -/
theorem Shows.outside {positive : 0 < n} {cells : Fin n → α} {start : Nat} {items : List α}
    (shown : Shows positive cells (start + 1) items) (room : items.length < n) (item : α) :
    Shows positive (Function.update cells (slot positive start) item) (start + 1) items := by
  intro index inside
  have apart : slot positive (start + 1 + index) ≠ slot positive start := by
    intro same
    have := (slot_eq_iff positive (by omega) (by omega)).mp same.symm
    omega
  rw [Function.update_of_ne apart]
  exact shown index inside

end ShowdownCli.Library.Ring
