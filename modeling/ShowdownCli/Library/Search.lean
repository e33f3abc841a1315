import Mathlib.Data.List.Basic

/-! The first occurrence of an element cuts a list in two. -/

namespace ShowdownCli.Library.Search

universe u
variable {α : Type u} [DecidableEq α] {item : α}

theorem idxOf?_first {before : List α} (absent : item ∉ before) (after : List α) :
    (before ++ item :: after).idxOf? item = some before.length := by
  induction before with
  | nil => simp [List.idxOf?_cons]
  | cons first rest ih =>
    have apart : first ≠ item := fun same => absent (same ▸ List.mem_cons_self)
    have later := ih fun member => absent (List.mem_cons_of_mem _ member)
    simp [List.idxOf?_cons, apart, later]

theorem idxOf?_cut {items : List α} {index : Nat} (found : items.idxOf? item = some index) :
    item ∉ items.take index ∧ items = items.take index ++ item :: items.drop (index + 1) := by
  obtain ⟨inside, here, before⟩ := List.idxOf?_eq_some_iff.mp found
  constructor
  · intro member
    obtain ⟨i, earlier, same⟩ := List.getElem_of_mem member
    rw [List.length_take] at earlier
    rw [List.getElem_take] at same
    exact before i (by omega) same
  · rw [← here, ← List.drop_eq_getElem_cons, List.take_append_drop]

end ShowdownCli.Library.Search
