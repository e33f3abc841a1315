import Mathlib.Order.Lattice
import Mathlib.Data.List.Basic

/-! Entries in increasing key order, as an ordered map visits them. The keys alone fix
which entry stands where. -/

namespace ShowdownCli.Library.Ordered

universe u v
variable {κ : Type u} {α : Type v} {entries : List (κ × α)} {key : κ} {value : α}

theorem lookup_mem [BEq κ] [LawfulBEq κ] (found : entries.lookup key = some value) : (key, value) ∈ entries := by
  obtain ⟨before, after, rfl, _⟩ := List.lookup_eq_some_iff.mp found
  exact List.mem_append_right _ List.mem_cons_self

variable [LinearOrder κ]

def Increasing (entries : List (κ × α)) : Prop := entries.Pairwise fun earlier later => earlier.1 < later.1

instance (entries : List (κ × α)) : Decidable (Increasing entries) :=
  inferInstanceAs (Decidable (entries.Pairwise fun earlier later => earlier.1 < later.1))

theorem Increasing.keys (increasing : Increasing entries) : (entries.map Prod.fst).Pairwise (· < ·) :=
  List.pairwise_map.mpr increasing

theorem Increasing.lookup [BEq κ] [LawfulBEq κ] (increasing : Increasing entries) (member : (key, value) ∈ entries) :
    entries.lookup key = some value := by
  obtain ⟨before, after, rfl⟩ := List.append_of_mem member
  refine List.lookup_eq_some_iff.mpr ⟨before, after, rfl, ?_⟩
  intro earlier inside
  have less := (List.pairwise_append.mp increasing).2.2 earlier inside (key, value) List.mem_cons_self
  exact bne_iff_ne.mpr (ne_of_gt less)

/-- The first key is the least one. -/
theorem first_iff {keys : List κ} (increasing : keys.Pairwise (· < ·)) :
    keys.head? = some key ↔ key ∈ keys ∧ ∀ other ∈ keys, ¬ other < key := by
  cases keys with
  | nil => simp
  | cons first rest =>
    have least := (List.pairwise_cons.mp increasing).1
    rw [List.head?_cons, Option.some.injEq]
    constructor
    · rintro rfl
      refine ⟨List.mem_cons_self, ?_⟩
      intro other member
      rcases List.mem_cons.mp member with rfl | member
      · exact lt_irrefl _
      · exact lt_asymm (least other member)
    · rintro ⟨member, lowest⟩
      rcases List.mem_cons.mp member with rfl | member
      · rfl
      · exact absurd (least key member) (lowest first List.mem_cons_self)

/-- Keys that come before all others are the first ones. -/
theorem prefix_of_least {names keys : List κ} (ordered : names.Pairwise (· < ·)) (increasing : keys.Pairwise (· < ·))
    (present : names ⊆ keys) (least : ∀ key ∈ keys, key ∉ names → ∀ name ∈ names, name < key) : names <+: keys := by
  induction names generalizing keys with
  | nil => exact List.nil_prefix
  | cons name names ih =>
    obtain ⟨above, rest⟩ := List.pairwise_cons.mp ordered
    cases keys with
    | nil => exact absurd (present List.mem_cons_self) List.not_mem_nil
    | cons key keys =>
      obtain ⟨higher, later⟩ := List.pairwise_cons.mp increasing
      have same : key = name := by
        rcases List.mem_cons.mp (present List.mem_cons_self) with same | inside
        · exact same.symm
        have less := higher name inside
        by_cases named : key ∈ name :: names
        · rcases List.mem_cons.mp named with same | member
          · exact same
          · exact absurd (above key member) (lt_asymm less)
        · exact absurd (least key List.mem_cons_self named name List.mem_cons_self) (lt_asymm less)
      subst same
      refine List.cons_prefix_cons.mpr ⟨rfl, ih rest later ?_ ?_⟩
      · intro other member
        rcases List.mem_cons.mp (present (List.mem_cons_of_mem _ member)) with same | inside
        · exact absurd (above other member) (same ▸ lt_irrefl _)
        · exact inside
      · intro other member foreign
        have apart : other ∉ key :: names := by
          intro inside
          rcases List.mem_cons.mp inside with rfl | inside
          · exact lt_irrefl _ (higher _ member)
          · exact foreign inside
        exact fun lower inside => least other (List.mem_cons_of_mem _ member) apart lower (List.mem_cons_of_mem _ inside)

end ShowdownCli.Library.Ordered
