import Mathlib.Data.List.TakeWhile
import ShowdownCli.Library.Search
import ShowdownCli.BattleState

/-! The identifiers that `parse_ident` accepts, as text. Its first colon stands after
two or three characters, and some character after it is no space. -/

namespace ShowdownCli
open Library

/-- The parts of an identifier, with the spaces in front of its name. -/
structure IdentText where
  first : Char
  second : Char
  slot : Option Char
  spaces : Nat
  name : List Char
  plain : ':' ∉ first :: second :: slot.toList
  named : ∃ c rest, name = c :: rest ∧ c ≠ ' '

namespace IdentText

def chars (text : IdentText) : List Char :=
  (text.first :: text.second :: text.slot.toList) ++ ':' :: (List.replicate text.spaces ' ' ++ text.name)

def ident (text : IdentText) : Ident :=
  { slot := text.slot.getD '\x00', side := String.ofList [text.first, text.second], name := String.ofList text.name }

/-- The same identifier as in a battle with one Pokemon a side. -/
def unslotted (text : IdentText) : IdentText :=
  { text with slot := none, plain := fun member => text.plain (by simp at member ⊢; tauto) }

variable (text : IdentText)

theorem chars_colon : text.chars.idxOf? ':' = some (text.slot.toList.length + 2) :=
  Search.idxOf?_first text.plain _

theorem dropWhile_spaces : (List.replicate text.spaces ' ' ++ text.name).dropWhile (· = ' ') = text.name := by
  obtain ⟨c, rest, name, solid⟩ := text.named
  induction text.spaces with
  | zero => simp [name, solid]
  | succ spaces ih => simpa [List.replicate_succ] using ih

/-- Parsing finds the parts again. -/
theorem parse : parseIdent (String.ofList text.chars) = text.ident := by
  obtain ⟨c, rest, name, _⟩ := text.named
  have nonempty : text.name ≠ [] := by simp [name]
  have after : text.chars.drop (text.slot.toList.length + 2 + 1) = List.replicate text.spaces ' ' ++ text.name := by
    cases slot : text.slot <;> simp [chars, slot]
  have before : text.chars.take (text.slot.toList.length + 2) = text.first :: text.second :: text.slot.toList := by
    cases slot : text.slot <;> simp [chars, slot]
  simp only [parseIdent, String.toList_ofList, chars_colon, after, before, dropWhile_spaces, if_neg nonempty, ident]
  cases text.slot <;> rfl

theorem ident_some : text.ident ≠ {} := by
  intro same
  have side := congrArg (fun ident => ident.side.toList) same
  simp [ident] at side

end IdentText

/-- A colon at one of the two places that it may have, and something of a name. -/
def IsIdent (x : List Char) : Prop :=
  ∃ pos, x.idxOf? ':' = some pos ∧ (pos = 2 ∨ pos = 3) ∧ ∃ c ∈ x.drop (pos + 1), c ≠ ' '

theorem leading_spaces {text : List Char} (solid : ∃ c ∈ text, c ≠ ' ') :
    ∃ spaces c rest, text = List.replicate spaces ' ' ++ c :: rest ∧ c ≠ ' ' := by
  induction text with
  | nil =>
    obtain ⟨c, member, _⟩ := solid
    cases member
  | cons first rest ih =>
    by_cases space : first = ' '
    · subst space
      have later : ∃ c ∈ rest, c ≠ ' ' := by
        obtain ⟨c, member, solid⟩ := solid
        exact ⟨c, (List.mem_cons.mp member).resolve_left solid, solid⟩
      obtain ⟨spaces, c, name, rfl, begins⟩ := ih later
      exact ⟨spaces + 1, c, name, by rw [List.replicate_succ, List.cons_append], begins⟩
    · exact ⟨0, first, rest, rfl, space⟩

theorem IsIdent.text {x : List Char} (given : IsIdent x) : ∃ text : IdentText, x = text.chars := by
  obtain ⟨pos, colon, place, solid⟩ := given
  obtain ⟨absent, shape⟩ := Search.idxOf?_cut colon
  obtain ⟨spaces, c, rest, tail, begins⟩ := leading_spaces solid
  have length : (x.take pos).length = pos := by
    obtain ⟨inside, _⟩ := List.idxOf?_eq_some_iff.mp colon
    exact List.length_take_of_le (Nat.le_of_lt inside)
  rw [tail] at shape
  generalize x.take pos = before at *
  rcases place with rfl | rfl
  · obtain ⟨first, second, rfl⟩ := List.length_eq_two.mp length
    exact ⟨⟨first, second, none, spaces, c :: rest, absent, c, rest, rfl, begins⟩, shape⟩
  · obtain ⟨first, second, slot, rfl⟩ := List.length_eq_three.mp length
    exact ⟨⟨first, second, some slot, spaces, c :: rest, absent, c, rest, rfl, begins⟩, shape⟩

/-- What is no identifier gives the default one. -/
theorem parseIdent_isIdent {x : String} (accepted : parseIdent x ≠ {}) : IsIdent x.toList := by
  unfold parseIdent at accepted
  cases colon : x.toList.idxOf? ':' with
  | none => simp [colon] at accepted
  | some pos =>
    simp only [colon] at accepted
    split at accepted
    next => exact absurd rfl accepted
    next named =>
    obtain ⟨inside, _⟩ := List.idxOf?_eq_some_iff.mp colon
    have length : (x.toList.take pos).length = pos := List.length_take_of_le (Nat.le_of_lt inside)
    have solid : ∃ c ∈ x.toList.drop (pos + 1), c ≠ ' ' := by simpa [List.dropWhile_eq_nil_iff] using named
    refine ⟨pos, colon, ?_, solid⟩
    split at accepted
    next shape => exact Or.inl (by simpa [shape] using length.symm)
    next shape => exact Or.inr (by simpa [shape] using length.symm)
    next => exact absurd rfl accepted

/-- An identifier is accepted exactly when it has the colon and the name. Its parts then make up
the text, and every text is parsed into the parts that it was made of. The slot plays no part
in what an identifier selects. -/
theorem ident_grammar (x : String) :
    (parseIdent x ≠ {} ↔ IsIdent x.toList) ∧
    (IsIdent x.toList → ∃ spaces, x.toList = (parseIdent x).side.toList ++
        (if x.toList.idxOf? ':' = some 3 then [(parseIdent x).slot] else []) ++
        ':' :: (List.replicate spaces ' ' ++ (parseIdent x).name.toList) ∧
      (parseIdent x).side.toList.length = 2 ∧ ∃ c rest, (parseIdent x).name.toList = c :: rest ∧ c ≠ ' ') ∧
    (∀ text : IdentText, parseIdent (String.ofList text.chars) = text.ident) ∧
    (∀ (state : BattleState) (text : IdentText), state.findPokemon (parseIdent (String.ofList text.chars)) =
      state.findPokemon (parseIdent (String.ofList text.unslotted.chars))) := by
  refine ⟨⟨parseIdent_isIdent, fun given => ?_⟩, fun given => ?_, IdentText.parse, fun state text => ?_⟩
  · obtain ⟨text, shape⟩ := given.text
    rw [← String.ofList_toList (s := x), shape, text.parse]
    exact text.ident_some
  · obtain ⟨text, shape⟩ := given.text
    have parsed : parseIdent x = text.ident := by
      rw [← text.parse, ← shape, String.ofList_toList]
    rw [parsed, shape, text.chars_colon]
    refine ⟨text.spaces, ?_, ?_, ?_⟩
    · cases slot : text.slot <;> simp [IdentText.ident, IdentText.chars, slot]
    · simp [IdentText.ident]
    · simpa [IdentText.ident] using text.named
  · rw [text.parse, text.unslotted.parse]
    rfl

end ShowdownCli
