import Mathlib.Data.List.TakeWhile
import ShowdownCli.Library.Results
import ShowdownCli.Standard

/-! The numbers that `stoi` reads, by the shape of the text around their digits. -/

namespace ShowdownCli
open Library

theorem digit_plain {c : Char} (digit : c.isDigit) : isSpace c = false ∧ c ≠ '-' ∧ c ≠ '+' ∧ c ≠ '/' := by
  refine ⟨?_, ?_, ?_, ?_⟩
  · by_contra space
    have space : c ∈ [' ', '\t', '\n', '\x0b', '\x0c', '\r'] :=
      of_decide_eq_true (Bool.of_not_eq_false space)
    simp only [List.mem_cons, List.not_mem_nil, or_false] at space
    rcases space with rfl | rfl | rfl | rfl | rfl | rfl <;> exact absurd digit (by decide)
  all_goals
    intro same
    subst same
    exact absurd digit (by decide)

/-- A text with a number: spaces and a sign, digits, and whatever follows them. -/
structure Numeral (text : List Char) where
  spaces : List Char
  mark : List Char
  digits : List Char
  rest : List Char
  parts : text = spaces ++ (mark ++ (digits ++ rest))
  spacing : ∀ c ∈ spaces, isSpace c = true
  signed : mark ∈ [[], ['-'], ['+']]
  filled : digits ≠ []
  digital : ∀ c ∈ digits, c.isDigit = true
  ends : ∀ c ∈ rest.head?, c.isDigit = false

namespace Numeral
variable {text : List Char}

def value (numeral : Numeral text) : Int := (if numeral.mark = ['-'] then -1 else 1) * decimal numeral.digits

def Fits (numeral : Numeral text) : Prop :=
  Int32.minValue.toInt ≤ numeral.value ∧ numeral.value ≤ Int32.maxValue.toInt

theorem first_digit (numeral : Numeral text) :
    ∃ digit others, numeral.digits = digit :: others ∧ digit.isDigit = true := by
  obtain ⟨digit, others, shape⟩ := List.exists_cons_of_ne_nil numeral.filled
  exact ⟨digit, others, shape, numeral.digital digit (by simp [shape])⟩

/-- The spaces end where the sign or the digits begin. -/
theorem unspaced (numeral : Numeral text) :
    text.dropWhile isSpace = numeral.mark ++ (numeral.digits ++ numeral.rest) := by
  conv_lhs => rw [numeral.parts]
  rw [List.dropWhile_append_of_pos numeral.spacing]
  obtain ⟨digit, others, shape, digital⟩ := numeral.first_digit
  have signed := numeral.signed
  simp only [List.mem_cons, List.not_mem_nil, or_false] at signed
  rcases signed with mark | mark | mark <;> rw [mark, shape]
  · simp [(digit_plain digital).1]
  · exact List.dropWhile_cons_of_neg (by decide)
  · exact List.dropWhile_cons_of_neg (by decide)

theorem sign_eq (numeral : Numeral text) : sign (numeral.mark ++ (numeral.digits ++ numeral.rest)) =
    (if numeral.mark = ['-'] then -1 else 1, numeral.digits ++ numeral.rest) := by
  obtain ⟨digit, others, shape, digital⟩ := numeral.first_digit
  obtain ⟨_, minus, plus, _⟩ := digit_plain digital
  have signed := numeral.signed
  simp only [List.mem_cons, List.not_mem_nil, or_false] at signed
  rcases signed with mark | mark | mark <;> rw [mark, shape]
  · simp only [List.nil_append, List.cons_append]
    unfold sign
    split
    next same => exact absurd (List.cons.inj same).1 minus
    next same => exact absurd (List.cons.inj same).1 plus
    next => rfl
  · rfl
  · rfl

theorem digits_eq (numeral : Numeral text) :
    (numeral.digits ++ numeral.rest).takeWhile Char.isDigit = numeral.digits := by
  rw [List.takeWhile_append_of_pos numeral.digital]
  cases shape : numeral.rest with
  | nil => simp
  | cons c rest => rw [List.takeWhile_cons_of_neg (by simp [numeral.ends c (by simp [shape])]), List.append_nil]

instance (numeral : Numeral text) : Decidable numeral.Fits := inferInstanceAs (Decidable (_ ∧ _))

/-- Any text of this shape is read as its value, when that is an `int`. -/
theorem stoi_eq (numeral : Numeral text) :
    stoi text = if numeral.Fits then .ok numeral.value else .error .uncaught := by
  simp only [stoi, numeral.unspaced, numeral.sign_eq, numeral.digits_eq, if_neg numeral.filled]
  rfl

end Numeral

theorem sign_shape (text : List Char) : ∃ mark ∈ [[], ['-'], ['+']], text = mark ++ (sign text).2 := by
  unfold sign
  split
  next => exact ⟨['-'], by simp, rfl⟩
  next => exact ⟨['+'], by simp, rfl⟩
  next => exact ⟨[], by simp, rfl⟩

def IsNumber (text : List Char) : Prop := ∃ numeral : Numeral text, numeral.Fits

theorem stoi_succeeds {text : List Char} : Succeeds (stoi text) ↔ IsNumber text := by
  constructor
  · rintro ⟨value, read⟩
    obtain ⟨mark, signed, shape⟩ := sign_shape (text.dropWhile isSpace)
    have filled : (sign (text.dropWhile isSpace)).2.takeWhile Char.isDigit ≠ [] := by
      intro empty
      simp [stoi, empty] at read
    let numeral : Numeral text := {
      spaces := text.takeWhile isSpace
      mark
      digits := (sign (text.dropWhile isSpace)).2.takeWhile Char.isDigit
      rest := (sign (text.dropWhile isSpace)).2.dropWhile Char.isDigit
      parts := by rw [List.takeWhile_append_dropWhile, ← shape, List.takeWhile_append_dropWhile]
      spacing := fun c member => List.mem_takeWhile_imp member
      signed
      filled
      digital := fun c member => List.mem_takeWhile_imp member
      ends := fun c here => by
        have stops := List.head?_dropWhile_not Char.isDigit (sign (text.dropWhile isSpace)).2
        rw [Option.mem_def.mp here] at stops
        exact stops }
    refine ⟨numeral, ?_⟩
    rw [numeral.stoi_eq] at read
    split at read
    next fits => exact fits
    next => cases read
  · rintro ⟨numeral, fits⟩
    exact ⟨numeral.value, by rw [numeral.stoi_eq, if_pos fits]⟩

/-- Digits in front of anything else are read as the number they write, when it fits. -/
theorem stoi_leading {digits rest : List Char} (filled : digits ≠ []) (digital : ∀ digit ∈ digits, digit.isDigit)
    (ends : ∀ c ∈ rest.head?, c.isDigit = false) {value : Int} (read : stoi (digits ++ rest) = .ok value) :
    value = decimal digits := by
  let numeral : Numeral (digits ++ rest) :=
    { spaces := [], mark := [], digits, rest, parts := by simp, spacing := by simp, signed := by simp, filled
      digital, ends }
  rw [numeral.stoi_eq] at read
  split at read
  next =>
    cases read
    exact Int.one_mul _
  next => cases read

theorem stoi_digits {digits : List Char} (filled : digits ≠ []) (digital : ∀ digit ∈ digits, digit.isDigit)
    {value : Int} (read : stoi digits = .ok value) : value = decimal digits := by
  rw [← List.append_nil digits] at read
  exact stoi_leading filled digital (by simp) read

end ShowdownCli
