import ShowdownCli.Client
import ShowdownCli.Standard

/-! The words of a command line, as text: where they begin and end, and that a line of words
with white space around them is read as these words and no others. -/

namespace ShowdownCli

/-- The characters of a word. -/
def Solid (word : List Char) : Prop := word ≠ [] ∧ ∀ c ∈ word, isSpace c = false

/-- Lines that consist of these words, with white space between any two. -/
inductive Spaced : List (List Char) → List Char → Prop where
  | blank {gap : List Char} (spaces : ∀ c ∈ gap, isSpace c = true) : Spaced [] gap
  | word {gap word rest : List Char} {others : List (List Char)} (spaces : ∀ c ∈ gap, isSpace c = true)
      (solid : Solid word) (ends : ∀ c ∈ rest.head?, isSpace c = true) (later : Spaced others rest) :
      Spaced (word :: others) (gap ++ word ++ rest)

variable {word rest gap found : List Char}

theorem words_gap (spaces : ∀ c ∈ gap, isSpace c = true) (rest : List Char) : words [] (gap ++ rest) = words [] rest := by
  induction gap with
  | nil => rfl
  | cons c gap ih =>
    rw [List.cons_append, words, if_pos (spaces c List.mem_cons_self), if_pos rfl]
    exact ih fun other inside => spaces other (List.mem_cons_of_mem c inside)

theorem words_solid (clean : ∀ c ∈ found, isSpace c = false) (word rest : List Char) :
    words word (found ++ rest) = words (word ++ found) rest := by
  induction found generalizing word with
  | nil => rw [List.nil_append, List.append_nil]
  | cons c found ih =>
    have solid : isSpace c = false := clean c List.mem_cons_self
    rw [List.cons_append, words, solid, if_neg Bool.false_ne_true,
      ih fun other inside => clean other (List.mem_cons_of_mem c inside), List.append_assoc, List.singleton_append]

theorem words_ends (filled : word ≠ []) (ends : ∀ c ∈ rest.head?, isSpace c = true) :
    words word rest = word :: words [] rest := by
  cases rest with
  | nil => simp [words, filled]
  | cons c rest =>
    have space : isSpace c = true := ends c rfl
    simp [words, filled, space]

theorem Spaced.words {tokens : List (List Char)} {input : List Char} (spaced : Spaced tokens input) :
    ShowdownCli.words [] input = tokens := by
  induction spaced with
  | blank spaces =>
    have none := words_gap spaces []
    rw [List.append_nil] at none
    exact none
  | word spaces solid ends _ ih =>
    rw [List.append_assoc, words_gap spaces, words_solid solid.2, List.nil_append, words_ends solid.1 ends, ih]

theorem Spaced.space {tokens : List (List Char)} {input : List Char} (spaced : Spaced tokens input) {c : Char}
    (space : isSpace c = true) : Spaced tokens (c :: input) := by
  have wider {gap : List Char} (spaces : ∀ c ∈ gap, isSpace c = true) : ∀ other ∈ c :: gap, isSpace other = true :=
    List.forall_mem_cons.mpr ⟨space, spaces⟩
  cases spaced with
  | blank spaces => exact .blank (wider spaces)
  | word spaces solid ends later => exact .word (wider spaces) solid ends later

/-- Reading on from the middle of a word. -/
theorem spaced_words (clean : ∀ c ∈ word, isSpace c = false) (input : List Char) :
    Spaced (words word input) (word ++ input) := by
  have alone : ∀ c ∈ ([] : List Char), isSpace c = true := by simp
  induction input generalizing word with
  | nil =>
    rw [words]
    split
    next none =>
      subst none
      exact .blank alone
    next filled => exact .word alone ⟨filled, clean⟩ (by simp) (.blank alone)
  | cons c rest ih =>
    have next : Spaced (words [] rest) rest := ih (by simp)
    rw [words]
    split
    next space =>
      split
      next none =>
        subst none
        exact next.space space
      next filled => exact .word alone ⟨filled, clean⟩ (by simpa using space) (next.space space)
    next solid =>
      rw [show word ++ c :: rest = word ++ [c] ++ rest by simp]
      refine ih fun other inside => ?_
      rcases List.mem_append.mp inside with old | new
      · exact clean other old
      · rw [List.mem_singleton.mp new]
        simpa using solid

theorem tokenize_spaced (input : String) : Spaced ((tokenize input).map String.toList) input.toList := by
  have texts : (tokenize input).map String.toList = words [] input.toList := by
    simp [tokenize, Function.comp_def]
  have nothing : ∀ c ∈ ([] : List Char), isSpace c = false := by simp
  rw [texts]
  exact spaced_words nothing input.toList

/-- The tokens of a line are the words it consists of: those of any line that is made of them
with white space between, and of no other. -/
theorem tokenize_iff {input : String} {tokens : List String} :
    tokenize input = tokens ↔ Spaced (tokens.map String.toList) input.toList := by
  constructor
  · rintro rfl
    exact tokenize_spaced input
  · intro spaced
    rw [tokenize, spaced.words, List.map_map]
    simp [Function.comp_def]

theorem Spaced.solid {tokens : List (List Char)} {input : List Char} (spaced : Spaced tokens input) :
    ∀ token ∈ tokens, Solid token := by
  induction spaced with
  | blank => simp
  | word _ solid _ _ ih => exact List.forall_mem_cons.mpr ⟨solid, ih⟩

theorem tokenize_solid {input token : String} (member : token ∈ tokenize input) : Solid token.toList :=
  (tokenize_spaced input).solid _ (List.mem_map_of_mem member)

/-- Every token is accepted as a user name or a password. -/
theorem accepts_token {input token : String} (member : token ∈ tokenize input) : Credential.accepts token = true := by
  obtain ⟨filled, clean⟩ := tokenize_solid member
  obtain ⟨first, rest, shape⟩ := List.exists_cons_of_ne_nil filled
  simp only [Credential.accepts, decide_eq_true_eq]
  refine ⟨fun empty => filled (by rw [empty]; rfl), fun blank => ?_⟩
  have among : first ∈ [' ', '\t', '\r', '\n'] := by
    have blanks := List.all_eq_true.mp blank first (by simp [shape])
    simpa using blanks
  have space : isSpace first = true := by
    simp only [List.mem_cons, List.not_mem_nil, or_false] at among
    rcases among with rfl | rfl | rfl | rfl <;> rfl
  have solid := clean first (by simp [shape])
  rw [space] at solid
  cases solid

end ShowdownCli
