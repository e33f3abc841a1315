import ShowdownCli.Proofs.ParserCompose

/-! What a message keeps of its line. The carriage return that ends a line is dropped once
for the line and again for each of its fields. -/

namespace ShowdownCli
open Library

/-- The fields of a text, put together again. -/
def rejoin (pieces : List (List Char)) : List Char := ['|'].intercalate pieces

def Message.rendered (msg : Message) : List Char := '|' :: rejoin ((msg.type :: msg.args).map String.toList)

/-- The line again, or all of it but the carriage return at its end. -/
def Message.Restores (msg : Message) (line : List Char) : Prop :=
  msg.rendered = line ∨ msg.rendered ++ ['\r'] = line

def returns (text : List Char) : Bool := text.getLast? = some '\r'

theorem stripReturn_length (text : List Char) :
    (stripReturn text).length + (if returns text then 1 else 0) = text.length := by
  unfold stripReturn returns
  cases text with
  | nil => rfl
  | cons c rest => split <;> simp_all

theorem rejoin_cons (piece next : List Char) (rest : List (List Char)) :
    rejoin (piece :: next :: rest) = piece ++ '|' :: rejoin (next :: rest) := by
  simp [rejoin]

/-- Every carriage return that a field loses makes the whole shorter. -/
theorem rejoin_length (pieces : List (List Char)) :
    (rejoin (pieces.map stripReturn)).length + pieces.countP returns = (rejoin pieces).length := by
  induction pieces with
  | nil => rfl
  | cons piece rest ih =>
    have first := stripReturn_length piece
    cases rest with
    | nil => simpa [rejoin, List.countP_cons] using first
    | cons next rest =>
      rw [List.map_cons, List.map_cons, rejoin_cons, rejoin_cons, List.countP_cons, List.length_append, List.length_append,
        List.length_cons, List.length_cons, ← ih, List.map_cons]
      omega

theorem returns_cons (c : Char) {rest : List Char} (filled : rest ≠ []) : returns (c :: rest) = returns rest := by
  cases rest with
  | nil => exact absurd rfl filled
  | cons d rest => rw [returns, List.getLast?_cons_cons, returns]

theorem returns_bar (piece rest : List Char) : returns (piece ++ '|' :: rest) = returns rest := by
  have last : returns ('|' :: rest) = returns rest := by
    cases rest with
    | nil => rfl
    | cons d rest => exact returns_cons '|' (List.cons_ne_nil d rest)
  rw [← last, returns, returns, List.getLast?_append, List.getLast?_cons, Option.some_or]

theorem returns_front (text : List Char) : returns ('|' :: text) = returns text := returns_bar [] text

theorem infix_bar {piece : List Char} (plain : '|' ∉ piece) (rest : List Char) :
    ['\r', '|'] <:+: piece ++ '|' :: rest ↔ returns piece = true ∨ ['\r', '|'] <:+: rest := by
  induction piece with
  | nil => simp [List.infix_cons_iff, returns]
  | cons c piece ih =>
    have plain' : '|' ∉ piece := fun member => plain (List.mem_cons_of_mem _ member)
    rw [List.cons_append, List.infix_cons_iff, ih plain']
    cases piece with
    | nil => simp [returns, eq_comm]
    | cons d piece =>
      have apart : '|' ≠ d := fun same => plain' (same ▸ List.mem_cons_self)
      rw [returns_cons c (List.cons_ne_nil d piece)]
      simp [List.cons_prefix_cons, apart]

theorem infix_plain {piece : List Char} (plain : '|' ∉ piece) : ¬ ['\r', '|'] <:+: piece :=
  fun inside => plain (inside.subset (by simp))

/-- Some field ends in a carriage return: the last one, or one in front of a bar. -/
theorem rejoin_returns {pieces : List (List Char)} (plain : ∀ piece ∈ pieces, '|' ∉ piece) (filled : pieces ≠ []) :
    pieces.countP returns = 0 ↔ ¬ ['\r', '|'] <:+: rejoin pieces ∧ returns (rejoin pieces) = false := by
  induction pieces with
  | nil => exact absurd rfl filled
  | cons piece rest ih =>
    have first := plain piece List.mem_cons_self
    cases rest with
    | nil => simp [rejoin, List.countP_cons, infix_plain first]
    | cons next rest =>
      have later := ih (fun piece member => plain piece (List.mem_cons_of_mem _ member)) (List.cons_ne_nil next rest)
      rw [List.countP_cons, Nat.add_eq_zero_iff, later, rejoin_cons, infix_bar first, returns_bar,
        not_or]
      cases returns piece <;> simp [and_comm]

/-- The pieces are parts of the text without the delimiter. -/
theorem splitOn_avoids {text piece : List Char} {delim : Char} (member : piece ∈ text.splitOn delim) :
    delim ∉ piece ∧ piece ⊆ text := by
  induction text generalizing piece with
  | nil =>
    rw [List.splitOn_nil, List.mem_singleton] at member
    subst member
    exact ⟨List.not_mem_nil, List.Subset.refl _⟩
  | cons c text ih =>
    rw [List.splitOn_cons_eq_if_modifyHead] at member
    by_cases same : c = delim
    · rw [if_pos (beq_iff_eq.mpr same)] at member
      rcases List.mem_cons.mp member with rfl | later
      · exact ⟨List.not_mem_nil, List.nil_subset _⟩
      · obtain ⟨avoids, part⟩ := ih later
        exact ⟨avoids, List.subset_cons_of_subset c part⟩
    · rw [if_neg (by simpa using same)] at member
      cases pieces : text.splitOn delim with
      | nil => exact absurd pieces (List.splitOn_ne_nil delim text)
      | cons first rest =>
        rw [pieces] at member ih
        rcases List.mem_cons.mp member with rfl | later
        · obtain ⟨avoids, part⟩ := ih List.mem_cons_self
          exact ⟨List.not_mem_cons_of_ne_of_not_mem (Ne.symm same) avoids, List.cons_subset_cons c part⟩
        · obtain ⟨avoids, part⟩ := ih (List.mem_cons_of_mem _ later)
          exact ⟨avoids, List.subset_cons_of_subset c part⟩

/-- The fields make up the text again exactly when none of them ended in a carriage return. -/
theorem rejoin_split (text : List Char) :
    rejoin (split text '|') = text ↔ ¬ ['\r', '|'] <:+: text ∧ returns text = false := by
  have whole : rejoin (text.splitOn '|') = text := List.intercalate_splitOn '|'
  have length := rejoin_length (text.splitOn '|')
  have none := rejoin_returns (fun _ member => (splitOn_avoids member).1) (List.splitOn_ne_nil '|' text)
  rw [whole] at length none
  rw [split_eq, ← none]
  constructor
  · intro same
    rw [same] at length
    omega
  · intro trimmed
    have kept : (text.splitOn '|').map stripReturn = (text.splitOn '|').map id := by
      apply List.map_congr_left
      intro piece member
      have ends := List.countP_eq_zero.mp trimmed piece member
      exact stripReturn_trimmed (by simpa [returns] using ends)
    rw [kept, List.map_id, whole]

theorem rejoin_split_length (text : List Char) : (rejoin (split text '|')).length ≤ text.length := by
  have length := rejoin_length (text.splitOn '|')
  rw [rejoin, rejoin, List.intercalate_splitOn] at length
  rw [split_eq, rejoin]
  omega

theorem stripReturn_subset (text : List Char) : stripReturn text ⊆ text := by
  unfold stripReturn
  split
  · exact List.dropLast_subset text
  · exact List.Subset.refl text

theorem stripReturn_cases (text : List Char) :
    returns text = true ∧ text = stripReturn text ++ ['\r'] ∨ returns text = false ∧ stripReturn text = text := by
  by_cases ends : text.getLast? = some '\r'
  · obtain ⟨front, rfl⟩ := List.getLast?_eq_some_iff.mp ends
    exact Or.inl ⟨by simp [returns], by rw [stripReturn_return]⟩
  · exact Or.inr ⟨by simpa [returns] using ends, stripReturn_trimmed ends⟩

/-- No carriage return is dropped but the one at the end of the line. -/
def Clean (line : List Char) : Prop := ¬ ['\r', '|'] <:+: line ∧ ¬ ['\r', '\r'] <:+ line

theorem returns_suffix {text : List Char} : returns text = true ↔ ['\r'] <:+ text := by
  rw [returns, decide_eq_true_iff, List.getLast?_eq_some_iff]
  exact exists_congr fun front => eq_comm

theorem suffix_returns (front : List Char) : ['\r', '\r'] <:+ front ++ ['\r'] ↔ returns front = true := by
  rw [returns_suffix, List.suffix_concat_iff]
  constructor
  · rintro (nothing | ⟨text, same, inside⟩)
    · cases nothing
    · have front : ['\r'] = text := (List.append_inj' same rfl).1
      cases front
      exact inside
  · exact fun inside => Or.inr ⟨['\r'], rfl, inside⟩

theorem infix_returns (front : List Char) : ['\r', '|'] <:+: front ++ ['\r'] ↔ ['\r', '|'] <:+: front := by
  rw [List.infix_concat_iff, or_iff_right]
  rintro ⟨before, same⟩
  have last := congrArg List.getLast? same
  simp at last

theorem clean_bar (body : List Char) :
    Clean ('|' :: body) ↔ ¬ ['\r', '|'] <:+: stripReturn body ∧ returns (stripReturn body) = false := by
  have bars : ['\r', '|'] <:+: '|' :: body ↔ ['\r', '|'] <:+: body := by
    simp [List.infix_cons_iff]
  rw [Clean, bars]
  rcases stripReturn_cases body with ⟨_, shape⟩ | ⟨ends, shape⟩
  · have ends := suffix_returns ('|' :: stripReturn body)
    have whole := infix_returns (stripReturn body)
    rw [List.cons_append, ← shape, returns_front] at ends
    rw [← shape] at whole
    rw [ends, whole, Bool.not_eq_true]
  · have single : ¬ ['\r', '\r'] <:+ '|' :: body := by
      intro inside
      have last : returns ('|' :: body) = true := returns_suffix.mpr ((List.suffix_append ['\r'] ['\r']).trans inside)
      rw [returns_front, ends] at last
      cases last
    rw [shape, ends]
    simp [single]

theorem restores_bar {msg : Message} {room : String} {body : List Char} (made : lineMessage room ('|' :: body) = some msg) :
    msg.Restores ('|' :: body) ↔ rejoin (split (stripReturn body) '|') = stripReturn body := by
  obtain ⟨type, args, pieces, message⟩ := lineMessage_bar room body
  cases message.symm.trans made
  have rendered : rejoin ((String.ofList type :: args.map String.ofList).map String.toList) = rejoin (type :: args) := by
    simp [Function.comp_def]
  have length := rejoin_split_length (stripReturn body)
  rw [Message.Restores, Message.rendered, rendered, ← pieces]
  rcases stripReturn_cases body with ⟨_, shape⟩ | ⟨ends, shape⟩
  · have whole : '|' :: body = '|' :: stripReturn body ++ ['\r'] := congrArg (List.cons '|') shape
    have longer := congrArg List.length shape
    rw [List.length_append, List.length_singleton] at longer
    constructor
    · rintro (same | same)
      · have equal := congrArg List.length (List.cons.inj same).2
        omega
      · exact (List.cons.inj (List.append_inj' (same.trans whole) rfl).1).2
    · intro same
      refine Or.inr ?_
      rw [same, whole]
  · rw [shape]
    constructor
    · rintro (same | same)
      · exact (List.cons.inj same).2
      · have last : returns ('|' :: body) = true := returns_suffix.mpr ⟨_, same⟩
        rw [returns_front, ends] at last
        cases last
    · exact fun same => Or.inl (congrArg _ same)

theorem restores_iff {msg : Message} {room : String} {line : List Char} (made : lineMessage room line = some msg) :
    msg.Restores line ↔ Clean line := by
  have bar : barred line = true := by rw [← lineMessage_isSome room, made, Option.isSome_some]
  obtain ⟨body, rfl⟩ := List.head?_eq_some_iff.mp (of_decide_eq_true bar)
  rw [restores_bar made, rejoin_split, clean_bar]

/-- Every message of a frame gives its line back exactly when no line with a bar has a carriage
return in front of another bar, or two at its end. -/
theorem restores_all_iff (raw : List Char) :
    List.Forall₂ (fun line msg => msg.Restores line) ((frameLines raw).filter barred) (parseMessage raw) ↔
      ∀ line ∈ frameLines raw, barred line = true → Clean line := by
  have made := @Transducer.outputs_inputs _ _ _ roomAfter _ _ lineMessage_isSome "" (frameLines raw)
  rw [← parseMessage_lines] at made
  rw [forall₂_iff made fun line msg given => given.elim fun _ => restores_iff]
  simp only [List.mem_filter, and_imp]

/-- A return inside the text of a chat line. -/
theorem return_in_field_lost : ¬ List.Forall₂ (fun line msg => msg.Restores line)
    ((frameLines "|c|Ash\r|hi".toList).filter barred) (parseMessage "|c|Ash\r|hi".toList) := by
  have lines : (frameLines "|c|Ash\r|hi".toList).filter barred = ["|c|Ash\r|hi".toList] := by decide
  have msgs : parseMessage "|c|Ash\r|hi".toList = [{ type := "c", args := ["Ash", "hi"] }] := by decide
  have lost : ¬ (({ type := "c", args := ["Ash", "hi"] } : Message).Restores "|c|Ash\r|hi".toList) := by
    unfold Message.Restores
    decide
  rw [lines, msgs, List.forall₂_cons]
  exact fun given => lost given.1

end ShowdownCli
