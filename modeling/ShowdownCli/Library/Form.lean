import Mathlib.Data.List.Infix

/-! Bodies of the type `application/x-www-form-urlencoded`: how they are read, and
which values survive when fields are joined without any escaping. -/

namespace ShowdownCli.Library.Form

def hexValue (c : Char) : Option Nat :=
  if c.isDigit then some (c.toNat - '0'.toNat)
  else if 'a' ≤ c ∧ c ≤ 'f' then some (c.toNat - 'a'.toNat + 10)
  else if 'A' ≤ c ∧ c ≤ 'F' then some (c.toNat - 'A'.toNat + 10)
  else none

/-- The byte that two characters after a percent sign stand for. -/
def escaped (high low : Char) : Option Char := do
  let upper ← hexValue high
  let lower ← hexValue low
  return Char.ofNat (16 * upper + lower)

/-- A percent sign that begins no escape stands for itself. -/
def decodeText : List Char → List Char
  | [] => []
  | '%' :: high :: low :: rest =>
    match escaped high low with
    | some byte => byte :: decodeText rest
    | none => '%' :: decodeText (high :: low :: rest)
  | c :: rest => (if c = '+' then ' ' else c) :: decodeText rest

/-- The first equals sign separates the name from the value. -/
def field (piece : List Char) : List Char × List Char :=
  (decodeText (piece.takeWhile (· ≠ '=')), decodeText ((piece.dropWhile (· ≠ '=')).drop 1))

def decode (body : List Char) : List (List Char × List Char) := (body.splitOn '&').map field

/-- No percent sign begins an escape. -/
def Unescaped (text : List Char) : Prop := ∀ high low, ['%', high, low] <:+: text → escaped high low = none

/-- Text without a separator, a space in disguise or an escape. -/
structure Plain (text : List Char) : Prop where
  separator : '&' ∉ text
  space : '+' ∉ text
  escape : Unescaped text

structure Name (name : List Char) : Prop where
  plain : Plain name
  equals : '=' ∉ name

def join (fields : List (List Char × List Char)) : List Char :=
  List.intercalate ['&'] (fields.map fun (name, value) => name ++ '=' :: value)

theorem decodeText_length (text : List Char) : (decodeText text).length ≤ text.length := by
  fun_induction decodeText text with
  | case1 => exact Nat.le_refl 0
  | case2 high low rest byte found ih => simp only [List.length_cons]; omega
  | case3 high low rest found ih => simpa using ih
  | case4 c rest plain ih => simpa using ih

theorem unescaped_cons {c : Char} {rest : List Char} : Unescaped (c :: rest) ↔
    (∀ high low, ['%', high, low] <+: c :: rest → escaped high low = none) ∧ Unescaped rest := by
  simp [Unescaped, List.infix_cons_iff, or_imp, forall_and]

theorem decodeText_eq {text : List Char} : decodeText text = text ↔ '+' ∉ text ∧ Unescaped text := by
  fun_induction decodeText text with
  | case1 => simp [Unescaped]
  | case2 high low rest byte found ih =>
    refine iff_of_false ?_ ?_
    · intro same
      have shorter := decodeText_length rest
      have lengths := congrArg List.length same
      simp only [List.length_cons] at lengths
      omega
    · intro given
      have none := given.2 high low ⟨[], rest, rfl⟩
      rw [none] at found
      cases found
  | case3 high low rest found ih =>
    have first : ∀ other next, ['%', other, next] <+: '%' :: high :: low :: rest → escaped other next = none := by
      intro other next before
      simp only [List.cons_prefix_cons] at before
      obtain ⟨_, rfl, rfl, _⟩ := before
      exact found
    rw [unescaped_cons, List.cons.injEq, List.mem_cons]
    simp [ih, first]
  | case4 c rest plain ih =>
    have first : ∀ other next, ['%', other, next] <+: c :: rest → escaped other next = none := by
      intro other next before
      obtain ⟨after, same⟩ := before
      obtain ⟨percent, digits⟩ := List.cons.inj same
      exact absurd digits.symm (plain other next after percent.symm)
    rw [unescaped_cons, and_iff_right first, List.cons.injEq, List.mem_cons, ih]
    by_cases space : c = '+'
    · simp [space]
    · simp [space, eq_comm]

/-- A text of letters is plain. -/
theorem Plain.letters {text : List Char} (letters : text.all Char.isAlpha = true) : Plain text := by
  have absent {c : Char} (other : c.isAlpha = false) : c ∉ text := by
    intro member
    rw [List.all_eq_true.mp letters c member] at other
    cases other
  refine ⟨absent rfl, absent rfl, fun high low inside => ?_⟩
  exact absurd (inside.subset List.mem_cons_self) (absent rfl)

theorem Name.letters {name : List Char} (letters : name.all Char.isAlpha = true) : Name name := by
  refine ⟨.letters letters, fun member => ?_⟩
  have letter := List.all_eq_true.mp letters _ member
  cases letter

theorem field_name {name : List Char} (proper : Name name) (value : List Char) :
    field (name ++ '=' :: value) = (name, decodeText value) := by
  have before : ∀ c ∈ name, decide (c ≠ '=') = true := by
    intro c member
    exact decide_eq_true fun same => proper.equals (same ▸ member)
  have decoded := decodeText_eq.mpr ⟨proper.plain.space, proper.plain.escape⟩
  rw [field, List.takeWhile_append_of_pos before, List.dropWhile_append_of_pos before]
  simp [decoded]

/-! ## Joined fields -/

theorem splitOn_join {pieces : List (List Char)} (some : pieces ≠ []) :
    (List.intercalate ['&'] pieces).splitOn '&' = pieces.flatMap (List.splitOn '&') := by
  induction pieces with
  | nil => exact absurd rfl some
  | cons piece rest ih =>
    cases rest with
    | nil => simp
    | cons next rest =>
      rw [List.intercalate_cons_cons, List.append_assoc, List.singleton_append, List.splitOn_append_cons_self, ih (List.cons_ne_nil next rest)]
      rfl

/-- A piece with a separator in it falls apart. -/
theorem splitOn_single {piece only : List Char} (split : piece.splitOn '&' = [only]) : only = piece ∧ '&' ∉ piece := by
  have joined : List.intercalate ['&'] (piece.splitOn '&') = piece := List.intercalate_splitOn '&'
  rw [split] at joined
  refine ⟨by simpa using joined, fun member => ?_⟩
  obtain ⟨before, after, rfl⟩ := List.append_of_mem member
  rw [List.splitOn_append_cons_self] at split
  have lengths := congrArg List.length split
  have left := List.length_pos_iff.mpr (List.splitOn_ne_nil '&' before)
  have right := List.length_pos_iff.mpr (List.splitOn_ne_nil '&' after)
  simp only [List.length_append, List.length_singleton] at lengths
  omega

/-- What a server makes of one field. -/
private def received (pair : List Char × List Char) : List (List Char × List Char) :=
  ((pair.1 ++ '=' :: pair.2).splitOn '&').map field

private theorem received_pos (pair : List Char × List Char) : 0 < (received pair).length := by
  rw [received, List.length_map]
  exact List.length_pos_iff.mpr (List.splitOn_ne_nil _ _)

private theorem received_length (pairs : List (List Char × List Char)) :
    pairs.length ≤ (pairs.flatMap received).length := by
  induction pairs with
  | nil => exact Nat.le_refl 0
  | cons pair rest ih =>
    have first := received_pos pair
    rw [List.flatMap_cons, List.length_append, List.length_cons]
    omega

private theorem received_eq {pair : List Char × List Char} (proper : Name pair.1) :
    received pair = [pair] ↔ Plain pair.2 := by
  obtain ⟨name, value⟩ := pair
  constructor
  · intro same
    obtain ⟨only, split, read⟩ := List.map_eq_singleton_iff.mp same
    obtain ⟨rfl, whole⟩ := splitOn_single split
    rw [field_name proper] at read
    obtain ⟨space, escape⟩ := decodeText_eq.mp (Prod.mk.inj read).2
    refine ⟨?_, space, escape⟩
    intro member
    exact whole (List.mem_append_right _ (List.mem_cons_of_mem _ member))
  · intro plain
    have whole : '&' ∉ name ++ '=' :: value := by
      simp [proper.plain.separator, plain.separator]
    simp only [received, List.splitOn_eq_singleton whole, List.map_singleton, field_name proper,
      decodeText_eq.mpr ⟨plain.space, plain.escape⟩]

private theorem received_all {pairs : List (List Char × List Char)} (proper : ∀ pair ∈ pairs, Name pair.1) :
    pairs.flatMap received = pairs ↔ ∀ pair ∈ pairs, Plain pair.2 := by
  induction pairs with
  | nil => simp
  | cons pair rest ih =>
    have later := ih fun other member => proper other (List.mem_cons_of_mem _ member)
    rw [List.flatMap_cons, List.forall_mem_cons, ← later, ← received_eq (proper pair List.mem_cons_self)]
    constructor
    · intro same
      have total := congrArg List.length same
      have first := received_pos pair
      have others := received_length rest
      rw [List.length_append, List.length_cons] at total
      have one : (received pair).length = [pair].length := by
        rw [List.length_singleton]
        omega
      exact List.append_inj (same : _ = [pair] ++ rest) one
    · intro ⟨first, others⟩
      rw [first, others]
      rfl

/-- Fields that are joined as they are arrive as they were exactly when every value
is plain. -/
theorem decode_join {fields : List (List Char × List Char)} (some : fields ≠ [])
    (proper : ∀ pair ∈ fields, Name pair.1) :
    decode (join fields) = fields ↔ ∀ pair ∈ fields, Plain pair.2 := by
  rw [← received_all proper, decode, join, splitOn_join (by simpa using some), List.flatMap_map, List.map_flatMap]
  rfl

end ShowdownCli.Library.Form
