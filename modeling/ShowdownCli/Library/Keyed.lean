import Mathlib.Data.List.Induction
import Mathlib.Data.List.Nodup

/-! Lists of records looked up by a key, where the first record with the key
counts. Updates keep every key in its place, so the sequence of keys and the
record found under each key describe such a list completely. -/

namespace ShowdownCli.Library.Keyed

universe u v w
variable {α : Type u} {κ : Type v} [DecidableEq κ] (key : α → κ)

def lookup (k : κ) (items : List α) : Option α := items.find? (fun item => key item = k)

/-- Change the first record under the key, if there is one. -/
def touch (k : κ) (change : α → α) : List α → List α
  | [] => []
  | item :: rest => if key item = k then change item :: rest else item :: touch k change rest

/-- Make sure that there is a record under the key; a new one goes last. -/
def enroll (k : κ) (fresh : α) (items : List α) : List α :=
  if k ∈ items.map key then items else items ++ [fresh]

@[simp] theorem lookup_nil (k : κ) : lookup key k [] = none := rfl

theorem lookup_cons (k : κ) (item : α) (rest : List α) :
    lookup key k (item :: rest) = if key item = k then some item else lookup key k rest := by
  by_cases same : key item = k <;> simp [lookup, same]

variable {key}

theorem lookup_key {k : κ} {items : List α} {item : α} (found : lookup key k items = some item) :
    key item = k := by
  simpa using List.find?_some found

theorem lookup_mem {k : κ} {items : List α} {item : α} (found : lookup key k items = some item) :
    item ∈ items := List.mem_of_find?_eq_some found

theorem lookup_none {k : κ} {items : List α} : lookup key k items = none ↔ k ∉ items.map key := by
  simp [lookup, List.find?_eq_none]

theorem lookup_isSome {k : κ} {items : List α} : (lookup key k items).isSome ↔ k ∈ items.map key := by
  rw [← not_iff_not, Option.not_isSome_iff_eq_none, lookup_none]

theorem lookup_self {items : List α} (distinct : (items.map key).Nodup) {item : α} (member : item ∈ items) :
    lookup key (key item) items = some item := by
  induction items with
  | nil => cases member
  | cons first rest ih =>
    rw [List.map_cons, List.nodup_cons] at distinct
    rw [lookup_cons]
    rcases List.mem_cons.mp member with rfl | member
    · simp
    · have apart : key first ≠ key item := by
        intro same
        exact distinct.1 (same ▸ List.mem_map_of_mem member)
      rw [if_neg apart]
      exact ih distinct.2 member

/-- Two lists with the same distinct keys and the same record under each key
are the same list. -/
theorem ext {first second : List α} (distinct : (first.map key).Nodup)
    (keys : first.map key = second.map key)
    (records : ∀ k ∈ first.map key, lookup key k first = lookup key k second) : first = second := by
  apply List.ext_getElem
  · simpa using congrArg List.length keys
  · intro index inside inside'
    have sameKey : key first[index] = key second[index] := by
      have := List.getElem_of_eq keys (by simpa using inside)
      simpa using this
    have left := lookup_self distinct (List.getElem_mem inside)
    have right := lookup_self (keys ▸ distinct) (List.getElem_mem inside')
    have agree := records (key first[index]) (List.mem_map_of_mem (List.getElem_mem inside))
    rw [left, sameKey, right] at agree
    exact Option.some.inj agree

/-- A list with distinct keys is its keys with the record under each. -/
theorem rebuild {items : List α} (distinct : (items.map key).Nodup) :
    (items.map key).filterMap (fun k => lookup key k items) = items := by
  rw [List.filterMap_map]
  refine (List.filterMap_congr fun item member => ?_).trans List.filterMap_some
  exact lookup_self distinct member

section Touch
variable {k : κ} {change : α → α}

/-- An update leaves every aspect of the list that it leaves of each record. -/
theorem touch_map {β : Type w} {aspect : α → β} (same : ∀ item, aspect (change item) = aspect item)
    (items : List α) : (touch key k change items).map aspect = items.map aspect := by
  induction items with
  | nil => rfl
  | cons item rest ih =>
    unfold touch
    split
    · simp [same]
    · simp [ih]

theorem touch_absent {items : List α} (absent : k ∉ items.map key) : touch key k change items = items := by
  induction items with
  | nil => rfl
  | cons item rest ih =>
    rw [List.map_cons, List.mem_cons, not_or] at absent
    rw [touch, if_neg (Ne.symm absent.1), ih absent.2]

theorem lookup_touch_same (same : ∀ item, key (change item) = key item) (items : List α) :
    lookup key k (touch key k change items) = (lookup key k items).map change := by
  induction items with
  | nil => rfl
  | cons item rest ih =>
    unfold touch
    by_cases here : key item = k
    · rw [if_pos here, lookup_cons, if_pos (by rw [same, here]), lookup_cons, if_pos here]
      rfl
    · rw [if_neg here, lookup_cons, if_neg here, ih, lookup_cons, if_neg here]

theorem lookup_touch_other (same : ∀ item, key (change item) = key item) {other : κ} (apart : other ≠ k)
    (items : List α) : lookup key other (touch key k change items) = lookup key other items := by
  induction items with
  | nil => rfl
  | cons item rest ih =>
    unfold touch
    by_cases here : key item = k
    · have missed : key item ≠ other := by rw [here]; exact apart.symm
      rw [if_pos here, lookup_cons, if_neg (by rwa [same]), lookup_cons, if_neg missed]
    · rw [if_neg here, lookup_cons, ih, lookup_cons]

/-- A pointer to the first record under a key changes what the key finds. -/
theorem modify_found {items : List α} {index : Nat}
    (found : items.findIdx? (fun item => key item = k) = some index) :
    items.modify index change = touch key k change items := by
  induction items generalizing index with
  | nil => simp at found
  | cons item rest ih =>
    rw [List.findIdx?_cons] at found
    by_cases here : key item = k
    · simp only [here, decide_true, if_true] at found
      cases found
      simp [touch, here, List.modify_cons]
    · simp only [here, decide_false, Bool.false_eq_true, if_false, Option.map_eq_some_iff] at found
      obtain ⟨before, found, rfl⟩ := found
      simp [touch, here, ih found]

theorem mem_touch (same : ∀ item, key (change item) = key item) {items : List α} {item : α}
    (member : item ∈ touch key k change items) :
    item ∈ items ∨ key item = k ∧ ∃ old, lookup key k items = some old ∧ item = change old := by
  induction items with
  | nil => cases member
  | cons first rest ih =>
    unfold touch at member
    by_cases here : key first = k
    · rw [if_pos here] at member
      rcases List.mem_cons.mp member with rfl | member
      · exact Or.inr ⟨by rw [same, here], first, by rw [lookup_cons, if_pos here], rfl⟩
      · exact Or.inl (List.mem_cons_of_mem _ member)
    · rw [if_neg here] at member
      rw [lookup_cons, if_neg here]
      rcases List.mem_cons.mp member with rfl | member
      · exact Or.inl List.mem_cons_self
      · exact (ih member).imp_left (List.mem_cons_of_mem _)

/-- Where an update happens: at the first record under the key. -/
theorem touch_split (change : α → α) {items : List α} (member : k ∈ items.map key) :
    ∃ first item rest, items = first ++ item :: rest ∧ k ∉ first.map key ∧ key item = k ∧
      touch key k change items = first ++ change item :: rest := by
  induction items with
  | nil => cases member
  | cons item rest ih =>
    by_cases here : key item = k
    · exact ⟨[], item, rest, rfl, by simp, here, by simp [touch, here]⟩
    · obtain ⟨first, found, last, rfl, absent, named, touched⟩ :=
        ih (by simpa [Ne.symm here] using member)
      refine ⟨item :: first, found, last, rfl, by simp [Ne.symm here, absent], named, ?_⟩
      rw [touch, if_neg here, touched]
      rfl

theorem touch_first (change : α → α) {first rest : List α} {item : α} (absent : k ∉ first.map key)
    (named : key item = k) : touch key k change (first ++ item :: rest) = first ++ change item :: rest := by
  induction first with
  | nil => simp [touch, named]
  | cons other first ih =>
    rw [List.map_cons, List.mem_cons, not_or] at absent
    rw [List.cons_append, touch, if_neg (Ne.symm absent.1), ih absent.2, List.cons_append]

/-- An update that finds the record as it would leave it, or finds none. -/
theorem touch_same {change : α → α} {items : List α} :
    touch key k change items = items ↔ ∀ item, lookup key k items = some item → change item = item := by
  induction items with
  | nil => simp [touch]
  | cons item rest ih =>
    rw [touch, lookup_cons]
    split
    · simp
    · simpa using ih

end Touch

theorem lookup_map {β : Type w} {view : β → κ} {change : α → β} (same : ∀ item, view (change item) = key item)
    (k : κ) (items : List α) : lookup view k (items.map change) = (lookup key k items).map change := by
  induction items with
  | nil => rfl
  | cons item rest ih =>
    rw [List.map_cons, lookup_cons, lookup_cons, same, ih]
    split <;> rfl

section Enroll
variable {k : κ} {fresh : α}

theorem enroll_keys (named : key fresh = k) (items : List α) :
    (enroll key k fresh items).map key =
      if k ∈ items.map key then items.map key else items.map key ++ [k] := by
  unfold enroll
  split <;> simp [named]

theorem enroll_mem (named : key fresh = k) (items : List α) : k ∈ (enroll key k fresh items).map key := by
  rw [enroll_keys named]
  split
  · assumption
  · simp

theorem lookup_enroll_same (named : key fresh = k) (items : List α) :
    lookup key k (enroll key k fresh items) = some ((lookup key k items).getD fresh) := by
  unfold enroll
  split
  next present =>
    obtain ⟨item, found⟩ := Option.isSome_iff_exists.mp (lookup_isSome.mpr present)
    simp [found]
  next absent =>
    have missing := lookup_none.mpr absent
    have alone : lookup key k [fresh] = some fresh := by rw [lookup_cons, if_pos named]
    simp only [lookup] at missing alone ⊢
    rw [List.find?_append, missing, alone]
    rfl

theorem lookup_enroll_other (named : key fresh = k) {other : κ} (apart : other ≠ k) (items : List α) :
    lookup key other (enroll key k fresh items) = lookup key other items := by
  unfold enroll
  split
  · rfl
  · have alone : lookup key other [fresh] = none := by
      rw [lookup_cons, named, if_neg apart.symm, lookup_nil]
    simp only [lookup] at alone ⊢
    rw [List.find?_append, alone, Option.or_none]

theorem touch_enroll {change : α → α} (named : key fresh = k) (items : List α) :
    touch key k change (enroll key k fresh items) =
      if k ∈ items.map key then touch key k change items else items ++ [change fresh] := by
  unfold enroll
  split
  · rfl
  next absent =>
    induction items with
    | nil => simp [touch, named]
    | cons item rest ih =>
      rw [List.map_cons, List.mem_cons, not_or] at absent
      rw [List.cons_append, touch, if_neg (Ne.symm absent.1), ih absent.2, List.cons_append]

end Enroll

theorem eraseDups_concat (keys : List κ) (k : κ) :
    (keys ++ [k]).eraseDups = if k ∈ keys then keys.eraseDups else keys.eraseDups ++ [k] := by
  rw [List.eraseDups_append]
  by_cases present : k ∈ keys <;> simp [List.removeAll, present, List.eraseDups_cons]

/-- The keys of a list that starts with the known ones and enrolls the arriving
ones: each new key stands where it first arrived. -/
def grown (known arriving : List κ) : List κ := known ++ (arriving.filter (· ∉ known)).eraseDups

@[simp] theorem grown_nil (known : List κ) : grown known [] = known := by simp [grown]

theorem mem_grown {known arriving : List κ} {k : κ} : k ∈ grown known arriving ↔ k ∈ known ∨ k ∈ arriving := by
  by_cases present : k ∈ known <;> simp [grown, present]

theorem grown_concat (known arriving : List κ) (k : κ) :
    grown known (arriving ++ [k]) =
      if k ∈ grown known arriving then grown known arriving else grown known arriving ++ [k] := by
  by_cases present : k ∈ known
  · rw [if_pos (mem_grown.mpr (Or.inl present))]
    simp [grown, present]
  · simp only [mem_grown, present, false_or]
    simp only [grown, List.filter_append]
    have kept : [k].filter (· ∉ known) = [k] := by simp [present]
    rw [kept, eraseDups_concat]
    simp only [List.mem_filter, present, not_false_eq_true, decide_true, and_true]
    split <;> simp

theorem nodup_grown {known : List κ} (distinct : known.Nodup) (arriving : List κ) : (grown known arriving).Nodup := by
  induction arriving using List.reverseRecOn with
  | nil => simpa
  | append_singleton arriving k ih =>
    rw [grown_concat]
    split
    · exact ih
    next absent => simpa [List.nodup_append] using ⟨ih, fun other member same => absent (same ▸ member)⟩

theorem grown_grown (known first rest : List κ) : grown (grown known first) rest = grown known (first ++ rest) := by
  induction rest using List.reverseRecOn with
  | nil => simp
  | append_singleton rest k ih => rw [grown_concat, ih, ← List.append_assoc, grown_concat]

theorem grown_known {known arriving : List κ} (every : ∀ k ∈ arriving, k ∈ known) : grown known arriving = known := by
  have none : arriving.filter (· ∉ known) = [] := List.filter_eq_nil_iff.mpr fun k member => by simp [every k member]
  rw [grown, none, List.eraseDups_nil, List.append_nil]

theorem grown_empty (arriving : List κ) : grown [] arriving = arriving.eraseDups := by
  simp [grown]

end ShowdownCli.Library.Keyed
