import Mathlib.Data.List.Forall2

/-! Computations that may fail. That a sequence of them succeeds says what each
one returned. -/

namespace ShowdownCli.Library

theorem bind_ok {ε σ α β : Type} {x : EStateM ε σ α} {f : α → EStateM ε σ β} {state after : σ} {result : β} :
    (x >>= f).run state = .ok result after ↔
      ∃ value middle, x.run state = .ok value middle ∧ (f value).run middle = .ok result after := by
  rw [EStateM.run_bind]
  cases first : x.run state with
  | ok value middle => simp
  | error fault middle => simp

theorem except_bind_ok {ε α β : Type} {x : Except ε α} {f : α → Except ε β} {result : β} :
    (x >>= f) = .ok result ↔ ∃ value, x = .ok value ∧ f value = .ok result := by
  cases x <;> simp [bind, Except.bind]

/-- A fault that neither of two computations has is not one of their sequence. -/
theorem except_bind_avoids {ε α β : Type} {x : Except ε α} {f : α → Except ε β} {fault : ε}
    (first : x ≠ .error fault) (rest : ∀ value, f value ≠ .error fault) : (x >>= f) ≠ .error fault := by
  cases x with
  | error other =>
    intro same
    cases same
    exact first rfl
  | ok value => exact rest value

theorem except_map_ok {ε α β : Type} {f : α → β} {x : Except ε α} {result : β} :
    x.map f = .ok result ↔ ∃ value, x = .ok value ∧ f value = result := by
  cases x <;> simp [Except.map]

theorem toOption_some {ε α : Type} {x : Except ε α} {value : α} : x.toOption = some value ↔ x = .ok value := by
  cases x <;> simp [Except.toOption]

/-- The values of a partial function belong to the elements that have one. -/
theorem filterMap_forall {α β : Type*} {f : α → Option β} {accepts : α → Bool}
    (some_iff : ∀ item, (f item).isSome = accepts item) (items : List α) :
    List.Forall₂ (fun item value => f item = some value) (items.filter accepts) (items.filterMap f) := by
  induction items with
  | nil => exact .nil
  | cons item rest ih =>
    have here := some_iff item
    cases found : f item with
    | none =>
      rw [found] at here
      rw [List.filter_cons_of_neg (by simp [← here]), List.filterMap_cons_none found]
      exact ih
    | some value =>
      rw [found] at here
      rw [List.filter_cons_of_pos here.symm, List.filterMap_cons_some found]
      exact .cons found ih

/-- A condition on the first of two related lists. -/
theorem forall₂_iff {α β : Type*} {related relation : α → β → Prop} {condition : α → Prop} {first : List α}
    {second : List β} (pairs : List.Forall₂ related first second)
    (same : ∀ a b, related a b → (relation a b ↔ condition a)) :
    List.Forall₂ relation first second ↔ ∀ a ∈ first, condition a := by
  induction pairs with
  | nil => simp
  | cons head _ ih => rw [List.forall₂_cons, ih, same _ _ head, List.forall_mem_cons]

theorem mapM_ok {ε α β : Type} {f : α → Except ε β} {items : List α} {results : List β} :
    items.mapM f = .ok results ↔ List.Forall₂ (fun item result => f item = .ok result) items results := by
  induction items generalizing results with
  | nil => cases results <;> simp [pure, Except.pure]
  | cons item rest ih =>
    simp only [List.mapM_cons, except_bind_ok, ih]
    constructor
    · intro given
      obtain ⟨result, first, others, later, built⟩ := given
      cases built
      exact .cons first later
    · rintro (_ | ⟨first, later⟩)
      exact ⟨_, first, _, later, rfl⟩

/-- The computation returns. -/
def Succeeds {ε α : Type} (x : Except ε α) : Prop := ∃ value, x = .ok value

section Succeeds
variable {ε α β : Type}

theorem succeeds_ok (value : α) : Succeeds (.ok value : Except ε α) := ⟨value, rfl⟩

theorem not_succeeds (error : ε) : ¬ Succeeds (.error error : Except ε α) := fun given => by cases given.choose_spec

theorem succeeds_bind {x : Except ε α} {f : α → Except ε β} :
    Succeeds (x >>= f) ↔ ∃ value, x = .ok value ∧ Succeeds (f value) := by
  unfold Succeeds
  simp only [except_bind_ok]
  constructor
  · intro given
    obtain ⟨result, value, first, rest⟩ := given
    exact ⟨value, first, result, rest⟩
  · intro given
    obtain ⟨value, first, result, rest⟩ := given
    exact ⟨result, value, first, rest⟩

theorem succeeds_bind_total {x : Except ε α} {f : α → Except ε β} (total : ∀ value, x = .ok value → Succeeds (f value)) :
    Succeeds (x >>= f) ↔ Succeeds x := by
  rw [succeeds_bind]
  constructor
  · intro given
    obtain ⟨value, first, _⟩ := given
    exact ⟨value, first⟩
  · intro given
    obtain ⟨value, first⟩ := given
    exact ⟨value, first, total value first⟩

theorem succeeds_map {x : Except ε α} {f : α → β} : Succeeds (x.map f) ↔ Succeeds x := by
  unfold Succeeds
  simp only [except_map_ok]
  constructor
  · intro given
    obtain ⟨result, value, first, _⟩ := given
    exact ⟨value, first⟩
  · intro given
    obtain ⟨value, first⟩ := given
    exact ⟨f value, value, first, rfl⟩

theorem succeeds_mapM {f : α → Except ε β} {items : List α} :
    Succeeds (items.mapM f) ↔ ∀ item ∈ items, Succeeds (f item) := by
  induction items with
  | nil => exact iff_of_true ⟨[], mapM_ok.mpr .nil⟩ (by simp)
  | cons item rest ih =>
    rw [List.forall_mem_cons, ← ih]
    unfold Succeeds
    simp only [mapM_ok]
    constructor
    · intro given
      obtain ⟨results, matched⟩ := given
      cases matched with
      | cons first later => exact ⟨⟨_, first⟩, _, later⟩
    · intro given
      obtain ⟨⟨result, first⟩, results, later⟩ := given
      exact ⟨result :: results, .cons first later⟩

end Succeeds

/-! ## Related computations -/

/-- What the first computation returns is related to something that the second returns. -/
def Matches {ε α β : Type} (relation : α → β → Prop) (x : Except ε α) (y : Except ε β) : Prop :=
  ∀ first, x = .ok first → ∃ second, y = .ok second ∧ relation first second

section Matches
variable {ε α β γ δ : Type} {relation : α → β → Prop} {relation' : γ → δ → Prop} {x : Except ε α} {y : Except ε β}

theorem Matches.ok {first : α} {second : β} (related : relation first second) :
    Matches relation (.ok first : Except ε α) (.ok second) := by
  intro other same
  cases same
  exact ⟨second, rfl, related⟩

theorem Matches.error (error : ε) : Matches relation (.error error) y := fun _ none => by cases none

theorem Matches.same (x : Except ε α) : Matches Eq x x := fun first returned => ⟨first, returned, rfl⟩

theorem Matches.bind {f : α → Except ε γ} {g : β → Except ε δ} (matched : Matches relation x y)
    (rest : ∀ first second, relation first second → Matches relation' (f first) (g second)) :
    Matches relation' (x >>= f) (y >>= g) := by
  intro result returned
  obtain ⟨first, begun, ended⟩ := except_bind_ok.mp returned
  obtain ⟨second, begins, related⟩ := matched first begun
  obtain ⟨other, ends, relates⟩ := rest first second related result ended
  exact ⟨other, except_bind_ok.mpr ⟨second, begins, ends⟩, relates⟩

theorem Matches.map {f : α → γ} {g : β → δ} (matched : Matches relation x y)
    (rest : ∀ first second, relation first second → relation' (f first) (g second)) :
    Matches relation' (x.map f) (y.map g) := by
  intro result returned
  obtain ⟨first, begun, rfl⟩ := except_map_ok.mp returned
  obtain ⟨second, begins, related⟩ := matched first begun
  exact ⟨g second, except_map_ok.mpr ⟨second, begins, rfl⟩, rest first second related⟩

end Matches

/-! ## Failures that leave a state -/

/-- The computation fails and leaves this state. -/
def Fails {ε σ α : Type} (x : EStateM ε σ α) (state after : σ) : Prop := ∃ error, x.run state = .error error after

section Fails
variable {ε σ α β : Type} {state after : σ}

theorem fails_pure {value : α} : ¬ Fails (pure value : EStateM ε σ α) state after := fun given => by cases given.choose_spec

theorem fails_bind {x : EStateM ε σ α} {f : α → EStateM ε σ β} :
    Fails (x >>= f) state after ↔
      Fails x state after ∨ ∃ value middle, x.run state = .ok value middle ∧ Fails (f value) middle after := by
  unfold Fails
  rw [EStateM.run_bind]
  cases first : x.run state with
  | ok value middle => simp
  | error fault middle => simp

theorem fails_modify {change : σ → σ} {next : PUnit → EStateM ε σ α} :
    Fails (modify change >>= next) state after ↔ Fails (next ()) (change state) after := Iff.rfl

theorem fails_get {next : σ → EStateM ε σ α} : Fails (get >>= next) state after ↔ Fails (next state) state after := Iff.rfl

/-- The state that a failure leaves, if the computation fails. -/
def leaves (x : EStateM ε σ α) (state : σ) : Option σ :=
  match x.run state with
  | .ok .. => none
  | .error _ after => some after

theorem leaves_some {x : EStateM ε σ α} : leaves x state = some after ↔ Fails x state after := by
  unfold leaves Fails
  cases x.run state <;> simp

end Fails

/-- The results in front of the first item that has none. -/
def front {ε α β : Type} (f : α → Except ε β) : List α → List β
  | [] => []
  | item :: rest =>
    match f item with
    | .ok result => result :: front f rest
    | .error _ => []

/-- The same of items that may not be there at all. -/
def frontOf {ε α β : Type} (f : α → Except ε β) : Except ε (List α) → List β
  | .ok items => front f items
  | .error _ => []

end ShowdownCli.Library
