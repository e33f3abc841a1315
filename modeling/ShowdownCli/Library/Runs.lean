import Mathlib.Data.List.Infix
import Mathlib.Data.List.Induction

/-! Runs of a partial step function. A run is the list of inputs consumed so
far; a step that has no result ends it. Invariants relate the consumed inputs
to the state they lead to, so a property may speak about the whole history. -/

namespace ShowdownCli.Library.Runs

universe u v
variable {σ : Type u} {ι : Type v} (step : σ → ι → Option σ)

def exec (start : σ) (inputs : List ι) : Option σ := inputs.foldlM step start

@[simp] theorem exec_nil (start : σ) : exec step start [] = some start := rfl

@[simp] theorem exec_cons (start : σ) (input : ι) (rest : List ι) :
    exec step start (input :: rest) = (step start input).bind (fun middle => exec step middle rest) := rfl

theorem exec_append (start : σ) (first rest : List ι) :
    exec step start (first ++ rest) = (exec step start first).bind (fun middle => exec step middle rest) := by
  simp only [exec, List.foldlM_append]
  rfl

theorem exec_concat (start : σ) (inputs : List ι) (input : ι) :
    exec step start (inputs ++ [input]) = (exec step start inputs).bind (fun middle => step middle input) := by
  rw [exec_append]
  congr 1
  funext middle
  cases taken : step middle input <;> simp [taken]

variable {step}

theorem exec_concat_some {start final : σ} {inputs : List ι} {input : ι}
    (reached : exec step start (inputs ++ [input]) = some final) :
    ∃ middle, exec step start inputs = some middle ∧ step middle input = some final := by
  rw [exec_concat] at reached
  exact Option.bind_eq_some_iff.mp reached

/-- A run that finished has a state after each of its prefixes. -/
theorem exec_earlier {start final : σ} {inputs done : List ι} (earlier : done <+: inputs)
    (reached : exec step start inputs = some final) : ∃ middle, exec step start done = some middle := by
  obtain ⟨rest, rfl⟩ := earlier
  rw [exec_append] at reached
  obtain ⟨middle, first, _⟩ := Option.bind_eq_some_iff.mp reached
  exact ⟨middle, first⟩

/-- Every step the run takes is taken in a state that meets the guard. -/
def Guarded (step : σ → ι → Option σ) (guard : σ → ι → Prop) (start : σ) (inputs : List ι) : Prop :=
  ∀ done input, done ++ [input] <+: inputs → ∀ state, exec step start done = some state → guard state input

theorem Guarded.earlier {guard : σ → ι → Prop} {start : σ} {inputs done : List ι}
    (guarded : Guarded step guard start inputs) (earlier : done <+: inputs) :
    Guarded step guard start done :=
  fun first input inside => guarded first input (inside.trans earlier)

theorem guarded_concat {guard : σ → ι → Prop} {start : σ} {inputs : List ι} {input : ι} :
    Guarded step guard start (inputs ++ [input]) ↔
      Guarded step guard start inputs ∧ ∀ state, exec step start inputs = some state → guard state input := by
  constructor
  · exact fun guarded => ⟨guarded.earlier (List.prefix_append ..), guarded inputs input (List.prefix_refl _)⟩
  · rintro ⟨before, last⟩ done next inside
    rcases List.prefix_concat_iff.mp inside with same | inside
    · obtain ⟨rfl, final⟩ := List.append_inj' same rfl
      cases final
      exact last
    · exact before done next inside

theorem Guarded.first {guard : σ → ι → Prop} {start : σ} {input : ι} {rest : List ι}
    (guarded : Guarded step guard start (input :: rest)) : guard start input :=
  guarded [] input (by simp) start rfl

theorem Guarded.later {guard : σ → ι → Prop} {start middle : σ} {input : ι} {rest : List ι}
    (guarded : Guarded step guard start (input :: rest)) (taken : step start input = some middle) :
    Guarded step guard middle rest := by
  intro done next inside state reached
  refine guarded (input :: done) next (List.cons_prefix_cons.mpr ⟨rfl, inside⟩) state ?_
  rw [exec_cons, taken]
  exact reached

/-- The invariant rule: what holds before any input and is kept by each guarded
step holds after the whole run, together with the inputs that led there. -/
theorem history (guard : σ → ι → Prop) {start final : σ} (invariant : List ι → σ → Prop)
    (initial : invariant [] start)
    (kept : ∀ done input before after, invariant done before → guard before input →
      step before input = some after → invariant (done ++ [input]) after)
    {inputs : List ι} (guarded : Guarded step guard start inputs)
    (reached : exec step start inputs = some final) : invariant inputs final := by
  induction inputs using List.reverseRecOn generalizing final with
  | nil => cases reached; exact initial
  | append_singleton done input ih =>
    obtain ⟨middle, first, last⟩ := exec_concat_some reached
    exact kept done input middle final (ih (guarded.earlier (List.prefix_append ..)) first)
      (guarded done input (List.prefix_refl _) middle first) last

theorem unguarded (start : σ) (inputs : List ι) : Guarded step (fun _ _ => True) start inputs :=
  fun _ _ _ _ _ => trivial

/-- The invariant rule for runs without a guard. -/
theorem always {start final : σ} (invariant : List ι → σ → Prop)
    (initial : invariant [] start)
    (kept : ∀ done input before after, invariant done before →
      step before input = some after → invariant (done ++ [input]) after)
    {inputs : List ι} (reached : exec step start inputs = some final) : invariant inputs final :=
  history (fun _ _ => True) invariant initial
    (fun done input before after prior _ => kept done input before after prior) (unguarded _ _) reached

/-- A view of the state that steps by itself runs by itself. -/
theorem exec_map {τ : Type*} {view : σ → τ} {step' : τ → ι → Option τ}
    (steps : ∀ state input, (step state input).map view = step' (view state) input) (start : σ) (inputs : List ι) :
    (exec step start inputs).map view = exec step' (view start) inputs := by
  induction inputs generalizing start with
  | nil => rfl
  | cons input rest ih =>
    rw [exec_cons, exec_cons, ← steps]
    cases step start input with
    | none => rfl
    | some middle => exact ih middle

/-- Two runs on the same inputs stay related, if each pair of steps keeps them so. -/
theorem related {relation : σ → σ → Prop}
    (kept : ∀ input one other after after', relation one other → step one input = some after →
      step other input = some after' → relation after after')
    {start start' final final' : σ} {inputs : List ι} (initial : relation start start')
    (reached : exec step start inputs = some final) (reached' : exec step start' inputs = some final') :
    relation final final' := by
  induction inputs generalizing start start' with
  | nil =>
    cases reached
    cases reached'
    exact initial
  | cons input rest ih =>
    obtain ⟨middle, taken, later⟩ := Option.bind_eq_some_iff.mp reached
    obtain ⟨middle', taken', later'⟩ := Option.bind_eq_some_iff.mp reached'
    exact ih (kept input _ _ _ _ initial taken taken') later later'

/-- Two guards that agree wherever an invariant holds guard the same runs, if one of
them keeps the invariant. -/
theorem guarded_iff {first second : σ → ι → Prop} {start : σ} {inputs : List ι} (invariant : σ → Prop)
    (initial : invariant start)
    (kept : ∀ input ∈ inputs, ∀ before after, invariant before → second before input →
      step before input = some after → invariant after)
    (same : ∀ input ∈ inputs, ∀ state, invariant state → (first state input ↔ second state input)) :
    Guarded step first start inputs ↔ Guarded step second start inputs := by
  induction inputs using List.reverseRecOn with
  | nil => exact iff_of_true (fun done input inside => by simp at inside) fun done input inside => by simp at inside
  | append_singleton done input ih =>
    have earlier := ih (fun other member => kept other (List.mem_append_left _ member))
      (fun other member => same other (List.mem_append_left _ member))
    rw [guarded_concat, guarded_concat, earlier]
    apply and_congr_right
    intro guarded
    refine forall₂_congr fun state reached => same input (by simp) state ?_
    have inner : Guarded step (fun state other => second state other ∧ other ∈ done) start done :=
      fun prior other inside middle first => ⟨guarded prior other inside middle first, inside.subset (by simp)⟩
    exact history _ (fun _ => invariant) initial (fun _ other before after held guards taken =>
      kept other (List.mem_append_left _ guards.2) before after held guards.1 taken) inner reached

/-- If the guard says exactly when a step has a result, a run that it guards is one that
reaches its end. -/
theorem finishes_iff {guard : σ → ι → Prop} {start : σ} {inputs : List ι} (invariant : σ → Prop)
    (initial : invariant start)
    (kept : ∀ input before after, invariant before → step before input = some after → invariant after)
    (proceeds : ∀ input state, invariant state → ((∃ after, step state input = some after) ↔ guard state input)) :
    (∃ final, exec step start inputs = some final) ↔ Guarded step guard start inputs := by
  induction inputs using List.reverseRecOn with
  | nil => exact iff_of_true ⟨start, rfl⟩ fun done input inside => by simp at inside
  | append_singleton done input ih =>
    rw [guarded_concat, ← ih]
    constructor
    · rintro ⟨final, reached⟩
      obtain ⟨middle, first, last⟩ := exec_concat_some reached
      have held : invariant middle :=
        always (fun _ => invariant) initial (fun _ other before after => kept other before after) first
      refine ⟨⟨middle, first⟩, fun state same => ?_⟩
      cases first.symm.trans same
      exact (proceeds input middle held).mp ⟨final, last⟩
    · rintro ⟨⟨middle, first⟩, last⟩
      have held : invariant middle :=
        always (fun _ => invariant) initial (fun _ other before after => kept other before after) first
      obtain ⟨final, taken⟩ := (proceeds input middle held).mpr (last middle first)
      exact ⟨final, by rw [exec_concat, first, Option.bind_some, taken]⟩

/-- If each counted input lowers a measure that no other input raises, a run has no more of
them than the measure allows at its start. -/
theorem spent {start final : σ} {inputs : List ι} (counted : ι → Bool) (invariant : σ → Prop) (measure : σ → Nat)
    (initial : invariant start)
    (kept : ∀ input ∈ inputs, ∀ before after, invariant before → step before input = some after →
      invariant after ∧ measure after + (if counted input then 1 else 0) ≤ measure before)
    (reached : exec step start inputs = some final) :
    invariant final ∧ measure final + inputs.countP counted ≤ measure start := by
  induction inputs generalizing start with
  | nil =>
    cases reached
    exact ⟨initial, Nat.le_refl _⟩
  | cons input rest ih =>
    obtain ⟨middle, taken, later⟩ := Option.bind_eq_some_iff.mp reached
    obtain ⟨held, lower⟩ := kept input List.mem_cons_self start middle initial taken
    obtain ⟨last, bound⟩ := ih held (fun other member => kept other (List.mem_cons_of_mem _ member)) later
    refine ⟨last, ?_⟩
    rw [List.countP_cons]
    omega

/-- A measure that each counted input lowers, unless it is zero, and no other input raises. -/
theorem lowered {start final : σ} {inputs : List ι} (counted : ι → Bool) (invariant : σ → Prop) (measure : σ → Nat)
    (initial : invariant start)
    (kept : ∀ input before after, invariant before → step before input = some after →
      invariant after ∧ measure after ≤ measure before - (if counted input then 1 else 0))
    (reached : exec step start inputs = some final) :
    invariant final ∧ measure final ≤ measure start - inputs.countP counted := by
  induction inputs generalizing start with
  | nil =>
    cases reached
    exact ⟨initial, Nat.le_refl _⟩
  | cons input rest ih =>
    obtain ⟨middle, taken, later⟩ := Option.bind_eq_some_iff.mp reached
    obtain ⟨held, lower⟩ := kept input start middle initial taken
    obtain ⟨last, bound⟩ := ih held later
    refine ⟨last, ?_⟩
    rw [List.countP_cons]
    omega

/-- The steps that a run takes: each input with the state it is consumed in. -/
def trace (step : σ → ι → Option σ) (start : σ) : List ι → List (σ × ι)
  | [] => []
  | input :: rest => (start, input) :: (step start input).elim [] fun after => trace step after rest

theorem trace_concat {start state : σ} {done : List ι} (reached : exec step start done = some state) (input : ι) :
    trace step start (done ++ [input]) = trace step start done ++ [(state, input)] := by
  induction done generalizing start with
  | nil =>
    cases reached
    cases taken : step state input <;> simp [trace, taken]
  | cons first rest ih =>
    obtain ⟨middle, taken, later⟩ := Option.bind_eq_some_iff.mp reached
    simp [trace, taken, ih later]

/-- Each input of a run with the inputs before it. -/
def splits : List ι → List (List ι × ι)
  | [] => []
  | input :: rest => ([], input) :: (splits rest).map fun (done, last) => (input :: done, last)

theorem splits_snd (inputs : List ι) : (splits inputs).map Prod.snd = inputs := by
  induction inputs with
  | nil => rfl
  | cons input rest ih =>
    rw [splits, List.map_cons, List.map_map]
    exact congrArg (List.cons input) ih

theorem mem_splits {inputs done : List ι} {input : ι} :
    (done, input) ∈ splits inputs ↔ done ++ [input] <+: inputs := by
  induction inputs generalizing done with
  | nil => simp [splits]
  | cons first rest ih =>
    cases done with
    | nil => simp [splits, List.cons_prefix_cons]
    | cons head done => simp [splits, List.cons_prefix_cons, ih, and_comm, eq_comm]

/-- For a given run a condition on its steps can be decided step by step. -/
theorem forall_steps {inputs : List ι} {condition : List ι → ι → Prop} :
    (∀ done input, done ++ [input] <+: inputs → condition done input) ↔
      ∀ pair ∈ splits inputs, condition pair.1 pair.2 :=
  ⟨fun each ⟨done, input⟩ member => each done input (mem_splits.mp member),
    fun each done input inside => each (done, input) (mem_splits.mpr inside)⟩

theorem guarded_splits {guard : σ → ι → Prop} {start : σ} {inputs : List ι} : Guarded step guard start inputs ↔
    ∀ pair ∈ splits inputs, ∀ state ∈ exec step start pair.1, guard state pair.2 := forall_steps

instance {guard : σ → ι → Prop} [∀ state input, Decidable (guard state input)] (start : σ) (inputs : List ι) :
    Decidable (Guarded step guard start inputs) := decidable_of_iff _ guarded_splits.symm

/-- A property of every prefix holds exactly when each step that extends a good
prefix keeps it good. This turns a step's exact condition into a run's. -/
theorem prefixes_iff {property : List ι → Prop} {condition : List ι → ι → Prop} (inputs : List ι)
    (initial : property [])
    (extend : ∀ done input, done ++ [input] <+: inputs → (∀ earlier, earlier <+: done → property earlier) →
      (property (done ++ [input]) ↔ condition done input)) :
    (∀ done, done <+: inputs → property done) ↔
      ∀ done input, done ++ [input] <+: inputs → condition done input := by
  constructor
  · intro holds done input inside
    refine (extend done input inside fun earlier before => ?_).mp (holds _ inside)
    exact holds earlier (before.trans ((List.prefix_append ..).trans inside))
  · intro conditions
    -- all prefixes of a prefix at once, so that the step may use every earlier one
    have covered (done : List ι) (inside : done <+: inputs) : ∀ earlier, earlier <+: done → property earlier := by
      induction done using List.reverseRecOn with
      | nil =>
        intro earlier before
        rw [List.prefix_nil.mp before]
        exact initial
      | append_singleton done input ih =>
        have prior := ih ((List.prefix_append ..).trans inside)
        intro earlier before
        rcases List.prefix_concat_iff.mp before with rfl | before
        · exact (extend done input inside prior).mpr (conditions done input inside)
        · exact prior earlier before
    exact fun done inside => covered done inside done (List.prefix_refl _)

end ShowdownCli.Library.Runs
