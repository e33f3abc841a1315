import ShowdownCli.Library.Results
import ShowdownCli.Library.Runs

/-! Machines that read a list and write at most one value for each element, as their
state has it. -/

namespace ShowdownCli.Library.Transducer

universe u v w
variable {σ : Type u} {ι : Type v} {ω : Type w} (step : σ → ι → σ) (output : σ → ι → Option ω)

def outputs (state : σ) : List ι → List ω
  | [] => []
  | input :: rest => (output state input).toList ++ outputs (step state input) rest

theorem outputs_append (state : σ) (first rest : List ι) :
    outputs step output state (first ++ rest) =
      outputs step output state first ++ outputs step output (first.foldl step state) rest := by
  induction first generalizing state with
  | nil => rfl
  | cons input first ih => rw [List.cons_append, outputs, outputs, ih, List.foldl_cons, List.append_assoc]

/-- Each value is written in the state that the elements before it lead to. -/
theorem outputs_splits (state : σ) (inputs : List ι) :
    outputs step output state inputs =
      (Runs.splits inputs).filterMap fun split => output (split.1.foldl step state) split.2 := by
  induction inputs generalizing state with
  | nil => rfl
  | cons input rest ih =>
    rw [outputs, ih, Runs.splits, List.filterMap_cons, List.filterMap_map]
    simp only [List.foldl_nil]
    cases output state input <;> rfl

variable {step output}

/-- If it does not depend on the state which elements have a value, the values belong to
these elements one by one. -/
theorem outputs_forall {accepts : ι → Bool} (some_iff : ∀ state input, (output state input).isSome = accepts input)
    (state : σ) (inputs : List ι) :
    List.Forall₂ (fun split value => output (split.1.foldl step state) split.2 = some value)
      ((Runs.splits inputs).filter fun split => accepts split.2) (outputs step output state inputs) := by
  rw [outputs_splits]
  exact filterMap_forall (fun (split : List ι × ι) => some_iff (split.1.foldl step state) split.2) _

theorem outputs_inputs {accepts : ι → Bool} (some_iff : ∀ state input, (output state input).isSome = accepts input)
    (state : σ) (inputs : List ι) :
    List.Forall₂ (fun input value => ∃ state, output state input = some value) (inputs.filter accepts)
      (outputs step output state inputs) := by
  have own := @outputs_forall _ _ _ step _ _ some_iff state inputs
  have all : inputs.filter accepts = ((Runs.splits inputs).filter fun split => accepts split.2).map Prod.snd := by
    conv_lhs => rw [← Runs.splits_snd inputs, List.filter_map]
    rfl
  rw [all, List.forall₂_map_left_iff]
  exact own.imp fun split value written => ⟨_, written⟩

end ShowdownCli.Library.Transducer
