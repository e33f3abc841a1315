import ShowdownCli.Library.Runs

/-! Runs with some of their inputs deleted. The deleted inputs are unnoticed at every
point of a run exactly when each of them leaves the state that it is consumed in. -/

namespace ShowdownCli.Library.Runs

universe u v w
variable {σ : Type u} {ι : Type v} {ω : Type w} {step : σ → ι → Option σ} {hidden : ι → Bool} {observe : σ → ω}
  {start : σ}

/-- The inputs that are not hidden. -/
def purge (hidden : ι → Bool) (inputs : List ι) : List ι := inputs.filter fun input => !hidden input

theorem purge_hidden {input : ι} (hides : hidden input = true) (done : List ι) :
    purge hidden (done ++ [input]) = purge hidden done := by
  simp [purge, hides]

theorem purge_shown {input : ι} (shown : hidden input = false) (done : List ι) :
    purge hidden (done ++ [input]) = purge hidden done ++ [input] := by
  simp [purge, shown]

/-- The guard under which a hidden input changes nothing. -/
def Unnoticed (step : σ → ι → Option σ) (hidden : ι → Bool) (state : σ) (input : ι) : Prop :=
  hidden input = true → step state input = some state

theorem exec_purge {inputs : List ι} (guarded : Guarded step (Unnoticed step hidden) start inputs) :
    exec step start inputs = exec step start (purge hidden inputs) := by
  induction inputs using List.reverseRecOn with
  | nil => rfl
  | append_singleton done input ih =>
    obtain ⟨before, last⟩ := guarded_concat.mp guarded
    have same := ih before
    cases hides : hidden input with
    | false => rw [purge_shown hides, exec_concat, exec_concat, same]
    | true =>
      rw [purge_hidden hides, exec_concat, ← same]
      cases reached : exec step start done with
      | none => rfl
      | some state => exact last state reached hides

/-- Whoever sees enough of a state to notice each hidden step that changes it sees no
difference at any point exactly when no hidden step changes the state. -/
theorem purge_iff (faithful : ∀ state input after, hidden input = true → step state input = some after →
      observe after = observe state → after = state) (inputs : List ι) :
    (∀ done, done <+: inputs →
        (exec step start done).map observe = (exec step start (purge hidden done)).map observe) ↔
      Guarded step (Unnoticed step hidden) start inputs := by
  constructor
  · intro same
    induction inputs using List.reverseRecOn with
    | nil => exact fun done input inside => by simp at inside
    | append_singleton done input ih =>
      have before := ih fun earlier inside => same earlier (inside.trans (List.prefix_append ..))
      refine guarded_concat.mpr ⟨before, fun state reached hides => ?_⟩
      have seen := same (done ++ [input]) (List.prefix_refl _)
      rw [purge_hidden hides, ← exec_purge before, reached, exec_concat, reached, Option.bind_some, Option.map_some] at seen
      obtain ⟨after, taken, alike⟩ := Option.map_eq_some_iff.mp seen
      rw [taken, faithful state input after hides taken alike]
  · intro guarded done inside
    rw [exec_purge (guarded.earlier inside)]

end ShowdownCli.Library.Runs
