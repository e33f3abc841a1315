import ShowdownCli.Library.Runs

/-! Forward simulations between two step functions. A step of the lower machine is
matched by a run of the upper one, which may be empty, and both show the same. -/

namespace ShowdownCli.Library.Runs

universe u v w
variable {σ τ : Type u} {ι κ : Type v} {ω : Type w}

theorem trace_append {step : σ → ι → Option σ} {start middle : σ} {first : List ι}
    (reached : exec step start first = some middle) (rest : List ι) :
    trace step start (first ++ rest) = trace step start first ++ trace step middle rest := by
  induction first generalizing start with
  | nil =>
    cases reached
    rfl
  | cons input first ih =>
    obtain ⟨next, taken, later⟩ := Option.bind_eq_some_iff.mp reached
    simp only [List.cons_append, trace, taken, Option.elim_some, ih later]

/-- What the steps of a run show, in order. -/
def shown (step : σ → ι → Option σ) (observe : σ → ι → List ω) (start : σ) (inputs : List ι) : List ω :=
  (trace step start inputs).flatMap fun taken => observe taken.1 taken.2

variable {lower : σ → ι → Option σ} {upper : τ → κ → Option τ} {observe : σ → ι → List ω} {display : τ → κ → List ω}

theorem shown_append {start middle : σ} {first : List ι} (reached : exec lower start first = some middle)
    (rest : List ι) :
    shown lower observe start (first ++ rest) = shown lower observe start first ++ shown lower observe middle rest := by
  rw [shown, trace_append reached, List.flatMap_append]
  rfl

theorem shown_concat {start state : σ} {done : List ι} (reached : exec lower start done = some state) (input : ι) :
    shown lower observe start (done ++ [input]) = shown lower observe start done ++ observe state input := by
  rw [shown, trace_concat reached, List.flatMap_append, List.flatMap_singleton]
  rfl

/-- Where the observation is of the inputs alone, so is what a run shows. -/
theorem shown_inputs {label : ι → List ω} {start final : σ} {inputs : List ι}
    (reached : exec lower start inputs = some final) :
    shown lower (fun _ => label) start inputs = inputs.flatMap label := by
  induction inputs generalizing start with
  | nil => rfl
  | cons input rest ih =>
    obtain ⟨middle, taken, later⟩ := Option.bind_eq_some_iff.mp reached
    have tail := ih later
    simp only [shown, trace, taken, Option.elim_some, List.flatMap_cons] at tail ⊢
    rw [tail]

/-- What a run shows is read off something finer that it shows. -/
theorem shown_label {shows : σ → ι → List κ} {label : κ → List ω}
    (same : ∀ before input after, lower before input = some after →
      (shows before input).flatMap label = observe before input)
    {start final : σ} {inputs : List ι} (reached : exec lower start inputs = some final) :
    (shown lower shows start inputs).flatMap label = shown lower observe start inputs := by
  induction inputs using List.reverseRecOn generalizing final with
  | nil => rfl
  | append_singleton done input ih =>
    obtain ⟨before, earlier, taken⟩ := exec_concat_some reached
    rw [shown_concat earlier, shown_concat earlier, List.flatMap_append, ih earlier, same before input final taken]

theorem mem_shown {start : σ} {inputs : List ι} {seen : ω} (member : seen ∈ shown lower observe start inputs) :
    ∃ state, ∃ input ∈ inputs, seen ∈ observe state input := by
  induction inputs generalizing start with
  | nil => cases member
  | cons input rest ih =>
    simp only [shown, trace, List.flatMap_cons, List.mem_append] at member
    rcases member with now | later
    · exact ⟨start, input, List.mem_cons_self, now⟩
    · cases taken : lower start input with
      | none => simp [taken] at later
      | some middle =>
        simp only [taken, Option.elim_some] at later
        obtain ⟨state, other, inside, observed⟩ := ih later
        exact ⟨state, other, List.mem_cons_of_mem _ inside, observed⟩

/-- A view of the state runs on what the steps show, if each step of it does. -/
theorem exec_shown {view : σ → τ} {shows : σ → ι → List κ}
    (steps : ∀ before input after, lower before input = some after →
      exec upper (view before) (shows before input) = some (view after))
    {start final : σ} {inputs : List ι} (reached : exec lower start inputs = some final) :
    exec upper (view start) (shown lower shows start inputs) = some (view final) := by
  induction inputs using List.reverseRecOn generalizing final with
  | nil =>
    cases reached
    rfl
  | append_singleton done input ih =>
    obtain ⟨before, earlier, taken⟩ := exec_concat_some reached
    rw [shown_concat earlier, exec_append, ih earlier]
    exact steps before input final taken

/-- There is a run from the one state to the other that shows this. -/
def Shows (step : σ → ι → Option σ) (observe : σ → ι → List ω) (start : σ) (seen : List ω) (final : σ) : Prop :=
  ∃ inputs, exec step start inputs = some final ∧ shown step observe start inputs = seen

theorem Shows.nil (start : σ) : Shows lower observe start [] start := ⟨[], rfl, rfl⟩

theorem Shows.one {start final : σ} {input : ι} {seen : List ω} (taken : lower start input = some final)
    (same : observe start input = seen) : Shows lower observe start seen final := by
  refine ⟨[input], ?_, ?_⟩
  · rw [exec_cons, taken]
    rfl
  · have begun : exec lower start [] = some start := rfl
    rw [← same]
    exact shown_concat begun input

theorem Shows.trans {start middle final : σ} {first rest : List ω} (former : Shows lower observe start first middle)
    (latter : Shows lower observe middle rest final) : Shows lower observe start (first ++ rest) final := by
  obtain ⟨inputs, reached, rfl⟩ := former
  obtain ⟨more, further, rfl⟩ := latter
  refine ⟨inputs ++ more, ?_, shown_append reached more⟩
  rw [exec_append, reached, Option.bind_some, further]

/-- Each step from related states is matched by a run that shows the same and relates
the states again. -/
def Refines (lower : σ → ι → Option σ) (upper : τ → κ → Option τ) (observe : σ → ι → List ω)
    (display : τ → κ → List ω) (relation : σ → τ → Prop) : Prop :=
  ∀ before input after high, relation before high → lower before input = some after →
    ∃ final, Shows upper display high (observe before input) final ∧ relation after final

/-- Every run of the lower machine is matched by one of the upper. -/
theorem Refines.run {relation : σ → τ → Prop} (refines : Refines lower upper observe display relation)
    {start final : σ} {high : τ} (related : relation start high) {inputs : List ι}
    (reached : exec lower start inputs = some final) :
    ∃ top, Shows upper display high (shown lower observe start inputs) top ∧ relation final top := by
  induction inputs using List.reverseRecOn generalizing final with
  | nil =>
    cases reached
    exact ⟨high, .nil high, related⟩
  | append_singleton done input ih =>
    obtain ⟨before, earlier, taken⟩ := exec_concat_some reached
    obtain ⟨middle, climbed, held⟩ := ih earlier
    obtain ⟨top, matched, after⟩ := refines before input final middle held taken
    rw [shown_concat earlier]
    exact ⟨top, climbed.trans matched, after⟩

/-- A relation that the steps of two machines on the same inputs keep is one of their runs. -/
theorem follow {above : τ → ι → Option τ} {relation : σ → τ → Prop}
    (kept : ∀ before input after high, relation before high → lower before input = some after →
      ∃ final, above high input = some final ∧ relation after final) {start final : σ} {high : τ} {inputs : List ι}
    (related : relation start high) (reached : exec lower start inputs = some final) :
    ∃ top, exec above high inputs = some top ∧ relation final top := by
  induction inputs generalizing start high with
  | nil =>
    cases reached
    exact ⟨high, rfl, related⟩
  | cons input rest ih =>
    obtain ⟨middle, taken, later⟩ := Option.bind_eq_some_iff.mp reached
    obtain ⟨next, stepped, held⟩ := kept start input middle high related taken
    obtain ⟨top, run, after⟩ := ih held later
    exact ⟨top, by rw [exec_cons, stepped, Option.bind_some, run], after⟩

/-- A view of the state that each step leaves alone or moves by a step of the upper machine. -/
theorem Refines.view {view : σ → τ}
    (steps : ∀ before input after, lower before input = some after →
      (view after = view before ∧ observe before input = []) ∨
        ∃ move, upper (view before) move = some (view after) ∧ display (view before) move = observe before input) :
    Refines lower upper observe display fun state high => view state = high := by
  rintro before input after _ rfl taken
  rcases steps before input after taken with ⟨same, silent⟩ | ⟨move, moved, shows⟩
  · rw [silent]
    exact ⟨view before, .nil _, same⟩
  · exact ⟨view after, .one moved shows, rfl⟩

end ShowdownCli.Library.Runs
