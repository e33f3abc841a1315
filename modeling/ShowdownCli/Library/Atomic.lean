import Mathlib.Data.List.Basic
import Mathlib.Logic.Function.Basic
import ShowdownCli.Library.Refinement

/-! The atomic object. Processes call it and get answers; every call takes effect at
one moment between the two, and the effects alone are a sequential use of the object.
A concurrent machine whose runs show the calls and answers of a run of the atomic
object is linearizable. -/

namespace ShowdownCli.Library.Atomic

universe u
variable {π κ ω τ : Type u}

/-- What is seen of a call from outside. -/
inductive Mark (π κ ω : Type u) where
  | invoke (process : π) (input : κ)
  | respond (process : π) (answer : ω)
deriving DecidableEq

inductive Action (π κ : Type u) where
  | invoke (process : π) (input : κ)
  | effect (process : π)
  | respond (process : π)

/-- Where a process is in its call. -/
inductive Pending (κ ω : Type u) where
  | idle
  | called (input : κ)
  | answered (answer : ω)
deriving DecidableEq

/-- `performed` records the effects: who called what, and the answer. -/
structure Object (π κ ω τ : Type u) where
  value : τ
  pending : π → Pending κ ω
  performed : List (π × κ × ω)

def start (value : τ) : Object π κ ω τ := { value, pending := fun _ => .idle, performed := [] }

def marks (object : Object π κ ω τ) : Action π κ → List (Mark π κ ω)
  | .invoke process input => [.invoke process input]
  | .effect _ => []
  | .respond process =>
    match object.pending process with
    | .answered answer => [.respond process answer]
    | _ => []

theorem marks_respond {object : Object π κ ω τ} {process : π} {answer : ω}
    (answered : object.pending process = .answered answer) :
    marks object (.respond process) = [.respond process answer] := by
  simp [marks, answered]

variable [DecidableEq π]

def Object.waiting (object : Object π κ ω τ) (process : π) (pending : Pending κ ω) : Object π κ ω τ :=
  { object with pending := Function.update object.pending process pending }

/-- The object after the effect of a call. -/
def Object.perform (object : Object π κ ω τ) (process : π) (input : κ) (answer : ω) (value : τ) : Object π κ ω τ :=
  { object.waiting process (.answered answer) with
    value, performed := object.performed ++ [(process, input, answer)] }

def step (model : κ → StateM τ ω) (object : Object π κ ω τ) : Action π κ → Option (Object π κ ω τ)
  | .invoke process input =>
    match object.pending process with
    | .idle => some (object.waiting process (.called input))
    | _ => none
  | .effect process =>
    match object.pending process with
    | .called input =>
      let (answer, value) := (model input).run object.value
      some (object.perform process input answer value)
    | _ => none
  | .respond process =>
    match object.pending process with
    | .answered _ => some (object.waiting process .idle)
    | _ => none

@[simp] theorem waiting_self (object : Object π κ ω τ) (process : π) (pending : Pending κ ω) :
    (object.waiting process pending).pending process = pending := Function.update_self ..

theorem waiting_other {process other : π} (apart : other ≠ process) (object : Object π κ ω τ)
    (pending : Pending κ ω) : (object.waiting process pending).pending other = object.pending other :=
  Function.update_of_ne apart ..

theorem perform_self (object : Object π κ ω τ) (process : π) (input : κ) (answer : ω) (value : τ) :
    (object.perform process input answer value).pending process = .answered answer := Function.update_self ..

theorem perform_other {process other : π} (apart : other ≠ process) (object : Object π κ ω τ) (input : κ)
    (answer : ω) (value : τ) :
    (object.perform process input answer value).pending other = object.pending other :=
  Function.update_of_ne apart ..

variable {model : κ → StateM τ ω} {object : Object π κ ω τ} {process : π}

theorem invokes (model : κ → StateM τ ω) (idle : object.pending process = .idle) (input : κ) :
    Runs.Shows (step model) marks object [.invoke process input] (object.waiting process (.called input)) := by
  have taken : step model object (.invoke process input) = some (object.waiting process (.called input)) := by
    simp [step, idle]
  exact .one taken rfl

theorem performs {input : κ} {answer : ω} {value : τ} (called : object.pending process = .called input)
    (performed : (model input).run object.value = (answer, value)) :
    Runs.Shows (step model) marks object [] (object.perform process input answer value) := by
  have taken : step model object (.effect process) = some (object.perform process input answer value) := by
    simp [step, called, performed]
  exact .one taken rfl

theorem responds {answer : ω} (answered : object.pending process = .answered answer) :
    Runs.Shows (step model) marks object [.respond process answer] (object.waiting process .idle) := by
  have taken : step model object (.respond process) = some (object.waiting process .idle) := by
    simp [step, answered]
  exact .one taken (marks_respond answered)

/-! ## The effects as a sequential use -/

def invocations (process : π) (seen : List (Mark π κ ω)) : List κ :=
  seen.filterMap fun
    | .invoke caller input => if caller = process then some input else none
    | .respond _ _ => none

def responses (process : π) (seen : List (Mark π κ ω)) : List ω :=
  seen.filterMap fun
    | .respond caller answer => if caller = process then some answer else none
    | .invoke _ _ => none

/-- The effects of the calls of one process. -/
def effects (process : π) (performed : List (π × κ × ω)) : List (κ × ω) :=
  (performed.filter fun effect => effect.1 = process).map Prod.snd

def Pending.unperformed : Pending κ ω → List κ
  | .called input => [input]
  | _ => []

def Pending.unanswered : Pending κ ω → List ω
  | .answered answer => [answer]
  | _ => []

/-- The calls made one after another, in the order of their effects, give the answers that
the processes hear, and each process hears those of its own calls in its own order. -/
structure Sequential (model : κ → StateM τ ω) (initial : τ) (seen : List (Mark π κ ω)) (object : Object π κ ω τ) :
    Prop where
  legal : ((object.performed.map fun effect => effect.2.1).mapM model).run initial =
    (object.performed.map fun effect => effect.2.2, object.value)
  called : ∀ process, invocations process seen =
    (effects process object.performed).map Prod.fst ++ (object.pending process).unperformed
  answered : ∀ process, responses process seen ++ (object.pending process).unanswered =
    (effects process object.performed).map Prod.snd

variable {model : κ → StateM τ ω} {initial : τ} {seen : List (Mark π κ ω)} {object after : Object π κ ω τ}

theorem Sequential.start : Sequential model initial [] (start initial : Object π κ ω τ) :=
  ⟨rfl, fun _ => rfl, fun _ => rfl⟩

theorem effects_append (process : π) (performed : List (π × κ × ω)) (caller : π) (input : κ) (answer : ω) :
    effects process (performed ++ [(caller, input, answer)]) =
      effects process performed ++ if caller = process then [(input, answer)] else [] := by
  rw [effects, List.filter_append, List.map_append]
  congr 1
  by_cases same : caller = process <;> simp [same]

theorem Sequential.invoke (sequential : Sequential model initial seen object) {process : π} {input : κ}
    (taken : step model object (.invoke process input) = some after) :
    Sequential model initial (seen ++ [.invoke process input]) after := by
  simp only [step] at taken
  split at taken
  next idle =>
    cases taken
    refine ⟨sequential.legal, fun other => ?_, fun other => ?_⟩
    · have called := sequential.called other
      rw [invocations] at called ⊢
      rw [List.filterMap_append, called]
      by_cases same : process = other
      · subst same
        simp [Object.waiting, idle, Pending.unperformed]
      · simp [Object.waiting, same, Function.update_of_ne (Ne.symm same)]
    · have answered := sequential.answered other
      rw [responses, List.filterMap_append]
      by_cases same : process = other
      · subst same
        simpa [Object.waiting, idle, Pending.unanswered, responses] using answered
      · simpa [Object.waiting, Function.update_of_ne (Ne.symm same), responses] using answered
  next => cases taken

theorem Sequential.effect (sequential : Sequential model initial seen object) {process : π}
    (taken : step model object (.effect process) = some after) : Sequential model initial seen after := by
  simp only [step] at taken
  split at taken
  next input called =>
    cases taken
    refine ⟨?_, fun other => ?_, fun other => ?_⟩
    · have legal := sequential.legal
      simp only [Object.perform, List.map_append, List.mapM_append, StateT.run_bind, legal]
      rfl
    · have before := sequential.called other
      rw [before, Object.perform, effects_append]
      by_cases same : process = other
      · subst same
        simp [Object.waiting, called, Pending.unperformed]
      · simp [Object.waiting, same, Function.update_of_ne (Ne.symm same)]
    · have before := sequential.answered other
      rw [Object.perform, effects_append]
      by_cases same : process = other
      · subst same
        simp only [called, Pending.unanswered, List.append_nil] at before
        simp [Object.waiting, before, Pending.unanswered]
      · simpa [Object.waiting, same, Function.update_of_ne (Ne.symm same)] using before
  next => cases taken

theorem Sequential.respond (sequential : Sequential model initial seen object) {process : π}
    (taken : step model object (.respond process) = some after) :
    Sequential model initial (seen ++ marks object (.respond process)) after := by
  simp only [step] at taken
  split at taken
  next answer answered =>
    cases taken
    rw [marks_respond answered]
    refine ⟨sequential.legal, fun other => ?_, fun other => ?_⟩
    · have before := sequential.called other
      rw [invocations, List.filterMap_append]
      by_cases same : process = other
      · subst same
        simpa [Object.waiting, answered, Pending.unperformed, invocations] using before
      · simpa [Object.waiting, Function.update_of_ne (Ne.symm same), invocations] using before
    · have before := sequential.answered other
      rw [show (object.waiting process .idle).performed = object.performed from rfl, ← before, responses,
        List.filterMap_append]
      by_cases same : process = other
      · subst same
        simp [Object.waiting, answered, Pending.unanswered, responses]
      · simp [Object.waiting, same, Function.update_of_ne (Ne.symm same), responses]
  next => cases taken

theorem Sequential.step (sequential : Sequential model initial seen object) {action : Action π κ}
    (taken : Atomic.step model object action = some after) :
    Sequential model initial (seen ++ marks object action) after := by
  cases action with
  | invoke process input => exact sequential.invoke taken
  | respond process => exact sequential.respond taken
  | effect process =>
    rw [marks, List.append_nil]
    exact sequential.effect taken

/-- Every run of the atomic object is a sequential use of it. -/
theorem sequential {actions : List (Action π κ)}
    (reached : Runs.exec (Atomic.step model) (Atomic.start initial) actions = some object) :
    Sequential model initial (Runs.shown (Atomic.step model) marks (Atomic.start initial) actions) object := by
  have tracked : Runs.exec (Atomic.step model) (Atomic.start initial) actions = some object ∧
      Sequential model initial (Runs.shown (Atomic.step model) marks (Atomic.start initial) actions) object := by
    refine Runs.always (fun actions object => Runs.exec (Atomic.step model) (Atomic.start initial) actions = some object ∧
      Sequential model initial (Runs.shown (Atomic.step model) marks (Atomic.start initial) actions) object) ?_ ?_ reached
    · exact ⟨rfl, Sequential.start⟩
    · intro done action before after held taken
      obtain ⟨earlier, sequential⟩ := held
      refine ⟨?_, ?_⟩
      · rw [Runs.exec_concat, earlier]
        exact taken
      · rw [Runs.shown_concat earlier]
        exact sequential.step taken
  exact tracked.2

/-! ## Linearizability -/

/-- The history is one of the atomic object, which it leaves with this value. -/
def Linearizable (model : κ → StateM τ ω) (initial final : τ) (history : List (Mark π κ ω)) : Prop :=
  ∃ object, Runs.Shows (Atomic.step model) marks (Atomic.start initial) history object ∧ object.value = final

theorem Linearizable.sequential {final : τ} {history : List (Mark π κ ω)}
    (linearizable : Linearizable model initial final history) :
    ∃ object, Sequential model initial history object ∧ object.value = final := by
  obtain ⟨object, ⟨actions, reached, rfl⟩, value⟩ := linearizable
  exact ⟨object, Atomic.sequential reached, value⟩

end ShowdownCli.Library.Atomic
