import ShowdownCli.Proofs.AppEventLoss
import ShowdownCli.Proofs.AppScreen

/-! Where the events of the queue come from. A command is a line that was typed, and a search is
begun by the line that asks for it; the layers make up neither. -/

namespace ShowdownCli
open Library

/-- What the turns have brought that leads to the event. -/
def Event.Given (actions : List PsApp.Action) : Event → Prop
  | .command cmd => .line (some cmd) ∈ actions
  | .message msg => .message msg ∈ actions
  | .battleSearch => .line (some "1") ∈ actions
  | _ => True

variable {world : World} {this : Nat} {client : PsClient} {event : Event} {actions : List PsApp.Action}

theorem MenuLayer.submits_given {reaction : Reaction Unit} (arrives : event.Given actions)
    (reacted : MenuLayer.onEvent this client event = .ok reaction) : ∀ answer ∈ reaction.submitted, answer.Given actions := by
  cases event with
  | command cmd =>
    simp only [onEvent, onCommand, Except.ok.injEq] at reacted
    subst reacted
    split
    next search =>
      subst search
      intro answer member
      cases List.mem_singleton.mp member
      exact arrives
    next =>
      repeat' split
      all_goals simp [Event.Given]
  | message msg =>
    have none := (MenuLayer.message reacted).2
    simp [none]
  | layerPush | layerPop | login | battleSearch | battleJoin =>
    cases reacted
    exact fun _ member => absurd member List.not_mem_nil

/-- A layer answers what it is given, and only the menu answers with a search. -/
theorem Layer.submits_given {layer : Layer} {reaction : Reaction Layer} (arrives : event.Given actions)
    (reacted : layer.onEvent world this client event = .ok reaction) : ∀ answer ∈ reaction.submitted, answer.Given actions := by
  cases layer with
  | menu =>
    obtain ⟨inner, shown, rfl⟩ := except_map_ok.mp reacted
    exact MenuLayer.submits_given arrives shown
  | login overlay =>
    cases reacted
    intro answer member
    have answers := overlay.reacts.answers answer member
    cases event with
    | command =>
      cases answers
      trivial
    | message | layerPush | layerPop | login | battleSearch | battleJoin => cases answers
  | battle battleLayer =>
    obtain ⟨inner, shown, rfl⟩ := except_map_ok.mp reacted
    intro answer member
    have answers := (BattleLayer.reacts shown).answers answer member
    cases event with
    | message =>
      rcases answers with rfl | rfl
      · trivial
      · trivial
    | command | layerPush | layerPop | login | battleSearch | battleJoin => cases answers

namespace PsApp
variable {app after : PsApp} {layer : Nat} {layers : List Nat} {action : Action}

/-- All that is in the queue has come from what the turns have brought. -/
def Informed (actions : List Action) (app : PsApp) : Prop :=
  ∀ event, some event ∈ app.eventQueue.contents → event.Given actions

theorem Informed.react (informed : Informed actions app) {object : Layer} {reaction : Reaction Layer}
    (arrives : event.Given actions) (reacted : object.onEvent world layer app.client event = .ok reaction) :
    Informed actions (app.react layer reaction) := by
  intro other member
  rw [(react_submits app layer reaction).queue] at member
  rcases List.mem_append.mp (List.mem_of_mem_take member) with old | new
  · exact informed other old
  · obtain ⟨answer, inside, same⟩ := List.mem_map.mp new
    cases same
    exact Layer.submits_given arrives reacted _ inside

theorem Informed.offer (informed : Informed actions app) (arrives : event.Given actions)
    (offered : PsApp.offer world event layers app = .ok after) : Informed actions after := by
  have always : Informed actions app → Informed actions after := by
    apply offer_always ?_ ?_ ?_ offered
    · exact fun app (informed : Informed actions app) => informed
    · intro app middle after first second informed
      exact second (first informed)
    · intro app layer object reaction _ _ reacted informed
      exact Informed.react informed arrives reacted
  exact always informed

theorem Informed.step (informed : Informed actions app) (brought : action ∈ actions)
    (taken : app.step world action = some after) : Informed actions after := by
  cases action with
  | message msg =>
    obtain ⟨_, client, _, delivered⟩ := step_message.mp taken
    have heard : Informed actions { app with client } := informed
    have arrives : (Event.message msg).Given actions := brought
    exact heard.offer arrives delivered
  | drained =>
    obtain ⟨_, rfl⟩ := step_drained.mp taken
    exact informed
  | dispatch =>
    obtain ⟨exit, phase, dispatched⟩ := step_dispatch.mp taken
    rcases dispatch_ok.mp dispatched with ⟨_, rfl⟩ | ⟨e, queue, popped, rest⟩
    · exact informed
    have contents := SPSCQueue.pop_some popped
    have fewer : ∀ event, some event ∈ queue.contents → event.Given actions :=
      fun event member => informed event (contents ▸ List.mem_cons_of_mem _ member)
    rcases rest with ⟨_, rfl⟩ | ⟨rfl, event, same, processed⟩
    · exact fewer
    · have arrives : event.Given actions := informed event (contents ▸ same ▸ List.mem_cons_self)
      obtain ⟨handled, handling, delivered⟩ := except_bind_ok.mp processed
      have begun : Informed actions handled := by
        intro event member
        rw [(handle_undisturbed handling).eventQueue] at member
        exact fewer event member
      exact begun.offer arrives delivered
  | line line =>
    obtain ⟨_, rfl⟩ := step_line.mp taken
    cases line with
    | none => exact informed
    | some cmd =>
      intro event member
      have queued : some event ∈ (app.submit (.command cmd)).eventQueue.contents := member
      rw [(submit_one app (.command cmd)).queue] at queued
      rcases List.mem_append.mp (List.mem_of_mem_take queued) with old | new
      · exact informed event old
      · cases List.mem_singleton.mp new
        exact brought
  | render =>
    obtain ⟨_, shown, rendered, rfl⟩ := step_render.mp taken
    obtain ⟨_, queue, _⟩ := onRender_frame rendered
    intro event member
    exact informed event (queue ▸ member)

theorem Informed.initial (actions : List Action) : Informed actions init := by
  have contents : init.eventQueue.contents = [some (.layerPush 0 false)] := by decide
  intro event member
  rw [contents] at member
  cases List.mem_singleton.mp member
  trivial

/-- The queue of a run holds what its turns, perhaps among others, have brought. -/
theorem informed {turns : List Action} (reached : Runs.exec (step world) init turns = some app) (inside : turns ⊆ actions) :
    Informed actions app := by
  refine Runs.always (fun done app => done ⊆ actions → Informed actions app) (fun _ => .initial actions) ?_ reached inside
  intro done action before after prior taken inside
  have earlier := prior (List.Subset.trans (List.subset_append_left ..) inside)
  exact earlier.step (inside (by simp)) taken

end PsApp
end ShowdownCli
