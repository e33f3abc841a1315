import ShowdownCli.Library.Results
import ShowdownCli.App
import ShowdownCli.Proofs.QueueContents

/-! Delivering one event to the layers. What a layer may submit in answer depends
on its kind alone, and delivery changes nothing of the application but the
objects, the client, the output and the end of the event queue. -/

namespace ShowdownCli
open Library

inductive LayerKind where
  | menu
  | login
  | battle
deriving DecidableEq

def Layer.kind : Layer → LayerKind
  | .menu => .menu
  | .login _ => .login
  | .battle _ => .battle

/-- The events a layer at an address may submit in answer to one; quitting aside. -/
def LayerKind.Answers (this : Nat) : LayerKind → Event → Event → Prop
  | .menu, .command _, answer => answer = .battleSearch ∨ ∃ isSignup, answer = .login isSignup
  | .login, .command _, answer => answer = .layerPop this true
  | .battle, .message _, answer => answer = .layerPop this false ∨ answer = .battleJoin
  | _, _, _ => False

structure Reacts (this : Nat) (kind : LayerKind) (event : Event) (submitted : List Event) (handled : Bool) : Prop where
  single : submitted.length ≤ 1
  answers : ∀ answer ∈ submitted, kind.Answers this event answer
  command : ∀ cmd, event = .command cmd → handled = true

theorem Reacts.silent (this : Nat) (kind : LayerKind) (event : Event) {handled : Bool}
    (command : ∀ cmd, event = .command cmd → handled = true) : Reacts this kind event [] handled :=
  ⟨Nat.zero_le 1, fun _ member => absurd member List.not_mem_nil, command⟩

theorem Reacts.answer {this : Nat} {kind : LayerKind} {event answer : Event}
    (answers : kind.Answers this event answer) : Reacts this kind event [answer] true :=
  ⟨Nat.le_refl 1, fun _ member => List.mem_singleton.mp member ▸ answers, fun _ _ => rfl⟩

variable {world : World} {this : Nat} {client : PsClient} {event : Event}

theorem MenuLayer.reacts {reaction : Reaction Unit} (stays : event ≠ .command "q")
    (reacted : MenuLayer.onEvent this client event = .ok reaction) :
    Reacts this .menu event reaction.submitted reaction.handled := by
  cases event with
  | command cmd =>
    have other : cmd ≠ "q" := fun quit => stays (quit ▸ rfl)
    simp only [onEvent, onCommand, Except.ok.injEq] at reacted
    subst reacted
    split
    next => exact .answer (Or.inl rfl)
    next =>
      split
      next => exact .answer (Or.inr ⟨_, rfl⟩)
      next =>
        split
        next => exact .answer (Or.inr ⟨_, rfl⟩)
        next => exact .silent _ _ _ fun _ _ => rfl
  | message msg =>
    simp only [onEvent, onMessage] at reacted
    split at reacted
    next =>
      obtain ⟨winner, _, shown⟩ := except_bind_ok.mp reacted
      cases shown
      exact .silent _ _ _ fun _ _ => rfl
    next =>
      cases reacted
      exact .silent _ _ _ fun _ _ => rfl
  | layerPush | layerPop | login | battleSearch | battleJoin =>
    cases reacted
    exact .silent _ _ _ (by simp)

theorem LoginOverlay.reacts (overlay : LoginOverlay) :
    Reacts this .login event (overlay.onEvent world this client event).submitted
      (overlay.onEvent world this client event).handled := by
  cases event with
  | command cmd =>
    simp only [onEvent, onCommand]
    repeat' split
    all_goals first | exact .answer rfl | exact .silent _ _ _ fun _ _ => rfl
  | message | layerPush | layerPop | login | battleSearch | battleJoin => exact .silent _ _ _ (by simp)

theorem BattleLayer.reacts {battle : BattleLayer} {reaction : Reaction BattleLayer}
    (reacted : battle.onEvent world this client event = .ok reaction) :
    Reacts this .battle event reaction.submitted reaction.handled := by
  cases event with
  | command cmd =>
    simp only [onEvent, onCommand] at reacted
    split at reacted
    next =>
      cases reacted
      exact .silent _ _ _ fun _ _ => rfl
    next =>
      repeat' split at reacted
      case isTrue =>
        obtain ⟨sent, _, done⟩ := except_bind_ok.mp reacted
        cases done
        exact .silent _ _ _ fun _ _ => rfl
      all_goals
        cases reacted
        exact .silent _ _ _ fun _ _ => rfl
  | message msg =>
    simp only [onEvent, onMessage] at reacted
    split at reacted
    next => cases reacted
    next =>
      repeat' split at reacted
      case isTrue =>
        obtain ⟨payload, _, found⟩ := except_bind_ok.mp reacted
        obtain ⟨searched, _, done⟩ := except_bind_ok.mp found
        cases done
        exact .silent _ _ _ fun _ _ => rfl
      all_goals cases reacted
      · exact .answer (Or.inl rfl)
      · exact .answer (Or.inr rfl)
      · exact .silent _ _ _ fun _ _ => rfl
  | layerPush | layerPop | login | battleSearch | battleJoin =>
    cases reacted
    exact .silent _ _ _ (by simp)

theorem Layer.reacts {layer : Layer} {reaction : Reaction Layer} (stays : event ≠ .command "q")
    (reacted : layer.onEvent world this client event = .ok reaction) :
    reaction.layer.kind = layer.kind ∧ Reacts this layer.kind event reaction.submitted reaction.handled := by
  cases layer with
  | menu =>
    obtain ⟨inner, shown, rfl⟩ := except_map_ok.mp reacted
    exact ⟨rfl, MenuLayer.reacts stays shown⟩
  | login overlay =>
    cases reacted
    exact ⟨rfl, overlay.reacts⟩
  | battle battleLayer =>
    obtain ⟨inner, shown, rfl⟩ := except_map_ok.mp reacted
    exact ⟨rfl, BattleLayer.reacts shown⟩

namespace PsApp

/-- The kinds of the layers by address. -/
def kinds (app : PsApp) : List (Option LayerKind) := app.objects.map (Option.map Layer.kind)

theorem object_some {app : PsApp} {layer : Nat} {object : Layer} :
    app.object layer = .ok object ↔ app.objects[layer]? = some (some object) := by
  unfold PsApp.object
  split
  next here => simp [here]
  next absent => exact iff_of_false (by simp) (absent object)

theorem object_kind {app : PsApp} {layer : Nat} {object : Layer} (found : app.object layer = .ok object) :
    app.kinds[layer]? = some (some object.kind) := by
  simp [kinds, object_some.mp found]

theorem kind_object {app : PsApp} {layer : Nat} {kind : LayerKind} (here : app.kinds[layer]? = some (some kind)) :
    ∃ object, app.object layer = .ok object ∧ object.kind = kind := by
  simp only [kinds, List.getElem?_map, Option.map_eq_some_iff] at here
  obtain ⟨_, found, object, rfl, same⟩ := here
  exact ⟨object, object_some.mpr found, same⟩

theorem kind_menu {app : PsApp} {layer : Nat} (here : app.kinds[layer]? = some (some .menu)) :
    app.objects[layer]? = some (some .menu) := by
  obtain ⟨object, found, kind⟩ := kind_object here
  cases object with
  | menu => exact object_some.mp found
  | login | battle => cases kind

/-- What the delivery of an event leaves alone. -/
structure Frame (app after : PsApp) : Prop where
  layerstack : after.layerstack = app.layerstack
  kinds : after.kinds = app.kinds
  phase : after.phase = app.phase
  dispatched : after.dispatched = app.dispatched

theorem Frame.refl (app : PsApp) : Frame app app := ⟨rfl, rfl, rfl, rfl⟩

theorem Frame.trans {app middle after : PsApp} (first : Frame app middle) (last : Frame middle after) :
    Frame app after :=
  ⟨last.layerstack.trans first.layerstack, last.kinds.trans first.kinds, last.phase.trans first.phase,
    last.dispatched.trans first.dispatched⟩

/-- The event queue has grown by these events. -/
def Queued (app after : PsApp) (added : List Event) : Prop :=
  after.eventQueue.contents = app.eventQueue.contents ++ added.map some

theorem Queued.refl (app : PsApp) : Queued app app [] := by simp [Queued]

theorem Queued.trans {app middle after : PsApp} {first last : List Event} (former : Queued app middle first)
    (latter : Queued middle after last) : Queued app after (first ++ last) := by
  unfold Queued at *
  rw [latter, former, List.append_assoc, List.map_append]

/-- What is submitted to a full queue is dropped. -/
theorem submits (app : PsApp) (events : List Event) :
    Frame app (events.foldl submit app) ∧
      ∃ added, added.Sublist events ∧ Queued app (events.foldl submit app) added := by
  induction events generalizing app with
  | nil => exact ⟨.refl app, [], .refl _, .refl app⟩
  | cons e rest ih =>
    have same : Frame app (app.submit e) := ⟨rfl, rfl, rfl, rfl⟩
    obtain ⟨frame, added, part, queued⟩ := ih (app.submit e)
    refine ⟨same.trans frame, ?_⟩
    rcases app.eventQueue.push_cases (some e) with pushed | refused
    · have first : Queued app (app.submit e) [e] := pushed
      exact ⟨e :: added, part.cons_cons e, first.trans queued⟩
    · have first : Queued app (app.submit e) [] := refused.trans (List.append_nil _).symm
      exact ⟨added, part.cons e, first.trans queued⟩

theorem react_frame {app : PsApp} {layer : Nat} {object : Layer} {reaction : Reaction Layer}
    (found : app.object layer = .ok object) (kind : reaction.layer.kind = object.kind) :
    Frame app (app.react layer reaction) ∧
      ∃ added, added.Sublist reaction.submitted ∧ Queued app (app.react layer reaction) added := by
  let replaced : PsApp := { app with
    client := reaction.client
    objects := app.objects.set layer (some reaction.layer)
    printed := app.printed ++ reaction.printed }
  have same : Frame app replaced := by
    refine ⟨rfl, ?_, rfl, rfl⟩
    obtain ⟨inside, here⟩ := List.getElem?_eq_some_iff.mp (object_kind found)
    rw [← kind] at here
    change (app.objects.set layer (some reaction.layer)).map (Option.map Layer.kind) = app.kinds
    rw [List.map_set, Option.map_some, ← here]
    exact List.set_getElem_self inside
  obtain ⟨frame, queued⟩ := submits replaced reaction.submitted
  exact ⟨same.trans frame, queued⟩

/-- What holds of each reaction, and of one after the other, holds of a delivery. -/
theorem offer_always {relation : PsApp → PsApp → Prop} {layers : List Nat} {app after : PsApp}
    (refl : ∀ app, relation app app)
    (trans : ∀ {app middle after}, relation app middle → relation middle after → relation app after)
    (reacts : ∀ {app layer object reaction}, layer ∈ layers → app.object layer = .ok object →
      object.onEvent world layer app.client event = .ok reaction → relation app (app.react layer reaction))
    (offered : offer world event layers app = .ok after) : relation app after := by
  induction layers generalizing app with
  | nil =>
    cases offered
    exact refl _
  | cons layer below ih =>
    obtain ⟨object, found, rest⟩ := except_bind_ok.mp offered
    obtain ⟨reaction, reacted, rest⟩ := except_bind_ok.mp rest
    have first := reacts List.mem_cons_self found reacted
    split at rest
    next =>
      cases rest
      exact first
    next =>
      apply trans first
      exact ih (fun member => reacts (List.mem_cons_of_mem _ member)) rest

/-- Every event that a delivery adds to the queue answers on behalf of a layer that
was offered the event. -/
theorem offer_delivers {layers : List Nat} {app after : PsApp} (stays : event ≠ .command "q")
    (offered : offer world event layers app = .ok after) :
    Frame app after ∧ ∃ added, Queued app after added ∧ ∀ answer ∈ added, ∃ layer ∈ layers, ∃ kind,
      app.kinds[layer]? = some (some kind) ∧ kind.Answers layer event answer := by
  apply offer_always ?_ ?_ ?_ offered
  · exact fun app => ⟨.refl app, [], .refl app, by simp⟩
  · intro app middle after first last
    obtain ⟨frame, added, queued, answered⟩ := first
    obtain ⟨later, more, grown, answers⟩ := last
    refine ⟨frame.trans later, added ++ more, queued.trans grown, fun answer member => ?_⟩
    rcases List.mem_append.mp member with member | member
    · exact answered answer member
    · obtain ⟨layer, inside, kind, here, answers⟩ := answers answer member
      exact ⟨layer, inside, kind, frame.kinds ▸ here, answers⟩
  · intro app layer object reaction inside found reacted
    obtain ⟨kind, reacts⟩ := Layer.reacts stays reacted
    obtain ⟨frame, added, part, queued⟩ := react_frame found kind
    refine ⟨frame, added, queued, fun answer member => ?_⟩
    exact ⟨layer, inside, object.kind, object_kind found, reacts.answers answer (part.subset member)⟩

/-- A command goes to the top layer only. -/
theorem offer_command {top : Nat} {below : List Nat} {cmd : String} {app after : PsApp} (stays : cmd ≠ "q")
    (offered : offer world (.command cmd) (top :: below) app = .ok after) :
    Frame app after ∧ ∃ added, Queued app after added ∧ added.length ≤ 1 ∧
      ∃ kind, app.kinds[top]? = some (some kind) ∧ ∀ answer ∈ added, kind.Answers top (.command cmd) answer := by
  obtain ⟨object, found, rest⟩ := except_bind_ok.mp offered
  obtain ⟨reaction, reacted, rest⟩ := except_bind_ok.mp rest
  obtain ⟨kind, reacts⟩ := Layer.reacts (by simpa using stays) reacted
  obtain ⟨frame, added, part, queued⟩ := react_frame found kind
  rw [if_pos (reacts.command cmd rfl)] at rest
  cases rest
  exact ⟨frame, added, queued, Nat.le_trans part.length_le reacts.single, object.kind, object_kind found,
    fun answer member => reacts.answers answer (part.subset member)⟩

end PsApp
end ShowdownCli
