import ShowdownCli.Proofs.AppProgress
import ShowdownCli.Proofs.AppScreen
import ShowdownCli.Proofs.BattleCommands

/-! The battle layers of the application. Each one is a run of its own: of the messages that
end at it and of the commands that are typed while it is on top, and of nothing else. -/

namespace ShowdownCli
open Library

def Layer.asBattle : Layer → Option BattleLayer
  | .battle battleLayer => some battleLayer
  | _ => none

variable {world : World} {this : Nat} {client : PsClient}

/-- A battle reacts as in its own run. -/
theorem Layer.asBattle_react {layer : Layer} {event : Event} {reaction : Reaction Layer}
    (reacted : layer.onEvent world this client event = .ok reaction) {next : BattleLayer}
    (becomes : reaction.layer.asBattle = some next) :
    ∃ battle, layer.asBattle = some battle ∧ ∀ play : Play, play.battle = battle →
      ∃ after, play.step world this (client, event) = some after ∧ after.battle = next := by
  cases layer with
  | menu =>
    obtain ⟨inner, _, rfl⟩ := except_map_ok.mp reacted
    cases becomes
  | login overlay =>
    cases reacted
    cases becomes
  | battle battleLayer =>
    obtain ⟨inner, shown, rfl⟩ := except_map_ok.mp reacted
    cases becomes
    refine ⟨battleLayer, rfl, fun play same => ?_⟩
    subst same
    exact ⟨_, Play.step_some.mpr ⟨inner, shown, rfl⟩, rfl⟩

namespace Play

/-- The messages among what a battle is told. -/
def heard (inputs : List (PsClient × Event)) : List Message :=
  inputs.filterMap fun input => match input.2 with
    | .message msg => some msg
    | _ => none

theorem exec_state {play final : Play} {inputs : List (PsClient × Event)}
    (run : Runs.exec (step world this) play inputs = some final) :
    Runs.exec (BattleState.step world.parse) play.battle.state (heard inputs) = some final.battle.state := by
  induction inputs generalizing play with
  | nil =>
    cases run
    rfl
  | cons input rest ih =>
    obtain ⟨middle, taken, later⟩ := Option.bind_eq_some_iff.mp run
    obtain ⟨client, event⟩ := input
    have quiet (same : middle.battle.state = play.battle.state) :
        Runs.exec (BattleState.step world.parse) play.battle.state (heard rest) = some final.battle.state := by
      rw [← same]
      exact ih later
    cases event with
    | message msg =>
      have applied := (step_message taken).1
      exact Option.bind_eq_some_iff.mpr ⟨_, applied, ih later⟩
    | command cmd =>
      apply quiet
      by_cases acting : acts cmd = true
      · exact (step_acts acting taken).2.1
      · rw [step_idle (by simpa using acting) taken]
    | layerPush | layerPop | login | battleSearch | battleJoin =>
      apply quiet
      obtain ⟨reaction, reacted, rfl⟩ := step_some.mp taken
      cases reacted
      rfl

end Play

namespace PsApp

def battleAt (app : PsApp) (layer : Nat) : Option BattleLayer := (app.objects[layer]?).join.bind Layer.asBattle

/-- Where a message ends: the first layer from the top that is not a login overlay. -/
def hearer (app : PsApp) (layers : List Nat) : Option Nat :=
  layers.find? fun layer => app.kinds[layer]? ≠ some (some .login)

/-- The event that a step delivers to a layer, with the client as it is then. -/
def delivery (layer : Nat) (app : PsApp) (action : Action) : Option (PsClient × Event) :=
  match action with
  | .message msg =>
    if app.hearer app.layerstack.layers.reverse = some layer then
      (app.client.receive msg).toOption.map fun client => (client, .message msg)
    else none
  | .dispatch =>
    match app.processing .dispatch with
    | some (.command cmd) =>
      if app.layerstack.layers.getLast? = some layer then some (app.client, .command cmd) else none
    | _ => none
  | _ => none

/-- Everything that a run delivers to a layer. -/
def delivered (world : World) (layer : Nat) (actions : List Action) : List (PsClient × Event) :=
  (Runs.trace (step world) init actions).filterMap fun (app, action) => app.delivery layer action

variable {app start after : PsApp} {event : Event} {layers : List Nat} {layer other : Nat}

theorem battleAt_react {object : Layer} {reaction : Reaction Layer} (found : app.object layer = .ok object) :
    (app.react layer reaction).battleAt other =
      if layer = other then reaction.layer.asBattle else app.battleAt other := by
  obtain ⟨eventQueue, submitted, changed⟩ := react_changes app layer reaction
  obtain ⟨inside, _⟩ := List.getElem?_eq_some_iff.mp (object_some.mp found)
  rw [changed, battleAt]
  split
  next same =>
    subst same
    rw [List.getElem?_set_self inside]
    rfl
  next apart =>
    rw [List.getElem?_set_ne apart]
    rfl

theorem battleAt_object {object : Layer} (found : app.object layer = .ok object) :
    app.battleAt layer = object.asBattle := by
  rw [battleAt, object_some.mp found]
  rfl

/-- The battle at a layer goes on as in its own run when it is told of an event. -/
def Answers (world : World) (app after : PsApp) (layer : Nat) (input : PsClient × Event) : Prop :=
  ∀ next, after.battleAt layer = some next → ∃ battle, app.battleAt layer = some battle ∧
    ∀ play : Play, play.battle = battle → ∃ later, play.step world layer input = some later ∧ later.battle = next

/-- Only the layer that is chosen is told of the event. -/
def Tells (world : World) (app after : PsApp) (chosen : Option Nat) (event : Event) : Prop :=
  ∀ layer, if chosen = some layer then Answers world app after layer (app.client, event)
    else after.battleAt layer = app.battleAt layer

theorem react_tells {object : Layer} {reaction : Reaction Layer} (found : app.object layer = .ok object)
    (reacted : object.onEvent world layer app.client event = .ok reaction) :
    Tells world app (app.react layer reaction) (some layer) event := by
  intro other
  by_cases same : layer = other
  · subst same
    rw [if_pos rfl]
    intro next becomes
    rw [battleAt_react found, if_pos rfl] at becomes
    rw [battleAt_object found]
    exact Layer.asBattle_react reacted becomes
  · rw [if_neg (by simpa using same), battleAt_react found, if_neg same]

theorem offer_message_tells {msg : Message} (offered : offer world (.message msg) layers app = .ok after) :
    Tells world app after (app.hearer layers) (.message msg) := by
  induction layers with
  | nil =>
    cases offered
    intro layer
    rfl
  | cons layer below ih =>
    obtain ⟨object, found, rest⟩ := except_bind_ok.mp offered
    obtain ⟨reaction, reacted, rest⟩ := except_bind_ok.mp rest
    have handled := (Layer.message reacted).1
    have here := object_kind found
    by_cases login : object.kind = .login
    · have passed : reaction.handled = false := by simp [handled, login]
      rw [passed] at rest
      cases object with
      | menu | battle => cases login
      | login overlay =>
        cases reacted
        have same : app.hearer (layer :: below) = app.hearer below := by
          rw [hearer, List.find?_cons_of_neg (by simp [here, login])]
          rfl
        rw [same]
        apply ih
        rw [← rest]
        exact congrArg (offer world (.message msg) below) (react_ignore found).symm
    · have taken : reaction.handled = true := by simp [handled, login]
      rw [taken] at rest
      cases rest
      have chosen : app.hearer (layer :: below) = some layer := by
        rw [hearer, List.find?_cons_of_pos (by simp [here, login])]
      rw [chosen]
      exact react_tells found reacted

theorem offer_command_tells {cmd : String} (offered : offer world (.command cmd) layers app = .ok after)
    (bottom : ∀ top below, layers = top :: below → below = [] ∨ app.kinds[top]? ≠ some (some .menu)) :
    Tells world app after layers.head? (.command cmd) := by
  cases layers with
  | nil =>
    cases offered
    intro layer
    rfl
  | cons top below =>
    obtain ⟨object, found, rest⟩ := except_bind_ok.mp offered
    obtain ⟨reaction, reacted, rest⟩ := except_bind_ok.mp rest
    split at rest
    next =>
      cases rest
      exact react_tells found reacted
    next passed =>
      rcases bottom top below rfl with rfl | other
      · cases rest
        exact react_tells found reacted
      · refine absurd ((Layer.command reacted).2.2 fun menu => other ?_) passed
        rw [object_kind found, menu]

/-- No battle was told of anything. -/
def Untold (app after : PsApp) : Prop := ∀ layer, after.battleAt layer = app.battleAt layer

/-- Other events tell no layer anything. -/
theorem offer_other_tells (command : ∀ cmd, event ≠ .command cmd) (message : ∀ msg, event ≠ .message msg)
    (offered : offer world event layers app = .ok after) : Untold app after := by
  apply offer_always ?_ ?_ ?_ offered
  · exact fun _ _ => rfl
  · exact fun first last layer => (last layer).trans (first layer)
  intro app other object reaction _ found reacted
  have ignored : reaction = .ignore object app.client := by
    cases event with
    | command cmd => exact absurd rfl (command cmd)
    | message msg => exact absurd rfl (message msg)
    | layerPush | layerPop | login | battleSearch | battleJoin => cases object <;> cases reacted <;> rfl
  rw [ignored, react_ignore found]
  exact fun _ => rfl

/-- Every battle is in the state to which its own run leads. -/
structure Follows (world : World) (done : List Action) (app : PsApp) : Prop where
  runs : ∀ layer battle, app.battleAt layer = some battle →
    ∃ play, Runs.exec (Play.step world layer) (Play.attach {}) (delivered world layer done) = some play ∧
      play.battle = battle
  fresh : ∀ layer, app.objects.length ≤ layer → delivered world layer done = []

variable {done : List Action} {action : Action}

theorem delivered_concat (reached : Runs.exec (step world) init done = some app) (layer : Nat) (action : Action) :
    delivered world layer (done ++ [action]) = delivered world layer done ++ (app.delivery layer action).toList := by
  rw [delivered, Runs.trace_concat reached, Log.filterMap_concat]
  rfl

/-- A step that tells no layer anything. -/
theorem Follows.same (follows : Follows world done app) (reached : Runs.exec (step world) init done = some app)
    (silent : ∀ layer, app.delivery layer action = none) (objects : after.objects = app.objects) :
    Follows world (done ++ [action]) after := by
  refine ⟨fun layer battle here => ?_, fun layer beyond => ?_⟩
  · rw [delivered_concat reached, silent, Option.toList_none, List.append_nil]
    rw [battleAt, objects] at here
    exact follows.runs layer battle here
  · rw [delivered_concat reached, silent, Option.toList_none, List.append_nil]
    exact follows.fresh layer (objects ▸ beyond)

/-- A step that changes the stack and then tells the layer that is chosen. -/
theorem Follows.told (follows : Follows world done app) (reached : Runs.exec (step world) init done = some app)
    {middle : PsApp} {chosen : Option Nat} (tells : Tells world middle after chosen event)
    (delivery : ∀ layer, app.delivery layer action = if chosen = some layer then some (middle.client, event) else none)
    (created : ∀ layer battle, middle.battleAt layer = some battle →
      app.battleAt layer = some battle ∨ app.objects.length ≤ layer ∧ battle = {})
    (live : ∀ layer, chosen = some layer → layer < app.objects.length)
    (grown : app.objects.length ≤ after.objects.length) : Follows world (done ++ [action]) after := by
  have before : ∀ layer battle, middle.battleAt layer = some battle →
      ∃ play, Runs.exec (Play.step world layer) (Play.attach {}) (delivered world layer done) = some play ∧
        play.battle = battle := by
    intro layer battle here
    rcases created layer battle here with old | ⟨beyond, rfl⟩
    · exact follows.runs layer battle old
    · rw [follows.fresh layer beyond]
      exact ⟨_, rfl, rfl⟩
  refine ⟨fun layer next here => ?_, fun layer beyond => ?_⟩
  · have told := tells layer
    rw [delivered_concat reached, delivery]
    by_cases same : chosen = some layer
    · rw [if_pos same] at told ⊢
      obtain ⟨battle, there, goes⟩ := told next here
      obtain ⟨play, run, stands⟩ := before layer battle there
      obtain ⟨later, stepped, becomes⟩ := goes play stands
      exact ⟨later, by rw [Option.toList_some, Runs.exec_concat, run, Option.bind_some, stepped], becomes⟩
    · rw [if_neg same] at told ⊢
      rw [Option.toList_none, List.append_nil]
      exact before layer next (told ▸ here)
  · rw [delivered_concat reached, delivery, if_neg, follows.fresh layer (Nat.le_trans grown beyond)]
    · rfl
    · intro same
      have inside := live layer same
      omega

/-- What a step does to the stack creates no battle but a fresh one. -/
theorem Outcome.created (outcome : Outcome start event after) :
    start.objects.length ≤ after.objects.length ∧ ∀ layer battle, after.battleAt layer = some battle →
      start.battleAt layer = some battle ∨ start.objects.length ≤ layer ∧ battle = {} := by
  cases outcome with
  | same same =>
    have objects := core_objects same
    exact ⟨by rw [objects], fun layer battle here => Or.inl (by rw [battleAt, objects] at here; exact here)⟩
  | opened _ _ _ _ objects =>
    exact ⟨by rw [objects], fun layer battle here => Or.inl (by rw [battleAt, objects] at here; exact here)⟩
  | removed it gone offset _ removed =>
    subst removed
    refine ⟨by simp [PsApp.removed], fun layer battle here => Or.inl ?_⟩
    rw [battleAt, PsApp.removed, List.getElem?_set] at here
    split at here
    next => split at here <;> cases here
    next => exact here
  | attached object base _ creates attached =>
    subst attached
    refine ⟨by simp [PsApp.attached], fun layer battle here => ?_⟩
    change (((start.objects ++ [some object])[layer]?).join.bind Layer.asBattle) = some battle at here
    by_cases inside : layer < start.objects.length
    · rw [List.getElem?_append_left inside] at here
      exact Or.inl here
    · rw [List.getElem?_append_right (by omega)] at here
      refine Or.inr ⟨by omega, ?_⟩
      cases position : layer - start.objects.length with
      | zero =>
        rw [position] at here
        rcases creates with ⟨_, rfl⟩ | ⟨isSignup, _, rfl⟩
        · cases here
          rfl
        · cases here
      | succ =>
        rw [position] at here
        cases here

theorem Frame.length (frame : Frame app after) : after.objects.length = app.objects.length := by
  have same := congrArg List.length frame.kinds
  simpa [PsApp.kinds] using same

theorem hearer_mem (heard : app.hearer layers = some layer) : layer ∈ layers := List.mem_of_find?_eq_some heard

theorem Owning.inside (owning : Owning app) (member : layer ∈ app.layerstack.layers) : layer < app.objects.length := by
  obtain ⟨object, here⟩ := owning.alive layer member
  exact (List.getElem?_eq_some_iff.mp here).1

theorem Follows.message {msg : Message} (follows : Follows world done app)
    (reached : Runs.exec (step world) init done = some app) (owning : Owning app)
    (taken : app.step world (.message msg) = some after) : Follows world (done ++ [.message msg]) after := by
  obtain ⟨_, client, received, delivered⟩ := step_message.mp taken
  have grown := (offer_frame delivered).length
  refine follows.told reached (offer_message_tells delivered) (fun layer => ?_) (fun _ _ here => Or.inl here) ?_ grown.ge
  · have heard : PsApp.hearer { app with client } = app.hearer := rfl
    rw [delivery, received, heard]
    rfl
  · intro layer heard
    exact owning.inside (List.mem_reverse.mp (hearer_mem heard))

theorem Follows.dispatch (follows : Follows world done app) (reached : Runs.exec (step world) init done = some app)
    (layered : Layered app) (owning : Owning app) (taken : app.step world .dispatch = some after) :
    Follows world (done ++ [.dispatch]) after := by
  obtain ⟨exit, phase, dispatched⟩ := step_dispatch.mp taken
  have quiet (none : app.processing .dispatch = none) (layer : Nat) : app.delivery layer .dispatch = .none := by
    simp [delivery, none]
  rcases dispatch_ok.mp dispatched with ⟨nothing, rfl⟩ | ⟨e, queue, popped, ⟨rfl, rfl⟩ | ⟨rfl, event, rfl, processed⟩⟩
  · refine follows.same reached (quiet ?_) rfl
    cases exit <;> simp [processing, phase, nothing]
  · exact follows.same reached (quiet (by simp [processing, phase])) rfl
  · obtain ⟨middle, handling, delivered⟩ := except_bind_ok.mp processed
    have outcome := layered.outcome phase popped rfl handling
    obtain ⟨grown, created⟩ := outcome.created
    have longer : app.objects.length ≤ after.objects.length := (offer_frame delivered).length ▸ grown
    have processing : app.processing .dispatch = some event := by simp [PsApp.processing, phase, popped]
    obtain ⟨_, same, message, commanded⟩ := layered.popped phase popped
    cases same
    by_cases command : ∃ cmd, event = .command cmd
    · obtain ⟨cmd, rfl⟩ := command
      obtain ⟨base, above, covered⟩ := commanded cmd rfl
      have core : middle.core = app.core := by
        cases handling
        split <;> rfl
      have covers : Covered middle base above := by
        refine ⟨?_, ?_, ?_⟩
        · rw [core_layerstack core]
          exact covered.layers
        · rw [core_kinds core]
          exact covered.base
        · rw [core_kinds core]
          exact covered.overlay
      refine follows.told reached (offer_command_tells delivered covers.bottom) (fun layer => ?_) created ?_ longer
      · rw [delivery, processing, core_layerstack core, core_client core, List.head?_reverse]
      · intro layer last
        rw [core_layerstack core, List.head?_reverse] at last
        exact owning.inside (List.mem_of_getLast? last)
    · have other : ∀ cmd, event ≠ .command cmd := fun cmd same => command ⟨cmd, same⟩
      have tells : Tells world middle after none event := fun layer => offer_other_tells other message delivered layer
      refine follows.told reached tells (fun layer => ?_) created (fun layer none => by cases none) longer
      rw [delivery, processing]
      cases event with
      | command cmd => exact absurd rfl (other cmd)
      | message | layerPush | layerPop | login | battleSearch | battleJoin => rfl

theorem Follows.step (follows : Follows world done app) (reached : Runs.exec (step world) init done = some app)
    (layered : Layered app) (owning : Owning app) (taken : app.step world action = some after) :
    Follows world (done ++ [action]) after := by
  cases action with
  | message msg => exact follows.message reached owning taken
  | dispatch => exact follows.dispatch reached layered owning taken
  | drained =>
    obtain ⟨_, rfl⟩ := step_drained.mp taken
    exact follows.same reached (fun _ => rfl) rfl
  | line line =>
    obtain ⟨_, rfl⟩ := step_line.mp taken
    exact follows.same reached (fun _ => rfl) (by cases line <;> rfl)
  | render =>
    obtain ⟨_, shown, rendered, rfl⟩ := step_render.mp taken
    have objects : shown.objects = app.objects := core_objects (onRender_core rendered).1
    exact follows.same reached (fun _ => rfl) objects

theorem following {actions : List Action} (reached : Runs.exec (step world) init actions = some app) :
    Follows world actions app := by
  have all : Runs.exec (step world) init actions = some app ∧ Layered app ∧ Owning app ∧ Follows world actions app := by
    refine Runs.always (fun done app => Runs.exec (step world) init done = some app ∧ Layered app ∧ Owning app ∧
      Follows world done app) ⟨rfl, .opening .initial, .pending .initial, ?_, fun _ _ => rfl⟩ ?_ reached
    · intro layer battle here
      cases layer <;> cases here
    · intro done action before after prior taken
      obtain ⟨earlier, layered, owning, follows⟩ := prior
      refine ⟨?_, layered.step taken, owning.step layered taken, follows.step earlier layered owning taken⟩
      rw [Runs.exec_concat, earlier, Option.bind_some, taken]
  exact all.2.2.2

/-- Every battle of every run of the main loop is a run of its own: it is where a fresh battle
is led by the messages that end at its layer and the commands typed while it is on top, and
its record is that of these messages alone. -/
theorem battles_follow {actions : List Action} (reached : Runs.exec (step world) init actions = some app)
    {battle : BattleLayer} (here : app.object layer = .ok (.battle battle)) :
    ∃ play, Runs.exec (Play.step world layer) (Play.attach {}) (delivered world layer actions) = some play ∧
      play.battle = battle ∧
      Runs.exec (BattleState.step world.parse) {} (Play.heard (delivered world layer actions)) = some battle.state := by
  obtain ⟨play, run, same⟩ := (following reached).runs layer battle (battleAt_object here)
  exact ⟨play, run, same, same ▸ Play.exec_state run⟩

private def noServer : World := { parse := fun _ => none, assertions := fun _ => "" }

/-- A battle is searched for and its timer turned on; a turn begins. -/
private def contest : List Action :=
  [.drained, .dispatch, .dispatch, .line (some "1"), .render, .drained, .dispatch, .dispatch, .dispatch,
    .line (some "t"), .render, .message { roomId := "battle-1", type := "turn", args := ["3"] }, .drained, .dispatch,
    .dispatch]

theorem battles_follow_contest :
    ∃ app, Runs.exec (step noServer) init contest = some app ∧
      ∃ play, Runs.exec (Play.step noServer 1) (Play.attach {}) (delivered noServer 1 contest) = some play ∧
        play.battle = { state := { turn := some 3 }, timerActive := true } ∧
        Runs.exec (BattleState.step noServer.parse) {} (Play.heard (delivered noServer 1 contest)) =
          some { turn := some 3 } := by
  have run : (Runs.exec (step noServer) init contest).map (fun app => app.objects[1]?) =
      some (some (some (.battle { state := { turn := some 3 }, timerActive := true }))) := by decide +kernel
  obtain ⟨app, reached, here⟩ := Option.map_eq_some_iff.mp run
  exact ⟨app, reached, battles_follow reached (object_some.mpr here)⟩

end PsApp
end ShowdownCli
