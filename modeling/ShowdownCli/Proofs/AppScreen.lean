import ShowdownCli.Proofs.AppOverlays

/-! What is on the screen. Only a message that a battle receives changes what a layer
would print, and only some events make the next `on_render` print it. -/

namespace ShowdownCli
open Library

variable {world : World} {this : Nat} {client : PsClient} {event : Event}

theorem LoginOverlay.command_isSignup (overlay : LoginOverlay) (cmd : String) :
    (onCommand world this overlay client cmd).layer.isSignup = overlay.isSignup := by
  unfold onCommand
  repeat' split
  all_goals rfl

theorem BattleLayer.render_congr {battle other : BattleLayer} (state : other.state = battle.state)
    (room : other.battleRoom = battle.battleRoom) : other.onRender = battle.onRender := by
  unfold onRender
  rw [state, room]

theorem BattleLayer.toggleTimer_onRender (battle : BattleLayer) (client : PsClient) :
    (battle.toggleTimer client).1.onRender = battle.onRender := by
  unfold toggleTimer
  split
  next => exact render_congr rfl rfl
  next => exact render_congr rfl rfl

theorem BattleLayer.command_onRender {battle : BattleLayer} {cmd : String} {reaction : Reaction BattleLayer}
    (reacted : battle.onCommand client cmd = .ok reaction) : reaction.layer.onRender = battle.onRender := by
  unfold onCommand at reacted
  split at reacted
  next =>
    cases reacted
    rfl
  next =>
    split at reacted
    next =>
      obtain ⟨sent, _, done⟩ := except_bind_ok.mp reacted
      cases done
      rfl
    next =>
      split at reacted
      next =>
        cases reacted
        rfl
      next =>
        split at reacted
        next =>
          cases reacted
          exact battle.toggleTimer_onRender client
        next =>
          split at reacted
          next =>
            cases reacted
            rfl
          next =>
            cases reacted
            rfl

theorem LoginOverlay.render_congr {overlay other : LoginOverlay} (same : other.isSignup = overlay.isSignup) :
    other.onRender = overlay.onRender := by
  unfold onRender
  rw [same]

/-- Only a message to a battle changes what a layer would print. -/
theorem Layer.onEvent_onRender {layer : Layer} {reaction : Reaction Layer}
    (reacted : layer.onEvent world this client event = .ok reaction)
    (calm : (∀ msg, event ≠ .message msg) ∨ layer.kind ≠ .battle) : reaction.layer.onRender = layer.onRender := by
  cases layer with
  | menu =>
    obtain ⟨inner, _, rfl⟩ := except_map_ok.mp reacted
    rfl
  | login overlay =>
    cases reacted
    refine congrArg Except.ok (LoginOverlay.render_congr ?_)
    cases event with
    | command cmd => exact overlay.command_isSignup cmd
    | message | layerPush | layerPop | login | battleSearch | battleJoin => rfl
  | battle battleLayer =>
    obtain ⟨inner, shown, rfl⟩ := except_map_ok.mp reacted
    cases event with
    | command cmd => exact BattleLayer.command_onRender shown
    | message msg =>
      rcases calm with other | other
      · exact absurd rfl (other msg)
      · exact absurd rfl other
    | layerPush | layerPop | login | battleSearch | battleJoin =>
      cases shown
      rfl

namespace PsApp
variable {app middle after : PsApp} {layers : List Nat} {base : List Nat} {above : Option Nat} {pending : List Event}

/-- What a layer would print now. -/
def display (app : PsApp) (layer : Nat) : Except Fault String := do (← app.object layer).onRender

/-- The text rendered last is what the top layer would print now. -/
def Current (app : PsApp) : Prop :=
  ∀ top, app.layerstack.layers.getLast? = some top →
    ∃ text, app.display top = .ok text ∧ app.rendered = some text

/-- The events that make `poll` set the dirty flag. -/
def redraws : Option Event → Bool
  | some (.layerPush _ _) | some (.layerPop _ _) | some (.login _) | some .battleSearch | some .battleJoin => true
  | _ => false

/-- One of them is pending, and not behind a `q`. -/
def RedrawPending (app : PsApp) : Prop :=
  (app.eventQueue.contents.takeWhile (· ≠ some (.command "q"))).any redraws = true

/-- When the inbound messages are drained, they have left the display alone, or the
screen is going to be redrawn. -/
def Announced (app : PsApp) (action : Action) : Prop :=
  action = .drained → app.dirtyUi = true ∨ Current app ∨ RedrawPending app

/-- What concerns the screen is the same. -/
structure Still (app after : PsApp) : Prop where
  layerstack : after.layerstack = app.layerstack
  display : ∀ layer, after.display layer = app.display layer
  dirtyUi : after.dirtyUi = app.dirtyUi
  rendered : after.rendered = app.rendered

theorem Still.refl (app : PsApp) : Still app app := ⟨rfl, fun _ => rfl, rfl, rfl⟩

theorem Still.trans (first : Still app middle) (last : Still middle after) : Still app after :=
  ⟨last.layerstack.trans first.layerstack, fun layer => (last.display layer).trans (first.display layer),
    last.dirtyUi.trans first.dirtyUi, last.rendered.trans first.rendered⟩

theorem Still.current (still : Still app after) : Current after ↔ Current app := by
  unfold Current
  simp only [still.layerstack, still.display, still.rendered]

theorem submits_changes (app : PsApp) (events : List Event) :
    ∃ eventQueue submitted, events.foldl submit app = { app with eventQueue, submitted } := by
  induction events generalizing app with
  | nil => exact ⟨_, _, rfl⟩
  | cons e rest ih =>
    obtain ⟨eventQueue, submitted, same⟩ := ih (app.submit e)
    exact ⟨eventQueue, submitted, same⟩

theorem react_changes (app : PsApp) (layer : Nat) (reaction : Reaction Layer) :
    ∃ eventQueue submitted, app.react layer reaction = { app with
      client := reaction.client
      objects := app.objects.set layer (some reaction.layer)
      printed := app.printed ++ reaction.printed
      eventQueue
      submitted } :=
  submits_changes { app with
    client := reaction.client
    objects := app.objects.set layer (some reaction.layer)
    printed := app.printed ++ reaction.printed } reaction.submitted

theorem display_object {layer : Nat} {object : Layer} (found : app.object layer = .ok object) :
    app.display layer = object.onRender := by
  rw [display, found]
  rfl

theorem react_still {layer : Nat} {object : Layer} {reaction : Reaction Layer} (found : app.object layer = .ok object)
    (same : reaction.layer.onRender = object.onRender) : Still app (app.react layer reaction) := by
  obtain ⟨eventQueue, submitted, changed⟩ := react_changes app layer reaction
  rw [changed]
  refine ⟨rfl, fun other => ?_, rfl, rfl⟩
  by_cases chosen : layer = other
  · subst chosen
    obtain ⟨inside, _⟩ := List.getElem?_eq_some_iff.mp (object_some.mp found)
    rw [display_object found, ← same]
    exact display_object (object_some.mpr (List.getElem?_set_self inside))
  · simp only [display, PsApp.object, List.getElem?_set_ne chosen]

theorem offer_still (calm : (∀ msg, event ≠ .message msg) ∨ ∀ layer ∈ layers, app.kinds[layer]? ≠ some (some .battle))
    (offered : offer world event layers app = .ok after) : Still app after := by
  have both : Frame app after ∧
      ((∀ msg, event ≠ .message msg) ∨ (∀ layer ∈ layers, app.kinds[layer]? ≠ some (some .battle)) → Still app after) := by
    apply offer_always ?_ ?_ ?_ offered
    · exact fun app => ⟨.refl app, fun _ => .refl app⟩
    · intro app middle after first last
      refine ⟨first.1.trans last.1, fun calm => (first.2 calm).trans (last.2 ?_)⟩
      rwa [first.1.kinds]
    · intro app layer object reaction inside found reacted
      refine ⟨(react_frame found (Layer.onEvent_kind reacted)).1, fun calm => react_still found ?_⟩
      refine Layer.onEvent_onRender reacted (calm.imp_right fun none battle => ?_)
      exact none layer inside (by rw [object_kind found, battle])
  exact both.2 calm

/-! ## One step -/

/-- The next `on_render` will leave the screen current. -/
def Ready (app : PsApp) : Prop := app.dirtyUi = true ∨ Current app

/-- The same from inside a turn, once its messages are drained. -/
def Prepared (app : PsApp) : Prop :=
  match app.phase with
  | .events false => Ready app ∨ RedrawPending app
  | .events true | .input | .render => Ready app
  | .network | .stopped => True

/-- A battle is the top layer. -/
def BattleTop (app : PsApp) : Prop :=
  ∃ top, app.layerstack.layers.getLast? = some top ∧ app.kinds[top]? = some (some .battle)

/-- A prepared screen stays prepared, and below a battle an unprepared one unprepared. -/
structure Carried (app after : PsApp) : Prop where
  prepared : Prepared app → Prepared after
  unprepared : BattleTop app → ¬ Prepared app → ¬ Prepared after ∧ BattleTop after

theorem Carried.same (same : Prepared after ↔ Prepared app) (battle : BattleTop app → BattleTop after) :
    Carried app after := ⟨same.mpr, fun top unprepared => ⟨same.not.mpr unprepared, battle top⟩⟩

theorem Still.ready (still : Still app after) : Ready after ↔ Ready app := by
  rw [Ready, Ready, still.dirtyUi, still.current]

theorem prepared_polling (phase : app.phase = .events false) : Prepared app ↔ Ready app ∨ RedrawPending app := by
  rw [Prepared, phase]

theorem prepared_polled (phase : app.phase = .events true ∨ app.phase = .input ∨ app.phase = .render) :
    Prepared app ↔ Ready app := by
  rcases phase with phase | phase | phase <;> rw [Prepared, phase]

theorem redrawPending_cons {queue : SPSCQueue (Option Event) 64} {event : Event}
    (contents : app.eventQueue.contents = some event :: queue.contents) : RedrawPending app ↔
      event ≠ .command "q" ∧ (redraws (some event) = true ∨ RedrawPending { app with eventQueue := queue }) := by
  unfold RedrawPending
  rw [contents, List.takeWhile_cons]
  by_cases quit : event = .command "q"
  · simp [quit]
  · simp [quit]

/-- Pending redraws stay pending. -/
theorem RedrawPending.grow {events : List Event} (pending : RedrawPending app) (submitted : Submitted app after events) :
    RedrawPending after := by
  have grown : after.eventQueue.contents =
      app.eventQueue.contents ++ (events.map some).take (63 - app.eventQueue.contents.length) := by
    rw [submitted.queue, List.take_append, List.take_of_length_le app.pending_le]
  obtain ⟨event, member, redraw⟩ := List.any_eq_true.mp pending
  refine List.any_eq_true.mpr ⟨event, ?_, redraw⟩
  rw [grown, List.takeWhile_append]
  split
  next => exact List.mem_append_left _ ((List.takeWhile_prefix _).subset member)
  next => exact member

theorem onRender_current (rendered : app.onRender = .ok after) : Current after ↔ Ready app := by
  unfold PsApp.onRender at rendered
  split at rendered
  next top dirty here =>
    obtain ⟨object, found, rest⟩ := except_bind_ok.mp rendered
    obtain ⟨text, shown, done⟩ := except_bind_ok.mp rest
    cases done
    refine iff_of_true (fun other same => ?_) (Or.inl dirty)
    cases here.symm.trans same
    exact ⟨text, (display_object found).trans shown, rfl⟩
  next other =>
    cases rendered
    constructor
    · exact Or.inr
    · rintro (dirty | current)
      · intro top here
        exact absurd here (other top dirty)
      · exact current

/-- The commands change nothing on the screen, and the other events redraw it. -/
theorem handle_screen (handled : handle app event = .ok after) :
    (redraws (some event) = true ∧ after.dirtyUi = true) ∨ (redraws (some event) = false ∧ Still app after) := by
  cases event with
  | command cmd =>
    cases handled
    exact Or.inr ⟨rfl, by split <;> exact ⟨rfl, fun _ => rfl, rfl, rfl⟩⟩
  | layerPush | layerPop =>
    obtain ⟨_, _, _, _, _, rfl⟩ := perform_ok handled
    exact Or.inl ⟨rfl, rfl⟩
  | login | battleSearch =>
    have attached := (perform_attach app _).symm.trans handled
    cases attached
    exact Or.inl ⟨rfl, rfl⟩
  | battleJoin =>
    cases handled
    exact Or.inl ⟨rfl, rfl⟩
  | message msg =>
    cases handled
    exact Or.inr ⟨rfl, .refl _⟩

theorem process_screen (message : ∀ msg, event ≠ .message msg) (processed : process world app event = .ok after) :
    (redraws (some event) = true ∧ after.dirtyUi = true) ∨ (redraws (some event) = false ∧ Still app after) := by
  obtain ⟨handled, handling, delivered⟩ := except_bind_ok.mp processed
  have still := offer_still (Or.inl message) delivered
  rcases handle_screen handling with ⟨redraw, dirty⟩ | ⟨calm, same⟩
  · exact Or.inl ⟨redraw, still.dirtyUi.trans dirty⟩
  · have whole : Still app handled := ⟨same.layerstack, same.display, same.dirtyUi, same.rendered⟩
    exact Or.inr ⟨calm, whole.trans still⟩

theorem BattleTop.framed (battle : BattleTop app) (frame : Frame app after) : BattleTop after := by
  unfold BattleTop at *
  rw [frame.layerstack, frame.kinds]
  exact battle

/-- A battle answers no command. -/
theorem BattleTop.command {cmd : String} (battle : BattleTop app) (stays : cmd ≠ "q")
    (delivered : pushToLayers world app (.command cmd) = .ok after) :
    after.eventQueue.contents = app.eventQueue.contents := by
  obtain ⟨top, last, kind⟩ := battle
  obtain ⟨below, order⟩ := List.head?_eq_some_iff.mp ((List.head?_reverse ..).trans last)
  rw [pushToLayers, order] at delivered
  obtain ⟨_, added, queued, _, other, here, answers⟩ := offer_command stays delivered
  cases kind.symm.trans here
  have silent : added = [] := by
    rw [List.eq_nil_iff_forall_not_mem]
    exact answers
  rw [queued, silent]
  exact List.append_nil _

theorem RedrawPending.congr (queue : after.eventQueue.contents = app.eventQueue.contents) :
    RedrawPending after ↔ RedrawPending app := by
  rw [RedrawPending, queue, RedrawPending]

/-- Processing a command that is not `q`: the screen stays as it is, and what is going
to be redrawn as well. -/
theorem command_prepared {cmd : String} {queue : SPSCQueue (Option Event) 64} (phase : app.phase = .events false)
    (contents : app.eventQueue.contents = some (.command cmd) :: queue.contents) (stays : cmd ≠ "q")
    (processed : process world { app with eventQueue := queue } (.command cmd) = .ok after) : Carried app after := by
  obtain ⟨handled, handling, delivered⟩ := except_bind_ok.mp processed
  simp only [handle, if_neg stays, Except.ok.injEq] at handling
  subst handling
  have frame := offer_frame delivered
  have still := offer_still (Or.inl (by simp)) delivered
  have ready : Ready after ↔ Ready app := still.ready
  obtain ⟨events, submitted⟩ := offer_submits delivered
  have pending : RedrawPending app ↔ RedrawPending { app with eventQueue := queue } := by
    rw [redrawPending_cons contents]
    simp [stays, redraws]
  have later : after.phase = .events false := frame.phase.trans phase
  constructor <;> rw [prepared_polling phase, prepared_polling later, ready, pending]
  · exact Or.imp_right fun redraw => RedrawPending.grow redraw ⟨submitted.submitted, submitted.queue, submitted.running⟩
  · intro battle unprepared
    have top : BattleTop { app with eventQueue := queue, dispatched := app.dispatched ++ [.command cmd] } := battle
    rw [RedrawPending.congr (top.command stays delivered)]
    exact ⟨unprepared, top.framed frame⟩

/-- Processing an event that redraws the screen. -/
theorem redraw_prepared {queue : SPSCQueue (Option Event) 64} (phase : app.phase = .events false)
    (contents : app.eventQueue.contents = some event :: queue.contents) (redraw : redraws (some event) = true)
    (dirty : after.dirtyUi = true) (later : after.phase = .events false) : Carried app after := by
  have stays : event ≠ .command "q" := by
    rintro rfl
    cases redraw
  constructor
  · intro _
    exact (prepared_polling later).mpr (Or.inl (Or.inl dirty))
  · intro _ unprepared
    rw [prepared_polling phase, redrawPending_cons contents] at unprepared
    exact absurd (Or.inr ⟨stays, Or.inl redraw⟩) unprepared

theorem quit_prepared {queue : SPSCQueue (Option Event) 64} (phase : app.phase = .events false)
    (contents : app.eventQueue.contents = some (.command "q") :: queue.contents)
    (processed : process world { app with eventQueue := queue } (.command "q") = .ok after) : Carried app after := by
  obtain ⟨handled, handling, delivered⟩ := except_bind_ok.mp processed
  cases handling
  have frame := offer_frame delivered
  have still := offer_still (Or.inl (by simp)) delivered
  have ready : Ready after ↔ Ready app := still.ready
  have nothing : ¬ RedrawPending app := by
    rw [redrawPending_cons contents]
    exact fun given => given.1 rfl
  refine .same ?_ fun battle => ?_
  · rw [prepared_polling phase, prepared_polled (Or.inl frame.phase), ready, or_iff_left nothing]
  · have top : BattleTop { app with
        eventQueue := queue, dispatched := app.dispatched ++ [.command "q"], running := false
        phase := .events true } := battle
    exact top.framed frame

theorem process_prepared {queue : SPSCQueue (Option Event) 64} (phase : app.phase = .events false)
    (contents : app.eventQueue.contents = some event :: queue.contents) (message : ∀ msg, event ≠ .message msg)
    (processed : process world { app with eventQueue := queue } event = .ok after) : Carried app after := by
  by_cases quit : event = .command "q"
  · subst quit
    exact quit_prepared phase contents processed
  rcases process_screen message processed with ⟨redraw, dirty⟩ | ⟨calm, _⟩
  · have later : after.phase = app.phase := by rw [process_phase processed, if_neg quit]
    exact redraw_prepared phase contents redraw dirty (later.trans phase)
  · cases event with
    | command cmd => exact command_prepared phase contents (fun same => quit (same ▸ rfl)) processed
    | message msg => exact absurd rfl (message msg)
    | layerPush | layerPop | login | battleSearch | battleJoin => cases calm

theorem dispatch_prepared (layered : Layered app) (taken : app.step world .dispatch = some after) :
    Carried app after := by
  obtain ⟨exit, phase, dispatched⟩ := step_dispatch.mp taken
  rcases dispatch_ok.mp dispatched with ⟨nothing, rfl⟩ | ⟨e, queue, popped, ⟨rfl, rfl⟩ | ⟨rfl, event, rfl, processed⟩⟩
  · have still : Still app { app with phase := .input } := ⟨rfl, fun _ => rfl, rfl, rfl⟩
    refine .same ?_ id
    rw [prepared_polled (Or.inr (Or.inl rfl)), still.ready]
    cases exit with
    | true => rw [prepared_polled (Or.inl phase)]
    | false =>
      have none : ¬ RedrawPending app := by simp [RedrawPending, SPSCQueue.pop_none.mp nothing]
      rw [prepared_polling phase, or_iff_left none]
  · have still : Still app { app with eventQueue := queue, phase := .input } := ⟨rfl, fun _ => rfl, rfl, rfl⟩
    refine .same ?_ id
    rw [prepared_polled (Or.inr (Or.inl rfl)), still.ready, prepared_polled (Or.inl phase)]
  · obtain ⟨_, same, message, _⟩ := layered.popped phase popped
    cases same
    exact process_prepared phase (SPSCQueue.pop_some popped) message processed

theorem line_prepared {line : Option String} (taken : app.step world (.line line) = some after) : Carried app after := by
  obtain ⟨phase, rfl⟩ := step_line.mp taken
  have before : Prepared app ↔ Ready app := prepared_polled (Or.inr (Or.inl phase))
  cases line with
  | none =>
    have still : Still app (app.readLine none) := ⟨rfl, fun _ => rfl, rfl, rfl⟩
    refine .same ?_ id
    rw [before, prepared_polled (Or.inr (Or.inr rfl)), still.ready]
  | some cmd =>
    have still : Still app (app.readLine (some cmd)) := ⟨rfl, fun _ => rfl, rfl, rfl⟩
    refine .same ?_ id
    rw [before, prepared_polled (Or.inr (Or.inr rfl)), still.ready]

theorem render_current (taken : app.step world .render = some after) : Current after ↔ Prepared app := by
  obtain ⟨phase, shown, rendered, rfl⟩ := step_render.mp taken
  rw [prepared_polled (Or.inr (Or.inr phase))]
  have shows : Current shown ↔ Ready app := onRender_current rendered
  exact shows

theorem drained_prepared (taken : app.step world .drained = some after) : Announced app .drained ↔ Prepared after := by
  obtain ⟨_, rfl⟩ := step_drained.mp taken
  have still : Still app { app with phase := .events false } := ⟨rfl, fun _ => rfl, rfl, rfl⟩
  rw [prepared_polling rfl, still.ready, Announced, Ready, or_assoc]
  exact forall_prop_of_true rfl

/-! ## Runs -/

theorem Prepared.step {action : Action} (layered : Layered app) (prepared : Prepared app)
    (announced : Announced app action) (taken : app.step world action = some after) : Prepared after := by
  cases action with
  | message msg =>
    obtain ⟨phase, client, _, delivered⟩ := step_message.mp taken
    have network : after.phase = .network := (offer_frame delivered).phase.trans phase
    rw [Prepared, network]
    trivial
  | drained => exact (drained_prepared taken).mp announced
  | dispatch => exact (dispatch_prepared layered taken).prepared prepared
  | line line => exact (line_prepared taken).prepared prepared
  | render =>
    obtain ⟨_, shown, _, rfl⟩ := step_render.mp taken
    cases going : shown.running <;> simp [Prepared]

theorem announced_prepared {actions : List Action} (announced : Runs.Guarded (step world) Announced init actions)
    (reached : Runs.exec (step world) init actions = some app) : Prepared app := by
  have both := Runs.history Announced (fun _ app => Layered app ∧ Prepared app) ⟨.opening .initial, trivial⟩
    (fun _ _ _ _ prior announces taken => ⟨prior.1.step taken, prior.2.step prior.1 announces taken⟩) announced reached
  exact both.2

/-- Outside of a battle, messages leave the screen alone. -/
def Readable (app : PsApp) : Prop := app.phase = .network → Ready app ∨ BattleTop app

theorem Layered.battle (layered : Layered app) {layer : Nat} (member : layer ∈ app.layerstack.layers)
    (battle : app.kinds[layer]? = some (some .battle)) : BattleTop app := by
  have shown (base : List Nat) (above : Option Nat) (covered : Covered app base above) : BattleTop app := by
    rw [covered.layers] at member
    rcases List.mem_append.mp member with below | top
    · rcases covered.base with rfl | ⟨rfl, menu⟩
      · cases below
      · cases List.mem_singleton.mp below
        cases menu.symm.trans battle
    · cases above with
      | none => cases top
      | some above =>
        cases List.mem_singleton.mp top
        exact ⟨_, by rw [covered.layers]; simp, battle⟩
  cases layered with
  | opening opening =>
    rw [opening.layerstack] at member
    cases member
  | running base above pending covered => exact shown base above covered
  | leaving base above covered => exact shown base above covered

theorem Readable.message {msg : Message} (layered : Layered app) (readable : Readable app)
    (taken : app.step world (.message msg) = some after) : Readable after := by
  obtain ⟨phase, client, _, delivered⟩ := step_message.mp taken
  intro _
  by_cases battle : BattleTop app
  · have top : BattleTop { app with client } := battle
    exact Or.inr (top.framed (offer_frame delivered))
  · have calm : ∀ layer ∈ app.layerstack.layers.reverse,
        ({ app with client } : PsApp).kinds[layer]? ≠ some (some .battle) :=
      fun layer member here => battle (layered.battle (List.mem_reverse.mp member) here)
    have still := offer_still (Or.inr calm) delivered
    have ready : Ready after ↔ Ready app := still.ready
    exact Or.inl (ready.mpr ((readable phase).resolve_right battle))

theorem dispatch_phase (taken : app.step world .dispatch = some after) : after.phase ≠ .network := by
  obtain ⟨exit, phase, dispatched⟩ := step_dispatch.mp taken
  rcases dispatch_ok.mp dispatched with ⟨_, rfl⟩ | ⟨e, queue, _, ⟨_, rfl⟩ | ⟨_, event, _, processed⟩⟩
  · simp
  · simp
  · rw [process_phase processed]
    split
    next => simp
    next => simp [phase]

theorem Readable.step {action : Action} (layered : Layered app) (readable : Readable app)
    (shown : action = .render → Current after) (taken : app.step world action = some after) : Readable after := by
  cases action with
  | message msg => exact readable.message layered taken
  | drained =>
    obtain ⟨_, rfl⟩ := step_drained.mp taken
    exact fun network => by cases network
  | dispatch => exact fun network => absurd network (dispatch_phase taken)
  | line line =>
    obtain ⟨_, rfl⟩ := step_line.mp taken
    intro network
    cases line <;> cases network
  | render => exact fun _ => Or.inl (Or.inr (shown rfl))

/-- Below a battle, an unprepared screen is not current after the next `on_render`. -/
theorem unprepared_render {rest : List Action} {final : PsApp} (layered : Layered app) (battle : BattleTop app)
    (unprepared : ¬ Prepared app) (render : .render ∈ rest) (reached : Runs.exec (step world) app rest = some final) :
    ∃ done shown, done ++ [.render] <+: rest ∧ Runs.exec (step world) app (done ++ [.render]) = some shown ∧
      ¬ Current shown := by
  induction rest generalizing app with
  | nil => cases render
  | cons action rest ih =>
    obtain ⟨middle, taken, reached⟩ := Option.bind_eq_some_iff.mp reached
    have onward (carried : Carried app middle) (other : action ≠ .render) : ∃ done shown,
        done ++ [.render] <+: action :: rest ∧ Runs.exec (step world) app (done ++ [.render]) = some shown ∧
          ¬ Current shown := by
      obtain ⟨later, top⟩ := carried.unprepared battle unprepared
      have inside : .render ∈ rest := (List.mem_cons.mp render).resolve_left other.symm
      obtain ⟨done, shown, before, run, stale⟩ := ih (layered.step taken) top later inside reached
      exact ⟨action :: done, shown, List.cons_prefix_cons.mpr ⟨rfl, before⟩, by simpa [taken] using run, stale⟩
    cases action with
    | message msg => exact absurd (by rw [Prepared, (step_message.mp taken).1]; trivial) unprepared
    | drained => exact absurd (by rw [Prepared, (step_drained.mp taken).1]; trivial) unprepared
    | dispatch => exact onward (dispatch_prepared layered taken) (by simp)
    | line line => exact onward (line_prepared taken) (by simp)
    | render =>
      refine ⟨[], middle, by simp, by simpa using taken, fun current => ?_⟩
      exact unprepared ((render_current taken).mp current)

/-- The screen is current after every `on_render` of the run. -/
def CurrentShown (world : World) (actions : List Action) : Prop :=
  ∀ done, done ++ [.render] <+: actions → ∀ shown,
    Runs.exec (step world) init (done ++ [.render]) = some shown → Current shown

theorem readable {actions : List Action} (current : CurrentShown world actions)
    (reached : Runs.exec (step world) init actions = some app) : Readable app := by
  induction actions using List.reverseRecOn generalizing app with
  | nil =>
    cases reached
    refine fun _ => Or.inl (Or.inr fun top last => ?_)
    rw [Opening.initial.layerstack] at last
    cases last
  | append_singleton done action ih =>
    obtain ⟨before, first, taken⟩ := Runs.exec_concat_some reached
    have earlier : CurrentShown world done := fun other inside => current other (inside.trans (List.prefix_append ..))
    refine (ih earlier first).step (layered first) ?_ taken
    rintro rfl
    exact current done (List.prefix_refl _) app reached

/-- A turn that is not announced ends with a screen that is not current. -/
theorem announced_of_current {actions done : List Action} {before : PsApp}
    (reached : Runs.exec (step world) init (actions ++ [.render]) = some app)
    (current : CurrentShown world (actions ++ [.render])) (inside : done ++ [.drained] <+: actions ++ [.render])
    (first : Runs.exec (step world) init done = some before) : Announced before .drained := by
  obtain ⟨rest, whole⟩ := inside
  have render : .render ∈ rest := by
    rcases List.eq_nil_or_concat rest with rfl | ⟨some, last, rfl⟩
    · rw [List.append_nil] at whole
      cases (List.append_inj' whole rfl).2
    · rw [List.concat_eq_append, ← List.append_assoc] at whole
      cases (List.append_inj' whole rfl).2
      simp
  rw [← whole, Runs.exec_append] at reached
  obtain ⟨drained, run, later⟩ := Option.bind_eq_some_iff.mp reached
  rw [Runs.exec_concat, first] at run
  have taken : before.step world .drained = some drained := run
  by_contra unannounced
  have unprepared := (drained_prepared taken).not.mp unannounced
  have earlier : CurrentShown world done := fun other inside =>
    current other (inside.trans ⟨[.drained] ++ rest, by rw [← whole, List.append_assoc]⟩)
  obtain ⟨phase, rfl⟩ := step_drained.mp taken
  have top : BattleTop before := by
    refine (readable earlier first phase).resolve_left fun ready => unannounced fun _ => ?_
    exact ready.imp_right Or.inl
  obtain ⟨turn, shown, before', run', stale⟩ := unprepared_render ((layered first).step taken) top unprepared render later
  apply stale
  refine current (done ++ [.drained] ++ turn) ?_ shown ?_
  · rw [← whole, List.append_assoc _ turn]
    exact (List.prefix_append_right_inj _).mpr before'
  · rw [List.append_assoc _ turn, Runs.exec_append, Runs.exec_concat, first]
    simpa [taken] using run'

/-- In a run of whole turns the screen is current after every `on_render` exactly when
the messages of each turn leave the display alone or the turn redraws it. -/
theorem current_iff {actions : List Action}
    (reached : Runs.exec (step world) init (actions ++ [.render]) = some app) :
    CurrentShown world (actions ++ [.render]) ↔ Runs.Guarded (step world) Announced init (actions ++ [.render]) := by
  constructor
  · rintro current done action inside before first rfl
    exact announced_of_current reached current inside first rfl
  · intro announced done inside shown run
    obtain ⟨before, first, taken⟩ := Runs.exec_concat_some run
    have earlier := announced.earlier ((List.prefix_append ..).trans inside)
    exact (render_current taken).mpr (announced_prepared earlier first)

private def unconnected : World := { parse := fun _ => none, assertions := fun _ => "" }

/-- A battle is searched for, and in the turn after that its first message arrives. -/
private def firstTurns (msg : Message) : List Action :=
  [.drained, .dispatch, .dispatch, .line (some "1"), .render, .drained, .dispatch, .dispatch, .dispatch, .line none,
    .render, .message msg, .drained, .dispatch, .line none]

private def sighting : Message := { type := "switch", args := ["p2a: Hoopa", "Hoopa", "100/100"] }

theorem current_iff_sighting :
    ∃ app, Runs.exec (step unconnected) init (firstTurns sighting ++ [.render]) = some app ∧
      (CurrentShown unconnected (firstTurns sighting ++ [.render]) ↔
        Runs.Guarded (step unconnected) Announced init (firstTurns sighting ++ [.render])) := by
  have run : (Runs.exec (step unconnected) init (firstTurns sighting ++ [.render])).isSome := by decide +kernel
  obtain ⟨app, reached⟩ := Option.isSome_iff_exists.mp run
  exact ⟨app, reached, current_iff reached⟩

/-- The opponent's Pokemon is on the field, but not on the screen. -/
theorem sighting_not_shown :
    ∃ actions app, Runs.exec (step unconnected) init (actions ++ [.render]) = some app ∧ ¬ Current app := by
  have run : (Runs.exec (step unconnected) init (firstTurns sighting ++ [.render])).map (fun app =>
      (app.layerstack.layers, decide (app.rendered = (app.display 1).toOption))) = some ([0, 1], false) := by
    decide +kernel
  obtain ⟨app, reached, facts⟩ := Option.map_eq_some_iff.mp run
  obtain ⟨layers, stale⟩ := Prod.mk.inj facts
  refine ⟨_, app, reached, fun current => ?_⟩
  obtain ⟨text, shown, rendered⟩ := current 1 (by rw [layers]; rfl)
  rw [shown, rendered] at stale
  simp [Except.toOption] at stale

end PsApp
end ShowdownCli
