import ShowdownCli.Library.Refinement
import ShowdownCli.Proofs.AppScreen
import ShowdownCli.Proofs.AppSteps
import ShowdownCli.Proofs.CommandTokens
import ShowdownCli.Proofs.PasswordLog
import ShowdownCli.Proofs.Words

/-! Who learns a password. Two runs of the main loop that differ in a line typed where a
login asks for the password differ in nothing but what is asked of the login server: the
frames, the screen and the layers are the same, as long as the answers are. -/

namespace ShowdownCli
open Library

/-- A request to the login server without the password. -/
def veil (asked : String × String × String) : String × String := (asked.1, asked.2.2)

/-- Clients that agree in all but passwords. -/
structure PsClient.Alike (client other : PsClient) : Prop where
  loggedIn : client.loggedIn = other.loggedIn
  challStr : client.challStr = other.challStr
  username : client.username = other.username
  sent : client.sent = other.sent
  asserted : client.asserted.map veil = other.asserted.map veil
  blank : client.password.chars.head = '\x00' ↔ other.password.chars.head = '\x00'

namespace PsClient
variable {client other : PsClient} {msg : Message}

theorem Alike.refl (client : PsClient) : Alike client client := ⟨rfl, rfl, rfl, rfl, rfl, Iff.rfl⟩

theorem Alike.send (alike : Alike client other) (frame : String) : Alike (client.send frame) (other.send frame) :=
  { alike with sent := by rw [PsClient.send, PsClient.send, alike.sent] }

theorem Alike.receive (alike : Alike client other) (msg : Message) :
    Matches Alike (client.receive msg) (other.receive msg) := by
  unfold PsClient.receive
  split
  next =>
    unfold onChallStr
    rw [← alike.loggedIn]
    split
    next => exact .ok alike
    next =>
      refine (Matches.same (msg.arg 0)).bind fun id _ same => ?_
      subst same
      refine (Matches.same (msg.arg 1)).bind fun challenge _ same => ?_
      subst same
      exact .ok ⟨rfl, rfl, alike.username, alike.sent, alike.asserted, alike.blank⟩
  next =>
    split
    next =>
      apply Matches.ok
      unfold onUpdateUser
      split
      next => exact alike
      next =>
        split
        next => exact ⟨rfl, alike.challStr, alike.username, alike.sent, alike.asserted, alike.blank⟩
        next => exact alike
    next => exact .ok alike

theorem Alike.setUsername (alike : Alike client other) (text : String) :
    (client.setUsername text).1 = (other.setUsername text).1 ∧
      Alike (client.setUsername text).2 (other.setUsername text).2 := by
  unfold PsClient.setUsername
  split
  next =>
    exact ⟨rfl, alike.loggedIn, alike.challStr, congrArg (Credential.set · text) alike.username, alike.sent,
      alike.asserted, alike.blank⟩
  next => exact ⟨rfl, alike⟩

theorem Alike.setPassword {token token' : String} (alike : Alike client other) (accepted : Credential.accepts token = true)
    (accepted' : Credential.accepts token' = true) (blank : Debug.startsBlank token = Debug.startsBlank token') :
    (client.setPassword token).1 = (other.setPassword token').1 ∧
      Alike (client.setPassword token).2 (other.setPassword token').2 := by
  unfold PsClient.setPassword
  rw [if_pos accepted, if_pos accepted']
  refine ⟨rfl, alike.loggedIn, alike.challStr, alike.username, alike.sent, alike.asserted, ?_⟩
  rw [Debug.set_blank accepted, Debug.set_blank accepted', blank]

theorem Alike.tryLogin (alike : Alike client other) (assertions : Nat → String) :
    (client.tryLogin assertions).1 = (other.tryLogin assertions).1 ∧
      Alike (client.tryLogin assertions).2 (other.tryLogin assertions).2 := by
  have count : client.asserted.length = other.asserted.length := by
    have lengths := congrArg List.length alike.asserted
    simpa only [List.length_map] using lengths
  have blank : client.username.chars.head = '\x00' ∨ client.password.chars.head = '\x00' ↔
      other.username.chars.head = '\x00' ∨ other.password.chars.head = '\x00' := by rw [alike.username, alike.blank]
  simp only [PsClient.tryLogin, Debug.chars_head]
  rw [alike.challStr]
  by_cases unchallenged : other.challStr = ""
  · simp only [if_pos unchallenged]
    exact ⟨trivial, alike⟩
  by_cases unnamed : client.username.chars.head = '\x00' ∨ client.password.chars.head = '\x00'
  · simp only [if_neg unchallenged, if_pos unnamed, if_pos (blank.mp unnamed)]
    exact ⟨trivial, alike⟩
  have asserted : (client.asserted ++ [(client.username.cString, client.password.cString, other.challStr)]).map veil =
      (other.asserted ++ [(other.username.cString, other.password.cString, other.challStr)]).map veil := by
    simp [alike.asserted, alike.username, veil]
  simp only [if_neg unchallenged, if_neg unnamed, if_neg (mt blank.mpr unnamed), count]
  split
  next => exact ⟨rfl, alike.loggedIn, rfl, alike.username, alike.sent, asserted, alike.blank⟩
  next =>
    refine ⟨rfl, alike.loggedIn, rfl, rfl, ?_, asserted, Iff.rfl⟩
    simp [PsClient.send, alike.sent, alike.username]

end PsClient

/-- Reactions that agree in all but passwords. -/
structure Reaction.Alike {α : Type} (reaction other : Reaction α) : Prop where
  layer : reaction.layer = other.layer
  client : reaction.client.Alike other.client
  submitted : reaction.submitted = other.submitted
  printed : reaction.printed = other.printed
  handled : reaction.handled = other.handled

theorem Reaction.Alike.map {α β : Type} {reaction other : Reaction α} (alike : reaction.Alike other) (wrap : α → β) :
    (reaction.map wrap).Alike (other.map wrap) :=
  ⟨congrArg wrap alike.layer, alike.client, alike.submitted, alike.printed, alike.handled⟩

variable {world : World} {this : Nat} {client other : PsClient} {event : Event}

theorem MenuLayer.alike (alike : client.Alike other) (event : Event) :
    Matches Reaction.Alike (onEvent this client event) (onEvent this other event) := by
  cases event with
  | command cmd =>
    apply Matches.ok
    unfold onCommand
    repeat' split
    all_goals exact ⟨rfl, alike, rfl, rfl, rfl⟩
  | message msg =>
    simp only [onEvent, onMessage]
    split
    next =>
      refine (Matches.same (msg.arg 0)).bind fun winner _ same => ?_
      subst same
      exact .ok ⟨rfl, alike, rfl, rfl, rfl⟩
    next => exact .ok ⟨rfl, alike, rfl, rfl, rfl⟩
  | layerPush | layerPop | login | battleSearch | battleJoin => exact .ok ⟨rfl, alike, rfl, rfl, rfl⟩

namespace LoginOverlay
variable {overlay : LoginOverlay}

theorem password_alike {token token' cmd cmd' : String} (named : overlay.enteredUsername = true)
    (alike : client.Alike other) (tokens : tokenize cmd = [token]) (tokens' : tokenize cmd' = [token'])
    (blank : Debug.startsBlank token = Debug.startsBlank token') :
    (onCommand world this overlay client cmd).Alike (onCommand world this overlay other cmd') := by
  have accepted : Credential.accepts token = true := accepts_token (tokens ▸ List.mem_singleton_self token)
  have accepted' : Credential.accepts token' = true := accepts_token (tokens' ▸ List.mem_singleton_self token')
  obtain ⟨success, after⟩ := alike.setPassword accepted accepted' blank
  simp only [onCommand, tokens, tokens', named, not_true, if_false]
  revert success after
  cases client.setPassword token with | mk set client =>
  cases other.setPassword token' with | mk set' other =>
  rintro rfl after
  cases set with
  | false => exact ⟨rfl, after, rfl, rfl, rfl⟩
  | true =>
    obtain ⟨success, after⟩ := after.tryLogin world.assertions
    simp only
    revert success after
    cases client.tryLogin world.assertions with | mk succeeds client =>
    cases other.tryLogin world.assertions with | mk succeeds' other =>
    rintro rfl after
    cases succeeds <;> exact ⟨rfl, after, rfl, rfl, rfl⟩

theorem alike (alike : client.Alike other) (overlay : LoginOverlay) (event : Event) :
    (overlay.onEvent world this client event).Alike (overlay.onEvent world this other event) := by
  cases event with
  | command cmd =>
    simp only [onEvent]
    by_cases named : overlay.enteredUsername = true
    · by_cases single : ∃ token, tokenize cmd = [token]
      · obtain ⟨token, tokens⟩ := single
        exact password_alike named alike tokens tokens rfl
      · have invalid (client : PsClient) : onCommand world this overlay client cmd =
            { layer := overlay, client, printed := ["\rInvalid Input, enter again!\r\n"], handled := true } := by
          simp only [onCommand]
          split
          next token tokens => exact absurd ⟨token, tokens⟩ single
          next => rfl
        rw [invalid, invalid]
        exact ⟨rfl, alike, rfl, rfl, rfl⟩
    · simp only [onCommand]
      split
      next token _ =>
        obtain ⟨success, after⟩ := alike.setUsername token
        simp only [if_pos named]
        revert success after
        cases client.setUsername token with | mk set client =>
        cases other.setUsername token with | mk set' other =>
        rintro rfl after
        cases set <;> exact ⟨rfl, after, rfl, rfl, rfl⟩
      next => exact ⟨rfl, alike, rfl, rfl, rfl⟩
  | message | layerPush | layerPop | login | battleSearch | battleJoin => exact ⟨rfl, alike, rfl, rfl, rfl⟩

end LoginOverlay

namespace BattleLayer

theorem command_alike (alike : client.Alike other) (battle : BattleLayer) (cmd : String) :
    Matches Reaction.Alike (battle.onCommand client cmd) (battle.onCommand other cmd) := by
  unfold onCommand
  split
  next => exact .ok ⟨rfl, alike, rfl, rfl, rfl⟩
  next token rest _ =>
    split
    next =>
      rw [choose_frame, choose_frame]
      refine Matches.bind ((Matches.same battle.isForceSwitch).map fun switching _ same => ?_) fun _ _ chosen =>
        .ok ⟨rfl, chosen, rfl, rfl, rfl⟩
      subst same
      exact alike.send _
    next =>
      split
      next => exact .ok ⟨rfl, alike.send _, rfl, rfl, rfl⟩
      next =>
        split
        next =>
          cases active : battle.timerActive with
          | true =>
            simp only [toggleTimer, active, if_true]
            exact .ok ⟨rfl, alike.send _, rfl, rfl, rfl⟩
          | false =>
            simp only [toggleTimer, active, Bool.false_eq_true, if_false]
            exact .ok ⟨rfl, alike.send _, rfl, rfl, rfl⟩
        next =>
          split
          next => exact .ok ⟨rfl, alike.send _, rfl, rfl, rfl⟩
          next => exact .ok ⟨rfl, alike, rfl, rfl, rfl⟩

theorem updateSearch_alike (alike : client.Alike other) (battle : BattleLayer) (payload : String) :
    Matches (fun first second => first.1 = second.1 ∧ first.2.Alike second.2)
      (battle.updateSearch world client payload) (battle.updateSearch world other payload) := by
  unfold updateSearch
  split
  next => exact .error _
  next j _ =>
    refine (Matches.same (j.member "games")).bind fun games _ same => ?_
    subst same
    split
    next => exact .ok ⟨rfl, alike⟩
    next =>
      refine (Matches.same games.firstKey).bind fun room _ same => ?_
      subst same
      exact .ok ⟨rfl, alike.send _⟩

theorem message_alike (alike : client.Alike other) (battle : BattleLayer) (msg : Message) :
    Matches Reaction.Alike (battle.onMessage world this client msg) (battle.onMessage world this other msg) := by
  unfold onMessage
  split
  next => exact .error _
  next state _ =>
    split
    next =>
      refine (Matches.same (msg.arg 0)).bind fun payload _ same => ?_
      subst same
      refine (updateSearch_alike alike { battle with state } payload).bind fun first second agree => ?_
      obtain ⟨layer, client⟩ := agree
      exact .ok ⟨layer, client, rfl, rfl, rfl⟩
    next =>
      split
      next => exact .ok ⟨rfl, alike, rfl, rfl, rfl⟩
      next =>
        split
        next => exact .ok ⟨rfl, alike, rfl, rfl, rfl⟩
        next => exact .ok ⟨rfl, alike, rfl, rfl, rfl⟩

end BattleLayer

theorem Layer.alike (alike : client.Alike other) (layer : Layer) (event : Event) :
    Matches Reaction.Alike (layer.onEvent world this client event) (layer.onEvent world this other event) := by
  cases layer with
  | menu => exact (MenuLayer.alike alike event).map fun _ _ same => same.map _
  | login overlay => exact .ok ((overlay.alike alike event).map _)
  | battle battleLayer =>
    cases event with
    | command cmd => exact (battleLayer.command_alike alike cmd).map fun _ _ same => same.map _
    | message msg => exact (battleLayer.message_alike alike msg).map fun _ _ same => same.map _
    | layerPush | layerPop | login | battleSearch | battleJoin => exact .ok ⟨rfl, alike, rfl, rfl, rfl⟩

namespace PsApp

/-- Applications that agree in all but passwords and the events on their way. -/
structure Alike (app other : PsApp) : Prop where
  client : app.client.Alike other.client
  layerstack : app.layerstack = other.layerstack
  objects : app.objects = other.objects
  running : app.running = other.running
  dirtyUi : app.dirtyUi = other.dirtyUi
  phase : app.phase = other.phase
  printed : app.printed = other.printed
  rendered : app.rendered = other.rendered

/-- The event queues of two applications. -/
abbrev Mail := SPSCQueue (Option Event) 64 → SPSCQueue (Option Event) 64 → Prop

def Mail.Pushes (mail : Mail) : Prop := ∀ queue other e, mail queue other → mail (queue.push e).2 (other.push e).2

structure Agree (mail : Mail) (app other : PsApp) : Prop where
  alike : app.Alike other
  mail : mail app.eventQueue other.eventQueue

variable {mail : Mail} {app other : PsApp} {layer : Nat}

theorem Alike.object (alike : app.Alike other) (layer : Nat) : app.object layer = other.object layer := by
  rw [PsApp.object, alike.objects]
  rfl

theorem Agree.submits (pushes : mail.Pushes) (agree : Agree mail app other) (events : List Event) :
    Agree mail (events.foldl submit app) (events.foldl submit other) := by
  induction events generalizing app other with
  | nil => exact agree
  | cons event events ih => exact ih ⟨{ agree.alike with }, pushes _ _ _ agree.mail⟩

theorem Agree.react {reaction reaction' : Reaction Layer} (pushes : mail.Pushes) (agree : Agree mail app other)
    (same : reaction.Alike reaction') : Agree mail (app.react layer reaction) (other.react layer reaction') := by
  have alike := agree.alike
  have changed : Agree mail
      { app with
        client := reaction.client
        objects := app.objects.set layer (some reaction.layer)
        printed := app.printed ++ reaction.printed }
      { other with
        client := reaction'.client
        objects := other.objects.set layer (some reaction'.layer)
        printed := other.printed ++ reaction'.printed } := by
    refine ⟨{ alike with client := same.client, objects := ?_, printed := ?_ }, agree.mail⟩
    · rw [alike.objects, same.layer]
    · rw [alike.printed, same.printed]
  rw [PsApp.react, PsApp.react, same.submitted]
  exact changed.submits pushes _

theorem Agree.offer (pushes : mail.Pushes) (agree : Agree mail app other) (event : Event) (layers : List Nat) :
    Matches (Agree mail) (PsApp.offer world event layers app) (PsApp.offer world event layers other) := by
  induction layers generalizing app other with
  | nil => exact .ok agree
  | cons layer below ih =>
    rw [PsApp.offer, PsApp.offer, agree.alike.object]
    refine (Matches.same (other.object layer)).bind fun object _ same => ?_
    subst same
    refine (object.alike agree.alike.client event).bind fun reaction reaction' alike => ?_
    rw [alike.handled]
    split
    next => exact .ok (agree.react pushes alike)
    next => exact ih (agree.react pushes alike)

theorem Agree.pushToLayers (pushes : mail.Pushes) (agree : Agree mail app other) (event : Event) :
    Matches (Agree mail) (PsApp.pushToLayers world app event) (PsApp.pushToLayers world other event) := by
  rw [PsApp.pushToLayers, PsApp.pushToLayers, agree.alike.layerstack]
  exact agree.offer pushes event _

theorem Agree.lifecycle (agree : Agree mail app other) (effect : Lifecycle Nat) :
    Matches (Agree mail) (PsApp.lifecycle app effect) (PsApp.lifecycle other effect) := by
  cases effect with
  | onAttach layer =>
    rw [PsApp.lifecycle, PsApp.lifecycle, agree.alike.object]
    refine (Matches.same (other.object layer)).bind fun object _ same => ?_
    subst same
    cases object with
    | menu | login => exact .ok agree
    | battle => exact .ok ⟨{ agree.alike with client := agree.alike.client.send _ }, agree.mail⟩
  | onDetach layer =>
    rw [PsApp.lifecycle, PsApp.lifecycle, agree.alike.object]
    exact (Matches.same (other.object layer)).bind fun _ _ _ => .ok agree
  | delete layer =>
    rw [PsApp.lifecycle, PsApp.lifecycle, agree.alike.object, agree.alike.objects]
    exact (Matches.same (other.object layer)).bind fun _ _ _ => .ok ⟨{ agree.alike with objects := rfl }, agree.mail⟩

theorem Agree.lifecycles (agree : Agree mail app other) (effects : List (Lifecycle Nat)) :
    Matches (Agree mail) (effects.foldlM PsApp.lifecycle app) (effects.foldlM PsApp.lifecycle other) := by
  induction effects generalizing app other with
  | nil => exact .ok agree
  | cons effect effects ih => exact (agree.lifecycle effect).bind fun _ _ later => ih later

theorem Agree.perform (agree : Agree mail app other) (call : LayerStack.Call Nat) :
    Matches (Agree mail) (PsApp.perform app call) (PsApp.perform other call) := by
  rw [PsApp.perform, PsApp.perform, agree.alike.layerstack]
  split
  next => exact .error _
  next layerstack effects _ =>
    have begun : Agree mail { app with layerstack, dirtyUi := true } { other with layerstack, dirtyUi := true } :=
      ⟨{ agree.alike with layerstack := rfl, dirtyUi := rfl }, agree.mail⟩
    exact begun.lifecycles effects

theorem Agree.handle (agree : Agree mail app other) (event : Event) :
    Matches (Agree mail) (PsApp.handle app event) (PsApp.handle other event) := by
  have allocated (object : Layer) : Agree mail (app.allocate object).2 (other.allocate object).2 ∧
      (app.allocate object).1 = (other.allocate object).1 :=
    ⟨⟨{ agree.alike with objects := by rw [allocate, allocate, agree.alike.objects] }, agree.mail⟩,
      congrArg List.length agree.alike.objects⟩
  cases event with
  | command cmd =>
    apply Matches.ok
    split
    next => exact ⟨{ agree.alike with running := rfl, phase := rfl }, agree.mail⟩
    next => exact agree
  | layerPush layer isOverlay => exact agree.perform _
  | layerPop layer isOverlay => exact agree.perform _
  | login isSignup =>
    obtain ⟨same, address⟩ := allocated (.login { isSignup })
    simp only [PsApp.handle, address]
    exact same.perform _
  | battleSearch =>
    obtain ⟨same, address⟩ := allocated (.battle {})
    simp only [PsApp.handle, address]
    exact same.perform _
  | battleJoin => exact .ok ⟨{ agree.alike with dirtyUi := rfl }, agree.mail⟩
  | message msg => exact .ok agree

theorem Agree.process (pushes : mail.Pushes) (agree : Agree mail app other) (event : Event) :
    Matches (Agree mail) (PsApp.process world app event) (PsApp.process world other event) := by
  have begun : Agree mail { app with dispatched := app.dispatched ++ [event] }
      { other with dispatched := other.dispatched ++ [event] } := ⟨{ agree.alike with }, agree.mail⟩
  exact (begun.handle event).bind fun _ _ later => later.pushToLayers pushes event

theorem Agree.onRender (agree : Agree mail app other) :
    Matches (Agree mail) (PsApp.onRender app) (PsApp.onRender other) := by
  unfold PsApp.onRender
  rw [agree.alike.dirtyUi, agree.alike.layerstack]
  split
  next top _ _ =>
    rw [agree.alike.object]
    refine (Matches.same (other.object top)).bind fun object _ same => ?_
    subst same
    refine (Matches.same object.onRender).bind fun text _ same => ?_
    subst same
    have alike := agree.alike
    refine .ok ⟨{ alike with layerstack := rfl, printed := ?_, rendered := rfl, dirtyUi := rfl }, agree.mail⟩
    rw [alike.printed]
  next => exact .ok agree

/-- The command at the head of the one queue is another in the other queue. -/
def Waiting (cmd cmd' : String) : Mail := fun queue other =>
  queue.head ≠ queue.tail ∧ queue.queue queue.head = some (.command cmd) ∧
    other = { queue with queue := Function.update queue.queue queue.head (some (.command cmd')) }

variable {cmd cmd' : String} {queue queue' : SPSCQueue (Option Event) 64} {after : PsApp} {action : Action}

theorem same_pushes : Mail.Pushes Eq := by
  rintro queue _ e rfl
  rfl

theorem any_pushes : Mail.Pushes fun _ _ => True := fun _ _ _ _ => trivial

theorem waiting_pushes : (Waiting cmd cmd').Pushes := by
  rintro queue _ e ⟨filled, first, rfl⟩
  simp only [SPSCQueue.push]
  split
  next => exact ⟨filled, first, rfl⟩
  next space =>
    refine ⟨space, ?_, ?_⟩
    · show Function.update queue.queue queue.tail e queue.head = _
      rw [Function.update_of_ne filled, first]
    · show SPSCQueue.mk _ _ _ = SPSCQueue.mk _ _ _
      rw [Function.update_comm filled]

theorem Waiting.pop (waiting : Waiting cmd cmd' queue queue') :
    ∃ rest, queue.pop = some (some (.command cmd), rest) ∧ queue'.pop = some (some (.command cmd'), rest) := by
  obtain ⟨filled, first, rfl⟩ := waiting
  refine ⟨{ queue with queue := Function.update queue.queue queue.head default, head := Ring.next queue.head }, ?_, ?_⟩
  · rw [SPSCQueue.pop, if_neg filled, first]
  · simp [SPSCQueue.pop, filled]

theorem waiting_push (empty : queue.contents = []) :
    Waiting cmd cmd' (queue.push (some (.command cmd))).2 (queue.push (some (.command cmd'))).2 := by
  have same := queue.empty_iff.mpr empty
  have space : queue.head ≠ Ring.next queue.tail := by
    rw [same, Ne, Fin.ext_iff, SPSCQueue.next_eq]
    have inside := queue.tail.isLt
    split <;> omega
  simp only [SPSCQueue.push, if_neg space]
  refine ⟨space, ?_, ?_⟩
  · show Function.update queue.queue queue.tail _ queue.head = _
    rw [same, Function.update_self]
  · show SPSCQueue.mk _ _ _ = SPSCQueue.mk _ _ _
    rw [same, Function.update_idem]

/-- The next command typed is taken for a password. -/
def AsksPassword (app : PsApp) : Prop :=
  ∃ top overlay, app.layerstack.layers.getLast? = some top ∧ app.object top = .ok (.login overlay) ∧
    overlay.enteredUsername = true

theorem AsksPassword.core (asks : app.AsksPassword) (core : after.core = app.core) : after.AsksPassword := by
  obtain ⟨top, overlay, last, here, named⟩ := asks
  refine ⟨top, overlay, ?_, ?_, named⟩
  · rw [core_layerstack core]
    exact last
  · rw [object_some, core_objects core]
    exact object_some.mp here

/-- A login overlay passes every message on. -/
theorem AsksPassword.message {msg : Message} (asks : app.AsksPassword)
    (delivered : PsApp.pushToLayers world app (.message msg) = .ok after) : after.AsksPassword := by
  revert asks
  apply offer_always ?_ ?_ ?_ delivered
  · exact fun _ asks => asks
  · exact fun first last asks => last (first asks)
  intro app layer object reaction _ found reacted asks
  obtain ⟨top, overlay, last, here, named⟩ := asks
  obtain ⟨eventQueue, submitted, changed⟩ := react_changes app layer reaction
  rw [changed]
  refine ⟨top, overlay, last, ?_, named⟩
  have place := object_some.mp here
  apply object_some.mpr
  show (app.objects.set layer (some reaction.layer))[top]? = _
  by_cases same : layer = top
  · subst same
    cases found.symm.trans here
    cases reacted
    rw [List.getElem?_set_self (List.getElem?_eq_some_iff.mp place).1]
    rfl
  · rw [List.getElem?_set_ne same]
    exact place

/-- Every step but that of the event loop treats the queues alike. -/
theorem Agree.step (pushes : mail.Pushes) (agree : Agree mail app other) (unqueued : action ≠ .dispatch)
    (taken : app.step world action = some after) : ∃ final, other.step world action = some final ∧ Agree mail after final := by
  have alike := agree.alike
  have phase := alike.phase
  cases action with
  | message msg =>
    obtain ⟨network, client, received, delivered⟩ := step_message.mp taken
    obtain ⟨client', received', same⟩ := alike.client.receive msg client received
    have begun : Agree mail { app with client } { other with client := client' } :=
      ⟨{ alike with client := same }, agree.mail⟩
    obtain ⟨final, delivered', later⟩ := begun.pushToLayers pushes (.message msg) after delivered
    exact ⟨final, step_message.mpr ⟨phase ▸ network, client', received', delivered'⟩, later⟩
  | dispatch => exact absurd rfl unqueued
  | drained =>
    obtain ⟨network, rfl⟩ := step_drained.mp taken
    exact ⟨_, step_drained.mpr ⟨phase ▸ network, rfl⟩, { alike with phase := rfl }, agree.mail⟩
  | line line =>
    obtain ⟨input, rfl⟩ := step_line.mp taken
    refine ⟨_, step_line.mpr ⟨phase ▸ input, rfl⟩, ?_⟩
    cases line with
    | none => exact ⟨{ alike with phase := rfl }, agree.mail⟩
    | some cmd => exact ⟨{ alike with phase := rfl }, pushes _ _ _ agree.mail⟩
  | render =>
    obtain ⟨render, shown, rendered, rfl⟩ := step_render.mp taken
    obtain ⟨shown', rendered', later⟩ := agree.onRender shown rendered
    refine ⟨_, step_render.mpr ⟨phase ▸ render, shown', rendered', rfl⟩, { later.alike with phase := ?_ }, later.mail⟩
    rw [later.alike.running]

theorem Agree.same_step (agree : Agree Eq app other) (taken : app.step world action = some after) :
    ∃ final, other.step world action = some final ∧ Agree Eq after final := by
  cases action with
  | message | drained | line | render => exact agree.step same_pushes (by simp) taken
  | dispatch =>
    have alike := agree.alike
    obtain ⟨exit, phase, dispatched⟩ := step_dispatch.mp taken
    have popped : other.eventQueue.pop = app.eventQueue.pop := by rw [agree.mail]
    rcases dispatch_ok.mp dispatched with ⟨nothing, rfl⟩ | ⟨e, queue, first, ⟨rfl, rfl⟩ | ⟨rfl, event, rfl, processed⟩⟩
    · refine ⟨_, step_dispatch.mpr ⟨exit, alike.phase ▸ phase, dispatch_ok.mpr (Or.inl ⟨popped.trans nothing, rfl⟩)⟩, ?_⟩
      exact ⟨{ alike with phase := rfl }, agree.mail⟩
    · refine ⟨_, step_dispatch.mpr ⟨true, alike.phase ▸ phase,
        dispatch_ok.mpr (Or.inr ⟨e, queue, popped.trans first, Or.inl ⟨rfl, rfl⟩⟩)⟩, ?_⟩
      exact ⟨{ alike with phase := rfl }, rfl⟩
    · have begun : Agree Eq { app with eventQueue := queue } { other with eventQueue := queue } :=
        ⟨{ alike with }, rfl⟩
      obtain ⟨final, processes, later⟩ := begun.process same_pushes event after processed
      exact ⟨final, step_dispatch.mpr ⟨false, alike.phase ▸ phase,
        dispatch_ok.mpr (Or.inr ⟨_, queue, popped.trans first, Or.inr ⟨rfl, event, rfl, processes⟩⟩)⟩, later⟩

/-- A command ends at the login overlay on top. -/
theorem process_command {top : Nat} {overlay : LoginOverlay} (last : app.layerstack.layers.getLast? = some top)
    (here : app.object top = .ok (.login overlay)) (stays : cmd ≠ "q") :
    process world app (.command cmd) = .ok (react { app with dispatched := app.dispatched ++ [.command cmd] } top
      ((overlay.onCommand world top app.client cmd).map .login)) := by
  have reacted : (Layer.login overlay).onEvent world top app.client (.command cmd) =
      .ok ((overlay.onCommand world top app.client cmd).map .login) := rfl
  have handled := (Layer.command reacted).2.2 (by simp [Layer.kind])
  rw [← List.head?_reverse] at last
  obtain ⟨below, layers⟩ := List.head?_eq_some_iff.mp last
  have handling : handle { app with dispatched := app.dispatched ++ [.command cmd] } (.command cmd) =
      .ok { app with dispatched := app.dispatched ++ [.command cmd] } := by
    rw [PsApp.handle, if_neg stays]
  refine except_bind_ok.mpr ⟨_, handling, ?_⟩
  rw [PsApp.pushToLayers, layers]
  refine except_bind_ok.mpr ⟨_, here, except_bind_ok.mpr ⟨_, reacted, ?_⟩⟩
  rw [if_pos handled]
  rfl

/-- The overlay takes the one command for a password and the other run's for another. -/
theorem Agree.password {token token' : String} (agree : Agree (Waiting cmd cmd') app other) (asks : app.AsksPassword)
    (tokens : tokenize cmd = [token]) (tokens' : tokenize cmd' = [token'])
    (blank : Debug.startsBlank token = Debug.startsBlank token') (stays : cmd ≠ "q") (stays' : cmd' ≠ "q")
    (phase : app.phase = .events false) (taken : app.step world .dispatch = some after) :
    ∃ final, other.step world .dispatch = some final ∧ Agree Eq after final := by
  have alike := agree.alike
  obtain ⟨top, overlay, last, here, named⟩ := asks
  obtain ⟨rest, popped, popped'⟩ := agree.mail.pop
  have last' : other.layerstack.layers.getLast? = some top := alike.layerstack ▸ last
  have here' : other.object top = .ok (.login overlay) := (alike.object top).symm.trans here
  have begun : Agree Eq { app with eventQueue := rest, dispatched := app.dispatched ++ [.command cmd] }
      { other with eventQueue := rest, dispatched := other.dispatched ++ [.command cmd'] } := ⟨{ alike with }, rfl⟩
  have ends : app.dispatch world false = .ok (PsApp.react
      { app with eventQueue := rest, dispatched := app.dispatched ++ [.command cmd] } top
      ((overlay.onCommand world top app.client cmd).map .login)) := by
    rw [dispatch, popped]
    exact process_command last here stays
  have ends' : other.dispatch world false = .ok (PsApp.react
      { other with eventQueue := rest, dispatched := other.dispatched ++ [.command cmd'] } top
      ((overlay.onCommand world top other.client cmd').map .login)) := by
    rw [dispatch, popped']
    exact process_command last' here' stays'
  obtain ⟨exit, here, dispatched⟩ := step_dispatch.mp taken
  cases phase.symm.trans here
  cases ends.symm.trans dispatched
  refine ⟨_, step_dispatch.mpr ⟨false, alike.phase ▸ phase, ends'⟩, ?_⟩
  exact begun.react same_pushes ((LoginOverlay.password_alike named alike.client tokens tokens' blank).map _)

/-- Two runs of which one typed `cmd` for a password where the other typed `cmd'`. -/
inductive Parallel (cmd cmd' : String) (app other : PsApp) : Prop where
  | same (agree : Agree Eq app other)
  | waiting (agree : Agree (Waiting cmd cmd') app other) (asks : app.AsksPassword) (awaits : app.phase ≠ .input)
      (stays : app.phase ≠ .events true)
  | ending (agree : Agree (fun _ _ => True) app other)
      (ends : app.phase = .render ∧ app.running = false ∨ app.phase = .stopped)

theorem Parallel.step {token token' : String} (parallel : Parallel cmd cmd' app other) (tokens : tokenize cmd = [token])
    (tokens' : tokenize cmd' = [token']) (blank : Debug.startsBlank token = Debug.startsBlank token') (stays : cmd ≠ "q")
    (stays' : cmd' ≠ "q") (taken : app.step world action = some after) :
    ∃ final, other.step world action = some final ∧ Parallel cmd cmd' after final := by
  cases parallel with
  | same agree =>
    obtain ⟨final, taken', later⟩ := agree.same_step taken
    exact ⟨final, taken', .same later⟩
  | waiting agree asks awaits loops =>
    cases action with
    | dispatch =>
      obtain ⟨exit, phase, _⟩ := step_dispatch.mp taken
      cases exit with
      | true => exact absurd phase loops
      | false =>
        obtain ⟨final, taken', later⟩ := agree.password asks tokens tokens' blank stays stays' phase taken
        exact ⟨final, taken', .same later⟩
    | line line => exact absurd (step_line.mp taken).1 awaits
    | message msg =>
      obtain ⟨final, taken', later⟩ := agree.step waiting_pushes (by simp) taken
      obtain ⟨network, client, _, delivered⟩ := step_message.mp taken
      have begun : AsksPassword { app with client } := asks
      have phase : after.phase = .network := (offer_frame delivered).phase.trans network
      exact ⟨final, taken', .waiting later (begun.message delivered) (by simp [phase]) (by simp [phase])⟩
    | drained =>
      obtain ⟨final, taken', later⟩ := agree.step waiting_pushes (by simp) taken
      obtain ⟨_, rfl⟩ := step_drained.mp taken
      exact ⟨final, taken', .waiting later asks (by simp) (by simp)⟩
    | render =>
      obtain ⟨final, taken', later⟩ := agree.step waiting_pushes (by simp) taken
      obtain ⟨_, shown, rendered, rfl⟩ := step_render.mp taken
      have core := (onRender_core rendered).1
      refine ⟨final, taken', .waiting later (asks.core core) ?_ ?_⟩
      · show (if shown.running then Phase.network else .stopped) ≠ _
        split <;> simp
      · show (if shown.running then Phase.network else .stopped) ≠ _
        split <;> simp
  | ending agree ends =>
    rcases ends with ⟨phase, quit⟩ | phase
    · cases action with
      | message msg => cases phase.symm.trans (step_message.mp taken).1
      | drained => cases phase.symm.trans (step_drained.mp taken).1
      | dispatch =>
        obtain ⟨_, events, _⟩ := step_dispatch.mp taken
        cases phase.symm.trans events
      | line line => cases phase.symm.trans (step_line.mp taken).1
      | render =>
        obtain ⟨final, taken', later⟩ := agree.step any_pushes (by simp) taken
        obtain ⟨_, shown, rendered, rfl⟩ := step_render.mp taken
        have stopped : shown.running = false := (onRender_frame rendered).2.2.1.trans quit
        exact ⟨final, taken', .ending later (Or.inr (by rw [stopped]; rfl))⟩
    · simp [PsApp.step, phase] at taken

/-- The line is the next command unless the program ends with this turn. -/
theorem Layered.typed (layered : Layered app) (phase : app.phase = .input) (asks : app.AsksPassword) :
    Parallel cmd cmd' (app.readLine (some cmd)) (app.readLine (some cmd')) := by
  have alike : (app.readLine (some cmd)).Alike (app.readLine (some cmd')) :=
    ⟨.refl _, rfl, rfl, rfl, rfl, rfl, rfl, rfl⟩
  cases layered with
  | opening opening =>
    rcases opening.phase with network | events
    · cases network.symm.trans phase
    · cases events.symm.trans phase
  | running base above pending covered awaiting stays drained =>
    have empty : app.eventQueue.contents = [] := by rw [awaiting.queue, drained phase, List.map_nil]
    refine .waiting ⟨alike, waiting_push empty⟩ (asks.core rfl) ?_ ?_
    · simp [readLine]
    · simp [readLine]
  | leaving base above covered quit left =>
    exact .ending ⟨alike, trivial⟩ (Or.inl ⟨rfl, quit⟩)

theorem Parallel.alike (parallel : Parallel cmd cmd' app other) : app.Alike other := by
  cases parallel with
  | same agree => exact agree.alike
  | waiting agree => exact agree.alike
  | ending agree => exact agree.alike

/-- If one password is typed for another, the run goes on in the same way: the same frames are
sent, the same text is shown and the layers are the same, and what is asked of the login
server differs in the password alone. The answers are those that the other run gets. -/
theorem password_secret {before rest : List Action} {final : PsApp} {token token' : String}
    (start : Runs.exec (PsApp.step world) init before = some app) (asks : app.AsksPassword)
    (tokens : tokenize cmd = [token]) (tokens' : tokenize cmd' = [token'])
    (blank : Debug.startsBlank token = Debug.startsBlank token') (stays : cmd ≠ "q") (stays' : cmd' ≠ "q")
    (reached : Runs.exec (PsApp.step world) app (.line (some cmd) :: rest) = some final) :
    ∃ other, Runs.exec (PsApp.step world) app (.line (some cmd') :: rest) = some other ∧ final.Alike other := by
  obtain ⟨typed, taken, later⟩ := Option.bind_eq_some_iff.mp reached
  obtain ⟨phase, rfl⟩ := step_line.mp taken
  have parallel : Parallel cmd cmd' (app.readLine (some cmd)) (app.readLine (some cmd')) :=
    (layered start).typed phase asks
  have follows : ∃ other, Runs.exec (PsApp.step world) (app.readLine (some cmd')) rest = some other ∧
      Parallel cmd cmd' final other :=
    Runs.follow (fun _ _ _ _ held taken => held.step tokens tokens' blank stays stays' taken) parallel later
  obtain ⟨other, run, ends⟩ := follows
  have first : PsApp.step world app (.line (some cmd')) = some (app.readLine (some cmd')) :=
    step_line.mpr ⟨phase, rfl⟩
  exact ⟨other, by rw [Runs.exec_cons, first, Option.bind_some, run], ends.alike⟩

private def trustingWorld : World := { parse := fun _ => none, assertions := fun _ => "trust" }

/-- The login is opened, the challenge arrives and the name is typed. -/
private def named : List Action :=
  [.drained, .dispatch, .dispatch, .line (some "2"), .render,
    .message { roomId := "", type := "challstr", args := ["4", "abc"] }, .drained, .dispatch, .dispatch, .dispatch,
    .line (some "Ash"), .render, .drained, .dispatch, .dispatch]

private def entered : List Action := [.render, .drained, .dispatch, .dispatch]

theorem password_secret_entered :
    ∃ app final, Runs.exec (PsApp.step trustingWorld) init named = some app ∧
      Runs.exec (PsApp.step trustingWorld) app (.line (some "pika") :: entered) = some final ∧
      final.client.asserted = [("Ash", "pika", "4|abc")] ∧ final.client.sent = ["|/trn Ash,0,trust"] ∧
      ∃ other, Runs.exec (PsApp.step trustingWorld) app (.line (some "chu") :: entered) = some other ∧ final.Alike other := by
  have asking : (Runs.exec (PsApp.step trustingWorld) init named).map
      (fun app => (app.layerstack.layers.getLast?, app.objects[1]?)) =
        some (some 1, some (some (.login { isSignup := false, enteredUsername := true }))) := by decide +kernel
  have whole : (Runs.exec (PsApp.step trustingWorld) init (named ++ .line (some "pika") :: entered)).map
      (fun final => (final.client.asserted, final.client.sent)) =
        some ([("Ash", "pika", "4|abc")], ["|/trn Ash,0,trust"]) := by decide +kernel
  obtain ⟨app, start, shape⟩ := Option.map_eq_some_iff.mp asking
  obtain ⟨last, here⟩ := Prod.mk.inj shape
  obtain ⟨final, reached, shape⟩ := Option.map_eq_some_iff.mp whole
  obtain ⟨asserted, sent⟩ := Prod.mk.inj shape
  rw [Runs.exec_append, start, Option.bind_some] at reached
  have asks : app.AsksPassword := ⟨1, _, last, object_some.mpr here, rfl⟩
  have tokens : tokenize "pika" = ["pika"] := by decide
  have tokens' : tokenize "chu" = ["chu"] := by decide
  exact ⟨app, final, start, reached, asserted, sent,
    password_secret start asks tokens tokens' (by decide) (by decide) (by decide) reached⟩

end PsApp
end ShowdownCli
