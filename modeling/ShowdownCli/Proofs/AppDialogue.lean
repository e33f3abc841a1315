import ShowdownCli.Dialogue
import ShowdownCli.Library.Refinement
import ShowdownCli.Proofs.AppOrigins
import ShowdownCli.Proofs.AppSteps
import ShowdownCli.Proofs.BattleCommands
import ShowdownCli.Proofs.LoginCredentials

/-! Everything the client sends over a run is a dialogue. The seat that the dialogue
leads to is that of the battle on the stack, since a battle is on the stack alone. What is
said goes back to lines that were typed and to messages that came. -/

namespace ShowdownCli
open Library

def BattleLayer.seat (battle : BattleLayer) : Seat := { room := battle.battleRoom, timer := battle.timerActive }

/-! ## Rooms -/

namespace Seat
variable {seat next : Option Seat} {room : String} {given : Order}

/-- An order goes to the room of the battle, and leaves it there. -/
theorem step_order (taken : Seat.step seat (.order room given) = some next) :
    ∃ battle after, seat = some battle ∧ battle.room = room ∧ next = some after ∧ after.room = room := by
  cases seat with
  | none => cases taken
  | some battle =>
    simp only [step] at taken
    split at taken
    next here =>
      obtain ⟨after, ordered, rfl⟩ := Option.map_eq_some_iff.mp taken
      refine ⟨battle, after, rfl, here, rfl, ?_⟩
      unfold order at ordered
      repeat' split at ordered
      all_goals
        cases ordered
        try exact here
    next => cases taken

theorem step_joined {done : List Utterance} {utterance : Utterance}
    (joined : ∀ battle, seat = some battle → battle.room = "" ∨ .join battle.room ∈ done)
    (taken : Seat.step seat utterance = some next) :
    ∀ battle, next = some battle → battle.room = "" ∨ .join battle.room ∈ done ++ [utterance] := by
  have earlier (battle : Seat) (same : seat = some battle) :
      battle.room = "" ∨ Utterance.join battle.room ∈ done ++ [utterance] :=
    (joined battle same).imp_right (List.mem_append_left _)
  rintro battle rfl
  cases utterance with
  | search =>
    cases taken
    exact Or.inl rfl
  | login =>
    cases taken
    exact earlier battle rfl
  | join room =>
    simp only [step] at taken
    obtain ⟨before, _, same⟩ := Option.map_eq_some_iff.mp taken
    cases same
    exact Or.inr (by simp)
  | order room given =>
    obtain ⟨before, after, here, rfl, same, kept⟩ := step_order taken
    cases same
    rw [kept]
    exact earlier before here

/-- Orders go to a room that was joined before them, if to any. -/
theorem order_joined {utterances done : List Utterance} (run : Runs.exec step none utterances = some seat)
    (inside : done ++ [.order room given] <+: utterances) : room = "" ∨ .join room ∈ done := by
  obtain ⟨after, ordered⟩ := Runs.exec_earlier inside run
  obtain ⟨before, earlier, taken⟩ := Runs.exec_concat_some ordered
  have joined : ∀ battle, before = some battle → battle.room = "" ∨ .join battle.room ∈ done := by
    refine Runs.always (fun done seat => ∀ battle, seat = some battle → battle.room = "" ∨ .join battle.room ∈ done)
      ?_ (fun _ _ _ _ prior taken => step_joined prior taken) earlier
    simp
  obtain ⟨battle, _, here, rfl, _⟩ := step_order taken
  exact joined battle here

end Seat

/-! ## Reasons -/

/-- The login that follows a request for an assertion. -/
def granted (world : World) (asked : (String × String × String) × Nat) : Option Utterance :=
  if world.assertions asked.2 = "" then none else some (.login asked.1.1 (world.assertions asked.2))

/-- The logins are those that the requests have led to. -/
def Trusts (world : World) (first : Nat) (requests : List (String × String × String)) (utterances : List Utterance) :
    Prop :=
  utterances.filter Utterance.isLogin = (requests.zipIdx first).filterMap (granted world)

/-- The order that a battle takes a line for. -/
def Order.From (cmd : String) : Order → Prop
  | .switch pick => Play.picks cmd = true ∧ pick = BattleLayer.initial cmd ∨
      cmd ∈ ["s1", "s2", "s3", "s4", "s5", "s6"] ∧ pick = String.ofList (cmd.toList.drop 1)
  | .move pick tera => Play.picks cmd = true ∧ pick = BattleLayer.initial cmd ∧ tera = decide ((tokenize cmd).tail = ["tera"])
  | .forfeit => cmd = "f"
  | .timer _ => cmd = "t"

/-- A line of one word was typed that is this name, as far as it fits. -/
def Introduces (actions : List PsApp.Action) (username : String) : Prop :=
  ∃ cmd token, .line (some cmd) ∈ actions ∧ tokenize cmd = [token] ∧
    username = String.ofList ((token.toList.take 31).takeWhile (· ≠ '\x00'))

/-- What the turns have brought that the client says this for. -/
def Utterance.From (world : World) (actions : List PsApp.Action) : Utterance → Prop
  | .search => .line (some "1") ∈ actions
  | .login username _ => Introduces actions username
  | .join room => ∃ msg, .message msg ∈ actions ∧ Play.joins world msg = some room
  | .order _ given => ∃ cmd, .line (some cmd) ∈ actions ∧ given.From cmd

/-- The name that the client has taken was typed. -/
def Named (actions : List PsApp.Action) (client : PsClient) : Prop :=
  client.username.cString = "" ∨ Introduces actions client.username.cString

/-- What has been sent since continues the dialogue, and was said for what the turns have brought. -/
def Speaks (world : World) (actions : List PsApp.Action) (client after : PsClient) (seat next : Option Seat) : Prop :=
  ∃ utterances requests, after.sent = client.sent ++ utterances.map Utterance.frame ∧
    after.asserted = client.asserted ++ requests ∧ Trusts world client.asserted.length requests utterances ∧
    Runs.exec Seat.step seat utterances = some next ∧
    (Named actions client → Named actions after ∧ ∀ utterance ∈ utterances, utterance.From world actions)

variable {world : World} {actions : List PsApp.Action} {this : Nat} {client middle after : PsClient} {event : Event}
  {seat next last : Option Seat}

theorem Speaks.nothing (sent : after.sent = client.sent) (asserted : after.asserted = client.asserted)
    (named : Named actions client → Named actions after) : Speaks world actions client after seat seat :=
  ⟨[], [], by simp [sent], by simp [asserted], rfl, rfl, fun before => ⟨named before, by simp⟩⟩

theorem Speaks.kept (sent : after.sent = client.sent) (asserted : after.asserted = client.asserted)
    (username : after.username = client.username) : Speaks world actions client after seat seat :=
  .nothing sent asserted fun named => by rwa [Named, username]

theorem Speaks.same (same : after = client) : Speaks world actions client after seat seat := by
  subst same
  exact .kept rfl rfl rfl

theorem Speaks.one {utterance : Utterance} (sent : after.sent = client.sent ++ [utterance.frame])
    (asserted : after.asserted = client.asserted) (username : after.username = client.username)
    (other : utterance.isLogin = false) (said : utterance.From world actions)
    (taken : Seat.step seat utterance = some next) : Speaks world actions client after seat next := by
  refine ⟨[utterance], [], sent, by simp [asserted], ?_, ?_, fun named => ⟨?_, ?_⟩⟩
  · simp [Trusts, other]
  · rw [Runs.exec_cons, taken]
    rfl
  · rw [Named, username]
    exact named
  · simpa using said

theorem Speaks.trans (first : Speaks world actions client middle seat next)
    (second : Speaks world actions middle after next last) : Speaks world actions client after seat last := by
  obtain ⟨utterances, requests, sent, asserted, trusts, taken, reasons⟩ := first
  obtain ⟨more, others, later, grown, trusted, further, since⟩ := second
  refine ⟨utterances ++ more, requests ++ others, ?_, ?_, ?_, ?_, fun named => ?_⟩
  · rw [later, sent, List.map_append, List.append_assoc]
  · rw [grown, asserted, List.append_assoc]
  · unfold Trusts at *
    rw [asserted, List.length_append] at trusted
    rw [List.filter_append, trusts, trusted, List.zipIdx_append, List.filterMap_append]
  · rw [Runs.exec_append, taken]
    exact further
  · obtain ⟨between, said⟩ := reasons named
    obtain ⟨named, saying⟩ := since between
    exact ⟨named, fun utterance member => (List.mem_append.mp member).elim (said utterance) (saying utterance)⟩

theorem cString_filled {buffer : Credential} (filled : buffer.chars.head ≠ '\x00') : buffer.cString ≠ "" := by
  obtain ⟨rest, chars⟩ := List.head?_eq_some_iff.mp buffer.head_toList
  intro nothing
  rw [Credential.cString, chars, List.takeWhile_cons_of_pos (by simpa using filled)] at nothing
  simpa using congrArg String.toList nothing

/-! ## The layers -/

/-- A request is followed by a login exactly if it was answered with an assertion. -/
theorem PsClient.tryLogin_speaks (client : PsClient) (seat : Option Seat) :
    Speaks world actions client (client.tryLogin world.assertions).2 seat seat := by
  unfold tryLogin
  split
  next => exact .kept rfl rfl rfl
  next =>
    split
    next => exact .kept rfl rfl rfl
    next filled =>
      rw [not_or] at filled
      simp only
      split
      next refused =>
        refine ⟨[], [(client.username.cString, client.password.cString, client.challStr)], by simp, rfl, ?_, rfl,
          fun named => ⟨named, by simp⟩⟩
        simp [Trusts, granted, refused]
      next trusted =>
        refine ⟨[.login client.username.cString (world.assertions client.asserted.length)],
          [(client.username.cString, client.password.cString, client.challStr)], rfl, rfl, ?_, rfl, fun named => ?_⟩
        · simp [Trusts, granted, trusted, Utterance.isLogin]
        · have introduced := named.resolve_left (cString_filled filled.1)
          exact ⟨.inl rfl, fun utterance member => List.mem_singleton.mp member ▸ introduced⟩

namespace BattleLayer

theorem speaks_order {battle other : BattleLayer} {order : Order} {frame cmd : String}
    (typed : .line (some cmd) ∈ actions) (sent : frame = battle.battleRoom ++ order.text) (said : order.From cmd)
    (taken : battle.seat.order order = some other.seat) :
    Speaks world actions client (client.send frame) (some battle.seat) (some other.seat) := by
  have spoken : (client.send frame).sent = client.sent ++ [(Utterance.order battle.battleRoom order).frame] := by
    rw [sent]
    rfl
  apply Speaks.one spoken rfl rfl rfl ⟨cmd, typed, said⟩
  have here : battle.seat.room = battle.battleRoom := rfl
  simp only [Seat.step, here, if_true, taken, Option.map_some]

theorem choose_speaks {battle : BattleLayer} {cmd token : String} {rest : List String}
    (typed : .line (some cmd) ∈ actions) (tokens : tokenize cmd = token :: rest) (pick : token ∈ ["1", "2", "3", "4"])
    (chosen : battle.choose client cmd rest = .ok after) :
    Speaks world actions client after (some battle.seat) (some battle.seat) := by
  have picked : Play.picks cmd = true := by simpa [Play.picks, tokens] using pick
  rw [choose_frame] at chosen
  obtain ⟨switching, _, rfl⟩ := except_map_ok.mp chosen
  cases switching with
  | true =>
    have frame : battle.pickFrame true (initial cmd) rest = battle.battleRoom ++ (Order.switch (initial cmd)).text := by
      simp [pickFrame, Order.text]
    exact speaks_order typed frame (Or.inl ⟨picked, rfl⟩) rfl
  | false =>
    have frame : battle.pickFrame false (initial cmd) rest =
        battle.battleRoom ++ (Order.move (initial cmd) (rest = ["tera"])).text := by
      simp [pickFrame, Order.text, String.append_assoc]
    exact speaks_order typed frame ⟨picked, rfl, by rw [tokens, List.tail_cons]⟩ rfl

theorem toggleTimer_speaks (battle : BattleLayer) (typed : .line (some "t") ∈ actions) :
    Speaks world actions client (battle.toggleTimer client).2 (some battle.seat)
      (some (battle.toggleTimer client).1.seat) := by
  unfold toggleTimer
  split
  next active =>
    have taken : battle.seat.order (.timer false) = some { battle with timerActive := false }.seat := by
      simp [Seat.order, seat, active]
    have said : (Order.timer false).From "t" := rfl
    exact speaks_order typed rfl said taken
  next inactive =>
    have taken : battle.seat.order (.timer true) = some { battle with timerActive := true }.seat := by
      simp [Seat.order, seat, inactive]
    have said : (Order.timer true).From "t" := rfl
    exact speaks_order typed rfl said taken

theorem command_speaks {battle : BattleLayer} {cmd : String} {reaction : Reaction BattleLayer}
    (typed : .line (some cmd) ∈ actions) (reacted : battle.onCommand client cmd = .ok reaction) :
    Speaks world actions client reaction.client (some battle.seat) (some reaction.layer.seat) := by
  unfold onCommand at reacted
  split at reacted
  next =>
    cases reacted
    exact .kept rfl rfl rfl
  next token rest tokens =>
    split at reacted
    next pick =>
      obtain ⟨chosen, choosing, made⟩ := except_bind_ok.mp reacted
      cases made
      exact choose_speaks typed tokens pick choosing
    next =>
      split at reacted
      next forfeit =>
        cases reacted
        have frame : battle.battleRoom ++ "|/forfeit" = battle.battleRoom ++ Order.forfeit.text := rfl
        exact speaks_order typed frame forfeit rfl
      next =>
        split at reacted
        next timer =>
          cases reacted
          subst timer
          exact battle.toggleTimer_speaks typed
        next =>
          split at reacted
          next slot =>
            cases reacted
            have frame : battle.battleRoom ++ "|/choose switch " ++ String.ofList (cmd.toList.drop 1) =
                battle.battleRoom ++ (Order.switch (String.ofList (cmd.toList.drop 1))).text := by
              rw [Order.text, String.append_assoc]
            exact speaks_order typed frame (Or.inr ⟨slot, rfl⟩) rfl
          next =>
            cases reacted
            exact .kept rfl rfl rfl

theorem message_speaks {battle : BattleLayer} {msg : Message} {reaction : Reaction BattleLayer}
    (came : .message msg ∈ actions) (reacted : battle.onMessage world this client msg = .ok reaction) :
    Speaks world actions client reaction.client (some battle.seat) (some reaction.layer.seat) := by
  unfold onMessage at reacted
  split at reacted
  next => cases reacted
  next state applied =>
    split at reacted
    next search =>
      obtain ⟨payload, argument, rest⟩ := except_bind_ok.mp reacted
      obtain ⟨⟨moved, client'⟩, updated, made⟩ := except_bind_ok.mp rest
      cases made
      rcases Play.updateSearch_ok search.1 (Message.arg_ok.mp argument) updated with
        ⟨_, rfl, rfl⟩ | ⟨room, joins, rfl, rfl⟩
      · exact .kept rfl rfl rfl
      · have said : (client.send ("|/join " ++ room)).sent = client.sent ++ [(Utterance.join room).frame] := rfl
        exact .one said rfl rfl rfl ⟨msg, came, joins⟩ rfl
    next =>
      split at reacted
      next =>
        cases reacted
        exact .kept rfl rfl rfl
      next =>
        split at reacted
        all_goals
          cases reacted
          exact .kept rfl rfl rfl

end BattleLayer

theorem PsClient.setUsername_named (client : PsClient) {cmd token : String} (typed : .line (some cmd) ∈ actions)
    (words : tokenize cmd = [token]) (named : Named actions client) : Named actions (client.setUsername token).2 := by
  unfold setUsername
  split
  next =>
    have introduced : Introduces actions (client.username.set token).cString :=
      ⟨cmd, token, typed, words, Credential.cString_set client.username token⟩
    exact Or.inr introduced
  next => exact named

theorem LoginOverlay.speaks (overlay : LoginOverlay) (arrives : event.Given actions) (seat : Option Seat) :
    Speaks world actions client (overlay.onEvent world this client event).client seat seat := by
  cases event with
  | command cmd =>
    simp only [onEvent, onCommand]
    split
    next token words =>
      have named : Speaks world actions client (client.setUsername token).2 seat seat := by
        refine .nothing ?_ ?_ (client.setUsername_named arrives words)
        all_goals
          unfold PsClient.setUsername
          split <;> rfl
      have keyed : Speaks world actions client (client.setPassword token).2 seat seat := by
        unfold PsClient.setPassword
        split <;> exact .kept rfl rfl rfl
      split
      next =>
        split <;> rename_i set <;> rw [set] at named <;> exact named
      next =>
        split
        next set =>
          rw [set] at keyed
          exact keyed
        next middle set =>
          rw [set] at keyed
          have both := keyed.trans (middle.tryLogin_speaks seat)
          split <;> rename_i set <;> rw [set] at both <;> exact both
    next => exact .kept rfl rfl rfl
  | message | layerPush | layerPop | login | battleSearch | battleJoin => exact .kept rfl rfl rfl

theorem BattleLayer.speaks {battle : BattleLayer} {reaction : Reaction BattleLayer} (arrives : event.Given actions)
    (reacted : battle.onEvent world this client event = .ok reaction) :
    Speaks world actions client reaction.client (some battle.seat) (some reaction.layer.seat) := by
  cases event with
  | command cmd => exact command_speaks arrives reacted
  | message msg => exact message_speaks arrives reacted
  | layerPush | layerPop | login | battleSearch | battleJoin =>
    cases reacted
    exact .kept rfl rfl rfl

theorem MenuLayer.silent {reaction : Reaction Unit} (reacted : MenuLayer.onEvent this client event = .ok reaction) :
    reaction.client = client := by
  cases event with
  | command cmd =>
    simp only [onEvent, onCommand, Except.ok.injEq] at reacted
    subst reacted
    repeat' split
    all_goals rfl
  | message msg =>
    simp only [onEvent, onMessage] at reacted
    split at reacted
    next =>
      obtain ⟨winner, _, shown⟩ := except_bind_ok.mp reacted
      cases shown
      rfl
    next =>
      cases reacted
      rfl
  | layerPush | layerPop | login | battleSearch | battleJoin =>
    cases reacted
    rfl

/-- The seat is the one that the layer has taken, if it is a battle. -/
def Layer.Sits (layer : Layer) (seat : Option Seat) : Prop := ∀ battle, layer = .battle battle → seat = some battle.seat

theorem Layer.speaks {layer : Layer} {reaction : Reaction Layer} (arrives : event.Given actions) (sits : layer.Sits seat)
    (reacted : layer.onEvent world this client event = .ok reaction) :
    ∃ next, Speaks world actions client reaction.client seat next ∧ reaction.layer.Sits next ∧
      (layer.kind ≠ .battle → next = seat) := by
  cases layer with
  | menu =>
    obtain ⟨inner, shown, rfl⟩ := except_map_ok.mp reacted
    have same := MenuLayer.silent shown
    exact ⟨seat, .same same, by simp [Sits, Reaction.map], fun _ => rfl⟩
  | login overlay =>
    cases reacted
    exact ⟨seat, overlay.speaks arrives seat, by simp [Sits, Reaction.map], fun _ => rfl⟩
  | battle battleLayer =>
    obtain ⟨inner, shown, rfl⟩ := except_map_ok.mp reacted
    cases sits battleLayer rfl
    refine ⟨some inner.layer.seat, BattleLayer.speaks arrives shown, ?_, fun other => absurd rfl other⟩
    rintro battle same
    cases same
    rfl

/-! ## The application -/

namespace PsApp
variable {app after : PsApp} {layers : List Nat}

/-- The seat of the dialogue is that of every battle on the stack. -/
def Faithful (app : PsApp) (seat : Option Seat) : Prop :=
  ∀ layer ∈ app.layerstack.layers, ∀ object, app.objects[layer]? = some (some object) → object.Sits seat

/-- There is one battle on the stack at most. -/
def Single (app : PsApp) : Prop :=
  ∀ first ∈ app.layerstack.layers, ∀ second ∈ app.layerstack.layers, app.kinds[first]? = some (some .battle) →
    app.kinds[second]? = some (some .battle) → first = second

theorem Covered.one {base : List Nat} {above : Option Nat} (covered : Covered app base above) : Single app := by
  have top (layer : Nat) (member : layer ∈ app.layerstack.layers) (battle : app.kinds[layer]? = some (some .battle)) :
      above = some layer := by
    rw [covered.layers] at member
    rcases List.mem_append.mp member with below | here
    · rcases covered.base with rfl | ⟨rfl, menu⟩
      · cases below
      · rw [List.mem_singleton.mp below, menu] at battle
        cases battle
    · exact Option.mem_toList.mp here
  intro first inside second within battle other
  exact Option.some.inj ((top first inside battle).symm.trans (top second within other))

theorem Layered.one (layered : Layered app) : Single app := by
  cases layered with
  | opening opening =>
    intro first inside
    rw [opening.layerstack] at inside
    cases inside
  | running _ _ _ covered => exact covered.one
  | leaving _ _ covered => exact covered.one

theorem react_speaks {layer : Nat} {object : Layer} {reaction : Reaction Layer} (single : Single app)
    (arrives : event.Given actions) (faithful : Faithful app seat) (member : layer ∈ app.layerstack.layers)
    (found : app.object layer = .ok object) (reacted : object.onEvent world layer app.client event = .ok reaction) :
    ∃ next, Speaks world actions app.client (app.react layer reaction).client seat next ∧
      Faithful (app.react layer reaction) next := by
  obtain ⟨eventQueue, submitted, changed⟩ := react_changes app layer reaction
  have here := object_some.mp found
  obtain ⟨inside, _⟩ := List.getElem?_eq_some_iff.mp here
  obtain ⟨next, speaks, sits, others⟩ := Layer.speaks arrives (faithful layer member object here) reacted
  rw [changed]
  refine ⟨next, speaks, fun other within => ?_⟩
  intro thing there
  by_cases same : layer = other
  · subst same
    rw [List.getElem?_set_self inside] at there
    cases there
    exact sits
  · rw [List.getElem?_set_ne same] at there
    rintro battle rfl
    have kind : object.kind ≠ .battle := by
      intro battling
      apply same
      apply single layer member other within
      · rw [object_kind found, battling]
      · exact object_kind (object_some.mpr there)
    rw [others kind]
    exact faithful other within _ there battle rfl

theorem offer_speaks (single : Single app) (within : ∀ layer ∈ layers, layer ∈ app.layerstack.layers)
    (arrives : event.Given actions) (faithful : Faithful app seat) (offered : offer world event layers app = .ok after) :
    ∃ next, Speaks world actions app.client after.client seat next ∧ Faithful after next := by
  have always : Frame app after ∧ ((∀ layer ∈ layers, layer ∈ app.layerstack.layers) → Single app →
      ∀ seat, Faithful app seat → ∃ next, Speaks world actions app.client after.client seat next ∧ Faithful after next) := by
    apply offer_always ?_ ?_ ?_ offered
    · exact fun app => ⟨.refl app, fun _ _ seat faithful => ⟨seat, .kept rfl rfl rfl, faithful⟩⟩
    · intro app middle after first second
      obtain ⟨frame, former⟩ := first
      obtain ⟨later, latter⟩ := second
      refine ⟨frame.trans later, fun within single seat faithful => ?_⟩
      obtain ⟨next, speaks, sits⟩ := former within single seat faithful
      have still : Single middle := by
        rw [Single, frame.layerstack, frame.kinds]
        exact single
      obtain ⟨last, more, seated⟩ := latter (by rw [frame.layerstack]; exact within) still next sits
      exact ⟨last, speaks.trans more, seated⟩
    · intro app layer object reaction member found reacted
      refine ⟨(react_frame found (Layer.onEvent_kind reacted)).1, fun within single seat faithful => ?_⟩
      exact react_speaks single arrives faithful (within layer member) found reacted
  exact always.2 within single seat faithful

theorem Faithful.core {same : PsApp} (faithful : Faithful app seat) (core : same.core = app.core) :
    Faithful same seat := by
  intro layer member object here
  rw [core_layerstack core] at member
  rw [core_objects core] at here
  exact faithful layer member object here

theorem sits_menu {object : Layer} (menu : object.kind = .menu) (seat : Option Seat) : object.Sits seat := by
  rintro battle rfl
  cases menu

theorem kind_at {layer : Nat} {object : Layer} {kind : LayerKind} (here : app.objects[layer]? = some (some object))
    (known : app.kinds[layer]? = some (some kind)) : object.kind = kind := by
  have found := object_kind (object_some.mpr here)
  rw [known] at found
  cases found
  rfl

theorem attached_object {layer : Nat} {object thing : Layer}
    (there : (app.attached object).objects[layer]? = some (some thing)) :
    app.objects[layer]? = some (some thing) ∨ thing = object := by
  have appended : (app.objects ++ [some object])[layer]? = some (some thing) := there
  rw [List.getElem?_append] at appended
  split at appended
  next => exact Or.inl appended
  next =>
    have member := List.mem_of_getElem? appended
    exact Or.inr (Option.some.inj (List.mem_singleton.mp member))

/-- A search is the only thing that the main loop says itself. -/
theorem Outcome.speaks (arrives : event.Given actions) (faithful : Faithful app seat) (outcome : Outcome app event after) :
    ∃ next, Speaks world actions app.client after.client seat next ∧ Faithful after next := by
  cases outcome with
  | same same =>
    exact ⟨seat, .same (core_client same), faithful.core same⟩
  | opened _ menu client layers objects =>
    refine ⟨seat, .same client, fun layer member object here => ?_⟩
    rw [layers, List.mem_singleton] at member
    subst member
    rw [objects] at here
    exact sits_menu (kind_at here (by rw [menu]; rfl)) seat
  | removed it gone offset _ removed =>
    subst removed
    refine ⟨seat, .kept rfl rfl rfl, fun layer member object here => ?_⟩
    apply faithful layer (List.mem_of_mem_eraseIdx member) object
    have there : (app.objects.set gone none)[layer]? = some (some object) := here
    rw [List.getElem?_set] at there
    split at there
    next =>
      split at there
      next => cases Option.some.inj there
      next => cases there
    next => exact there
  | attached object base covered creates attached =>
    subst attached
    rcases creates with ⟨rfl, rfl⟩ | ⟨isSignup, _, rfl⟩
    · have said : (app.attached (.battle {})).client.sent = app.client.sent ++ [Utterance.search.frame] := rfl
      refine ⟨some {}, .one said rfl rfl rfl arrives rfl, fun layer member thing there => ?_⟩
      rcases attached_object there with old | rfl
      · have within : layer ∈ app.layerstack.layers := by
          rcases List.mem_append.mp member with earlier | last
          · exact earlier
          · have outside := (List.getElem?_eq_some_iff.mp old).1
            rw [List.mem_singleton.mp last] at outside
            exact absurd outside (Nat.lt_irrefl _)
        rw [covered.layers, Option.toList_none, List.append_nil] at within
        rcases covered.base with rfl | ⟨rfl, menu⟩
        · cases within
        · rw [List.mem_singleton.mp within] at old
          exact sits_menu (kind_at old menu) _
      · rintro battle same
        cases same
        rfl
    · refine ⟨seat, .kept rfl rfl rfl, fun layer member thing there => ?_⟩
      rcases attached_object there with old | rfl
      · rcases List.mem_append.mp member with earlier | last
        · exact faithful layer earlier thing old
        · have outside := (List.getElem?_eq_some_iff.mp old).1
          rw [List.mem_singleton.mp last] at outside
          exact absurd outside (Nat.lt_irrefl _)
      · simp [Layer.Sits]

theorem Single.congr (single : Single after) (frame : Frame app after) : Single app := by
  rw [Single, ← frame.layerstack, ← frame.kinds]
  exact single

theorem step_speaks {action : Action} (layered : Layered app) (faithful : Faithful app seat) (informed : Informed actions app)
    (brought : action ∈ actions) (taken : app.step world action = some after) :
    ∃ next, Speaks world actions app.client after.client seat next ∧ Faithful after next := by
  have single := (layered.step taken).one
  cases layered.taken taken with
  | still same _ =>
    exact ⟨seat, .same (core_client same), faithful.core same⟩
  | message msg given client received delivered =>
    obtain ⟨sent, asserted, username, _⟩ := PsClient.receive_ok received
    have heard : Speaks world actions app.client client seat seat := .kept sent asserted username
    have begun : Faithful { app with client } seat := faithful
    have arrives : (Event.message msg).Given actions := by
      rw [given] at brought
      exact brought
    obtain ⟨next, speaks, seated⟩ := offer_speaks (single.congr (offer_frame delivered))
      (fun _ member => List.mem_reverse.mp member) arrives begun delivered
    exact ⟨next, heard.trans speaks, seated⟩
  | event event start middle _ _ same outcome _ delivered waiting =>
    have arrives : event.Given actions := informed event waiting
    obtain ⟨between, speaks, seated⟩ := outcome.speaks arrives (faithful.core same)
    obtain ⟨next, more, last⟩ := offer_speaks (single.congr (offer_frame delivered))
      (fun _ member => List.mem_reverse.mp member) arrives seated delivered
    rw [core_client same] at speaks
    exact ⟨next, speaks.trans more, last⟩

/-- What is said in a run is said for what its turns, perhaps among others, have brought. -/
theorem spoken_within {turns : List Action} (reached : Runs.exec (step world) init turns = some app)
    (inside : turns ⊆ actions) :
    Layered app ∧ ∃ seat, Speaks world actions {} app.client none seat ∧ Faithful app seat := by
  induction turns using List.reverseRecOn generalizing app with
  | nil =>
    cases reached
    exact ⟨.opening .initial, none, .kept rfl rfl rfl, fun layer member => by cases member⟩
  | append_singleton done action ih =>
    obtain ⟨before, earlier, taken⟩ := Runs.exec_concat_some reached
    have part : done ⊆ actions := List.Subset.trans (List.subset_append_left ..) inside
    obtain ⟨layered, seat, said, faithful⟩ := ih earlier part
    obtain ⟨next, speaks, seated⟩ := step_speaks layered faithful (informed earlier part) (inside (by simp)) taken
    exact ⟨layered.step taken, next, said.trans speaks, seated⟩

theorem spoken (reached : Runs.exec (step world) init actions = some app) :
    Layered app ∧ ∃ seat, Speaks world actions {} app.client none seat ∧ Faithful app seat :=
  spoken_within reached (List.Subset.refl _)

/-- The dialogue of a run, with the reason for each thing said. -/
theorem said (reached : Runs.exec (step world) init actions = some app) :
    ∃ utterances seat, Runs.exec Seat.step none utterances = some seat ∧
      app.client.sent = utterances.map Utterance.frame ∧ Faithful app seat ∧
      utterances.filter Utterance.isLogin = app.client.asserted.zipIdx.filterMap (granted world) ∧
      ∀ utterance ∈ utterances, utterance.From world actions := by
  obtain ⟨_, seat, ⟨utterances, requests, sent, asserted, trusts, taken, since⟩, faithful⟩ := spoken reached
  have unnamed : Named actions ({} : PsClient) := Or.inl (by decide)
  refine ⟨utterances, seat, taken, sent, faithful, ?_, (since unnamed).2⟩
  rw [asserted]
  exact trusts

/-- Whatever the server and the user do, the frames sent over a run are a dialogue: they
log in, search, join, and give orders in the battle that was searched for last, to the room
that was joined last in it or, before one is joined, to none, with the timer turned on and off
in turns. The logins are those of the requests that the login server answered with an assertion,
in their order. -/
theorem dialogue {actions : List Action} (reached : Runs.exec (step world) init actions = some app) :
    ∃ utterances seat, Runs.exec Seat.step none utterances = some seat ∧
      app.client.sent = utterances.map Utterance.frame ∧ Faithful app seat ∧
      utterances.filter Utterance.isLogin = app.client.asserted.zipIdx.filterMap (granted world) := by
  obtain ⟨utterances, seat, taken, sent, faithful, logins, _⟩ := said reached
  exact ⟨utterances, seat, taken, sent, faithful, logins⟩

private def ladder : World where
  parse payload := if payload = "found" then some (.object [("games", .object [("battle-1", .string "")])]) else none
  assertions _ := ""

/-- A battle is searched for and found; then the timer is turned on and the battle forfeited. -/
private def surrender : List Action :=
  [.drained, .dispatch, .dispatch, .line (some "1"), .render, .drained, .dispatch, .dispatch, .dispatch, .line (some "t"),
    .render, .message { roomId := "", type := "updatesearch", args := ["found"] }, .drained, .dispatch, .dispatch,
    .line (some "f"), .render, .drained, .dispatch]

theorem dialogue_surrender :
    ∃ app, Runs.exec (step ladder) init surrender = some app ∧
      app.client.sent =
        ["|/search gen9randombattle", "|/join battle-1", "battle-1|/timer on", "battle-1|/forfeit"] ∧
      ∃ utterances seat, Runs.exec Seat.step none utterances = some seat ∧
        app.client.sent = utterances.map Utterance.frame ∧ Faithful app seat ∧
        utterances.filter Utterance.isLogin = app.client.asserted.zipIdx.filterMap (granted ladder) := by
  have run : (Runs.exec (step ladder) init surrender).map (fun app => app.client.sent) =
      some ["|/search gen9randombattle", "|/join battle-1", "battle-1|/timer on", "battle-1|/forfeit"] := by
    decide +kernel
  obtain ⟨app, reached, sent⟩ := Option.map_eq_some_iff.mp run
  exact ⟨app, reached, sent, dialogue reached⟩

end PsApp
end ShowdownCli
