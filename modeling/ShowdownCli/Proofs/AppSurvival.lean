import ShowdownCli.Proofs.AppSubmissions
import ShowdownCli.Proofs.BattleShapes

/-! Which messages the client survives. A message passes the login overlays and ends
at the first other layer, so what it must contain is what the client and that layer
insist on. -/

namespace ShowdownCli
open Library

/-- The room of a search can be read: there are no games, or there is a first one. -/
def Json.Searches (json : Json) : Prop :=
  json = .null ∨ ∃ members, json = .object members ∧ (members.lookup "games" = none ∨
    members.lookup "games" = some .null ∨ ∃ game others, members.lookup "games" = some (.object (game :: others)))

def Layer.Accepts (world : World) (msg : Message) : Layer → Prop
  | .menu => msg.type = "win" → msg.args ≠ []
  | .login _ => True
  | .battle battleLayer => BattleState.Applicable world.parse battleLayer.state msg ∧
    (msg.type = "updatesearch" → ∀ payload, msg.args[0]? = some payload → ∃ j, world.parse payload = some j ∧ j.Searches)

variable {world : World} {this : Nat} {client : PsClient} {msg : Message}

theorem PsClient.receive_succeeds :
    Library.Succeeds (client.receive msg) ↔ (msg.type = "challstr" → client.loggedIn = true ∨ 2 ≤ msg.args.length) := by
  unfold receive
  split
  next challenge =>
    unfold onChallStr
    split
    next named => simp [named, challenge, succeeds_ok]
    next unnamed =>
      simp only [challenge, forall_const, unnamed, Bool.false_eq_true, false_or, succeeds_bind, Message.arg_ok]
      constructor
      · intro given
        obtain ⟨_, _, _, second, _⟩ := given
        exact (List.getElem?_eq_some_iff.mp second).1
      · intro long
        exact ⟨_, List.getElem?_eq_getElem (by omega), _, List.getElem?_eq_getElem long, succeeds_ok _⟩
  next other =>
    refine iff_of_true ?_ fun challenge => absurd challenge other
    split
    · exact succeeds_ok _
    · exact succeeds_ok _

theorem BattleLayer.updateSearch_succeeds {battle : BattleLayer} {payload : String} :
    Succeeds (battle.updateSearch world client payload) ↔ ∃ j, world.parse payload = some j ∧ j.Searches := by
  unfold updateSearch
  cases parsed : world.parse payload with
  | none => exact iff_of_false (not_succeeds _) (by simp)
  | some j =>
    simp only [Option.some.injEq, exists_eq_left', succeeds_bind]
    cases j with
    | null => exact iff_of_true ⟨.null, rfl, succeeds_ok _⟩ (Or.inl rfl)
    | object members =>
      simp only [Json.member, Json.Searches, Except.ok.injEq, exists_eq_left', reduceCtorEq, false_or, Json.object.injEq]
      cases members.lookup "games" with
      | none => exact iff_of_true (succeeds_ok _) (by simp)
      | some games =>
        cases games with
        | null => exact iff_of_true (succeeds_ok _) (by simp)
        | object inner =>
          cases inner with
          | nil => exact iff_of_false (fun given => not_succeeds _ given) (by simp)
          | cons game others => exact iff_of_true (succeeds_ok _) (by simp)
        | bool | integer | real | string | array => exact iff_of_false (fun given => not_succeeds _ given) (by simp)
    | bool | integer | real | string | array =>
      refine iff_of_false ?_ (by simp [Json.Searches])
      intro given
      obtain ⟨_, found, _⟩ := given
      cases found

theorem BattleLayer.onMessage_succeeds {battle : BattleLayer} :
    Succeeds (battle.onMessage world this client msg) ↔ (Layer.battle battle).Accepts world msg := by
  have applies := @BattleState.step_succeeds world.parse battle.state msg
  simp only [BattleState.step] at applies
  unfold onMessage Layer.Accepts
  cases applied : (BattleState.apply world.parse msg).run battle.state with
  | error fault _ =>
    rw [applied] at applies
    exact iff_of_false (not_succeeds _) fun given => by simpa using applies.mpr given.1
  | ok _ state =>
    rw [applied] at applies
    have applicable := applies.mp ⟨state, rfl⟩
    simp only [applicable, true_and]
    split
    next search =>
      obtain ⟨payload, rest, shape⟩ := List.exists_cons_of_ne_nil search.2
      simp only [succeeds_bind, Message.arg_ok, search.1, shape, forall_const, List.getElem?_cons_zero, Option.some.injEq,
        exists_eq_left', forall_eq']
      rw [← updateSearch_succeeds]
      exact ⟨fun given => ⟨_, given.choose_spec.1⟩, fun given => ⟨_, given.choose_spec, succeeds_ok _⟩⟩
    next other =>
      refine iff_of_true ?_ fun search payload argument => ?_
      · repeat' split
        all_goals exact succeeds_ok _
      · refine absurd ⟨search, fun empty => ?_⟩ other
        simp [empty] at argument

theorem MenuLayer.onMessage_succeeds :
    Succeeds (onMessage client msg) ↔ Layer.menu.Accepts world msg := by
  unfold onMessage Layer.Accepts
  split
  next win =>
    simp only [win, forall_const, succeeds_bind, Message.arg_ok]
    constructor
    · intro given empty
      obtain ⟨winner, argument, _⟩ := given
      simp [empty] at argument
    · intro filled
      obtain ⟨winner, rest, shape⟩ := List.exists_cons_of_ne_nil filled
      exact ⟨winner, by simp [shape], succeeds_ok _⟩
  next other => exact iff_of_true (succeeds_ok _) fun win => absurd win other

theorem Layer.onEvent_succeeds {layer : Layer} :
    Succeeds (layer.onEvent world this client (.message msg)) ↔ layer.Accepts world msg := by
  cases layer with
  | menu => exact succeeds_map.trans MenuLayer.onMessage_succeeds
  | login overlay => exact iff_of_true (succeeds_ok _) trivial
  | battle battleLayer => exact succeeds_map.trans BattleLayer.onMessage_succeeds

namespace PsApp
variable {app after : PsApp} {layers : List Nat}

/-- The layer at which a message ends: the first one that is no login overlay. -/
def listener (app : PsApp) (layers : List Nat) : Option Layer :=
  (layers.filterMap fun layer => (app.objects[layer]?).join).find? fun layer => layer.kind ≠ .login

/-- Every layer of the stack is an object that was not deleted. -/
def Alive (app : PsApp) : Prop := ∀ layer ∈ app.layerstack.layers, ∃ object, app.objects[layer]? = some (some object)

/-- What the client and the layer that receives the message insist on. -/
structure Harmless (world : World) (app : PsApp) (msg : Message) : Prop where
  challenge : msg.type = "challstr" → app.client.loggedIn = true ∨ 2 ≤ msg.args.length
  accepted : ∀ layer, app.listener app.layerstack.layers.reverse = some layer → layer.Accepts world msg

theorem listener_cons {layer : Nat} {object : Layer} {below : List Nat} (found : app.object layer = .ok object) :
    app.listener (layer :: below) =
      if object.kind = .login then app.listener below else some object := by
  simp only [listener, List.filterMap_cons, object_some.mp found, Option.join_some]
  split
  next login => rw [List.find?_cons_of_neg (by simp [login])]
  next other => rw [List.find?_cons_of_pos (by simp [other])]

/-- A login overlay that lets a message pass leaves no trace. -/
theorem react_ignore {layer : Nat} {object : Layer} (found : app.object layer = .ok object) :
    app.react layer (.ignore object app.client) = app := by
  have same : app.objects.set layer (some object) = app.objects := by
    obtain ⟨inside, here⟩ := List.getElem?_eq_some_iff.mp (object_some.mp found)
    rw [← here, List.set_getElem_self]
  simp [react, Reaction.ignore, same]

theorem offer_message_succeeds (alive : ∀ layer ∈ layers, ∃ object, app.objects[layer]? = some (some object)) :
    Succeeds (offer world (.message msg) layers app) ↔
      ∀ layer, app.listener layers = some layer → layer.Accepts world msg := by
  induction layers with
  | nil => exact iff_of_true (succeeds_ok _) (by simp [listener])
  | cons layer below ih =>
    obtain ⟨object, here⟩ := alive layer List.mem_cons_self
    have found := object_some.mpr here
    have rest := ih fun other member => alive other (List.mem_cons_of_mem _ member)
    rw [listener_cons found]
    by_cases login : object.kind = .login
    · rw [if_pos login, ← rest]
      cases object with
      | menu | battle => cases login
      | login overlay =>
        have passed : offer world (.message msg) (layer :: below) app = offer world (.message msg) below app := by
          rw [offer, found]
          exact congrArg (offer world (.message msg) below) (react_ignore found)
        rw [passed]
    · simp only [if_neg login, Option.some.injEq, forall_eq', offer, found, succeeds_bind]
      rw [← Layer.onEvent_succeeds]
      constructor
      · intro given
        obtain ⟨_, same, reaction, reacted, _⟩ := given
        cases same
        exact ⟨reaction, reacted⟩
      · intro given
        obtain ⟨reaction, reacted⟩ := given
        have handled : reaction.handled = true := by simp [(Layer.message reacted).1, login]
        exact ⟨object, rfl, reaction, reacted, by rw [if_pos handled]; exact succeeds_ok _⟩

theorem processMessage_succeeds (alive : Alive app) :
    Succeeds (processMessage world app msg) ↔ Harmless world app msg := by
  have delivered (client : PsClient) :
      Succeeds (pushToLayers world { app with client } (.message msg)) ↔
        ∀ layer, app.listener app.layerstack.layers.reverse = some layer → layer.Accepts world msg :=
    offer_message_succeeds fun layer member => alive layer (List.mem_reverse.mp member)
  unfold processMessage
  simp only [succeeds_bind, delivered]
  constructor
  · intro given
    obtain ⟨client, received, accepted⟩ := given
    exact ⟨PsClient.receive_succeeds.mp ⟨client, received⟩, accepted⟩
  · intro harmless
    obtain ⟨client, received⟩ := PsClient.receive_succeeds.mpr harmless.challenge
    exact ⟨client, received, harmless.accepted⟩

theorem Alive.framed (alive : Alive app) (frame : Frame app after) : Alive after := by
  intro layer member
  obtain ⟨object, here⟩ := alive layer (frame.layerstack ▸ member)
  have kind := object_kind (object_some.mpr here)
  obtain ⟨other, found, _⟩ := kind_object (frame.kinds ▸ kind)
  exact ⟨other, object_some.mp found⟩

theorem Alive.message (alive : Alive app) (processed : processMessage world app msg = .ok after) : Alive after := by
  obtain ⟨client, _, delivered⟩ := except_bind_ok.mp processed
  have start : Alive { app with client } := alive
  exact start.framed (offer_frame delivered)

/-- One message of the inbound queue, as the main thread handles it. -/
def deliver (world : World) (app : PsApp) (msg : Message) : Option PsApp := (processMessage world app msg).toOption

/-- The client survives the messages of any frames exactly when each of them is harmless
where it arrives. -/
theorem survives_iff (world : World) {app : PsApp} (alive : Alive app) (frames : List (List Char)) :
    (∃ after, Runs.exec (deliver world) app (frames.flatMap parseMessage) = some after) ↔
      Runs.Guarded (deliver world) (Harmless world) app (frames.flatMap parseMessage) := by
  refine Runs.finishes_iff Alive alive ?_ ?_
  · intro msg before after held taken
    exact held.message (toOption_some.mp taken)
  · intro msg state held
    rw [← processMessage_succeeds held]
    simp only [deliver, toOption_some]
    rfl

/-- A stack of these layers, bottom first. -/
private def seated (layers : List Layer) : PsApp :=
  { init with
    layerstack := { layers := List.range layers.length, layerIteratorOffset := 1 }
    objects := layers.map some }

private theorem seated_alive (layers : List Layer) : Alive (seated layers) := by
  intro layer member
  have inside : layer < layers.length := List.mem_range.mp member
  exact ⟨layers[layer], by simp [seated, inside]⟩

private def noAnswers : World := { parse := fun _ => none, assertions := fun _ => "" }

theorem survives_iff_switch :
    Runs.Guarded (deliver noAnswers) (Harmless noAnswers) (seated [.menu, .battle {}])
      (["|switch|p2a: Hoopa|Hoopa|100/100\n|turn|1".toList, "|win|Ash".toList].flatMap parseMessage) :=
  (survives_iff noAnswers (seated_alive _) _).mp (Option.isSome_iff_exists.mp (by decide +kernel))

/-- A `win` without the winner. -/
theorem bare_win_crashes : Alive (seated [.menu]) ∧
    Runs.exec (deliver noAnswers) (seated [.menu]) (["|win".toList].flatMap parseMessage) = none :=
  ⟨seated_alive _, by rw [← Option.isNone_iff_eq_none]; decide +kernel⟩

end PsApp
end ShowdownCli
