import ShowdownCli.Library.Log
import ShowdownCli.Library.Runs
import ShowdownCli.Proofs.BattleSides
import ShowdownCli.Proofs.CommandTokens

/-! The frames of a battle layer. It takes commands from the moment it is attached, but
it has a room only after a search, and a choice to make only after a request. -/

namespace ShowdownCli
open Library

/-- A battle layer with the frames that it has sent itself. -/
structure Play where
  battle : BattleLayer := {}
  sent : List String := []
deriving DecidableEq

namespace Play
variable {world : World} {this : Nat} {client : PsClient} {play after : Play} {cmd : String} {msg : Message}

def attach (client : PsClient) : Play := { sent := (BattleLayer.onAttach client).sent.drop client.sent.length }

/-- `on_event`, with the client as the other layers have left it. -/
def step (world : World) (this : Nat) (play : Play) (input : PsClient × Event) : Option Play :=
  match play.battle.onEvent world this input.1 input.2 with
  | .ok reaction => some { battle := reaction.layer, sent := play.sent ++ reaction.client.sent.drop input.1.sent.length }
  | .error _ => none

/-- What a frame to a battle begins with, behind the room. -/
def orders : List String := ["|/choose", "|/forfeit", "|/timer"]

/-- A command that picks a move, or a Pokemon where one must be switched. -/
def picks (cmd : String) : Bool :=
  match tokenize cmd with
  | [] => false
  | token :: _ => token ∈ ["1", "2", "3", "4"]

/-- A command that is answered with a frame. -/
def acts (cmd : String) : Bool := picks cmd || cmd ∈ ["f", "t", "s1", "s2", "s3", "s4", "s5", "s6"]

/-- The room that a message makes the battle join. -/
def joins (world : World) (msg : Message) : Option String :=
  if msg.type = "updatesearch" then do
    let games ← ((← world.parse (← msg.args[0]?)).member "games").toOption
    if games.isNull then none else games.firstKey.toOption
  else none

/-- What a request assigns to `m_force_switch`. -/
def assigned (world : World) (input : PsClient × Event) : Option Bool :=
  match input.2 with
  | .message msg => (msg.payload world.parse).map fun j => j.contains "forceSwitch"
  | _ => none

theorem sends (client : PsClient) (frame : String) : (client.send frame).sent.drop client.sent.length = [frame] := by
  simp [PsClient.send]

theorem attach_eq : attach client = { sent := ["|/search gen9randombattle"] } := by
  rw [attach, BattleLayer.onAttach, sends]

theorem picks_tokens (picked : picks cmd = true) :
    ∃ token rest, tokenize cmd = token :: rest ∧ token ∈ ["1", "2", "3", "4"] := by
  unfold picks at picked
  split at picked
  next => cases picked
  next token rest tokens => exact ⟨token, rest, tokens, of_decide_eq_true picked⟩

theorem step_picks {value : Bool} (picked : picks cmd = true) (forced : play.battle.state.forceSwitch = some value) :
    ∃ rest, step world this play (client, .command cmd) =
      some { play with sent := play.sent ++
        [play.battle.battleRoom ++ ((if value then "|/choose switch " else "|/choose move ") ++ rest)] } := by
  obtain ⟨token, rest, tokens, among⟩ := picks_tokens picked
  simp only [step, BattleLayer.onEvent, BattleLayer.onCommand_pick tokens among, BattleLayer.isForceSwitch_known forced,
    Except.map, sends, BattleLayer.pickFrame]
  cases value with
  | true => exact ⟨_, rfl⟩
  | false =>
    simp only [Bool.false_eq_true, if_false, String.append_assoc]
    exact ⟨_, rfl⟩

/-- Without a request there is no value to decide by. -/
theorem step_unforced (picked : picks cmd = true) (unforced : play.battle.state.forceSwitch = none) :
    step world this play (client, .command cmd) = none := by
  obtain ⟨token, rest, tokens, among⟩ := picks_tokens picked
  simp only [step, BattleLayer.onEvent, BattleLayer.onCommand_pick tokens among, BattleLayer.isForceSwitch_unknown unforced]
  rfl

/-- The commands that are recognised as a whole line. -/
theorem step_line (unpicked : picks cmd = false) : step world this play (client, .command cmd) = some
    (if cmd = "f" then { play with sent := play.sent ++ [play.battle.battleRoom ++ "|/forfeit"] }
    else if cmd = "t" then
      { battle := { play.battle with timerActive := !play.battle.timerActive }
        sent := play.sent ++ [play.battle.battleRoom ++ (if play.battle.timerActive then "|/timer off" else "|/timer on")] }
    else if cmd ∈ ["s1", "s2", "s3", "s4", "s5", "s6"] then
      { play with sent := play.sent ++ [play.battle.battleRoom ++ "|/choose switch " ++ String.ofList (cmd.toList.drop 1)] }
    else play) := by
  have worded : ∀ cmd ∈ ["f", "t", "s1", "s2", "s3", "s4", "s5", "s6"], tokenize cmd ≠ [] := by decide
  simp only [step, BattleLayer.onEvent, BattleLayer.onCommand]
  cases tokens : tokenize cmd with
  | nil =>
    have blank : cmd ∉ ["f", "t", "s1", "s2", "s3", "s4", "s5", "s6"] := fun member => worded cmd member tokens
    simp only [List.mem_cons, List.not_mem_nil, or_false, not_or] at blank
    simp [blank]
  | cons token rest =>
    have other : token ∉ ["1", "2", "3", "4"] := by simpa [picks, tokens] using unpicked
    by_cases forfeit : cmd = "f"
    · simp only [if_neg other, if_pos forfeit, sends]
    by_cases timer : cmd = "t"
    · simp only [if_neg other, if_neg forfeit, if_pos timer, BattleLayer.toggleTimer]
      cases active : play.battle.timerActive <;> simp [sends]
    by_cases switch : cmd ∈ ["s1", "s2", "s3", "s4", "s5", "s6"]
    · simp only [if_neg other, if_neg forfeit, if_neg timer, if_pos switch, sends]
    · simp only [if_neg other, if_neg forfeit, if_neg timer, if_neg switch, List.drop_length, List.append_nil]

theorem step_acts (acting : acts cmd = true) (taken : step world this play (client, .command cmd) = some after) :
    after.battle.battleRoom = play.battle.battleRoom ∧ after.battle.state = play.battle.state ∧
      ∃ order ∈ orders, ∃ rest, after.sent = play.sent ++ [play.battle.battleRoom ++ (order ++ rest)] := by
  have choose (text rest : String) : "|/choose" ++ (text ++ rest) = ("|/choose" ++ text) ++ rest := String.append_assoc.symm
  by_cases picked : picks cmd = true
  · cases forced : play.battle.state.forceSwitch with
    | none =>
      rw [step_unforced picked forced] at taken
      cases taken
    | some value =>
      obtain ⟨rest, moved⟩ := @step_picks world this client _ _ _ picked forced
      cases moved.symm.trans taken
      refine ⟨rfl, rfl, "|/choose", by simp [orders], (if value then " switch " else " move ") ++ rest, ?_⟩
      rw [choose]
      cases value <;> rfl
  · rw [step_line (by simpa using picked)] at taken
    have line : cmd ∈ ["f", "t", "s1", "s2", "s3", "s4", "s5", "s6"] := by simpa [acts, picked] using acting
    by_cases forfeit : cmd = "f"
    · rw [if_pos forfeit] at taken
      cases taken
      exact ⟨rfl, rfl, "|/forfeit", by simp [orders], "", by simp⟩
    by_cases timer : cmd = "t"
    · rw [if_neg forfeit, if_pos timer] at taken
      cases taken
      refine ⟨rfl, rfl, "|/timer", by simp [orders], if play.battle.timerActive then " off" else " on", ?_⟩
      cases play.battle.timerActive <;> rfl
    · have switch : cmd ∈ ["s1", "s2", "s3", "s4", "s5", "s6"] := by simpa [forfeit, timer] using line
      rw [if_neg forfeit, if_neg timer, if_pos switch] at taken
      cases taken
      refine ⟨rfl, rfl, "|/choose", by simp [orders], " switch " ++ String.ofList (cmd.toList.drop 1), ?_⟩
      rw [choose, String.append_assoc]
      rfl

theorem step_idle (idle : acts cmd = false) (taken : step world this play (client, .command cmd) = some after) :
    after = play := by
  rw [acts, Bool.or_eq_false_iff, decide_eq_false_iff_not] at idle
  obtain ⟨unpicked, line⟩ := idle
  simp only [List.mem_cons, List.not_mem_nil, or_false, not_or] at line
  rw [step_line unpicked] at taken
  simpa [line, eq_comm] using taken

theorem step_some {event : Event} : step world this play (client, event) = some after ↔
    ∃ reaction, play.battle.onEvent world this client event = .ok reaction ∧
      after = { battle := reaction.layer, sent := play.sent ++ reaction.client.sent.drop client.sent.length } := by
  unfold step
  cases play.battle.onEvent world this client event with
  | ok reaction => simp [eq_comm]
  | error fault => simp

/-- A search leaves the battle where it was, or joins the first game. -/
theorem updateSearch_ok {battle next : BattleLayer} {client' : PsClient} {payload : String}
    (type : msg.type = "updatesearch") (argument : msg.args[0]? = some payload)
    (updated : battle.updateSearch world client payload = .ok (next, client')) :
    joins world msg = none ∧ next = battle ∧ client' = client ∨ ∃ room, joins world msg = some room ∧
      next = { battle with battleRoom := room } ∧ client' = client.send ("|/join " ++ room) := by
  unfold BattleLayer.updateSearch at updated
  cases parsed : world.parse payload with
  | none => simp [parsed] at updated
  | some j =>
    simp only [parsed] at updated
    obtain ⟨games, member, rest⟩ := except_bind_ok.mp updated
    split at rest
    next null =>
      cases rest
      exact Or.inl ⟨by simp [joins, argument, parsed, member, null, Except.toOption], rfl, rfl⟩
    next some =>
      obtain ⟨room, key, moved⟩ := except_bind_ok.mp rest
      cases moved
      refine Or.inr ⟨room, ?_, rfl, rfl⟩
      simp [joins, type, argument, parsed, member, some, key, Except.toOption]

theorem step_message (taken : step world this play (client, .message msg) = some after) :
    BattleState.step world.parse play.battle.state msg = some after.battle.state ∧
      (joins world msg = none ∧ after.battle.battleRoom = play.battle.battleRoom ∧ after.sent = play.sent ∨
        joins world msg = some after.battle.battleRoom ∧ after.sent = play.sent ++ ["|/join " ++ after.battle.battleRoom]) := by
  obtain ⟨reaction, reacted, rfl⟩ := step_some.mp taken
  simp only [BattleLayer.onEvent, BattleLayer.onMessage] at reacted
  rw [BattleState.step]
  cases applied : (BattleState.apply world.parse msg).run play.battle.state with
  | error fault _ => simp [applied] at reacted
  | ok _ state =>
    simp only [applied] at reacted ⊢
    have still : play.sent ++ client.sent.drop client.sent.length = play.sent := by simp
    split at reacted
    next search =>
      obtain ⟨payload, argument, rest⟩ := except_bind_ok.mp reacted
      obtain ⟨⟨battle, client'⟩, updated, made⟩ := except_bind_ok.mp rest
      cases made
      rcases updateSearch_ok search.1 (Message.arg_ok.mp argument) updated with
        ⟨nowhere, rfl, rfl⟩ | ⟨room, joined, rfl, rfl⟩
      · exact ⟨rfl, Or.inl ⟨nowhere, rfl, still⟩⟩
      · exact ⟨rfl, Or.inr ⟨joined, by rw [sends]⟩⟩
    next other =>
      have nowhere : joins world msg = none := by
        unfold joins
        split
        next search =>
          have bare : msg.args = [] := by simpa [search] using other
          simp [bare]
        next => rfl
      split at reacted
      next =>
        cases reacted
        exact ⟨rfl, Or.inl ⟨nowhere, rfl, still⟩⟩
      next =>
        split at reacted
        all_goals
          cases reacted
          exact ⟨rfl, Or.inl ⟨nowhere, rfl, still⟩⟩

/-- What a battle has recorded agrees with what it has sent and been told. -/
structure Settled (world : World) (done : List (PsClient × Event)) (play : Play) : Prop where
  joined : play.battle.battleRoom ≠ "" → "|/join " ++ play.battle.battleRoom ∈ play.sent
  force : play.battle.state.forceSwitch = Log.latest (assigned world) done

theorem step_force {parse : String → Option Json} {state next : BattleState}
    (taken : BattleState.step parse state msg = some next) :
    next.forceSwitch = ((msg.payload parse).map fun j => j.contains "forceSwitch").or state.forceSwitch := by
  cases BattleState.step_iff.mp taken with
  | blank type payload => simp [Message.payload, type, payload, Option.filter]
  | first request | later request => simp [BattleState.payload_some.mpr request, BattleState.takeMoves]
  | hp type | switch type =>
    have none : msg.payload parse = none := by rcases type with type | type <;> simp [Message.payload, type]
    rw [none, BattleState.perform, BattleState.editTeam]
    split <;> rfl
  | faint type =>
    rw [Message.payload, if_neg (by simp [type]), BattleState.perform, BattleState.editTeam]
    split <;> rfl
  | turn type =>
    rw [Message.payload, if_neg (by simp [type])]
    rfl
  | other type =>
    rw [Message.payload, if_neg (by simp at type; tauto)]
    rfl

theorem Settled.keep {done : List (PsClient × Event)} {input : PsClient × Event} (settled : Settled world done play)
    (silent : assigned world input = none) (room : after.battle.battleRoom = play.battle.battleRoom)
    (state : after.battle.state = play.battle.state) (grown : play.sent ⊆ after.sent) :
    Settled world (done ++ [input]) after := by
  constructor
  · rw [room]
    exact fun named => grown (settled.joined named)
  · rw [state, settled.force, Log.latest_concat, silent, Option.none_or]

theorem Settled.step {done : List (PsClient × Event)} {input : PsClient × Event} (settled : Settled world done play)
    (taken : step world this play input = some after) : Settled world (done ++ [input]) after := by
  obtain ⟨client, event⟩ := input
  cases event with
  | command cmd =>
    by_cases acting : acts cmd = true
    · obtain ⟨room, state, _, _, _, sent⟩ := step_acts acting taken
      exact settled.keep rfl room state (sent ▸ List.subset_append_left ..)
    · cases step_idle (by simpa using acting) taken
      exact settled.keep rfl rfl rfl (List.Subset.refl _)
  | message msg =>
    obtain ⟨applied, moved⟩ := step_message taken
    constructor
    · intro named
      rcases moved with ⟨_, room, sent⟩ | ⟨_, sent⟩
      · rw [room] at named ⊢
        rw [sent]
        exact settled.joined named
      · simp [sent]
    · rw [Log.latest_concat, ← settled.force]
      exact step_force applied
  | layerPush | layerPop | login | battleSearch | battleJoin =>
    obtain ⟨reaction, reacted, rfl⟩ := step_some.mp taken
    cases reacted
    exact settled.keep rfl rfl rfl (List.subset_append_left ..)

/-- A frame in which there is an order to a battle. -/
def Orders (frame : String) : Prop := ∃ order ∈ orders, order.toList <:+: frame.toList

instance (frame : String) : Decidable (Orders frame) :=
  inferInstanceAs (Decidable (∃ order ∈ orders, order.toList <:+: frame.toList))

/-- Commands come after a room and a request, and no room has the name of an order. -/
def Ready (world : World) (play : Play) (input : PsClient × Event) : Prop :=
  match input.2 with
  | .command cmd => (acts cmd = true → play.battle.battleRoom ≠ "") ∧
    (picks cmd = true → play.battle.state.forceSwitch.isSome = true)
  | .message msg => ∀ room, joins world msg = some room → ¬ Orders ("|/join " ++ room)
  | _ => True

instance (world : World) (play : Play) : (input : PsClient × Event) → Decidable (Ready world play input)
  | (_, .command cmd) => inferInstanceAs (Decidable ((acts cmd = true → play.battle.battleRoom ≠ "") ∧
    (picks cmd = true → play.battle.state.forceSwitch.isSome = true)))
  | (_, .message msg) => inferInstanceAs (Decidable (∀ room ∈ joins world msg, ¬ Orders ("|/join " ++ room)))
  | (_, .layerPush ..) | (_, .layerPop ..) | (_, .login _) | (_, .battleSearch) | (_, .battleJoin) => .isTrue trivial

/-- Orders go to a room that was joined before, and a pick is decided by the latest request. -/
structure Obeys (world : World) (this : Nat) (done : List (PsClient × Event)) (play : Play) (input : PsClient × Event) :
    Prop where
  addressed : ∀ after, Play.step world this play input = some after →
    ∀ frame ∈ after.sent.drop play.sent.length, Orders frame → ∃ room, room ≠ "" ∧ "|/join " ++ room ∈ play.sent ∧
      ∃ order ∈ orders, ∃ rest, frame = room ++ (order ++ rest)
  decided : ∀ cmd, input.2 = .command cmd → picks cmd = true →
    ∃ value, Log.latest (assigned world) done = some value ∧ ∃ rest, Play.step world this play input =
      some { play with sent := play.sent ++
        [play.battle.battleRoom ++ ((if value then "|/choose switch " else "|/choose move ") ++ rest)] }

theorem Settled.obeys {done : List (PsClient × Event)} {input : PsClient × Event} (settled : Settled world done play)
    (ready : Ready world play input) : Obeys world this done play input := by
  obtain ⟨client, event⟩ := input
  constructor
  · intro after taken frame new ordered
    cases event with
    | command cmd =>
      by_cases acting : acts cmd = true
      · obtain ⟨_, _, order, member, rest, sent⟩ := step_acts acting taken
        rw [sent, List.drop_left, List.mem_singleton] at new
        have named := ready.1 acting
        exact ⟨play.battle.battleRoom, named, settled.joined named, order, member, rest, new⟩
      · cases step_idle (by simpa using acting) taken
        simp at new
    | message msg =>
      rcases (step_message taken).2 with ⟨_, _, sent⟩ | ⟨joined, sent⟩
      · simp [sent] at new
      · rw [sent, List.drop_left, List.mem_singleton] at new
        exact absurd (new ▸ ordered) (ready _ joined)
    | layerPush | layerPop | login | battleSearch | battleJoin =>
      obtain ⟨reaction, reacted, rfl⟩ := step_some.mp taken
      cases reacted
      simp [Reaction.ignore] at new
  · rintro cmd rfl picked
    obtain ⟨value, forced⟩ := Option.isSome_iff_exists.mp (ready.2 picked)
    exact ⟨value, settled.force ▸ forced, step_picks picked forced⟩

/-- In a run whose commands all come in time, every order is sent to a room that the battle has
joined, and every pick is decided by a value that a request assigned. -/
theorem ready_obeys {inputs : List (PsClient × Event)}
    (ready : Runs.Guarded (step world this) (Ready world) (attach client) inputs) :
    (∀ frame ∈ (attach client).sent, ¬ Orders frame) ∧
    ∀ done input, done ++ [input] <+: inputs → ∀ play, Runs.exec (step world this) (attach client) done = some play →
      Obeys world this done play input := by
  constructor
  · intro frame member
    rw [attach_eq, List.mem_singleton] at member
    subst member
    unfold Orders
    decide
  · intro done input inside play reached
    have initial : Settled world [] (attach client) := by
      rw [attach_eq]
      exact ⟨fun named => absurd rfl named, rfl⟩
    have settled := Runs.always (Settled world) initial (fun _ _ _ _ settled taken => settled.step taken) reached
    exact settled.obeys (ready done input inside play reached)

private def games : String := "\x7b\"games\":\x7b\"battle-1\":null\x7d\x7d"

private def replacement : String :=
  "\x7b\"forceSwitch\":[true],\"side\":\x7b\"name\":\"Ash\",\"id\":\"p1\",\"pokemon\":[]\x7d\x7d"

/-- Reads the payloads of a search that found a battle and of a request to switch. -/
private def lobby : World where
  parse payload :=
    if payload = games then some (.object [("games", .object [("battle-1", .null)])])
    else if payload = replacement then some (.object [("forceSwitch", .array [.bool true]),
      ("side", .object [("id", .string "p1"), ("name", .string "Ash"), ("pokemon", .array [])])])
    else none
  assertions _ := ""

private def skirmish : List (PsClient × Event) := [
  ({}, .message { type := "updatesearch", args := [games] }), ({}, .message { type := "request", args := [replacement] }),
  ({}, .command "1"), ({}, .command "t"), ({}, .command "f")]

theorem ready_obeys_skirmish :
    (Runs.exec (step lobby 1) (attach {}) skirmish).map Play.sent = some ["|/search gen9randombattle", "|/join battle-1",
      "battle-1|/choose switch 1", "battle-1|/timer on", "battle-1|/forfeit"] ∧
    (∀ frame ∈ (attach {}).sent, ¬ Orders frame) ∧
    ∀ done input, done ++ [input] <+: skirmish → ∀ play, Runs.exec (step lobby 1) (attach {}) done = some play →
      Obeys lobby 1 done play input :=
  ⟨by decide +kernel, ready_obeys (by decide +kernel)⟩

/-- A forfeit before there is a room, and a pick before there is a request. -/
theorem early_commands :
    (step lobby 1 (attach {}) ({}, .command "f")).map Play.sent = some ["|/search gen9randombattle", "|/forfeit"] ∧
    ¬ Obeys lobby 1 [] (attach {}) ({}, .command "f") ∧
    ¬ Obeys lobby 1 [] (attach {}) ({}, .command "1") := by
  have forfeit : (step lobby 1 (attach {}) ({}, .command "f")).map Play.sent =
      some ["|/search gen9randombattle", "|/forfeit"] := by decide +kernel
  refine ⟨forfeit, ?_, ?_⟩
  · intro obeys
    obtain ⟨after, taken, sent⟩ := Option.map_eq_some_iff.mp forfeit
    have frame : "|/forfeit" ∈ after.sent.drop (attach {}).sent.length := by
      rw [sent, attach_eq]
      decide
    obtain ⟨room, _, joined, _⟩ := obeys.addressed after taken _ frame (by decide)
    rw [attach_eq, List.mem_singleton] at joined
    have start := congrArg (fun text => text.toList.take 3) joined
    simp at start
  · intro obeys
    obtain ⟨_, requested, _⟩ := obeys.decided "1" rfl (by decide)
    cases requested

end Play
end ShowdownCli
