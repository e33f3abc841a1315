import ShowdownCli.Proofs.BattleCommands
import ShowdownCli.Proofs.JsonOrder

/-! The room of a battle that is still going on. Every search chooses it again, as the first
of the games in key order, so it stays only as long as no game with a smaller key comes up. -/

namespace ShowdownCli
open Library

namespace Json
variable {j : Json} {key : String}

theorem firstKey_total (member : key ∈ j.keys) : ∃ first, j.firstKey = .ok first := by
  cases j with
  | object members =>
    cases members with
    | nil => cases member
    | cons first rest => exact ⟨first.1, rfl⟩
  | null | bool | integer | real | string | array => cases member

end Json

namespace Play
variable {world : World} {this : Nat} {play after : Play} {client : PsClient} {msg : Message} {room : String}
  {input : PsClient × Event} {later done : List (PsClient × Event)}

/-- The games of a search, unless they are null. -/
def searchedGames (world : World) (msg : Message) : Option Json :=
  if msg.type = "updatesearch" then do
    let games ← ((← world.parse (← msg.args[0]?)).member "games").toOption
    if games.isNull then none else some games
  else none

/-- A search that has games lists the room among them. -/
def Lists (world : World) (room : String) : PsClient × Event → Prop
  | (_, .message msg) => ∀ j, searchedGames world msg = some j → room ∈ j.keys
  | _ => True

/-- A search lists no game that comes before the room. -/
def Leads (world : World) (room : String) : PsClient × Event → Prop
  | (_, .message msg) => ∀ j, searchedGames world msg = some j → ∀ key ∈ j.keys, ¬ key < room
  | _ => True

instance (world : World) (room : String) : (input : PsClient × Event) → Decidable (Lists world room input)
  | (_, .message msg) => inferInstanceAs (Decidable (∀ j ∈ searchedGames world msg, room ∈ j.keys))
  | (_, .command _) | (_, .layerPush ..) | (_, .layerPop ..) | (_, .login _) | (_, .battleSearch) | (_, .battleJoin) =>
    .isTrue trivial

instance (world : World) (room : String) : (input : PsClient × Event) → Decidable (Leads world room input)
  | (_, .message msg) => inferInstanceAs (Decidable (∀ j ∈ searchedGames world msg, ∀ key ∈ j.keys, ¬ key < room))
  | (_, .command _) | (_, .layerPush ..) | (_, .layerPop ..) | (_, .login _) | (_, .battleSearch) | (_, .battleJoin) =>
    .isTrue trivial

theorem joins_searchedGames (world : World) (msg : Message) :
    joins world msg = (searchedGames world msg).bind fun j => j.firstKey.toOption := by
  unfold joins searchedGames
  split
  next =>
    cases msg.args[0]? with
    | none => rfl
    | some payload =>
      cases parsed : world.parse payload with
      | none => simp [parsed]
      | some j =>
        cases member : (j.member "games").toOption with
        | none => simp [parsed, member]
        | some games =>
          cases null : games.isNull <;> simp [parsed, member, null]
  next => rfl

theorem searchedGames_inOrder {j : Json} (ordered : Json.Orders world.parse)
    (found : searchedGames world msg = some j) : j.InOrder := by
  unfold searchedGames at found
  split at found
  next =>
    obtain ⟨payload, _, found⟩ := Option.bind_eq_some_iff.mp found
    obtain ⟨whole, parsed, found⟩ := Option.bind_eq_some_iff.mp found
    obtain ⟨games, member, found⟩ := Option.bind_eq_some_iff.mp found
    split at found
    next => cases found
    next =>
      cases found
      exact (ordered payload whole parsed).member (toOption_some.mp member)
  next => cases found

/-- The room that a search chooses is the old one exactly when that leads. -/
theorem joins_iff {j : Json} (ordered : Json.Orders world.parse) (found : searchedGames world msg = some j)
    (listed : room ∈ j.keys) :
    joins world msg = some room ↔ ∀ key ∈ j.keys, ¬ key < room := by
  rw [joins_searchedGames, found, Option.bind_some, toOption_some, (searchedGames_inOrder ordered found).firstKey]
  exact and_iff_right listed

theorem step_room (taken : step world this play (client, .message msg) = some after) :
    after.battle.battleRoom = (joins world msg).getD play.battle.battleRoom := by
  rcases (step_message taken).2 with ⟨nowhere, room, _⟩ | ⟨joined, _⟩
  · rw [nowhere, room, Option.getD_none]
  · rw [joined, Option.getD_some]

/-- A search that has a first game is taken. -/
theorem step_search {first : String} (joined : joins world msg = some first) :
    ∃ after, step world this play (client, .message msg) = some after := by
  unfold joins at joined
  split at joined
  next type =>
    obtain ⟨payload, argument, joined⟩ := Option.bind_eq_some_iff.mp joined
    obtain ⟨whole, parsed, joined⟩ := Option.bind_eq_some_iff.mp joined
    obtain ⟨games, member, joined⟩ := Option.bind_eq_some_iff.mp joined
    split at joined
    next => cases joined
    next filled =>
      have applied : (BattleState.apply world.parse msg).run play.battle.state = .ok () play.battle.state := by
        rw [BattleState.apply_other (by simp [type])]
        rfl
      have given : msg.args ≠ [] := by
        intro empty
        simp [empty] at argument
      have updated : play.battle.updateSearch world client payload =
          .ok ({ play.battle with battleRoom := first }, client.send ("|/join " ++ first)) := by
        simp only [BattleLayer.updateSearch, parsed]
        refine except_bind_ok.mpr ⟨games, toOption_some.mp member, ?_⟩
        rw [if_neg filled]
        exact except_bind_ok.mpr ⟨first, toOption_some.mp joined, rfl⟩
      have reacts : ∃ reaction, play.battle.onEvent world this client (.message msg) = .ok reaction := by
        simp only [BattleLayer.onEvent, BattleLayer.onMessage, applied, if_pos (And.intro type given),
          Message.arg_ok.mpr argument]
        exact ⟨_, except_bind_ok.mpr ⟨payload, rfl, except_bind_ok.mpr ⟨_, updated, rfl⟩⟩⟩
      obtain ⟨reaction, reacted⟩ := reacts
      exact ⟨_, step_some.mpr ⟨reaction, reacted, rfl⟩⟩
  next => cases joined

/-- What is not a message leaves the room. -/
theorem step_keeps (taken : step world this play input = some after) (other : ∀ msg, input.2 ≠ .message msg) :
    after.battle.battleRoom = play.battle.battleRoom := by
  obtain ⟨client, event⟩ := input
  cases event with
  | command cmd =>
    by_cases acting : acts cmd = true
    · exact (step_acts acting taken).1
    · rw [step_idle (by simpa using acting) taken]
  | message msg => exact absurd rfl (other msg)
  | layerPush | layerPop | login | battleSearch | battleJoin =>
    obtain ⟨reaction, reacted, rfl⟩ := step_some.mp taken
    cases reacted
    rfl

/-- A step from a battle in the room stays there exactly when it lists nothing smaller. -/
theorem step_stays_iff (ordered : Json.Orders world.parse) (listed : Lists world play.battle.battleRoom input) :
    (∀ after, step world this play input = some after → after.battle.battleRoom = play.battle.battleRoom) ↔
      Leads world play.battle.battleRoom input := by
  obtain ⟨client, event⟩ := input
  cases event with
  | message msg =>
    simp only [Leads]
    cases found : searchedGames world msg with
    | none =>
      have nowhere : joins world msg = none := by rw [joins_searchedGames, found, Option.bind_none]
      refine iff_of_true (fun after taken => ?_) (fun j impossible => by cases impossible)
      rw [step_room taken, nowhere, Option.getD_none]
    | some j =>
      have member := listed j found
      obtain ⟨first, key⟩ := Json.firstKey_total member
      have joined : joins world msg = some first := by
        rw [joins_searchedGames, found, Option.bind_some, toOption_some.mpr key]
      simp only [Option.some.injEq, forall_eq', ← joins_iff ordered found member]
      obtain ⟨after, taken⟩ := step_search joined
      constructor
      · intro stays
        rw [← stays after taken, step_room taken, joined, Option.getD_some]
      · intro same other taken
        rw [step_room taken, same, Option.getD_some]
  | command | layerPush | layerPop | login | battleSearch | battleJoin =>
    refine iff_of_true (fun after taken => ?_) trivial
    exact step_keeps taken (by simp)

/-- Each command of the step sends at most orders, and to this room. -/
def OrdersTo (room : String) (before : Play) (input : PsClient × Event) (after : Play) : Prop :=
  ∀ cmd, input.2 = .command cmd → ∀ frame ∈ after.sent.drop before.sent.length,
    ∃ order ∈ orders, ∃ rest, frame = room ++ (order ++ rest)

theorem step_orders (taken : step world this play input = some after) :
    OrdersTo play.battle.battleRoom play input after := by
  obtain ⟨client, event⟩ := input
  rintro cmd rfl frame new
  by_cases acting : acts cmd = true
  · obtain ⟨_, _, order, member, rest, sent⟩ := step_acts acting taken
    rw [sent, List.drop_left, List.mem_singleton] at new
    exact ⟨order, member, rest, new⟩
  · rw [step_idle (by simpa using acting) taken, List.drop_length] at new
    cases new

/-- The run leads to this room. -/
def InRoom (world : World) (this : Nat) (play : Play) (room : String) (done : List (PsClient × Event)) : Prop :=
  ∀ reached, Runs.exec (step world this) play done = some reached → reached.battle.battleRoom = room

/-- The battle is in this room after every part of the run, and every command is sent there. -/
structure Stays (world : World) (this : Nat) (play : Play) (room : String) (later : List (PsClient × Event)) : Prop where
  kept : ∀ done, done <+: later → InRoom world this play room done
  sent : ∀ done input, done ++ [input] <+: later → ∀ before, Runs.exec (step world this) play done = some before →
    ∀ after, step world this before input = some after → OrdersTo room before input after

theorem InRoom.step_iff (ordered : Json.Orders world.parse) (listed : Lists world room input)
    (here : InRoom world this play room done) : InRoom world this play room (done ++ [input]) ↔
      ∀ before, Runs.exec (step world this) play done = some before → Leads world room input := by
  constructor
  · intro there before reached
    have same := here before reached
    subst same
    have stays : ∀ after, step world this before input = some after →
        after.battle.battleRoom = before.battle.battleRoom := by
      intro after taken
      refine there after ?_
      rw [Runs.exec_concat, reached]
      exact taken
    exact (step_stays_iff ordered listed).mp stays
  · intro leads after reached
    obtain ⟨before, reached, taken⟩ := Runs.exec_concat_some reached
    have same := here before reached
    subst same
    exact (step_stays_iff ordered listed).mpr (leads before reached) after taken

/-- As long as every search lists the room of the battle, it is kept exactly when no search that
is reached lists a game with a smaller key. -/
theorem stays_iff (ordered : Json.Orders world.parse)
    (listed : ∀ input ∈ later, Lists world play.battle.battleRoom input) :
    Stays world this play play.battle.battleRoom later ↔
      Runs.Guarded (step world this) (fun _ input => Leads world play.battle.battleRoom input) play later := by
  have initial : InRoom world this play play.battle.battleRoom [] := by
    intro reached start
    cases start
    rfl
  have rooms := Runs.prefixes_iff later initial fun done input inside earlier =>
    InRoom.step_iff ordered (listed input (inside.subset (by simp))) (earlier done (List.prefix_refl _))
  constructor
  · intro stays
    exact rooms.mp stays.kept
  · intro leads
    have kept := rooms.mpr leads
    refine ⟨kept, ?_⟩
    intro done input inside before reached after taken
    rw [← kept done ((List.prefix_append ..).trans inside) before reached]
    exact step_orders taken

private def second : String := "\x7b\"games\":\x7b\"battle-2\":\"A\"\x7d\x7d"

private def secondAndThird : String := "\x7b\"games\":\x7b\"battle-3\":\"B\",\"battle-2\":\"A\"\x7d\x7d"

private def firstAndSecond : String := "\x7b\"games\":\x7b\"battle-1\":\"C\",\"battle-2\":\"A\"\x7d\x7d"

private def arcade : World where
  parse payload :=
    if payload = second then some (.object [("games", .object [("battle-2", .string "A")])])
    else if payload = secondAndThird then
      some (.object [("games", .object [("battle-2", .string "A"), ("battle-3", .string "B")])])
    else if payload = firstAndSecond then
      some (.object [("games", .object [("battle-1", .string "C"), ("battle-2", .string "A")])])
    else none
  assertions _ := ""

private def search (payload : String) : PsClient × Event := ({}, .message { type := "updatesearch", args := [payload] })

private theorem arcade_orders : Json.Orders arcade.parse := by
  have pair {key key' : String} (less : key < key') (value value' : String) :
      (Json.object [(key, .string value), (key', .string value')]).InOrder := by
    refine .object (by simpa [Ordered.Increasing] using less) ?_
    simp only [List.forall_mem_cons]
    exact ⟨.string _, .string _, by simp⟩
  have listing {j : Json} (ordered : j.InOrder) : (Json.object [("games", j)]).InOrder :=
    .object (List.pairwise_singleton ..) (by simpa using ordered)
  intro payload j parsed
  simp only [arcade] at parsed
  split at parsed
  next =>
    cases parsed
    exact listing (.object (List.pairwise_singleton ..) (by simpa using Json.InOrder.string "A"))
  next =>
    split at parsed
    next =>
      cases parsed
      exact listing (pair (by decide) ..)
    next =>
      split at parsed
      next =>
        cases parsed
        exact listing (pair (by decide) ..)
      next => cases parsed

theorem stays_iff_third :
    Stays arcade 1 { battle := { battleRoom := "battle-2" } } "battle-2" [search secondAndThird, ({}, .command "f")] ↔
      Runs.Guarded (step arcade 1) (fun _ input => Leads arcade "battle-2" input)
        { battle := { battleRoom := "battle-2" } } [search secondAndThird, ({}, .command "f")] :=
  stays_iff arcade_orders (by decide +kernel)

/-- A second battle with a smaller key comes up, and the forfeit goes to it. -/
theorem forfeits_other : ∃ play, Runs.exec (step arcade 1) (attach {}) [search second] = some play ∧
    play.battle.battleRoom = "battle-2" ∧
    (∀ input ∈ [search firstAndSecond, ({}, .command "f")], Lists arcade "battle-2" input) ∧
    (Runs.exec (step arcade 1) play [search firstAndSecond, ({}, .command "f")]).map Play.sent = some
      ["|/search gen9randombattle", "|/join battle-2", "|/join battle-1", "battle-1|/forfeit"] ∧
    ¬ Stays arcade 1 play "battle-2" [search firstAndSecond, ({}, .command "f")] := by
  refine ⟨{ battle := { battleRoom := "battle-2" }, sent := ["|/search gen9randombattle", "|/join battle-2"] },
    by decide +kernel, rfl, by decide +kernel, by decide +kernel, ?_⟩
  intro stays
  have moved : (Runs.exec (step arcade 1)
      { battle := { battleRoom := "battle-2" }, sent := ["|/search gen9randombattle", "|/join battle-2"] }
      [search firstAndSecond]).map (fun play => play.battle.battleRoom) = some "battle-1" := by decide +kernel
  obtain ⟨reached, run, room⟩ := Option.map_eq_some_iff.mp moved
  have same := stays.kept [search firstAndSecond] (by simp) reached run
  rw [room] at same
  exact absurd same (by decide)

end Play
end ShowdownCli
