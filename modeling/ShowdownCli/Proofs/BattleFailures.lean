import ShowdownCli.Library.Search
import ShowdownCli.Proofs.BattleRooms
import ShowdownCli.Proofs.BattleShapes
import ShowdownCli.Proofs.BattleSides

/-! What a battle is left with when a message cannot be applied. Handlers assign as they
read, so a call that fails late has changed the battle unless it assigned what was there
already. -/

namespace ShowdownCli
open Library

/-- A condition that is missing or cannot be read, and the number read before that was noticed. -/
inductive Misread : Option String → Option Int → Prop where
  | absent : Misread none none
  | current {condition : String} {current max : List Char} (shape : condition.toList = current ++ '/' :: max)
      (first : '/' ∉ current) (bad : ¬ IsNumber current) : Misread (some condition) none
  | max {condition : String} {current max : List Char} {value : Int}
      (shape : condition.toList = current ++ '/' :: max) (first : '/' ∉ current) (read : stoi current = .ok value)
      (bad : ¬ IsNumber max) : Misread (some condition) (some value)

/-- The one number that is assigned before the other cannot be read. -/
def Pokemon.assign (value : Option Int) (p : Pokemon) : Pokemon :=
  match value with
  | none => p
  | some current => { p with hpCurrent := some current }

namespace BattleState

variable {state after : BattleState} {msg : Message}

theorem fails_attempt {α β : Type} {result : Except Fault α} {next : α → Handler β} :
    Fails (attempt result >>= next) state after ↔
      ¬ Succeeds result ∧ after = state ∨ ∃ value, result = .ok value ∧ Fails (next value) state after := by
  rw [fails_bind]
  simp only [attempt_ok, and_assoc, exists_and_left, exists_eq_left]
  refine or_congr_left ?_
  cases result with
  | ok value => exact iff_of_false fails_pure fun given => given.1 (succeeds_ok value)
  | error fault =>
    constructor
    · rintro ⟨_, failed⟩
      cases failed
      exact ⟨not_succeeds fault, rfl⟩
    · rintro ⟨_, rfl⟩
      exact ⟨fault, rfl⟩

theorem editPokemon_assign_none (state : BattleState) (which : Bool) (pkm : Nat) :
    state.editPokemon which pkm (Pokemon.assign none) = state := by
  apply editTeam_same
  exact List.modify_id _ _

theorem updateHp_fails {which : Bool} {pkm : Nat} {condition : String} :
    Fails (updateHp which pkm condition) state after ↔
      ∃ value, Misread (some condition) value ∧ after = state.editPokemon which pkm (Pokemon.assign value) := by
  unfold updateHp
  cases found : condition.toList.idxOf? '/' with
  | none =>
    simp only [found]
    refine iff_of_false fails_pure fun given => ?_
    obtain ⟨value, misread, _⟩ := given
    have absent := List.idxOf?_eq_none_iff.mp found
    cases misread with
    | current shape | max shape => exact absent (by simp [shape])
  | some slash =>
    obtain ⟨plain, shape⟩ := Search.idxOf?_cut found
    have only {current max : List Char} (other : condition.toList = current ++ '/' :: max) (first : '/' ∉ current) :
        current = condition.toList.take slash ∧ max = condition.toList.drop (slash + 1) := by
      have here := Search.idxOf?_first first max
      rw [← other, found] at here
      cases here
      rw [other, List.take_left, ← List.drop_drop, List.drop_left, List.drop_one, List.tail_cons]
      exact ⟨rfl, rfl⟩
    simp only [found, fails_attempt, fails_modify, stoi_succeeds]
    constructor
    · rintro (⟨bad, rfl⟩ | ⟨current, read, ⟨bad, rfl⟩ | ⟨max, _, failed⟩⟩)
      · exact ⟨none, .current shape plain bad, (editPokemon_assign_none ..).symm⟩
      · exact ⟨some current, .max shape plain read bad, rfl⟩
      · cases failed.choose_spec
    · rintro ⟨value, misread, rfl⟩
      cases misread with
      | current other first bad =>
        obtain ⟨rfl, _⟩ := only other first
        exact Or.inl ⟨bad, editPokemon_assign_none ..⟩
      | max other first read bad =>
        obtain ⟨rfl, rfl⟩ := only other first
        exact Or.inr ⟨_, read, Or.inl ⟨bad, rfl⟩⟩

theorem arg_missing {i : Nat} : ¬ Succeeds (msg.arg i) ↔ msg.args[i]? = none := by
  unfold Succeeds
  simp only [Message.arg_ok]
  cases msg.args[i]? <;> simp

theorem no_args : ¬ Succeeds (msg.arg 0) ↔ msg.args = [] := by
  rw [arg_missing, List.getElem?_eq_none_iff, Nat.le_zero, List.length_eq_zero_iff]

/-- The end of a handler that has found its Pokemon. -/
theorem readHp_fails {which : Bool} {pkm i : Nat} :
    Fails (attempt (msg.arg i) >>= updateHp which pkm) state after ↔
      ∃ value, Misread msg.args[i]? value ∧ after = state.editPokemon which pkm (Pokemon.assign value) := by
  rw [fails_attempt, arg_missing]
  simp only [Message.arg_ok, updateHp_fails]
  cases argument : msg.args[i]? with
  | none =>
    constructor
    · rintro (⟨_, rfl⟩ | ⟨condition, here, _⟩)
      · exact ⟨none, .absent, (editPokemon_assign_none ..).symm⟩
      · cases here
    · rintro ⟨value, misread, rfl⟩
      cases misread
      exact Or.inl ⟨rfl, editPokemon_assign_none ..⟩
  | some condition => simp

theorem applyHp_fails :
    Fails (applyHp msg) state after ↔ msg.args = [] ∧ after = state ∨
      ∃ text, msg.args[0]? = some text ∧ state.Knows (parseIdent text) ∧ ∃ value, Misread msg.args[1]? value ∧
        after = state.editTeam (state.ours (parseIdent text))
          (Keyed.touch Pokemon.name (parseIdent text).name (Pokemon.assign value)) := by
  rw [applyHp, fails_attempt, no_args]
  simp only [Message.arg_ok, fails_get]
  refine or_congr_right (exists_congr fun text => and_congr_right fun _ => ?_)
  cases found : state.findPokemon (parseIdent text) with
  | none => exact iff_of_false fails_pure fun given => findPokemon_none.mp found given.1
  | some pkm =>
    have knows := findPokemon_knows found
    simp only [knows, true_and]
    rw [readHp_fails]
    simp only [findPokemon_modify found]

theorem applyFaint_fails : Fails (applyFaint msg) state after ↔ msg.args = [] ∧ after = state := by
  rw [applyFaint, fails_attempt, no_args, or_iff_left]
  rintro ⟨text, _, failed⟩
  rw [fails_get] at failed
  cases found : state.findPokemon (parseIdent text) with
  | none =>
    simp only [found] at failed
    exact fails_pure failed
  | some pkm =>
    simp only [found] at failed
    cases failed.choose_spec

theorem applyTurn_fails : Fails (applyTurn msg) state after ↔
    (msg.args = [] ∨ ∃ text, msg.args[0]? = some text ∧ ¬ IsNumber text.toList) ∧ after = state := by
  rw [applyTurn, fails_attempt, or_iff_left]
  · refine and_congr_left fun _ => ?_
    rw [succeeds_bind]
    simp only [Message.arg_ok, stoi_succeeds]
    cases argument : msg.args[0]? with
    | none => simp [← no_args, arg_missing, argument]
    | some text =>
      have filled : msg.args ≠ [] := by
        rintro empty
        simp [empty] at argument
      simp [filled]
  · rintro ⟨turn, _, failed⟩
    cases failed.choose_spec

theorem applySwitch_fails : Fails (applySwitch msg) state after ↔ msg.args = [] ∧ after = state ∨
    ∃ text, msg.args[0]? = some text ∧ ∃ value, Misread msg.args[2]? value ∧
      after = state.editTeam (state.ours (parseIdent text)) fun team =>
        Keyed.touch Pokemon.name (parseIdent text).name (fun p => p.enter.assign value)
          (Keyed.enroll Pokemon.name (parseIdent text).name (.sighted text) (team.map Pokemon.deactivate)) := by
  cases ident : msg.args[0]? with
  | none =>
    have empty := no_args.mp (arg_missing.mpr ident)
    rw [applySwitch, fails_attempt, no_args]
    simp [empty]
  | some text =>
    have filled : msg.args ≠ [] := by
      rintro empty
      simp [empty] at ident
    obtain ⟨pkm, found, run⟩ := applySwitch_run ident state
    simp only [filled, false_and, false_or, Option.some.injEq, exists_eq_left']
    rw [Fails, run]
    have rest : Fails (attempt (msg.arg 2) >>= updateHp (state.ours (parseIdent text)) pkm)
        ((enrolled state text).editPokemon (state.ours (parseIdent text)) pkm Pokemon.enter) after ↔ _ := readHp_fails
    refine rest.trans (exists_congr fun value => and_congr_right fun _ => ?_)
    rw [editPokemon_editPokemon, enrolled_edit found]
    rfl

/-- The name that the first request is read for. -/
def sideName (j : Json) : Except Fault String := do
  (← (← j.constMember "side").constMember "name").getString

/-- The listed Pokemon in front of the first one that cannot be read. -/
def teamRead (j : Json) : List Pokemon := frontOf readPokemon (requestPokemon j)

/-- The moves that every request is read for. -/
def requestMoves (j : Json) : Except Fault (List Json) := do
  return (← (← (← j.constMember "active").index 0).constMember "moves").elements

/-- The listed moves in front of the first one that cannot be read. -/
def movesRead (j : Json) : List MoveOption := frontOf readMove (requestMoves j)

/-- Where a request stops that cannot be read to its end. -/
inductive Stops (state : BattleState) (j : Json) : BattleState → Prop where
  | name (unknown : state.yourSide = "") (bad : ¬ Succeeds (sideName j)) : Stops state j { state with yourTeam := [] }
  | id {name : String} (unknown : state.yourSide = "") (named : sideName j = .ok name) (bad : ¬ Succeeds (sideId j)) :
      Stops state j { state with yourTeam := [], yourName := name }
  | team {name side : String} (unknown : state.yourSide = "") (named : sideName j = .ok name) (id : sideId j = .ok side)
      (bad : ¬ Succeeds (requestPokemon j >>= List.mapM readPokemon)) :
      Stops state j (state.takeSide { name, id := side, pokemon := teamRead j })
  | first {side : Side} (unknown : state.yourSide = "") (read : readSide j = .ok side) (bad : ¬ Succeeds (readMoves j)) :
      Stops state j ((state.takeSide side).takeMoves j (movesRead j))
  | later (known : state.yourSide ≠ "") (bad : ¬ Succeeds (readMoves j)) : Stops state j (state.takeMoves j (movesRead j))

theorem addTeam_fails {pokemon : List Json} : Fails (addTeam pokemon) state after ↔
    ¬ Succeeds (pokemon.mapM readPokemon) ∧ after = { state with yourTeam := state.yourTeam ++ front readPokemon pokemon } := by
  induction pokemon generalizing state with
  | nil => exact iff_of_false fails_pure fun given => given.1 (succeeds_ok _)
  | cons p rest ih =>
    rw [addTeam, fails_attempt, succeeds_mapM, List.forall_mem_cons, ← succeeds_mapM]
    simp only [fails_modify, ih, front]
    cases read : readPokemon p with
    | error fault => simp [not_succeeds]
    | ok pkm => simp [succeeds_ok]

theorem addMoves_fails {moves : List Json} : Fails (addMoves moves) state after ↔
    ¬ Succeeds (moves.mapM readMove) ∧
      after = { state with availableMoves := state.availableMoves ++ front readMove moves } := by
  induction moves generalizing state with
  | nil => exact iff_of_false fails_pure fun given => given.1 (succeeds_ok _)
  | cons m rest ih =>
    rw [addMoves, fails_attempt, succeeds_mapM, List.forall_mem_cons, ← succeeds_mapM]
    simp only [fails_modify, ih, front]
    cases read : readMove m with
    | error fault => simp [not_succeeds]
    | ok opt => simp [succeeds_ok]

/-- A fetched list that is read item by item. -/
theorem fetch_fails {α : Type} (fetch : Except Fault Json) {add : List Json → Handler Unit} {read : Json → Except Fault α}
    (grow : List α → BattleState)
    (adds : ∀ items, Fails (add items) state after ↔ ¬ Succeeds (items.mapM read) ∧ after = grow (front read items))
    (still : grow [] = state) :
    Fails (attempt fetch >>= fun json => add json.elements) state after ↔
      ¬ Succeeds (fetch >>= fun json => json.elements.mapM read) ∧
        after = grow (frontOf read (fetch >>= fun json => pure json.elements)) := by
  rw [fails_attempt]
  cases fetch with
  | error fault => simp [not_succeeds, bind, Except.bind, frontOf, still]
  | ok json => simp [succeeds_ok, bind, Except.bind, pure, Except.pure, frontOf, adds]

theorem finishRequest_fails {j : Json} : Fails (finishRequest j) state after ↔
    ¬ Succeeds (readMoves j) ∧ after = state.takeMoves j (movesRead j) := by
  rw [finishRequest, fails_modify, fails_modify, readMoves, movesRead, requestMoves]
  split
  · have adds (items : List Json) : Fails (addMoves items) (state.takeMoves j []) after ↔
        ¬ Succeeds (items.mapM readMove) ∧ after = state.takeMoves j (front readMove items) := addMoves_fails
    have fails := fetch_fails (do (← (← j.constMember "active").index 0).constMember "moves") (state.takeMoves j) adds rfl
    simp only [bind_assoc] at fails
    exact fails
  · exact iff_of_false fails_pure fun given => given.1 (succeeds_ok _)

theorem applySide_fails {j : Json} : Fails (applySide j) state after ↔
    ¬ Succeeds (sideName j) ∧ after = { state with yourTeam := [] } ∨
    (∃ name, sideName j = .ok name ∧
      (¬ Succeeds (sideId j) ∧ after = { state with yourTeam := [], yourName := name } ∨
      ∃ side, sideId j = .ok side ∧ ¬ Succeeds (requestPokemon j >>= List.mapM readPokemon) ∧
        after = state.takeSide { name, id := side, pokemon := teamRead j })) := by
  rw [applySide, fails_modify, fails_attempt]
  simp only [fails_modify]
  refine or_congr_right (exists_congr fun name => and_congr_right fun _ => ?_)
  rw [fails_attempt]
  simp only [fails_modify]
  refine or_congr_right (exists_congr fun side => and_congr_right fun _ => ?_)
  have adds (items : List Json) : Fails (addTeam items) (state.takeSide ⟨name, side, []⟩) after ↔
      ¬ Succeeds (items.mapM readPokemon) ∧ after = state.takeSide ⟨name, side, front readPokemon items⟩ := addTeam_fails
  have fails := fetch_fails (do (← j.constMember "side").constMember "pokemon")
    (fun team => state.takeSide ⟨name, side, team⟩) adds rfl
  simp only [bind_assoc] at fails
  rw [teamRead, requestPokemon]
  simp only [bind_assoc, pure_bind]
  exact fails

theorem request_stops {parse : String → Option Json} {j : Json} (request : Requests parse msg j) :
    Fails (apply parse msg) state after ↔ Stops state j after := by
  obtain ⟨type, payload, argument, filled, parsed⟩ := request
  rw [apply, if_pos type, Fails, applyRequest_run argument filled parsed, ← Fails]
  split
  next unknown =>
    rw [fails_bind, applySide_fails]
    constructor
    · rintro ((⟨bad, rfl⟩ | ⟨name, named, ⟨bad, rfl⟩ | ⟨side, id, bad, rfl⟩⟩) | ⟨⟨⟩, middle, taken, failed⟩)
      · exact .name unknown bad
      · exact .id unknown named bad
      · exact .team unknown named id bad
      · obtain ⟨side, read, rfl⟩ := applySide_ok.mp taken
        obtain ⟨bad, rfl⟩ := finishRequest_fails.mp failed
        exact .first unknown read bad
    · intro stops
      cases stops with
      | name _ bad => exact Or.inl (Or.inl ⟨bad, rfl⟩)
      | id _ named bad => exact Or.inl (Or.inr ⟨_, named, Or.inl ⟨bad, rfl⟩⟩)
      | team _ named id bad => exact Or.inl (Or.inr ⟨_, named, Or.inr ⟨_, id, bad, rfl⟩⟩)
      | first _ read bad =>
        exact Or.inr ⟨(), _, applySide_ok.mpr ⟨_, read, rfl⟩, finishRequest_fails.mpr ⟨bad, rfl⟩⟩
      | later known => exact absurd unknown known
  next known =>
    rw [finishRequest_fails]
    constructor
    · rintro ⟨bad, rfl⟩
      exact .later known bad
    · intro stops
      cases stops with
      | name unknown | id unknown | team unknown | first unknown => exact absurd unknown known
      | later _ bad => exact ⟨bad, rfl⟩

/-- A request that stops with nothing changed: all that it assigned was there already. -/
inductive Repeats (state : BattleState) (j : Json) : Prop where
  | name (unknown : state.yourSide = "") (bad : ¬ Succeeds (sideName j)) (team : state.yourTeam = [])
  | id (unknown : state.yourSide = "") (named : sideName j = .ok state.yourName) (bad : ¬ Succeeds (sideId j))
      (team : state.yourTeam = [])
  | team (unknown : state.yourSide = "") (named : sideName j = .ok state.yourName) (blank : sideId j = .ok "")
      (bad : ¬ Succeeds (requestPokemon j >>= List.mapM readPokemon)) (team : state.yourTeam = teamRead j)
      (opponents : ∀ p ∈ state.opponentTeam, (parseIdent p.ident).side ≠ "")
  | first {side : Side} (unknown : state.yourSide = "") (read : readSide j = .ok side) (bad : ¬ Succeeds (readMoves j))
      (named : side.name = state.yourName) (blank : side.id = "") (team : state.yourTeam = side.pokemon)
      (opponents : ∀ p ∈ state.opponentTeam, (parseIdent p.ident).side ≠ "")
      (moves : state.availableMoves = movesRead j) (force : state.forceSwitch = some (j.contains "forceSwitch"))
  | later (known : state.yourSide ≠ "") (bad : ¬ Succeeds (readMoves j)) (moves : state.availableMoves = movesRead j)
      (force : state.forceSwitch = some (j.contains "forceSwitch"))

/-- A message that cannot be applied, and is noticed before it changed anything. -/
inductive Spared (parse : String → Option Json) (state : BattleState) (msg : Message) : Prop where
  | bare (type : msg.type ∈ ["request", "-damage", "-heal", "faint", "switch", "drag", "turn"]) (none : msg.args = [])
  | malformed {payload : String} (type : msg.type = "request") (argument : msg.args[0]? = some payload)
      (filled : payload ≠ "") (unparsed : parse payload = none)
  | request {j : Json} (request : Requests parse msg j) (repeats : Repeats state j)
  | hp {text : String} {p : Pokemon} {value : Option Int} (type : msg.type = "-damage" ∨ msg.type = "-heal")
      (ident : msg.args[0]? = some text) (found : state.found (parseIdent text) = some p)
      (misread : Misread msg.args[1]? value) (same : ∀ current, value = some current → p.hpCurrent = some current)
  | switch {text : String} {before after : List Pokemon} {p : Pokemon} {value : Option Int}
      (type : msg.type = "switch" ∨ msg.type = "drag") (ident : msg.args[0]? = some text)
      (inPlace : InPlace (parseIdent text).name none (state.team (state.ours (parseIdent text))) before p after)
      (misread : Misread msg.args[2]? value) (same : ∀ current, value = some current → p.hpCurrent = some current)
  | turn {text : String} (type : msg.type = "turn") (argument : msg.args[0]? = some text) (bad : ¬ IsNumber text.toList)

theorem takeSide_same {side : Side} : state.takeSide side = state ↔ state.yourTeam = side.pokemon ∧
    side.name = state.yourName ∧ side.id = state.yourSide ∧
      ∀ p ∈ state.opponentTeam, (parseIdent p.ident).side ≠ side.id := by
  obtain ⟨forceSwitch, turn, roomId, yourName, yourSide, opponentName, yourTeam, opponentTeam, availableMoves⟩ := state
  simp only [takeSide, mk.injEq, true_and, and_true, List.filter_eq_self, decide_eq_true_eq]
  constructor
  · rintro ⟨name, side, team, opponents⟩
    exact ⟨team.symm, name, side, opponents⟩
  · rintro ⟨team, name, side, opponents⟩
    exact ⟨name, side, team.symm, opponents⟩

theorem takeMoves_same {j : Json} {moves : List MoveOption} : state.takeMoves j moves = state ↔
    state.availableMoves = moves ∧ state.forceSwitch = some (j.contains "forceSwitch") := by
  obtain ⟨forceSwitch, turn, roomId, yourName, yourSide, opponentName, yourTeam, opponentTeam, availableMoves⟩ := state
  simp only [takeMoves, mk.injEq, true_and]
  rw [and_comm, eq_comm, eq_comm (a := forceSwitch)]

theorem take_same {side : Side} {j : Json} {moves : List MoveOption} :
    (state.takeSide side).takeMoves j moves = state ↔ state.takeSide side = state ∧ state.takeMoves j moves = state := by
  obtain ⟨forceSwitch, turn, roomId, yourName, yourSide, opponentName, yourTeam, opponentTeam, availableMoves⟩ := state
  simp only [takeSide, takeMoves, mk.injEq, true_and, and_true]
  tauto

theorem stops_repeats {j : Json} : Stops state j state ↔ Repeats state j := by
  constructor
  · intro given
    obtain ⟨after, stops, same⟩ : ∃ after, Stops state j after ∧ after = state := ⟨state, given, rfl⟩
    cases stops with
    | name unknown bad => exact .name unknown bad (congrArg BattleState.yourTeam same).symm
    | id unknown named bad =>
      have name := congrArg BattleState.yourName same
      subst name
      exact .id unknown named bad (congrArg BattleState.yourTeam same).symm
    | team unknown named id bad =>
      obtain ⟨team, rfl, rfl, opponents⟩ := takeSide_same.mp same
      rw [unknown] at id opponents
      exact .team unknown named id bad team opponents
    | first unknown read bad =>
      obtain ⟨sided, moved⟩ := take_same.mp same
      obtain ⟨team, name, id, opponents⟩ := takeSide_same.mp sided
      obtain ⟨moves, force⟩ := takeMoves_same.mp moved
      rw [unknown] at id
      rw [id] at opponents
      exact .first unknown read bad name id team opponents moves force
    | later known bad =>
      obtain ⟨moves, force⟩ := takeMoves_same.mp same
      exact .later known bad moves force
  · intro repeats
    cases repeats with
    | name unknown bad team =>
      have same : { state with yourTeam := [] } = state := by rw [← team]
      have stops := Stops.name unknown bad
      rwa [same] at stops
    | id unknown named bad team =>
      have same : { state with yourTeam := [], yourName := state.yourName } = state := by rw [← team]
      have stops := Stops.id unknown named bad
      rwa [same] at stops
    | team unknown named blank bad team opponents =>
      have same : state.takeSide { name := state.yourName, id := "", pokemon := teamRead j } = state :=
        takeSide_same.mpr ⟨team, rfl, unknown.symm, opponents⟩
      have stops := Stops.team unknown named blank bad
      rwa [same] at stops
    | @first side unknown read bad named blank team opponents moves force =>
      have sided : state.takeSide side = state :=
        takeSide_same.mpr ⟨team, named, blank.trans unknown.symm, blank ▸ opponents⟩
      have same := take_same.mpr ⟨sided, takeMoves_same.mpr ⟨moves, force⟩⟩
      have stops := Stops.first unknown read bad
      rwa [same] at stops
    | later known bad moves force =>
      have same := takeMoves_same.mpr ⟨moves, force⟩
      have stops := Stops.later known bad
      rwa [same] at stops

theorem assign_same {p : Pokemon} {value : Option Int} :
    p.assign value = p ↔ ∀ current, value = some current → p.hpCurrent = some current := by
  obtain ⟨name, ident, hpCurrent, hpMax, active, fainted, moves, status, teraType⟩ := p
  cases value with
  | none => simp [Pokemon.assign]
  | some current => simp [Pokemon.assign, eq_comm]

theorem enter_assign_same {p : Pokemon} {value : Option Int} : p.enter.assign value = p ↔
    p.active = true ∧ p.fainted = false ∧ ∀ current, value = some current → p.hpCurrent = some current := by
  rw [← assign_same]
  obtain ⟨name, ident, hpCurrent, hpMax, active, fainted, moves, status, teraType⟩ := p
  cases value with
  | none => simp [Pokemon.assign, Pokemon.enter, eq_comm]
  | some current =>
    simp only [Pokemon.assign, Pokemon.enter, Pokemon.mk.injEq, true_and, and_true]
    tauto

theorem editTeam_same_iff {which : Bool} {edit : List Pokemon → List Pokemon} :
    state = state.editTeam which edit ↔ edit (state.team which) = state.team which := by
  constructor
  · intro same
    have edited := congrArg (fun other => other.team which) same
    simpa using edited.symm
  · exact fun same => (editTeam_same _ _ _ same).symm

theorem hp_unchanged : Fails (applyHp msg) state state ↔ msg.args = [] ∨ ∃ text p value, msg.args[0]? = some text ∧
    state.found (parseIdent text) = some p ∧ Misread msg.args[1]? value ∧
      ∀ current, value = some current → p.hpCurrent = some current := by
  rw [applyHp_fails]
  simp only [and_true, editTeam_same_iff, Keyed.touch_same, assign_same]
  refine or_congr_right (exists_congr fun text => ?_)
  constructor
  · rintro ⟨ident, knows, value, misread, same⟩
    obtain ⟨p, found⟩ := knows_found.mp knows
    exact ⟨p, value, ident, found, misread, same p found⟩
  · rintro ⟨p, value, ident, found, misread, same⟩
    refine ⟨ident, knows_found.mpr ⟨p, found⟩, value, misread, fun other here => ?_⟩
    cases found.symm.trans here
    exact same

theorem switch_unchanged : Fails (applySwitch msg) state state ↔ msg.args = [] ∨
    ∃ text before p after value, msg.args[0]? = some text ∧
      InPlace (parseIdent text).name none (state.team (state.ours (parseIdent text))) before p after ∧
      Misread msg.args[2]? value ∧ ∀ current, value = some current → p.hpCurrent = some current := by
  rw [applySwitch_fails]
  have keeps (value : Option Int) (p : Pokemon) : (p.enter.assign value).name = p.name := by cases value <;> rfl
  simp only [and_true, editTeam_same_iff]
  refine or_congr_right (exists_congr fun text => ?_)
  constructor
  · rintro ⟨ident, value, misread, same⟩
    obtain ⟨before, p, after, shape, first, named, entered, others⟩ := (entering_same (keeps value)).mp same
    have whole : p.enter.assign value = p := entered
    obtain ⟨active, fainted, current⟩ := enter_assign_same.mp whole
    exact ⟨before, p, after, value, ident, ⟨shape, first, named, active, fainted, by simp [Pokemon.Shows], others⟩, misread, current⟩
  · rintro ⟨before, p, after, value, ident, inPlace, misread, current⟩
    obtain ⟨shape, first, named, active, fainted, _, others⟩ := inPlace
    have whole : p.enter.assign value = p := enter_assign_same.mpr ⟨active, fainted, current⟩
    exact ⟨ident, value, misread, (entering_same (keeps value)).mpr ⟨before, p, after, shape, first, named, whole, others⟩⟩

theorem request_unchanged {parse : String → Option Json} (type : msg.type = "request")
    (failed : Fails (applyRequest parse msg) state state) : Spared parse state msg := by
  rcases fails_attempt.mp failed with ⟨bare, _⟩ | ⟨payload, argument, rest⟩
  · exact .bare (by simp [type]) (no_args.mp bare)
  · rw [Message.arg_ok] at argument
    by_cases blank : payload = ""
    · rw [if_pos blank] at rest
      exact absurd rest fails_pure
    · cases parsed : parse payload with
      | none => exact .malformed type argument blank parsed
      | some j =>
        have request : Requests parse msg j := ⟨type, payload, argument, blank, parsed⟩
        rw [← apply_request type, request_stops request] at failed
        exact .request request (stops_repeats.mp failed)

theorem fails_spared {parse : String → Option Json} (failed : Fails (apply parse msg) state state) :
    Spared parse state msg := by
  by_cases type : msg.type = "request"
  · rw [apply_request type] at failed
    exact request_unchanged type failed
  by_cases type : msg.type = "-damage" ∨ msg.type = "-heal"
  · rw [apply_hp type] at failed
    rcases hp_unchanged.mp failed with bare | ⟨text, p, value, ident, found, misread, same⟩
    · exact .bare (by rcases type with type | type <;> simp [type]) bare
    · exact .hp type ident found misread same
  by_cases type : msg.type = "faint"
  · rw [apply_faint type] at failed
    exact .bare (by simp [type]) (applyFaint_fails.mp failed).1
  by_cases type : msg.type = "switch" ∨ msg.type = "drag"
  · rw [apply_switch type] at failed
    rcases switch_unchanged.mp failed with bare | ⟨text, before, p, after, value, ident, inPlace, misread, same⟩
    · exact .bare (by rcases type with type | type <;> simp [type]) bare
    · exact .switch type ident inPlace misread same
  by_cases type : msg.type = "turn"
  · rw [apply_turn type] at failed
    rcases (applyTurn_fails.mp failed).1 with bare | ⟨text, argument, bad⟩
    · exact .bare (by simp [type]) bare
    · exact .turn type argument bad
  · rw [apply_other (by simp; tauto)] at failed
    exact absurd failed fails_pure

theorem Spared.fails {parse : String → Option Json} (spared : Spared parse state msg) : Fails (apply parse msg) state state := by
  cases spared with
  | bare type none =>
    simp only [List.mem_cons, List.not_mem_nil, or_false] at type
    rcases type with type | type | type | type | type | type | type
    · rw [apply_request type]
      exact fails_attempt.mpr (Or.inl ⟨no_args.mpr none, rfl⟩)
    · rw [apply_hp (Or.inl type)]
      exact hp_unchanged.mpr (Or.inl none)
    · rw [apply_hp (Or.inr type)]
      exact hp_unchanged.mpr (Or.inl none)
    · rw [apply_faint type]
      exact applyFaint_fails.mpr ⟨none, rfl⟩
    · rw [apply_switch (Or.inl type)]
      exact switch_unchanged.mpr (Or.inl none)
    · rw [apply_switch (Or.inr type)]
      exact switch_unchanged.mpr (Or.inl none)
    · rw [apply_turn type]
      exact applyTurn_fails.mpr ⟨Or.inl none, rfl⟩
  | malformed type argument filled unparsed =>
    rw [apply_request type, applyRequest, Message.arg_ok.mpr argument, attempt, pure_bind, if_neg filled, unparsed]
    exact ⟨.uncaught, rfl⟩
  | request request repeats => exact (request_stops request).mpr (stops_repeats.mpr repeats)
  | hp type ident found misread same =>
    rw [apply_hp type]
    exact hp_unchanged.mpr (Or.inr ⟨_, _, _, ident, found, misread, same⟩)
  | switch type ident inPlace misread same =>
    rw [apply_switch type]
    exact switch_unchanged.mpr (Or.inr ⟨_, _, _, _, _, ident, inPlace, misread, same⟩)
  | turn type argument bad =>
    rw [apply_turn type]
    exact applyTurn_fails.mpr ⟨Or.inr ⟨_, argument, bad⟩, rfl⟩

/-- A call that fails leaves the battle as it was exactly when it fails early or repeats what the
battle has recorded. -/
theorem unchanged_iff (parse : String → Option Json) (state : BattleState) (msg : Message) :
    (∀ fault after, (apply parse msg).run state = .error fault after → after = state) ↔
      Applicable parse state msg ∨ Spared parse state msg := by
  have spared : Spared parse state msg ↔ Fails (apply parse msg) state state := ⟨Spared.fails, fails_spared⟩
  rw [← step_succeeds, spared]
  cases run : (apply parse msg).run state with
  | ok value after => simp [step, run, Fails]
  | error fault after =>
    have none : ¬ ∃ after, step parse state msg = some after := by simp [step, run]
    simp only [none, false_or, Fails, run, EStateM.Result.error.injEq]
    constructor
    · exact fun kept => ⟨fault, rfl, kept fault after ⟨rfl, rfl⟩⟩
    · rintro ⟨_, _, rfl⟩ _ _ ⟨_, rfl⟩
      rfl

private def garbled : Listing := ⟨"p1", [("p1: Pikachu", true, "35/35"), ("p1: Hoopa", false, "100/x")]⟩

private def complete : Listing := ⟨"p1", [("p1: Pikachu", true, "35/35"), ("p1: Hoopa", false, "100/100")]⟩

/-- A first request with a Pokemon that cannot be read. What it leaves counts as a team, so the
next request does not read it again. -/
theorem partial_team_stays : ∃ fault after, (apply (Listing.parse [garbled, complete]) garbled.request).run {} =
      .error fault after ∧ after ≠ {} ∧ after.yourSide = "p1" ∧ after.yourTeam.map Pokemon.name = ["Pikachu"] ∧
    ∃ later, step (Listing.parse [garbled, complete]) after complete.request = some later ∧
      later.yourTeam.map Pokemon.name = ["Pikachu"] := by
  have left : (leaves (apply (Listing.parse [garbled, complete]) garbled.request) {}).map (fun after =>
      (decide (after ≠ {}), after.yourSide, after.yourTeam.map Pokemon.name,
        (step (Listing.parse [garbled, complete]) after complete.request).map fun later =>
          later.yourTeam.map Pokemon.name)) = some (true, "p1", ["Pikachu"], some ["Pikachu"]) := by
    decide +kernel
  obtain ⟨after, failed, facts⟩ := Option.map_eq_some_iff.mp left
  obtain ⟨fault, failed⟩ := leaves_some.mp failed
  simp only [Prod.mk.injEq, decide_eq_true_eq] at facts
  obtain ⟨changed, side, team, later⟩ := facts
  exact ⟨fault, after, failed, changed, side, team, Option.map_eq_some_iff.mp later⟩

end BattleState
end ShowdownCli
