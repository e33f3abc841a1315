import ShowdownCli.Library.Search
import ShowdownCli.Proofs.BattleChanges
import ShowdownCli.Proofs.Numbers

/-! Which messages a battle can apply: how many arguments each type needs, which of
them must be numbers, and what a request must contain. -/

namespace ShowdownCli
open Library

namespace Json

/-- An object with this member, of this kind. -/
def Has (key : String) (kind : Json → Prop) (json : Json) : Prop :=
  ∃ members value, json = .object members ∧ members.lookup key = some value ∧ kind value

def IsString (json : Json) : Prop := ∃ value, json = .string value

def IsBool (json : Json) : Prop := ∃ value, json = .bool value

/-- A number, or a truth value in its place. -/
def IsInt : Json → Prop
  | .integer _ | .bool _ => True
  | .real truncated => Int32.minValue.toInt ≤ truncated ∧ truncated ≤ Int32.maxValue.toInt
  | _ => False

/-- Everything a loop over the value visits is of this kind. -/
def Lists (kind : Json → Prop) (json : Json) : Prop := ∀ value ∈ json.elements, kind value

/-- On both sides of the first slash there is a number. -/
def Readable (condition : String) : Prop :=
  ∀ current max, condition.toList = current ++ '/' :: max → '/' ∉ current → IsNumber current ∧ IsNumber max

structure IsPokemon (json : Json) : Prop where
  ident : json.Has "ident" IsString
  active : json.Has "active" IsBool
  teraType : json.Has "teraType" IsString
  condition : json.Has "condition" fun value => ∃ text, value = .string text ∧ Readable text
  moves : json.Has "moves" (Lists IsString)

structure IsMove (json : Json) : Prop where
  move : json.Has "move" IsString
  id : json.Has "id" IsString
  pp : json.Has "pp" IsInt
  maxPp : json.Has "maxpp" IsInt
  disabled : json.Has "disabled" IsBool

structure IsSide (json : Json) : Prop where
  name : json.Has "name" IsString
  id : json.Has "id" IsString
  pokemon : json.Has "pokemon" (Lists IsPokemon)

/-- A first element with moves. -/
def IsActive (json : Json) : Prop := ∃ first rest, json = .array (first :: rest) ∧ first.Has "moves" (Lists IsMove)

theorem constMember_ok {json value : Json} {key : String} :
    json.constMember key = .ok value ↔ ∃ members, json = .object members ∧ members.lookup key = some value := by
  cases json with
  | object members =>
    simp only [constMember, object.injEq, exists_eq_left']
    cases members.lookup key <;> simp
  | null | bool | integer | real | string | array => simp [constMember]

theorem has_iff {json : Json} {key : String} {kind : Json → Prop} :
    json.Has key kind ↔ ∃ value, json.constMember key = .ok value ∧ kind value := by
  simp only [constMember_ok, Has]
  constructor
  · intro given
    obtain ⟨members, value, same, found, proper⟩ := given
    exact ⟨value, ⟨members, same, found⟩, proper⟩
  · intro given
    obtain ⟨value, ⟨members, same, found⟩, proper⟩ := given
    exact ⟨members, value, same, found, proper⟩

theorem getString_succeeds {json : Json} : Succeeds json.getString ↔ json.IsString := by
  cases json <;> simp [getString, IsString, Succeeds]

theorem getBool_succeeds {json : Json} : Succeeds json.getBool ↔ json.IsBool := by
  cases json <;> simp [getBool, IsBool, Succeeds]

theorem getInt_succeeds {json : Json} : Succeeds json.getInt ↔ json.IsInt := by
  cases json with
  | real truncated =>
    simp only [getInt, IsInt]
    split
    next fits => exact iff_of_true (succeeds_ok _) fits
    next large => exact iff_of_false (not_succeeds _) large
  | null | bool | integer | string | array | object => simp [getInt, IsInt, Succeeds]

theorem index_ok {json first : Json} : json.index 0 = .ok first ↔ ∃ rest, json = .array (first :: rest) := by
  cases json with
  | array elements => cases elements <;> simp [index]
  | null | bool | integer | real | string | object => simp [index]

end Json

namespace BattleState
open Json

theorem readCondition_succeeds {condition : String} : Succeeds (readCondition condition) ↔ Readable condition := by
  unfold readCondition
  cases found : condition.toList.idxOf? '/' with
  | none =>
    simp only [found]
    refine iff_of_true (succeeds_ok _) fun current max shape => ?_
    exact absurd (shape ▸ List.idxOf?_eq_none_iff.mp found) (by simp)
  | some slash =>
    obtain ⟨absent, shape⟩ := Search.idxOf?_cut found
    simp only [found, succeeds_bind]
    constructor
    · intro given current max same plain
      obtain ⟨first, readFirst, second, readSecond, _⟩ := given
      have here := Search.idxOf?_first plain max
      rw [← same, found] at here
      cases here
      rw [same, List.take_left] at readFirst
      rw [same, ← List.drop_drop, List.drop_left, List.drop_one, List.tail_cons] at readSecond
      exact ⟨stoi_succeeds.mp ⟨first, readFirst⟩, stoi_succeeds.mp ⟨second, readSecond⟩⟩
    · intro readable
      obtain ⟨current, max⟩ := readable _ _ shape absent
      obtain ⟨first, readFirst⟩ := stoi_succeeds.mpr current
      obtain ⟨second, readSecond⟩ := stoi_succeeds.mpr max
      exact ⟨first, readFirst, second, readSecond, succeeds_ok _⟩

theorem readPokemon_succeeds {json : Json} : Succeeds (readPokemon json) ↔ json.IsPokemon := by
  simp only [readPokemon, succeeds_bind]
  constructor
  · intro given
    obtain ⟨ident, hasIdent, name, isName, active, hasActive, bool, isBool, tera, hasTera, type, isType, condition,
      hasCondition, text, isText, hp, read, moves, hasMoves, names, areNames, _⟩ := given
    constructor
    · exact has_iff.mpr ⟨ident, hasIdent, getString_succeeds.mp ⟨name, isName⟩⟩
    · exact has_iff.mpr ⟨active, hasActive, getBool_succeeds.mp ⟨bool, isBool⟩⟩
    · exact has_iff.mpr ⟨tera, hasTera, getString_succeeds.mp ⟨type, isType⟩⟩
    · exact has_iff.mpr ⟨condition, hasCondition, text, getString_ok.mp isText, readCondition_succeeds.mp ⟨hp, read⟩⟩
    · refine has_iff.mpr ⟨moves, hasMoves, fun move member => ?_⟩
      exact getString_succeeds.mp (succeeds_mapM.mp ⟨names, areNames⟩ move member)
  · intro given
    obtain ⟨ident, hasIdent, isName⟩ := has_iff.mp given.ident
    obtain ⟨active, hasActive, isBool⟩ := has_iff.mp given.active
    obtain ⟨tera, hasTera, isType⟩ := has_iff.mp given.teraType
    obtain ⟨condition, hasCondition, text, isText, readable⟩ := has_iff.mp given.condition
    obtain ⟨moves, hasMoves, strings⟩ := has_iff.mp given.moves
    obtain ⟨name, isName⟩ := getString_succeeds.mpr isName
    obtain ⟨bool, isBool⟩ := getBool_succeeds.mpr isBool
    obtain ⟨type, isType⟩ := getString_succeeds.mpr isType
    obtain ⟨hp, read⟩ := readCondition_succeeds.mpr readable
    obtain ⟨names, areNames⟩ := succeeds_mapM.mpr fun move member => getString_succeeds.mpr (strings move member)
    exact ⟨ident, hasIdent, name, isName, active, hasActive, bool, isBool, tera, hasTera, type, isType, condition,
      hasCondition, text, getString_ok.mpr isText, hp, read, moves, hasMoves, names, areNames, succeeds_ok _⟩

theorem readMove_succeeds {json : Json} : Succeeds (readMove json) ↔ json.IsMove := by
  simp only [readMove, succeeds_bind]
  constructor
  · intro given
    obtain ⟨move, hasMove, name, isName, id, hasId, text, isText, pp, hasPp, points, isPp, max, hasMax, most, isMax,
      disabled, hasDisabled, bool, isBool, _⟩ := given
    constructor
    · exact has_iff.mpr ⟨move, hasMove, getString_succeeds.mp ⟨name, isName⟩⟩
    · exact has_iff.mpr ⟨id, hasId, getString_succeeds.mp ⟨text, isText⟩⟩
    · exact has_iff.mpr ⟨pp, hasPp, getInt_succeeds.mp ⟨points, isPp⟩⟩
    · exact has_iff.mpr ⟨max, hasMax, getInt_succeeds.mp ⟨most, isMax⟩⟩
    · exact has_iff.mpr ⟨disabled, hasDisabled, getBool_succeeds.mp ⟨bool, isBool⟩⟩
  · intro given
    obtain ⟨move, hasMove, isName⟩ := has_iff.mp given.move
    obtain ⟨id, hasId, isText⟩ := has_iff.mp given.id
    obtain ⟨pp, hasPp, isPp⟩ := has_iff.mp given.pp
    obtain ⟨max, hasMax, isMax⟩ := has_iff.mp given.maxPp
    obtain ⟨disabled, hasDisabled, isBool⟩ := has_iff.mp given.disabled
    obtain ⟨name, isName⟩ := getString_succeeds.mpr isName
    obtain ⟨text, isText⟩ := getString_succeeds.mpr isText
    obtain ⟨points, isPp⟩ := getInt_succeeds.mpr isPp
    obtain ⟨most, isMax⟩ := getInt_succeeds.mpr isMax
    obtain ⟨bool, isBool⟩ := getBool_succeeds.mpr isBool
    exact ⟨move, hasMove, name, isName, id, hasId, text, isText, pp, hasPp, points, isPp, max, hasMax, most, isMax,
      disabled, hasDisabled, bool, isBool, succeeds_ok _⟩

theorem readSide_succeeds {json : Json} : Succeeds (readSide json) ↔ json.Has "side" IsSide := by
  simp only [readSide, succeeds_bind]
  constructor
  · intro given
    obtain ⟨side, found, name, hasName, text, isText, side', found', id, hasId, letters, isId, side'', found'', pokemon,
      hasPokemon, team, read, _⟩ := given
    cases found.symm.trans found'
    cases found.symm.trans found''
    refine has_iff.mpr ⟨side, found, ?_, ?_, ?_⟩
    · exact has_iff.mpr ⟨name, hasName, getString_succeeds.mp ⟨text, isText⟩⟩
    · exact has_iff.mpr ⟨id, hasId, getString_succeeds.mp ⟨letters, isId⟩⟩
    · refine has_iff.mpr ⟨pokemon, hasPokemon, fun member inside => ?_⟩
      exact readPokemon_succeeds.mp (succeeds_mapM.mp ⟨team, read⟩ member inside)
  · intro given
    obtain ⟨side, found, proper⟩ := has_iff.mp given
    obtain ⟨name, hasName, isText⟩ := has_iff.mp proper.name
    obtain ⟨id, hasId, isId⟩ := has_iff.mp proper.id
    obtain ⟨pokemon, hasPokemon, listed⟩ := has_iff.mp proper.pokemon
    obtain ⟨text, isText⟩ := getString_succeeds.mpr isText
    obtain ⟨letters, isId⟩ := getString_succeeds.mpr isId
    obtain ⟨team, read⟩ := succeeds_mapM.mpr fun member inside => readPokemon_succeeds.mpr (listed member inside)
    exact ⟨side, found, name, hasName, text, isText, side, found, id, hasId, letters, isId, side, found, pokemon,
      hasPokemon, team, read, succeeds_ok _⟩

theorem readMoves_succeeds {json : Json} :
    Succeeds (readMoves json) ↔ (json.contains "active" = true → json.Has "active" IsActive) := by
  unfold readMoves
  split
  next offered =>
    simp only [offered, forall_const, succeeds_bind]
    constructor
    · intro given
      obtain ⟨active, found, first, here, moves, hasMoves, read⟩ := given
      refine has_iff.mpr ⟨active, found, ?_⟩
      obtain ⟨rest, shape⟩ := index_ok.mp here
      refine ⟨first, rest, shape, has_iff.mpr ⟨moves, hasMoves, fun move member => ?_⟩⟩
      exact readMove_succeeds.mp (succeeds_mapM.mp read move member)
    · intro given
      obtain ⟨active, found, first, rest, shape, proper⟩ := has_iff.mp given
      obtain ⟨moves, hasMoves, listed⟩ := has_iff.mp proper
      refine ⟨active, found, first, index_ok.mpr ⟨rest, shape⟩, moves, hasMoves, ?_⟩
      exact succeeds_mapM.mpr fun move member => readMove_succeeds.mpr (listed move member)
  next absent => exact iff_of_true (succeeds_ok _) fun offered => absurd offered absent

/-- What each type of message must have for a battle to apply it. -/
structure Applicable (parse : String → Option Json) (state : BattleState) (msg : Message) : Prop where
  request : msg.type = "request" → ∃ payload, msg.args[0]? = some payload ∧ (payload ≠ "" →
    ∃ j, parse payload = some j ∧ (state.yourSide = "" → j.Has "side" IsSide) ∧
      (j.contains "active" = true → j.Has "active" IsActive))
  hp : msg.type = "-damage" ∨ msg.type = "-heal" → ∃ text, msg.args[0]? = some text ∧
    (state.Knows (parseIdent text) → ∃ condition, msg.args[1]? = some condition ∧ Readable condition)
  faint : msg.type = "faint" → msg.args ≠ []
  switch : msg.type = "switch" ∨ msg.type = "drag" → ∃ condition, msg.args[2]? = some condition ∧ Readable condition
  turn : msg.type = "turn" → ∃ text, msg.args[0]? = some text ∧ IsNumber text.toList

theorem Change.applicable {parse : String → Option Json} {state after : BattleState} {msg : Message}
    (change : Change parse state msg after) : Applicable parse state msg := by
  cases change with
  | blank type payload =>
    refine ⟨fun _ => ⟨_, payload, fun filled => absurd rfl filled⟩, ?_, ?_, ?_, ?_⟩ <;> simp [type]
  | first request unknown read options =>
    obtain ⟨type, payload, argument, filled, parsed⟩ := request
    refine ⟨fun _ => ⟨payload, argument, fun _ => ⟨_, parsed, fun _ => ?_, ?_⟩⟩, ?_, ?_, ?_, ?_⟩
    · exact readSide_succeeds.mp ⟨_, read⟩
    · exact readMoves_succeeds.mp ⟨_, options⟩
    all_goals simp [type]
  | later request known options =>
    obtain ⟨type, payload, argument, filled, parsed⟩ := request
    refine ⟨fun _ => ⟨payload, argument, fun _ => ⟨_, parsed, fun unknown => absurd unknown known, ?_⟩⟩, ?_, ?_, ?_, ?_⟩
    · exact readMoves_succeeds.mp ⟨_, options⟩
    all_goals simp [type]
  | hp type ident read =>
    refine ⟨?_, fun _ => ⟨_, ident, fun knows => ?_⟩, ?_, ?_, ?_⟩
    · rcases type with type | type <;> simp [type]
    · obtain ⟨condition, argument, readable⟩ := read knows
      exact ⟨condition, argument, readCondition_succeeds.mp ⟨_, readable⟩⟩
    all_goals rcases type with type | type <;> simp [type]
  | faint type ident =>
    refine ⟨?_, ?_, fun _ empty => ?_, ?_, ?_⟩
    · simp [type]
    · simp [type]
    · simp [empty] at ident
    all_goals simp [type]
  | switch type ident argument read =>
    refine ⟨?_, ?_, ?_, fun _ => ⟨_, argument, readCondition_succeeds.mp ⟨_, read⟩⟩, ?_⟩
    all_goals rcases type with type | type <;> simp [type]
  | turn type argument read =>
    refine ⟨?_, ?_, ?_, ?_, fun _ => ⟨_, argument, stoi_succeeds.mp ⟨_, read⟩⟩⟩
    all_goals simp [type]
  | other type =>
    simp only [List.mem_cons, List.not_mem_nil, or_false, not_or] at type
    constructor <;> simp [type]

theorem Applicable.change {parse : String → Option Json} {state : BattleState} {msg : Message}
    (applicable : Applicable parse state msg) : ∃ after, Change parse state msg after := by
  by_cases request : msg.type = "request"
  · obtain ⟨payload, argument, proper⟩ := applicable.request request
    by_cases blank : payload = ""
    · exact ⟨state, .blank request (blank ▸ argument)⟩
    · obtain ⟨j, parsed, side, active⟩ := proper blank
      have requests : Requests parse msg j := ⟨request, payload, argument, blank, parsed⟩
      obtain ⟨moves, options⟩ := readMoves_succeeds.mpr active
      by_cases unknown : state.yourSide = ""
      · obtain ⟨listed, read⟩ := readSide_succeeds.mpr (side unknown)
        exact ⟨_, .first requests unknown read options⟩
      · exact ⟨_, .later requests unknown options⟩
  by_cases hp : msg.type = "-damage" ∨ msg.type = "-heal"
  · obtain ⟨text, ident, known⟩ := applicable.hp hp
    by_cases knows : state.Knows (parseIdent text)
    · obtain ⟨condition, argument, readable⟩ := known knows
      obtain ⟨reading, read⟩ := readCondition_succeeds.mpr readable
      exact ⟨_, .hp hp ident fun _ => ⟨condition, argument, read⟩⟩
    · exact ⟨state.perform (.hp text none), .hp hp ident fun other => absurd other knows⟩
  by_cases faint : msg.type = "faint"
  · obtain ⟨text, rest, shape⟩ := List.exists_cons_of_ne_nil (applicable.faint faint)
    exact ⟨state.perform (.faint text), .faint faint (by simp [shape])⟩
  by_cases switch : msg.type = "switch" ∨ msg.type = "drag"
  · obtain ⟨condition, argument, readable⟩ := applicable.switch switch
    obtain ⟨reading, read⟩ := readCondition_succeeds.mpr readable
    obtain ⟨inside, _⟩ := List.getElem?_eq_some_iff.mp argument
    have ident : msg.args[0]? = some msg.args[0] := List.getElem?_eq_getElem _
    exact ⟨_, .switch switch ident argument read⟩
  by_cases turn : msg.type = "turn"
  · obtain ⟨text, argument, number⟩ := applicable.turn turn
    obtain ⟨value, read⟩ := stoi_succeeds.mpr number
    exact ⟨_, .turn turn argument read⟩
  · exact ⟨state, .other (by simp; tauto)⟩

theorem step_succeeds {parse : String → Option Json} {state : BattleState} {msg : Message} :
    (∃ after, step parse state msg = some after) ↔ Applicable parse state msg := by
  simp only [step_iff]
  exact ⟨fun applied => applied.choose_spec.applicable, Applicable.change⟩

end BattleState
end ShowdownCli
