import ShowdownCli.Json
import ShowdownCli.Parser

/-! The client's record of a battle (`protocol/battlestate.h`). Handlers change
it step by step and may fail at several points, so a failed call still leaves
the state it had reached. -/

namespace ShowdownCli

/-- `hp_current` and `hp_max` have no initial value; `none` is a field that has
not been assigned. -/
structure Pokemon where
  name : String
  ident : String
  hpCurrent : Option Int := none
  hpMax : Option Int := none
  active : Bool
  fainted : Bool
  moves : List String := []
  status : String := ""
  teraType : String := ""
deriving DecidableEq, Repr

structure MoveOption where
  name : String
  id : String
  pp : Int
  maxPp : Int
  disabled : Bool
deriving DecidableEq, Repr

/-- `m_force_switch` and `m_turn` have no initial value either. -/
structure BattleState where
  forceSwitch : Option Bool := none
  turn : Option Int := none
  roomId : String := ""
  yourName : String := ""
  yourSide : String := ""
  opponentName : String := ""
  yourTeam : List Pokemon := []
  opponentTeam : List Pokemon := []
  availableMoves : List MoveOption := []
deriving DecidableEq, Repr

namespace BattleState

abbrev Handler := EStateM Fault BattleState

def attempt {α : Type} : Except Fault α → Handler α
  | .ok value => pure value
  | .error fault => throw fault

/-- The team that an identifier selects, here and in `findPokemon`. -/
def ours (state : BattleState) (ident : Ident) : Bool := ident.side == state.yourSide

def team (state : BattleState) (ours : Bool) : List Pokemon :=
  if ours then state.yourTeam else state.opponentTeam

def editTeam (ours : Bool) (edit : List Pokemon → List Pokemon) (state : BattleState) : BattleState :=
  if ours then { state with yourTeam := edit state.yourTeam }
  else { state with opponentTeam := edit state.opponentTeam }

/-- Assign through the pointer to the `index`-th element of a team. -/
def editPokemon (ours : Bool) (index : Nat) (edit : Pokemon → Pokemon) : BattleState → BattleState :=
  editTeam ours fun team => team.modify index edit

/-- The pointer `find_pokemon` returns, as a position in the selected team. -/
def findPokemon (state : BattleState) (ident : Ident) : Option Nat :=
  (state.team (state.ours ident)).findIdx? fun p => p.name = ident.name

def activePokemon (state : BattleState) : Except Fault Pokemon :=
  match state.yourTeam.find? fun p => p.active with
  | some p => .ok p
  | none =>
    match state.yourTeam[0]? with
    | some p => .ok p
    | none => .error .undefined

/-- The two numbers of a condition `"250/288"`; no slash, no numbers. -/
def readCondition (condition : String) : Except Fault (Option (Int × Int)) :=
  let text := condition.toList
  match text.idxOf? '/' with
  | none => .ok none
  | some slash => do
    let current ← stoi (text.take slash)
    let max ← stoi (text.drop (slash + 1))
    return some (current, max)

/-- The end of `apply_hp` and of `apply_switch`: each number is assigned as soon
as it is read. -/
def updateHp (ours : Bool) (index : Nat) (condition : String) : Handler Unit := do
  let text := condition.toList
  match text.idxOf? '/' with
  | none => return
  | some slash =>
    let current ← attempt (stoi (text.take slash))
    modify (editPokemon ours index fun p => { p with hpCurrent := some current })
    let max ← attempt (stoi (text.drop (slash + 1)))
    modify (editPokemon ours index fun p => { p with hpMax := some max })

/-- One turn of the loop over `j["side"]["pokemon"]`. -/
def readPokemon (p : Json) : Except Fault Pokemon := do
  let ident ← (← p.constMember "ident").getString
  let active ← (← p.constMember "active").getBool
  let teraType ← (← p.constMember "teraType").getString
  let condition ← (← p.constMember "condition").getString
  let hp ← readCondition condition
  let moves ← (← p.constMember "moves").elements.mapM Json.getString
  return { name := (parseIdent ident).name, ident := ident, hpCurrent := hp.map Prod.fst,
           hpMax := hp.map Prod.snd, active := active, fainted := false, moves := moves, teraType := teraType }

/-- One turn of the loop over `j["active"][0]["moves"]`. -/
def readMove (m : Json) : Except Fault MoveOption := do
  let name ← (← m.constMember "move").getString
  let id ← (← m.constMember "id").getString
  let pp ← (← m.constMember "pp").getInt
  let maxPp ← (← m.constMember "maxpp").getInt
  let disabled ← (← m.constMember "disabled").getBool
  return { name := name, id := id, pp := pp, maxPp := maxPp, disabled := disabled }

def addTeam : List Json → Handler Unit
  | [] => return
  | p :: rest => do
    let pkm ← attempt (readPokemon p)
    modify fun state => { state with yourTeam := state.yourTeam ++ [pkm] }
    addTeam rest

def addMoves : List Json → Handler Unit
  | [] => return
  | m :: rest => do
    let opt ← attempt (readMove m)
    modify fun state => { state with availableMoves := state.availableMoves ++ [opt] }
    addMoves rest

/-- The first request fixes our side and builds our team. -/
def applySide (j : Json) : Handler Unit := do
  modify fun state => { state with yourTeam := [] }
  let name ← attempt (do (← (← j.constMember "side").constMember "name").getString)
  modify fun state => { state with yourName := name }
  let side ← attempt (do (← (← j.constMember "side").constMember "id").getString)
  modify fun state => { state with yourSide := side }
  -- our own Pokemon may be among the opponent's from the opening switches
  modify fun state =>
    { state with opponentTeam := state.opponentTeam.filter fun p => (parseIdent p.ident).side ≠ state.yourSide }
  let pokemon ← attempt (do (← j.constMember "side").constMember "pokemon")
  addTeam pokemon.elements

def applyRequest (parse : String → Option Json) (msg : Message) : Handler Unit := do
  let payload ← attempt (msg.arg 0)
  if payload = "" then return
  match parse payload with
  | none => throw .uncaught
  | some j =>
    if (← get).yourSide = "" then applySide j
    modify fun state => { state with availableMoves := [] }
    modify fun state => { state with forceSwitch := some (j.contains "forceSwitch") }
    if j.contains "active" then
      let moves ← attempt (do (← (← j.constMember "active").index 0).constMember "moves")
      addMoves moves.elements

def applyHp (msg : Message) : Handler Unit := do
  let ident := parseIdent (← attempt (msg.arg 0))
  let state ← get
  match state.findPokemon ident with
  | none => return
  | some pkm =>
    let condition ← attempt (msg.arg 1)
    updateHp (state.ours ident) pkm condition

def applyFaint (msg : Message) : Handler Unit := do
  let ident := parseIdent (← attempt (msg.arg 0))
  let state ← get
  match state.findPokemon ident with
  | none => return
  | some pkm =>
    modify (editPokemon (state.ours ident) pkm fun p =>
      { p with fainted := true, active := false, hpCurrent := some 0 })

def applySwitch (msg : Message) : Handler Unit := do
  let text ← attempt (msg.arg 0)
  let ident := parseIdent text
  let ours := (← get).ours ident
  modify (editTeam ours fun team => team.map fun p => { p with active := false })
  let pkm ← match (← get).findPokemon ident with
    | some pkm => pure pkm
    | none => do
      -- opponent Pokemon we have not seen yet
      modify (editTeam ours fun team =>
        team ++ [{ name := ident.name, ident := text, active := false, fainted := false }])
      pure (((← get).team ours).length - 1)
  modify (editPokemon ours pkm fun p => { p with active := true, fainted := false })
  let condition ← attempt (msg.arg 2)
  updateHp ours pkm condition

def applyTurn (msg : Message) : Handler Unit := do
  let turn ← attempt (do stoi (← msg.arg 0).toList)
  modify fun state => { state with turn := some turn }

def apply (parse : String → Option Json) (msg : Message) : Handler Unit :=
  if msg.type = "request" then applyRequest parse msg
  else if msg.type = "-damage" ∨ msg.type = "-heal" then applyHp msg
  else if msg.type = "faint" then applyFaint msg
  else if msg.type = "switch" ∨ msg.type = "drag" then applySwitch msg
  else if msg.type = "turn" then applyTurn msg
  else return

/-- A message that is applied without failure. -/
def step (parse : String → Option Json) (state : BattleState) (msg : Message) : Option BattleState :=
  match (apply parse msg).run state with
  | .ok _ after => some after
  | .error _ _ => none

end BattleState
end ShowdownCli
