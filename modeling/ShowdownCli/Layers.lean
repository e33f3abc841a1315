import ShowdownCli.BattleState
import ShowdownCli.Client

/-! The UI layers (`app/psapp.h`): the menu, the login overlay and the battle. A
layer reacts to one event at a time; it may change itself and the client, print,
and submit events of its own. -/

namespace ShowdownCli

/-- A layer is known by its address. -/
inductive Event where
  | command (cmd : String)
  | message (msg : Message)
  | layerPush (layer : Nat) (isOverlay : Bool)
  | layerPop (layer : Nat) (isOverlay : Bool)
  | login (isSignup : Bool)
  | battleSearch
  | battleJoin
deriving DecidableEq

/-- The code outside of the repository: the JSON library, and the login server with
its answer to each request made to it. -/
structure World where
  parse : String → Option Json
  assertions : Nat → String

structure Reaction (α : Type) where
  layer : α
  client : PsClient
  submitted : List Event := []
  printed : List String := []
  handled : Bool

namespace Reaction
variable {α β : Type}

/-- No dispatcher of the layer is for the type of the event. -/
def ignore (layer : α) (client : PsClient) : Reaction α := { layer, client, handled := false }

def map (wrap : α → β) (reaction : Reaction α) : Reaction β := { reaction with layer := wrap reaction.layer }

end Reaction

/-! ## The menu -/

namespace MenuLayer

def onCommand (this : Nat) (client : PsClient) (cmd : String) : Reaction Unit :=
  if cmd = "1" then { layer := (), client, submitted := [.battleSearch], handled := true }
  else if cmd = "2" then { layer := (), client, submitted := [.login false], handled := true }
  else if cmd = "3" then { layer := (), client, submitted := [.login true], handled := true }
  else if cmd = "q" then { layer := (), client, submitted := [.layerPop this false], handled := false }
  else { layer := (), client, handled := true }

def onMessage (client : PsClient) (msg : Message) : Except Fault (Reaction Unit) :=
  if msg.type = "win" then do
    let winner ← msg.arg 0
    return { layer := (), client, printed := ["\nWinner: " ++ winner ++ "\n"], handled := true }
  else .ok { layer := (), client, handled := true }

def onEvent (this : Nat) (client : PsClient) : Event → Except Fault (Reaction Unit)
  | .command cmd => .ok (onCommand this client cmd)
  | .message msg => onMessage client msg
  | _ => .ok (.ignore () client)

def onRender : String := String.join [
  "\r=================================================\r\n",
  "\r  POKEMON SHOWDOWN CLI  |  MAIN MENU            \r\n",
  "\r=================================================\r\n\r\n",
  "\r  Welcome!\r\n\r\n",
  "\r--- AVAILABLE ACTIONS ---\r\n",
  "\r [1] Search for Random Battle\r\n",
  "\r [2] Login\r\n",
  "\r [3] Sign-up\r\n",
  "\r [q] Quit\r\n",
  "\r=================================================\r\n"]

end MenuLayer

/-! ## The login overlay -/

structure LoginOverlay where
  isSignup : Bool
  enteredUsername : Bool := false
  enteredPassword : Bool := false
deriving DecidableEq

namespace LoginOverlay

def onCommand (world : World) (this : Nat) (overlay : LoginOverlay) (client : PsClient) (cmd : String) :
    Reaction LoginOverlay :=
  match tokenize cmd with
  | [token] =>
    if ¬ overlay.enteredUsername then
      match client.setUsername token with
      | (false, client) =>
        { layer := overlay, client, printed := ["\rInvalid username, retry!\r\n"], handled := true }
      | (true, client) =>
        { layer := { overlay with enteredUsername := true }, client
          printed := ["\rUsername set, hello " ++ token ++ "! \r\nEnter password: "], handled := true }
    else
      match client.setPassword token with
      | (false, client) =>
        { layer := overlay, client, printed := ["\rInvalid password, retry!\r\n"], handled := true }
      | (true, client) =>
        match client.tryLogin world.assertions with
        | (false, client) =>
          { layer := { overlay with enteredUsername := false, enteredPassword := false }, client
            printed := ["\rPassword set ...\r\n", "\rLogin failed, please retry!\r\n"], handled := true }
        | (true, client) =>
          { layer := { overlay with enteredPassword := true }, client, submitted := [.layerPop this true]
            printed := ["\rPassword set ...\r\n", "\rLogin Successful!\r\n\r\n"], handled := true }
  | _ => { layer := overlay, client, printed := ["\rInvalid Input, enter again!\r\n"], handled := true }

def onEvent (world : World) (this : Nat) (overlay : LoginOverlay) (client : PsClient) :
    Event → Reaction LoginOverlay
  | .command cmd => onCommand world this overlay client cmd
  | _ => .ignore overlay client

def onRender (overlay : LoginOverlay) : String :=
  if ¬ overlay.isSignup then String.join [
    "\r=================================================\r\n",
    "\r  POKEMON SHOWDOWN CLI  |  LOGIN                \r\n",
    "\r=================================================\r\n\r\n",
    "\r  Please log in to your account.\r\n\r\n",
    "\r  Type your username and press [Enter].\r\n\r\n",
    "\r--- AVAILABLE ACTIONS ---\r\n",
    "\r [b] Back to Main Menu\r\n",
    "\r [q] Quit\r\n",
    "\r=================================================\r\n"]
  else String.join [
    "\r=================================================\r\n",
    "\r  POKEMON SHOWDOWN CLI  |  SIGN-UP              \r\n",
    "\r=================================================\r\n\r\n",
    "\r  Create a new Pokemon Showdown account.\r\n\r\n",
    "\r  Type your desired username and press [Enter].\r\n\r\n",
    "\r--- AVAILABLE ACTIONS ---\r\n",
    "\r [b] Back to Main Menu\r\n",
    "\r [q] Quit\r\n",
    "\r=================================================\r\n"]

end LoginOverlay

/-! ## The battle -/

structure BattleLayer where
  state : BattleState := {}
  battleRoom : String := ""
  timerActive : Bool := false
deriving DecidableEq

namespace BattleLayer

/-- The protocol id of the format `"Random Battle"`. -/
def onAttach (client : PsClient) : PsClient := client.send "|/search gen9randombattle"

def isForceSwitch (battle : BattleLayer) : Except Fault Bool :=
  match battle.state.forceSwitch with
  | some forced => .ok forced
  | none => .error .undefined

/-- The test is on the first token, but what is sent is the first character of the line. -/
def choose (battle : BattleLayer) (client : PsClient) (cmd : String) (rest : List String) :
    Except Fault PsClient := do
  let first := String.ofList (cmd.toList.take 1)
  if ← battle.isForceSwitch then
    return client.send (battle.battleRoom ++ "|/choose switch " ++ first)
  else
    let tera := if rest = ["tera"] then " terastallize" else ""
    return client.send (battle.battleRoom ++ "|/choose move " ++ first ++ tera)

def toggleTimer (battle : BattleLayer) (client : PsClient) : BattleLayer × PsClient :=
  if battle.timerActive then
    ({ battle with timerActive := false }, client.send (battle.battleRoom ++ "|/timer off"))
  else ({ battle with timerActive := true }, client.send (battle.battleRoom ++ "|/timer on"))

def onCommand (battle : BattleLayer) (client : PsClient) (cmd : String) : Except Fault (Reaction BattleLayer) :=
  match tokenize cmd with
  | [] => .ok { layer := battle, client, handled := true }
  | token :: rest =>
    if token ∈ ["1", "2", "3", "4"] then do
      let client ← battle.choose client cmd rest
      return { layer := battle, client, handled := true }
    else if cmd = "f" then
      .ok { layer := battle, client := client.send (battle.battleRoom ++ "|/forfeit"), handled := true }
    else if cmd = "t" then
      let (battle, client) := battle.toggleTimer client
      .ok { layer := battle, client, handled := true }
    else if cmd ∈ ["s1", "s2", "s3", "s4", "s5", "s6"] then
      let slot := String.ofList (cmd.toList.drop 1)
      .ok { layer := battle, client := client.send (battle.battleRoom ++ "|/choose switch " ++ slot), handled := true }
    else .ok { layer := battle, client, handled := true }

/-- The room of an `updatesearch` is the first key of its games. -/
def updateSearch (world : World) (battle : BattleLayer) (client : PsClient) (payload : String) :
    Except Fault (BattleLayer × PsClient) :=
  match world.parse payload with
  | none => .error .uncaught
  | some j => do
    let games ← j.member "games"
    if games.isNull then return (battle, client)
    else
      let room ← games.firstKey
      return ({ battle with battleRoom := room }, client.send ("|/join " ++ room))

def onMessage (world : World) (this : Nat) (battle : BattleLayer) (client : PsClient) (msg : Message) :
    Except Fault (Reaction BattleLayer) :=
  match (BattleState.apply world.parse msg).run battle.state with
  | .error fault _ => .error fault
  | .ok _ state =>
    let battle := { battle with state }
    if msg.type = "updatesearch" ∧ msg.args ≠ [] then do
      let (battle, client) ← battle.updateSearch world client (← msg.arg 0)
      return { layer := battle, client, handled := true }
    else if msg.type = "win" ∨ msg.type = "tie" then
      .ok { layer := battle, client, submitted := [.layerPop this false], handled := true }
    else if msg.type = "request" then
      .ok { layer := battle, client, submitted := [.battleJoin], handled := true }
    else .ok { layer := battle, client, handled := true }

def onEvent (world : World) (this : Nat) (battle : BattleLayer) (client : PsClient) :
    Event → Except Fault (Reaction BattleLayer)
  | .command cmd => battle.onCommand client cmd
  | .message msg => battle.onMessage world this client msg
  | _ => .ok (.ignore battle client)

/-- Printing a number that was never assigned is undefined. -/
def printed (number : Option Int) : Except Fault String :=
  match number with
  | some value => .ok (toString value)
  | none => .error .undefined

/-- The part of a team's line that both teams show. -/
def renderPokemon (index : Nat) (p : Pokemon) : Except Fault String := do
  let current ← printed p.hpCurrent
  let max ← printed p.hpMax
  return "\r [s" ++ toString (index + 1) ++ "] " ++ (if p.active then "*ACTIVE* " else "         ") ++
    p.name ++ " (" ++ current ++ "/" ++ max ++ " HP)"

def renderOpponent (index : Nat) (p : Pokemon) : Except Fault String := do
  return (← renderPokemon index p) ++ "\r\n"

def renderOurs (state : BattleState) (index : Nat) (p : Pokemon) : Except Fault String := do
  let line ← renderPokemon index p
  let tera ← if p.active then do
      let shown ← state.activePokemon
      pure (" : Tera - " ++ shown.teraType)
    else pure ""
  return line ++ tera ++ "\r\n"

def renderMove (index : Nat) (move : MoveOption) : String :=
  "\r [" ++ toString (index + 1) ++ "] " ++ move.name ++ " (" ++ toString move.pp ++ "/" ++ toString move.maxPp ++
    " PP)" ++ (if move.disabled then " [DISABLED]" else "") ++ "\r\n"

def onRender (battle : BattleLayer) : Except Fault String := do
  let state := battle.state
  let opponents ← (state.opponentTeam.zipIdx).mapM fun (p, index) => renderOpponent index p
  let ours ← (state.yourTeam.zipIdx).mapM fun (p, index) => renderOurs state index p
  let moves := if state.availableMoves = [] then "\r  Waiting for server...\r\n"
    else String.join ((state.availableMoves.zipIdx).map fun (move, index) => renderMove index move)
  return String.join [
    "\r=================================================\r\n",
    "\r  POKEMON SHOWDOWN CLI  | Room: ", battle.battleRoom, "\r\n",
    "\r=================================================\r\n\r\n",
    "\r--- OPPONENT TEAM ---\r\n", String.join opponents, "\r\n",
    "\r--- YOUR TEAM ---\r\n", String.join ours, "\r\n",
    "\r--- AVAILABLE ACTIONS ---\r\n", moves,
    "\r\n [f] Forfeit\r\n",
    "\r [t] Toggle Timer\r\n",
    "\r [s<1-6>] Switch\r\n",
    "\r [move] <optional:tera> \r\n",
    "\r=================================================\r\n"]

end BattleLayer

inductive Layer where
  | menu
  | login (overlay : LoginOverlay)
  | battle (battleLayer : BattleLayer)
deriving DecidableEq

namespace Layer

def onAttach (layer : Layer) (client : PsClient) : PsClient :=
  match layer with
  | .battle _ => BattleLayer.onAttach client
  | _ => client

def onEvent (world : World) (this : Nat) (layer : Layer) (client : PsClient) (event : Event) :
    Except Fault (Reaction Layer) :=
  match layer with
  | .menu => (MenuLayer.onEvent this client event).map (Reaction.map fun _ => .menu)
  | .login overlay => .ok ((overlay.onEvent world this client event).map .login)
  | .battle battleLayer => (battleLayer.onEvent world this client event).map (Reaction.map .battle)

def onRender (layer : Layer) : Except Fault String :=
  match layer with
  | .menu => .ok MenuLayer.onRender
  | .login overlay => .ok overlay.onRender
  | .battle battleLayer => battleLayer.onRender

end Layer
end ShowdownCli
