import ShowdownCli.Parser

/-! The main thread's side of the client (`protocol/psclient.h`): the credentials,
the challenge of the server and the login that uses them. The code is the release
build's, where logging compiles to nothing. -/

namespace ShowdownCli

/-- A `char[32]` with the zero that ends the string in it. -/
structure Credential where
  chars : Vector Char 32
  terminated : '\x00' ∈ chars.toList
deriving DecidableEq

namespace Credential

def zero : Credential := { chars := Vector.replicate 32 '\x00', terminated := by decide }

/-- `memcpy` of as much as fits, then a zero; what lies behind it stays. -/
def set (buffer : Credential) (text : String) : Credential :=
  let len := min text.toList.length 31
  { chars := Vector.ofFn fun i =>
      if i.val < len then text.toList.getD i.val '\x00' else if i.val = len then '\x00' else buffer.chars[i]
    terminated := by
      have inside : len < 32 := by omega
      rw [Vector.mem_toList_iff]
      exact Vector.mem_of_getElem (i := len) (h := inside) (by simp) }

/-- What reading the buffer as a string gives. -/
def cString (buffer : Credential) : String := String.ofList (buffer.chars.toList.takeWhile (· ≠ '\x00'))

/-- The checks of `set_username` and of `set_password`. -/
def accepts (text : String) : Bool :=
  text ≠ "" ∧ ¬ text.toList.all (· ∈ [' ', '\t', '\r', '\n'])

end Credential

/-- `sent` are the frames handed to `WsClient::send` and `asserted` the arguments
of the calls of `request_assertion`, both in order. -/
structure PsClient where
  loggedIn : Bool := false
  challStr : String := ""
  username : Credential := .zero
  password : Credential := .zero
  sent : List String := []
  asserted : List (String × String × String) := []
deriving DecidableEq

namespace PsClient

def send (client : PsClient) (msg : String) : PsClient := { client with sent := client.sent ++ [msg] }

def setUsername (client : PsClient) (username : String) : Bool × PsClient :=
  if Credential.accepts username then (true, { client with username := client.username.set username })
  else (false, client)

def setPassword (client : PsClient) (password : String) : Bool × PsClient :=
  if Credential.accepts password then (true, { client with password := client.password.set password })
  else (false, client)

def onChallStr (client : PsClient) (msg : Message) : Except Fault PsClient :=
  if client.loggedIn then .ok client
  else do
    let id ← msg.arg 0
    let challenge ← msg.arg 1
    return { client with challStr := id ++ "|" ++ challenge }

def onUpdateUser (client : PsClient) (msg : Message) : PsClient :=
  if msg.args = [] then client
  else if msg.args[1]? = some "1" then { client with loggedIn := true }
  else client

/-- What `poll` does with a message before it returns it. -/
def receive (client : PsClient) (msg : Message) : Except Fault PsClient :=
  if msg.type = "challstr" then client.onChallStr msg
  else if msg.type = "updateuser" then .ok (client.onUpdateUser msg)
  else .ok client

/-- `assertions` are the answers of the login server, one for each request ever
made; an empty one is a failure. -/
def tryLogin (assertions : Nat → String) (client : PsClient) : Bool × PsClient :=
  if client.challStr = "" then (false, client)
  else if client.username.chars[0] = '\x00' ∨ client.password.chars[0] = '\x00' then (false, client)
  else
    let token := assertions client.asserted.length
    let asked := { client with
      asserted := client.asserted ++ [(client.username.cString, client.password.cString, client.challStr)] }
    if token = "" then (false, asked)
    else
      let trusted := asked.send ("|/trn " ++ client.username.cString ++ ",0," ++ token)
      (true, { trusted with username := .zero, password := .zero, challStr := "" })

/-- What the main thread can ask of the client; `poll` returns a message. -/
inductive Action where
  | poll (msg : Message)
  | setUsername (username : String)
  | setPassword (password : String)
  | tryLogin
deriving DecidableEq

def step (assertions : Nat → String) (client : PsClient) : Action → Option PsClient
  | .poll msg => (client.receive msg).toOption
  | .setUsername username => some (client.setUsername username).2
  | .setPassword password => some (client.setPassword password).2
  | .tryLogin => some (client.tryLogin assertions).2

end PsClient
end ShowdownCli
