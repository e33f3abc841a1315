import ShowdownCli.Layers

/-! The login as the debug build runs it, where `PK_DEBUG` makes logging write records. -/

namespace ShowdownCli.Debug

/-- The levels that the login writes at. `Logger::init` lets all of them through. -/
inductive LogLevel where
  | error
  | warn
  | info
  | trace
deriving DecidableEq

structure LogRecord where
  level : LogLevel
  text : String
deriving DecidableEq

/-- A result with the records that were written on the way to it. -/
structure Logged (α : Type) where
  value : α
  records : List LogRecord := []

instance : Monad Logged where
  pure value := { value }
  bind first next :=
    { value := (next first.value).value, records := first.records ++ (next first.value).records }

namespace Logged
variable {α β : Type}

@[simp] theorem value_pure (value : α) : (pure value : Logged α).value = value := rfl

@[simp] theorem records_pure (value : α) : (pure value : Logged α).records = [] := rfl

@[simp] theorem value_bind (first : Logged α) (next : α → Logged β) : (first >>= next).value = (next first.value).value :=
  rfl

@[simp] theorem records_bind (first : Logged α) (next : α → Logged β) :
    (first >>= next).records = first.records ++ (next first.value).records := rfl

end Logged

def log (level : LogLevel) (text : String) : Logged Unit := { value := (), records := [{ level, text }] }

@[simp] theorem records_log (level : LogLevel) (text : String) : (log level text).records = [{ level, text }] := rfl

/-! ## The client -/

def send (client : PsClient) (msg : String) : Logged PsClient := do
  log .trace ("Sending: " ++ msg)
  return client.send msg

def onUpdateUser (client : PsClient) (msg : Message) : Logged PsClient :=
  match msg.args with
  | [] => return client
  | username :: _ => do
    let isNamed : Bool := msg.args[1]? = some "1"
    log .info ("Username: " ++ username ++ " | Authenticated: " ++ (if isNamed then "true" else "false"))
    if isNamed then return { client with loggedIn := true }
    else return client

def receive (client : PsClient) (msg : Message) : Except Fault (Logged PsClient) :=
  if msg.type = "challstr" then (client.onChallStr msg).map pure
  else if msg.type = "updateuser" then .ok (onUpdateUser client msg)
  else .ok (pure client)

/-- `answers` are those of `request_assertion`, each with the records that it writes. -/
def tryLogin (answers : Nat → Logged String) (client : PsClient) : Logged (Bool × PsClient) :=
  if client.challStr = "" then do
    log .warn "Challstr hasn't been sent yet, can't login/signup"
    return (false, client)
  else if client.username.chars.head = '\x00' ∨ client.password.chars.head = '\x00' then do
    log .error "User not logged, but challstr has been sent!"
    return (false, client)
  else do
    let token ← answers client.asserted.length
    let asked := { client with
      asserted := client.asserted ++ [(client.username.cString, client.password.cString, client.challStr)] }
    if token = "" then
      log .error "Unable to request assertion"
      return (false, asked)
    else
      log .info "Verifying challstr..."
      let trusted ← send asked ("|/trn " ++ client.username.cString ++ ",0," ++ token)
      return (true, { trusted with username := .zero, password := .zero, challStr := "" })

/-! ## The login overlay -/

/-- What `on_event` does once it has set the password. -/
def login (answers : Nat → Logged String) (this : Nat) (overlay : LoginOverlay) (client : PsClient) :
    Logged (Reaction LoginOverlay) := do
  match ← tryLogin answers client with
  | (false, client) =>
    log .error "Login failed"
    return { layer := { overlay with enteredUsername := false, enteredPassword := false }, client
             printed := ["\rPassword set ...\r\n", "\rLogin failed, please retry!\r\n"], handled := true }
  | (true, client) =>
    return { layer := { overlay with enteredPassword := true }, client, submitted := [.layerPop this true]
             printed := ["\rPassword set ...\r\n", "\rLogin Successful!\r\n\r\n"], handled := true }

def onCommand (answers : Nat → Logged String) (this : Nat) (overlay : LoginOverlay) (client : PsClient) (cmd : String) :
    Logged (Reaction LoginOverlay) := do
  log .info ("[LoginOverlay] Command Recieved: '" ++ cmd ++ "'")
  match tokenize cmd with
  | [token] =>
    if ¬ overlay.enteredUsername then
      match client.setUsername token with
      | (false, client) =>
        return { layer := overlay, client, printed := ["\rInvalid username, retry!\r\n"], handled := true }
      | (true, client) =>
        return { layer := { overlay with enteredUsername := true }, client
                 printed := ["\rUsername set, hello " ++ token ++ "! \r\nEnter password: "], handled := true }
    else
      match client.setPassword token with
      | (false, client) =>
        return { layer := overlay, client, printed := ["\rInvalid password, retry!\r\n"], handled := true }
      | (true, client) => login answers this overlay client
  | _ => return { layer := overlay, client, printed := ["\rInvalid Input, enter again!\r\n"], handled := true }

end ShowdownCli.Debug
