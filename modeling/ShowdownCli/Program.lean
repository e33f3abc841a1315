import ShowdownCli.App
import ShowdownCli.Inbound
import ShowdownCli.WsClient

/-! The whole program (`main.cpp`, `PsApp::run`). The main thread runs the loop of the
application and the network thread runs the handlers of the websocket, one at a time.
They meet in the inbound queue and in the frames that are posted to the strand. -/

namespace ShowdownCli

/-- `posted` counts the frames of the client that have been handed to the websocket. -/
structure Program where
  app : PsApp := PsApp.init
  inbound : Inbound := {}
  websocket : WsClient := {}
  posted : Nat := 0

namespace Program

/-- `frame`, `network`, `strand` and `complete` are of the network thread and the rest of
the main thread; `turn` is anything of its loop but polling the client. -/
inductive Action where
  | frame (raw : List Char)
  | network
  | strand
  | complete (operation : Nat) (ec : Bool)
  | post
  | poll
  | turn (action : PsApp.Action)
deriving DecidableEq

/-- The read handler has returned. -/
def rested (program : Program) : Bool := program.inbound.threads.producer == .idle && program.inbound.batch == []

/-- Everything that was sent has been posted. Until then the main thread does not go on. -/
def caughtUp (program : Program) : Bool := program.posted == program.app.client.sent.length

/-- What `PsClient::poll` returns if this access is its last. -/
def polled (inbound : Inbound) : Option PsApp.Action :=
  match inbound.threads.consumer with
  | .tailLoaded head tail => if head = tail then some .drained else none
  | .read _ out => some (.message out)
  | _ => none

def post (program : Program) : Option Program := do
  let message ← program.app.client.sent[program.posted]?
  let websocket ← program.websocket.send message
  return { program with websocket, posted := program.posted + 1 }

def poll (world : World) (program : Program) : Option Program := do
  let inbound ← program.inbound.poll
  match polled program.inbound with
  | none => return { program with inbound }
  | some action =>
    let app ← program.app.step world action
    return { program with inbound, app }

def turn (world : World) (program : Program) (action : PsApp.Action) : Option Program :=
  match action with
  | .message _ | .drained => none
  | _ => (program.app.step world action).map fun app => { program with app }

def step (world : World) (program : Program) : Action → Option Program
  | .frame raw => (program.inbound.receive raw).map fun inbound => { program with inbound }
  | .network => program.inbound.network.map fun inbound => { program with inbound }
  | .strand =>
    if program.rested then program.websocket.run.map fun websocket => { program with websocket } else none
  | .complete operation ec =>
    (program.websocket.complete operation ec).map fun websocket => { program with websocket }
  | .post => program.post
  | .poll => if program.caughtUp ∧ program.app.phase = .network then program.poll world else none
  | .turn action => if program.caughtUp then program.turn world action else none

end Program
end ShowdownCli
