import ShowdownCli.Standard

/-! The writing half of the websocket client (`net/wsclient.h`). Any thread may call
`send`; the handlers it posts and those of completed writes run one at a time on a
strand, in the order they were posted. Reads use the same strand but not the queue. -/

namespace ShowdownCli

/-- An `async_write`, with the element its buffer refers to. An element is known by
the number of elements that were pushed before it. -/
structure Write where
  element : Nat
  frame : String
deriving DecidableEq

/-- What the strand can have to run. -/
inductive WsClient.Handler where
  | push (formattedMsg : String)
  | written (write : Write) (ec : Bool)
deriving DecidableEq

/-- The write that the handler is for. -/
def WsClient.Handler.write : WsClient.Handler → Option Write
  | .push _ => none
  | .written write _ => some write

/-- `popped` counts the elements that have left the queue and `writes` are the
operations that have not completed. `posted` and `completed` record the frames
handed to the strand and those that were written without an error. -/
structure WsClient where
  strand : List WsClient.Handler := []
  internalWriteQueue : List String := []
  popped : Nat := 0
  writes : List Write := []
  posted : List String := []
  completed : List String := []
deriving DecidableEq

namespace WsClient

/-- An empty string has no `back()`. -/
def format (message : String) : Option String :=
  message.toList.getLast?.map fun back => if back ≠ '\n' then message ++ "\n" else message

def send (ws : WsClient) (message : String) : Option WsClient :=
  (format message).map fun formattedMsg =>
    { ws with strand := ws.strand ++ [.push formattedMsg], posted := ws.posted ++ [formattedMsg] }

def doWrite (ws : WsClient) : Option WsClient :=
  ws.internalWriteQueue.head?.map fun front =>
    { ws with writes := ws.writes ++ [{ element := ws.popped, frame := front }] }

/-- The handler that `send` posts. -/
def onPush (ws : WsClient) (formattedMsg : String) : Option WsClient :=
  let writeInProgress := ws.internalWriteQueue ≠ []
  let ws := { ws with internalWriteQueue := ws.internalWriteQueue ++ [formattedMsg] }
  if ¬ writeInProgress then ws.doWrite else some ws

/-- The handler of a completed write. -/
def onWritten (ws : WsClient) (ec : Bool) : Option WsClient :=
  if ¬ ec then
    match ws.internalWriteQueue with
    | [] => none
    | _ :: rest =>
      let ws := { ws with internalWriteQueue := rest, popped := ws.popped + 1 }
      if rest ≠ [] then ws.doWrite else some ws
  else some ws

def handle (ws : WsClient) : Handler → Option WsClient
  | .push formattedMsg => ws.onPush formattedMsg
  | .written _ ec => ws.onWritten ec

/-- One of the operations under way completes, and its handler goes to the strand. -/
def complete (ws : WsClient) (operation : Nat) (ec : Bool) : Option WsClient :=
  ws.writes[operation]?.map fun write =>
    { ws with
      writes := ws.writes.eraseIdx operation
      strand := ws.strand ++ [.written write ec]
      completed := if ec then ws.completed else ws.completed ++ [write.frame] }

def run (ws : WsClient) : Option WsClient :=
  match ws.strand with
  | [] => none
  | handler :: rest => { ws with strand := rest }.handle handler

inductive Action where
  | send (message : String)
  | complete (operation : Nat) (ec : Bool)
  | run
deriving DecidableEq

def step (ws : WsClient) : Action → Option WsClient
  | .send message => ws.send message
  | .complete operation ec => ws.complete operation ec
  | .run => ws.run

/-- The writes whose handlers have not run. -/
def outstanding (ws : WsClient) : List Write := ws.writes ++ ws.strand.filterMap Handler.write

end WsClient
end ShowdownCli
