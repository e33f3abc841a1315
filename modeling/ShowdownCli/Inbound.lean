import ShowdownCli.Parser
import ShowdownCli.Queue

/-! Inbound messages (`WsClient::start_read_loop`, `PsClient::poll`). The network
thread parses one frame at a time and pushes its messages one after another; it
does not look at what `push` returns. The main thread polls whenever it gets to it. -/

namespace ShowdownCli

/-- `received` are the frames handed to the read handler so far, and `batch` is
what its loop has left of the last one. -/
structure Inbound where
  threads : SPSCQueue.Threads Message 256 := SPSCQueue.Threads.start (by decide)
  received : List (List Char) := []
  batch : List Message := []

namespace Inbound
open SPSCQueue

inductive Action where
  | frame (raw : List Char)
  | network
  | poll
deriving DecidableEq

/-- The read handler runs to its end before the next frame is read. -/
def receive (state : Inbound) (raw : List Char) : Option Inbound :=
  match state.threads.producer, state.batch with
  | .idle, [] => some { state with received := state.received ++ [raw], batch := parseMessage raw }
  | _, _ => none

/-- The loop of the handler: the next atomic access of the push it is in, or the
first of its next push. -/
def network (state : Inbound) : Option Inbound :=
  match state.threads.producer, state.batch with
  | .idle, [] => none
  | .idle, msg :: rest => (state.threads.step (.push msg)).map fun threads => { state with threads, batch := rest }
  | _, _ => (state.threads.step .producer).map fun threads => { state with threads }

/-- The next atomic access of the `pop` in `PsClient::poll`. Whatever `poll` does
with a message, it returns it. -/
def poll (state : Inbound) : Option Inbound :=
  match state.threads.consumer with
  | .idle => (state.threads.step .pop).map fun threads => { state with threads }
  | _ => (state.threads.step .consumer).map fun threads => { state with threads }

def step (state : Inbound) : Action → Option Inbound
  | .frame raw => state.receive raw
  | .network => state.network
  | .poll => state.poll

end Inbound
end ShowdownCli
