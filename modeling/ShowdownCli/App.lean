import ShowdownCli.Layers
import ShowdownCli.LayerStack
import ShowdownCli.Queue

/-! The main loop (`app/psapp.cpp`). One turn drains the inbound messages, then the
event queue, then reads at most one line, then renders. A step of the model is one
turn of one of these loops, so every interleaving with the network and with the
login server is a run. -/

namespace ShowdownCli

/-- Where the main loop is. The flag of the event loop is its local `exit`. -/
inductive Phase where
  | network
  | events (exit : Bool)
  | input
  | render
  | stopped
deriving DecidableEq

/-- `objects` are the layer objects by address; a deleted one leaves its address
empty. `submitted` and `dispatched` record the events pushed (whatever `push`
returned) and the events that the loop of `poll` has begun to process. -/
structure PsApp where
  client : PsClient := {}
  layerstack : LayerStack Nat := {}
  objects : List (Option Layer) := []
  eventQueue : SPSCQueue (Option Event) 64 := SPSCQueue.empty (by decide)
  running : Bool := false
  dirtyUi : Bool := false
  phase : Phase := .network
  printed : List String := []
  rendered : Option String := none
  submitted : List Event := []
  dispatched : List Event := []

namespace PsApp

def submit (app : PsApp) (e : Event) : PsApp :=
  { app with eventQueue := (app.eventQueue.push (some e)).2, submitted := app.submitted ++ [e] }

/-- `new`: the addresses of deleted layers are not used again. -/
def allocate (app : PsApp) (layer : Layer) : Nat × PsApp :=
  (app.objects.length, { app with objects := app.objects ++ [some layer] })

/-- After `init` and `m_client->start()`. -/
def init : PsApp :=
  let (menu, app) := allocate {} .menu
  { app.submit (.layerPush menu false) with running := true }

/-- The layer behind a pointer. -/
def object (app : PsApp) (layer : Nat) : Except Fault Layer :=
  match app.objects[layer]? with
  | some (some object) => .ok object
  | _ => .error .undefined

def lifecycle (app : PsApp) : Lifecycle Nat → Except Fault PsApp
  | .onAttach layer => do
    let object ← app.object layer
    return { app with client := object.onAttach app.client }
  | .onDetach layer => do
    let _ ← app.object layer
    return app
  | .delete layer => do
    let _ ← app.object layer
    return { app with objects := app.objects.set layer none }

def perform (app : PsApp) (call : LayerStack.Call Nat) : Except Fault PsApp :=
  match app.layerstack.call call with
  | none => .error .undefined
  | some (layerstack, effects) => effects.foldlM lifecycle { app with layerstack, dirtyUi := true }

/-- The arms of the switch in `poll`. -/
def handle (app : PsApp) : Event → Except Fault PsApp
  | .command cmd => .ok (if cmd = "q" then { app with running := false, phase := .events true } else app)
  | .layerPush layer isOverlay => app.perform (if isOverlay then .pushOverlay layer else .pushLayer layer)
  | .layerPop layer isOverlay => app.perform (if isOverlay then .popOverlay layer else .popLayer layer)
  | .login isSignup =>
    let (overlay, app) := app.allocate (.login { isSignup })
    app.perform (.pushOverlay overlay)
  | .battleSearch =>
    let (battle, app) := app.allocate (.battle {})
    app.perform (.pushOverlay battle)
  | .battleJoin => .ok { app with dirtyUi := true }
  | .message _ => .ok app

/-- What a layer's reaction does to the rest of the application. -/
def react (app : PsApp) (layer : Nat) (reaction : Reaction Layer) : PsApp :=
  reaction.submitted.foldl submit { app with
    client := reaction.client
    objects := app.objects.set layer (some reaction.layer)
    printed := app.printed ++ reaction.printed }

/-- The loop of `push_to_layers` over the layers that are left, top-down. -/
def offer (world : World) (event : Event) : List Nat → PsApp → Except Fault PsApp
  | [], app => .ok app
  | layer :: below, app => do
    let object ← app.object layer
    let reaction ← object.onEvent world layer app.client event
    if reaction.handled then return app.react layer reaction
    else offer world event below (app.react layer reaction)

def pushToLayers (world : World) (app : PsApp) (event : Event) : Except Fault PsApp :=
  offer world event app.layerstack.layers.reverse app

/-- One turn of the loop of `process_network`. -/
def processMessage (world : World) (app : PsApp) (msg : Message) : Except Fault PsApp := do
  let client ← app.client.receive msg
  pushToLayers world { app with client } (.message msg)

/-- The body of the loop of `poll`. -/
def process (world : World) (app : PsApp) (event : Event) : Except Fault PsApp := do
  let app ← handle { app with dispatched := app.dispatched ++ [event] } event
  pushToLayers world app event

/-- One evaluation of the loop test of `poll`, which takes an event even if it then
leaves the loop. -/
def dispatch (world : World) (app : PsApp) (exit : Bool) : Except Fault PsApp :=
  match app.eventQueue.pop with
  | none => .ok { app with phase := .input }
  | some (e, eventQueue) =>
    if exit then .ok { app with eventQueue, phase := .input }
    else
      match e with
      | none => .error .undefined
      | some event => process world { app with eventQueue } event

def readLine (app : PsApp) (line : Option String) : PsApp :=
  match line with
  | none => { app with phase := .render }
  | some line => { app.submit (.command line) with phase := .render }

def onRender (app : PsApp) : Except Fault PsApp :=
  match app.dirtyUi, app.layerstack.layers.getLast? with
  | true, some top => do
    let object ← app.object top
    let text ← object.onRender
    return { app with printed := app.printed ++ [text ++ "\n"], rendered := some text, dirtyUi := false }
  | _, _ => .ok app

/-- The end of a turn of the main loop and the test that begins the next one. -/
def finishTurn (app : PsApp) : Except Fault PsApp := do
  let app ← app.onRender
  return { app with phase := if app.running then .network else .stopped }

/-- The destructor of `m_layerstack`, after the main loop has ended. -/
def destroy (app : PsApp) : Except Fault PsApp := app.layerstack.destroy.foldlM lifecycle app

/-- `message` is one that `PsClient::poll` returns and `drained` its answer that
there is none; `line` is what the terminal has when it is polled. -/
inductive Action where
  | message (msg : Message)
  | drained
  | dispatch
  | line (line : Option String)
  | render
deriving DecidableEq

def step (world : World) (app : PsApp) (action : Action) : Option PsApp :=
  match app.phase, action with
  | .network, .message msg => (app.processMessage world msg).toOption
  | .network, .drained => some { app with phase := .events false }
  | .events exit, .dispatch => (app.dispatch world exit).toOption
  | .input, .line line => some (app.readLine line)
  | .render, .render => app.finishTurn.toOption
  | _, _ => none

end PsApp
end ShowdownCli
