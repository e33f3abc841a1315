import ShowdownCli.Proofs.AppOverlays

/-! What a step of the main loop does to the client, the layers and their objects. It
delivers a message, or what it does to the stack and then the event, or leaves all
three alone. -/

namespace ShowdownCli.PsApp
open Library

/-- Everything but the bookkeeping of the main loop. -/
structure Core where
  client : PsClient
  layerstack : LayerStack Nat
  objects : List (Option Layer)

def core (app : PsApp) : Core := { client := app.client, layerstack := app.layerstack, objects := app.objects }

/-- What the switch in `poll` makes of an event in the states that can be reached. -/
inductive Outcome (app : PsApp) (event : Event) (after : PsApp) : Prop where
  | same (same : after.core = app.core)
  | opened (empty : app.layerstack.layers = []) (menu : app.kinds = [some .menu]) (client : after.client = app.client)
      (layers : after.layerstack.layers = [0]) (objects : after.objects = app.objects)
  | removed (it gone : Nat) (offset : UInt32) (here : app.layerstack.layers[it]? = some gone)
      (removed : after = app.removed it gone offset)
  | attached (object : Layer) (base : List Nat) (covered : Covered app base none)
      (creates : event = .battleSearch ∧ object = .battle {} ∨
        ∃ isSignup, event = .login isSignup ∧ object = .login { isSignup })
      (attached : after = app.attached object)

theorem core_client {app after : PsApp} (same : after.core = app.core) : after.client = app.client :=
  congrArg Core.client same

theorem core_layerstack {app after : PsApp} (same : after.core = app.core) : after.layerstack = app.layerstack :=
  congrArg Core.layerstack same

theorem core_objects {app after : PsApp} (same : after.core = app.core) : after.objects = app.objects :=
  congrArg Core.objects same

theorem core_kinds {app after : PsApp} (same : after.core = app.core) : after.kinds = app.kinds :=
  congrArg (List.map (Option.map Layer.kind)) (core_objects same)

variable {world : World} {app after handled : PsApp} {base : List Nat} {above : Option Nat} {pending : List Event}

theorem Covered.outcome {event : Event} (covered : Covered app base above) (fitting : Fitting above event)
    (handling : handle app event = .ok handled) : Outcome app event handled := by
  cases event with
  | command cmd =>
    cases handling
    by_cases quit : cmd = "q"
    · rw [if_pos quit]
      exact .same rfl
    · rw [if_neg quit]
      exact .same rfl
  | layerPush | message => exact fitting.elim
  | layerPop layer isOverlay =>
    rcases perform_removes handling with rfl | ⟨it, gone, offset, here, removed⟩
    · exact .same rfl
    · exact .removed it gone offset here removed
  | login isSignup =>
    cases fitting
    have opened := (perform_attach _ _).symm.trans handling
    cases opened
    exact .attached _ base covered (Or.inr ⟨isSignup, rfl, rfl⟩) rfl
  | battleSearch =>
    cases fitting
    have opened := (perform_attach _ _).symm.trans handling
    cases opened
    exact .attached _ base covered (Or.inl ⟨rfl, rfl⟩) rfl
  | battleJoin =>
    cases handling
    exact .same rfl

theorem Opening.outcome {queue : SPSCQueue (Option Event) 64} {dispatched : List Event} (opening : Opening app)
    (handling : handle { app with eventQueue := queue, dispatched } (.layerPush 0 false) = .ok handled) :
    Outcome { app with eventQueue := queue, dispatched } (.layerPush 0 false) handled := by
  have started := (opening.started queue dispatched).symm.trans handling
  cases started
  exact .opened (by simp [opening.layerstack]) opening.kinds rfl rfl rfl

/-- How a step goes on: `middle` is what the event is delivered in. -/
inductive Taken (world : World) (app : PsApp) (action : Action) (after : PsApp) : Prop where
  | still (same : after.core = app.core) (dispatched : after.dispatched = app.dispatched)
  | message (msg : Message) (asked : action = .message msg) (client : PsClient)
      (received : app.client.receive msg = .ok client)
      (delivered : pushToLayers world { app with client } (.message msg) = .ok after)
  | event (event : Event) (start middle : PsApp) (asked : action = .dispatch) (phase : app.phase = .events false)
      (same : start.core = app.core) (outcome : Outcome start event middle)
      (dispatched : middle.dispatched = app.dispatched ++ [event])
      (delivered : pushToLayers world middle event = .ok after) (waiting : some event ∈ app.eventQueue.contents)

theorem Outcome.dispatched {start middle : PsApp} {event : Event} (handling : handle start event = .ok middle) :
    middle.dispatched = start.dispatched := by
  cases event with
  | command cmd =>
    cases handling
    split <;> rfl
  | layerPush | layerPop =>
    obtain ⟨_, _, _, _, _, rfl⟩ := perform_ok handling
    rfl
  | login | battleSearch =>
    have attached := (perform_attach _ _).symm.trans handling
    cases attached
    rfl
  | battleJoin | message =>
    cases handling
    rfl

theorem onRender_core (rendered : app.onRender = .ok after) :
    after.core = app.core ∧ after.dispatched = app.dispatched := by
  simp only [onRender] at rendered
  split at rendered
  next =>
    obtain ⟨object, _, rest⟩ := except_bind_ok.mp rendered
    obtain ⟨text, _, shown⟩ := except_bind_ok.mp rest
    cases shown
    exact ⟨rfl, rfl⟩
  next =>
    cases rendered
    exact ⟨rfl, rfl⟩

theorem Layered.outcome (layered : Layered app) (phase : app.phase = .events false) {e : Option Event}
    {queue : SPSCQueue (Option Event) 64} (popped : app.eventQueue.pop = some (e, queue)) {event : Event}
    (same : e = some event)
    (handling : handle { app with eventQueue := queue, dispatched := app.dispatched ++ [event] } event = .ok handled) :
    Outcome { app with eventQueue := queue, dispatched := app.dispatched ++ [event] } event handled := by
  cases layered with
  | opening opening =>
    have contents := SPSCQueue.pop_some popped
    rw [opening.queue] at contents
    obtain ⟨first, _⟩ := List.cons.inj contents
    cases first.trans same
    exact opening.outcome handling
  | running base above pending covered awaiting =>
    obtain ⟨other, rest, taken, rfl, _⟩ := awaiting.popped popped
    cases taken.symm.trans same
    have covers : Covered { app with eventQueue := queue, dispatched := app.dispatched ++ [event] } base above :=
      { covered with }
    exact covers.outcome (awaiting.fitting event List.mem_cons_self) handling
  | leaving base above covered quit left => exact absurd phase left.2

theorem Layered.taken {action : Action} (layered : Layered app) (taken : app.step world action = some after) :
    Taken world app action after := by
  cases action with
  | message msg =>
    obtain ⟨_, client, received, delivered⟩ := step_message.mp taken
    exact .message msg rfl client received delivered
  | drained =>
    obtain ⟨_, rfl⟩ := step_drained.mp taken
    exact .still rfl rfl
  | dispatch =>
    obtain ⟨exit, phase, dispatched⟩ := step_dispatch.mp taken
    rcases dispatch_ok.mp dispatched with ⟨_, rfl⟩ | ⟨e, queue, popped, ⟨_, rfl⟩ | ⟨rfl, event, same, processed⟩⟩
    · exact .still rfl rfl
    · exact .still rfl rfl
    · obtain ⟨middle, handling, delivered⟩ := except_bind_ok.mp processed
      have outcome := layered.outcome phase popped same handling
      exact .event event { app with eventQueue := queue, dispatched := app.dispatched ++ [event] } middle rfl phase rfl
        outcome (Outcome.dispatched handling) delivered (by rw [SPSCQueue.pop_some popped, same]; exact List.mem_cons_self)
  | line line =>
    obtain ⟨_, rfl⟩ := step_line.mp taken
    cases line with
    | none => exact .still rfl rfl
    | some cmd => exact .still rfl rfl
  | render =>
    obtain ⟨_, shown, rendered, rfl⟩ := step_render.mp taken
    obtain ⟨same, dispatched⟩ := onRender_core rendered
    exact .still same dispatched

end ShowdownCli.PsApp
