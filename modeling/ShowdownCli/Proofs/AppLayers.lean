import ShowdownCli.Library.Runs
import ShowdownCli.Proofs.AppEvents

/-! The layers over whole runs of the main loop. At most one overlay is above the
menu and at most one pending event can change that, but a pop removes the right
layer only while the offset still counts the menu, or once more for an overlay. -/

namespace ShowdownCli.PsApp
open Library

/-- The event that a step takes from the queue and processes. -/
def processing (app : PsApp) (action : Action) : Option Event :=
  match app.phase, action with
  | .events false, .dispatch => app.eventQueue.pop.bind Prod.fst
  | _, _ => none

/-- A LayerPop removes its layer and no other, and nothing if its layer is gone. -/
def PopsRight (world : World) (app : PsApp) (action : Action) : Prop :=
  ∀ layer isOverlay, app.processing action = some (.layerPop layer isOverlay) →
    ∃ after, app.step world action = some after ∧
      after.layerstack.layers = app.layerstack.layers.filter (· ≠ layer)

/-- The offset is 1 when a LayerPop is processed, or 0 for a pop as an overlay. -/
def PopAllowed (app : PsApp) (action : Action) : Prop :=
  ∀ layer isOverlay, app.processing action = some (.layerPop layer isOverlay) →
    app.layerstack.layerIteratorOffset = 1 ∨ (isOverlay = true ∧ app.layerstack.layerIteratorOffset = 0)

/-- Events that can lead to another overlay, or to the end of the login. -/
def Moves : Event → Bool
  | .command _ | .login _ | .battleSearch | .layerPop _ true => true
  | _ => false

/-- What may be pending, by the overlay above the menu. -/
def Expected (app : PsApp) (above : Option Nat) : Event → Prop
  | .command cmd => cmd ≠ "q"
  | .login _ | .battleSearch => above = none
  | .layerPop layer true => above = some layer ∧ app.kinds[layer]? = some (some .login)
  | .layerPop layer false => layer < app.kinds.length ∧
    ((above = some layer ∧ app.kinds[layer]? = some (some .battle)) ∨
      (layer ∉ app.layerstack.layers ∧ app.layerstack.layerIteratorOffset ≠ 1))
  | .battleJoin => True
  | .layerPush _ _ | .message _ => False

structure Running (app : PsApp) (above : Option Nat) (pending : List Event) : Prop where
  layers : app.layerstack.layers = 0 :: above.toList
  offset : app.layerstack.layerIteratorOffset ∈ [1, 0, -1]
  menu : app.kinds[0]? = some (some .menu)
  overlay : ∀ layer, above = some layer →
    app.kinds[layer]? = some (some .login) ∨ app.kinds[layer]? = some (some .battle)
  queue : app.eventQueue.contents = pending.map some
  expected : ∀ event ∈ pending, Expected app above event
  moves : pending.countP Moves ≤ 1

/-- Before the first event is processed, which puts the menu on the stack. -/
structure Opening (app : PsApp) : Prop where
  layerstack : app.layerstack = {}
  kinds : app.kinds = [some .menu]
  queue : app.eventQueue.contents = [some (.layerPush 0 false)]
  phase : app.phase = .network ∨ app.phase = .events false
  dispatched : app.dispatched = []

inductive Standing (app : PsApp) : Prop where
  | opening (opening : Opening app)
  | running (above : Option Nat) (pending : List Event) (running : Running app above pending)
      (stays : app.phase ≠ .events true) (drained : app.phase = .input → pending = [])

variable {world : World} {app after : PsApp} {above : Option Nat} {pending added : List Event}

/-! ## Steps -/

theorem step_message {msg : Message} : app.step world (.message msg) = some after ↔
    app.phase = .network ∧ ∃ client, app.client.receive msg = .ok client ∧
      pushToLayers world { app with client } (.message msg) = .ok after := by
  rw [← except_bind_ok]
  cases phase : app.phase <;> simp [step, phase, toOption_some, processMessage]

theorem step_drained : app.step world .drained = some after ↔
    app.phase = .network ∧ after = { app with phase := .events false } := by
  cases phase : app.phase <;> simp [step, phase, eq_comm]

theorem step_dispatch : app.step world .dispatch = some after ↔
    ∃ exit, app.phase = .events exit ∧ app.dispatch world exit = .ok after := by
  cases phase : app.phase <;> simp [step, phase, toOption_some]

theorem step_line {line : Option String} : app.step world (.line line) = some after ↔
    app.phase = .input ∧ after = app.readLine line := by
  cases phase : app.phase <;> simp [step, phase, eq_comm]

theorem step_render : app.step world .render = some after ↔
    app.phase = .render ∧ ∃ shown, app.onRender = .ok shown ∧
      after = { shown with phase := if shown.running then .network else .stopped } := by
  have finished : app.finishTurn = .ok after ↔ ∃ shown, app.onRender = .ok shown ∧
      after = { shown with phase := if shown.running then .network else .stopped } := by
    rw [finishTurn, except_bind_ok]
    refine exists_congr fun shown => and_congr_right fun _ => ?_
    exact ⟨fun same => (Except.ok.inj same).symm, fun same => congrArg Except.ok same.symm⟩
  rw [← finished]
  cases phase : app.phase <;> simp [step, phase, toOption_some]

/-- Nothing is left, or an event is taken, which is processed unless the loop is left. -/
theorem dispatch_ok {exit : Bool} : app.dispatch world exit = .ok after ↔
    app.eventQueue.pop = none ∧ after = { app with phase := .input } ∨
    ∃ e queue, app.eventQueue.pop = some (e, queue) ∧
      (exit = true ∧ after = { app with eventQueue := queue, phase := .input } ∨
        exit = false ∧ ∃ event, e = some event ∧ process world { app with eventQueue := queue } event = .ok after) := by
  unfold PsApp.dispatch
  cases popped : app.eventQueue.pop with
  | none => simp [eq_comm]
  | some taken =>
    obtain ⟨e, queue⟩ := taken
    cases exit with
    | true => simp [eq_comm]
    | false => cases e <;> simp

/-! ## Delivery -/

theorem Expected.framed {event : Event} (expected : Expected app above event) (frame : Frame app after) :
    Expected after above event := by
  unfold Expected at *
  rw [frame.kinds, frame.layerstack]
  exact expected

/-- A delivery that adds only expected events keeps the invariant. -/
theorem Running.delivered (running : Running app above pending) (frame : Frame app after)
    (queued : Queued app after added) (expected : ∀ event ∈ added, Expected app above event)
    (moves : (pending ++ added).countP Moves ≤ 1) : Running after above (pending ++ added) where
  layers := frame.layerstack ▸ running.layers
  offset := frame.layerstack ▸ running.offset
  menu := frame.kinds ▸ running.menu
  overlay := frame.kinds ▸ running.overlay
  queue := by rw [queued, running.queue, List.map_append]
  expected := by
    intro event member
    rcases List.mem_append.mp member with member | member
    · exact (running.expected event member).framed frame
    · exact (expected event member).framed frame
  moves := moves

/-- Only commands and messages are answered. -/
theorem unanswered {event answer : Event} {kind : LayerKind} {this : Nat} (command : ∀ cmd, event ≠ .command cmd)
    (message : ∀ msg, event ≠ .message msg) : ¬ kind.Answers this event answer := by
  intro answers
  cases event with
  | command cmd => exact command cmd rfl
  | message msg => exact message msg rfl
  | layerPush | layerPop | login | battleSearch | battleJoin => cases kind <;> exact answers

theorem Running.unanswered {event : Event} (running : Running app above pending)
    (command : ∀ cmd, event ≠ .command cmd) (message : ∀ msg, event ≠ .message msg)
    (delivered : pushToLayers world app event = .ok after) : Running after above pending ∧ Frame app after := by
  obtain ⟨frame, added, queued, answers⟩ := offer_delivers (command "q") delivered
  cases added with
  | nil =>
    have same := running.delivered frame queued (by simp) (by simpa using running.moves)
    exact ⟨by simpa using same, frame⟩
  | cons answer rest =>
    obtain ⟨layer, _, kind, _, answers⟩ := answers answer List.mem_cons_self
    exact absurd answers (PsApp.unanswered command message)

theorem Running.layer_cases (running : Running app above pending) {layer : Nat}
    (member : layer ∈ app.layerstack.layers) : layer = 0 ∨ above = some layer := by
  rw [running.layers] at member
  cases above with
  | none => exact Or.inl (by simpa using member)
  | some top =>
    rcases List.mem_cons.mp member with menu | top
    · exact Or.inl menu
    · exact Or.inr (by simpa [eq_comm] using top)

/-- Only a battle answers a message: it may end, or tell that it has begun. -/
theorem Running.message {msg : Message} (running : Running app above pending)
    (delivered : pushToLayers world app (.message msg) = .ok after) :
    Frame app after ∧ ∃ added, Running after above (pending ++ added) := by
  obtain ⟨frame, added, queued, answers⟩ := offer_delivers (by simp) delivered
  have each (event : Event) (member : event ∈ added) : Expected app above event ∧ Moves event = false := by
    obtain ⟨layer, inside, kind, here, answered⟩ := answers event member
    cases kind with
    | menu | login => exact answered.elim
    | battle =>
      rcases answered with rfl | rfl
      · rcases running.layer_cases (List.mem_reverse.mp inside) with rfl | top
        · rw [running.menu] at here
          cases here
        · exact ⟨⟨(List.getElem?_eq_some_iff.mp here).1, Or.inl ⟨top, here⟩⟩, rfl⟩
      · exact ⟨trivial, rfl⟩
  refine ⟨frame, added, running.delivered frame queued (fun event member => (each event member).1) ?_⟩
  have still : added.countP Moves = 0 := List.countP_eq_zero.mpr fun event member => by simp [(each event member).2]
  rw [List.countP_append, still]
  exact running.moves

/-- The menu opens an overlay, and a login overlay may end. -/
theorem Running.command {cmd : String} (running : Running app above pending) (alone : pending.countP Moves = 0)
    (stays : cmd ≠ "q") (delivered : pushToLayers world app (.command cmd) = .ok after) :
    Frame app after ∧ ∃ added, Running after above (pending ++ added) := by
  rw [pushToLayers, running.layers] at delivered
  have moves (added : List Event) (single : added.length ≤ 1) : (pending ++ added).countP Moves ≤ 1 := by
    rw [List.countP_append, alone, Nat.zero_add]
    exact Nat.le_trans List.countP_le_length single
  cases above with
  | none =>
    obtain ⟨frame, added, queued, single, kind, here, answers⟩ := offer_command stays delivered
    cases running.menu.symm.trans here
    refine ⟨frame, added, running.delivered frame queued (fun event member => ?_) (moves added single)⟩
    rcases answers event member with rfl | ⟨isSignup, rfl⟩
    · exact rfl
    · exact rfl
  | some top =>
    obtain ⟨frame, added, queued, single, kind, here, answers⟩ := offer_command stays delivered
    refine ⟨frame, added, running.delivered frame queued (fun event member => ?_) (moves added single)⟩
    cases kind with
    | menu =>
      rcases running.overlay top rfl with login | battle
      · cases login.symm.trans here
      · cases battle.symm.trans here
    | login =>
      cases answers event member
      exact ⟨rfl, here⟩
    | battle => exact (answers event member).elim

/-! ## Removing the overlay -/

/-- The application without the overlay above the menu. -/
def without (app : PsApp) (layer : Nat) : PsApp :=
  { app with
    layerstack := { layers := [0], layerIteratorOffset := app.layerstack.layerIteratorOffset - 1 }
    objects := app.objects.set layer none
    dirtyUi := true }

theorem without_offset (app : PsApp) (layer : Nat) :
    (app.without layer).layerstack.layerIteratorOffset = app.layerstack.layerIteratorOffset - 1 := rfl

/-- With only the menu before the boundary, both pops find the overlay: one where
it is, the other as the end of its search. -/
theorem call_pop {stack : LayerStack Nat} {layer : Nat} {isOverlay : Bool} (layers : stack.layers = [0, layer])
    (apart : layer ≠ 0)
    (allowed : stack.layerIteratorOffset = 1 ∨ (isOverlay = true ∧ stack.layerIteratorOffset = 0)) :
    stack.call (if isOverlay then .popOverlay layer else .popLayer layer) =
      some ({ layers := [0], layerIteratorOffset := stack.layerIteratorOffset - 1 },
        [.onDetach layer, .delete layer]) := by
  have other : (0 == layer) = false := by simpa using apart.symm
  rcases allowed with one | ⟨rfl, zero⟩
  · cases isOverlay <;> simp [LayerStack.call, LayerStack.popOverlay, LayerStack.popLayer, LayerStack.split,
      LayerStack.release, layers, one, List.idxOf_cons, other]
  · simp [LayerStack.call, LayerStack.popOverlay, LayerStack.split, LayerStack.release, layers, zero,
      List.idxOf_cons, other]

theorem perform_pop {layer : Nat} {isOverlay : Bool} {kind : LayerKind} (layers : app.layerstack.layers = [0, layer])
    (apart : layer ≠ 0) (live : app.kinds[layer]? = some (some kind))
    (allowed : app.layerstack.layerIteratorOffset = 1 ∨
      (isOverlay = true ∧ app.layerstack.layerIteratorOffset = 0)) :
    app.perform (if isOverlay then .popOverlay layer else .popLayer layer) = .ok (app.without layer) := by
  obtain ⟨object, found, _⟩ := kind_object live
  have here := object_some.mp found
  simp [perform, call_pop layers apart allowed, lifecycle, PsApp.object, here, without, bind, Except.bind, pure,
    Except.pure]

theorem Running.live {top : Nat} (running : Running app (some top) pending) :
    ∃ kind, app.kinds[top]? = some (some kind) := by
  rcases running.overlay top rfl with login | battle
  · exact ⟨_, login⟩
  · exact ⟨_, battle⟩

theorem Running.apart {top : Nat} (running : Running app (some top) pending) : top ≠ 0 := by
  intro same
  subst same
  rcases running.overlay 0 rfl with login | battle
  · cases running.menu.symm.trans login
  · cases running.menu.symm.trans battle

theorem Running.without {top : Nat} (running : Running app (some top) pending)
    (counting : app.layerstack.layerIteratorOffset = 1 ∨ app.layerstack.layerIteratorOffset = 0)
    (ending : ∀ layer, Event.layerPop layer true ∉ pending) : Running (app.without top) none pending where
  layers := rfl
  offset := by
    rw [without_offset]
    rcases counting with one | zero
    · rw [one]
      decide
    · rw [zero]
      decide
  menu := by
    have apart := running.apart
    simpa [PsApp.without, kinds, List.getElem?_set_ne apart] using running.menu
  overlay := fun layer none => by cases none
  queue := running.queue
  expected := by
    intro event member
    have expected := running.expected event member
    cases event with
    | command cmd => exact expected
    | login | battleSearch => cases expected
    | layerPop layer isOverlay =>
      cases isOverlay with
      | true => exact absurd member (ending layer)
      | false =>
        have known : layer < (app.without top).kinds.length := by
          simpa [PsApp.without, kinds] using expected.1
        refine ⟨known, Or.inr ⟨?_, ?_⟩⟩
        · rcases expected.2 with ⟨live, _⟩ | ⟨gone, _⟩
          · cases live
            simpa [PsApp.without] using running.apart
          · rw [running.layers] at gone
            exact fun menu => gone (List.mem_cons.mpr (Or.inl (List.mem_singleton.mp menu)))
        · rw [without_offset]
          rcases counting with one | zero
          · rw [one]
            decide
          · rw [zero]
            decide
    | battleJoin => exact trivial
    | layerPush | message => exact expected.elim
  moves := running.moves

/-! ## Adding an overlay -/

/-- The application with a new layer at the top of the stack. -/
def attached (app : PsApp) (object : Layer) : PsApp :=
  { app with
    client := object.onAttach app.client
    layerstack := { app.layerstack with layers := app.layerstack.layers ++ [app.objects.length] }
    objects := app.objects ++ [some object]
    dirtyUi := true }

theorem perform_attach (app : PsApp) (object : Layer) :
    (app.allocate object).2.perform (.pushOverlay (app.allocate object).1) = .ok (app.attached object) := by
  simp [allocate, perform, LayerStack.call, LayerStack.pushOverlay, lifecycle, PsApp.object, attached, bind,
    Except.bind, pure, Except.pure]

theorem attached_kinds (app : PsApp) (object : Layer) :
    (app.attached object).kinds = app.kinds ++ [some object.kind] := by
  simp [kinds, attached]

theorem attached_last (app : PsApp) (object : Layer) :
    (app.attached object).kinds[app.objects.length]? = some (some object.kind) := by
  rw [attached_kinds]
  simp [kinds]

theorem attached_earlier {layer : Nat} {kind : Option LayerKind} (object : Layer)
    (here : app.kinds[layer]? = some kind) : (app.attached object).kinds[layer]? = some kind := by
  obtain ⟨inside, _⟩ := List.getElem?_eq_some_iff.mp here
  rw [attached_kinds, List.getElem?_append_left inside]
  exact here

theorem Running.attached {object : Layer} (running : Running app none pending) (alone : pending.countP Moves = 0)
    (kind : object.kind = .login ∨ object.kind = .battle) :
    Running (app.attached object) (some app.objects.length) pending where
  layers := by simp [PsApp.attached, running.layers]
  offset := running.offset
  menu := attached_earlier object running.menu
  overlay := by
    intro layer top
    cases top
    rw [attached_last]
    exact kind.imp (fun same => by rw [same]) (fun same => by rw [same])
  queue := running.queue
  expected := by
    intro event member
    have expected := running.expected event member
    have still : Moves event = false := by simpa using List.countP_eq_zero.mp alone event member
    cases event with
    | command | login | battleSearch => cases still
    | layerPop layer isOverlay =>
      cases isOverlay with
      | true => cases still
      | false =>
        obtain ⟨known, ⟨live, _⟩ | ⟨gone, moved⟩⟩ := expected
        · cases live
        · refine ⟨by rw [attached_kinds, List.length_append]; omega, Or.inr ⟨?_, moved⟩⟩
          rw [kinds, List.length_map] at known
          simp only [PsApp.attached, List.mem_append, List.mem_singleton]
          rintro (here | rfl)
          · exact gone here
          · exact absurd known (Nat.lt_irrefl _)
    | battleJoin => exact trivial
    | layerPush | message => exact expected.elim
  moves := running.moves

/-! ## Processing an event -/

/-- The queue and the record of dispatched events may be moved on. -/
theorem Running.taken {event : Event} {rest : List Event} (running : Running app above (event :: rest))
    {queue : SPSCQueue (Option Event) 64} (queued : queue.contents = rest.map some) (dispatched : List Event) :
    Running { app with eventQueue := queue, dispatched } above rest where
  layers := running.layers
  offset := running.offset
  menu := running.menu
  overlay := running.overlay
  queue := queued
  expected := fun event member => running.expected event (List.mem_cons_of_mem _ member)
  moves := by
    have moves := running.moves
    rw [List.countP_cons] at moves
    omega

theorem Running.alone {event : Event} {rest : List Event} (running : Running app above (event :: rest))
    (move : Moves event = true) : rest.countP Moves = 0 := by
  have moves := running.moves
  rw [List.countP_cons, if_pos move] at moves
  omega

/-- An overlay that a LayerPop names is the one above the menu, if the pop is allowed. -/
theorem Running.popping {layer : Nat} {isOverlay : Bool} {rest : List Event}
    (running : Running app above (.layerPop layer isOverlay :: rest))
    (allowed : app.layerstack.layerIteratorOffset = 1 ∨
      (isOverlay = true ∧ app.layerstack.layerIteratorOffset = 0)) :
    above = some layer ∧ ∀ other, Event.layerPop other true ∉ rest := by
  have expected := running.expected _ List.mem_cons_self
  cases isOverlay with
  | true =>
    refine ⟨expected.1, fun other member => ?_⟩
    have still := List.countP_eq_zero.mp (running.alone rfl) _ member
    exact still rfl
  | false =>
    rcases expected.2 with ⟨live, battle⟩ | ⟨_, moved⟩
    · refine ⟨live, fun other member => ?_⟩
      obtain ⟨same, login⟩ := running.expected _ (List.mem_cons_of_mem _ member)
      cases live.symm.trans same
      cases battle.symm.trans login
    · rcases allowed with one | ⟨overlay, _⟩
      · exact absurd one moved
      · cases overlay

theorem Running.process {event : Event} {rest : List Event} {queue : SPSCQueue (Option Event) 64}
    (running : Running app above (event :: rest)) (queued : queue.contents = rest.map some)
    (allowed : ∀ layer isOverlay, event = .layerPop layer isOverlay →
      app.layerstack.layerIteratorOffset = 1 ∨ (isOverlay = true ∧ app.layerstack.layerIteratorOffset = 0))
    (processed : process world { app with eventQueue := queue } event = .ok after) :
    after.phase = app.phase ∧ ∃ above pending, Running after above pending := by
  obtain ⟨handled, handling, delivered⟩ := except_bind_ok.mp processed
  have taken := running.taken queued (app.dispatched ++ [event])
  have expected := running.expected event List.mem_cons_self
  cases event with
  | command cmd =>
    simp only [handle, if_neg expected, Except.ok.injEq] at handling
    subst handling
    obtain ⟨frame, added, later⟩ := taken.command (running.alone rfl) expected delivered
    exact ⟨frame.phase, above, _, later⟩
  | message | layerPush => exact expected.elim
  | layerPop layer isOverlay =>
    have allowed := allowed layer isOverlay rfl
    obtain ⟨rfl, ending⟩ := running.popping allowed
    obtain ⟨kind, live⟩ := running.live
    have removed := (perform_pop taken.layers running.apart live allowed).symm.trans handling
    cases removed
    have counting := allowed.imp_right And.right
    obtain ⟨later, frame⟩ := (taken.without counting ending).unanswered (by simp) (by simp) delivered
    exact ⟨frame.phase, none, rest, later⟩
  | login isSignup =>
    cases expected
    have opened := (perform_attach _ _).symm.trans handling
    cases opened
    obtain ⟨later, frame⟩ := (taken.attached (running.alone rfl) (Or.inl rfl)).unanswered (by simp) (by simp) delivered
    exact ⟨frame.phase, _, rest, later⟩
  | battleSearch =>
    cases expected
    have opened := (perform_attach _ _).symm.trans handling
    cases opened
    obtain ⟨later, frame⟩ := (taken.attached (running.alone rfl) (Or.inr rfl)).unanswered (by simp) (by simp) delivered
    exact ⟨frame.phase, _, rest, later⟩
  | battleJoin =>
    cases handling
    have shown : Running { app with
        eventQueue := queue, dispatched := app.dispatched ++ [.battleJoin], dirtyUi := true } above rest :=
      { taken with }
    obtain ⟨later, frame⟩ := shown.unanswered (by simp) (by simp) delivered
    exact ⟨frame.phase, above, rest, later⟩

theorem Running.dispatch {exit : Bool} (running : Running app above pending) (phase : app.phase = .events exit)
    (stays : app.phase ≠ .events true) (allowed : PopAllowed app .dispatch)
    (dispatched : app.dispatch world exit = .ok after) : Standing after := by
  cases exit with
  | true => exact absurd phase stays
  | false =>
    rcases dispatch_ok.mp dispatched with ⟨nothing, rfl⟩ | ⟨e, queue, popped, ⟨exits, _⟩ | ⟨_, event, rfl, processed⟩⟩
    · have drained : pending = [] := by
        have empty := SPSCQueue.pop_none.mp nothing
        rw [running.queue] at empty
        exact List.map_eq_nil_iff.mp empty
      exact .running above pending { running with } (by simp) fun _ => drained
    · cases exits
    · have contents := SPSCQueue.pop_some popped
      rw [running.queue] at contents
      cases pending with
      | nil => cases contents
      | cons event rest =>
        obtain ⟨same, queued⟩ := List.cons.inj contents
        cases same
        have processing : ∀ layer isOverlay, event = .layerPop layer isOverlay →
            app.processing .dispatch = some (.layerPop layer isOverlay) := by
          rintro layer isOverlay rfl
          simp [PsApp.processing, phase, popped]
        obtain ⟨same, above, pending, later⟩ := running.process queued.symm
          (fun layer isOverlay pop => allowed layer isOverlay (processing layer isOverlay pop)) processed
        refine .running above pending later ?_ ?_
        · rw [same, phase]
          simp
        · rw [same, phase]
          simp

theorem Running.line {line : Option String} (running : Running app above pending) (drained : pending = [])
    (stays : line ≠ some "q") : Standing (app.readLine line) := by
  subst drained
  cases line with
  | none => exact .running above [] { running with } (by simp [readLine]) fun _ => rfl
  | some cmd =>
    have other : cmd ≠ "q" := fun quit => stays (quit ▸ rfl)
    obtain ⟨frame, added, part, queued⟩ := submits app [.command cmd]
    have expected : ∀ event ∈ added, Expected app above event := by
      intro event member
      cases List.mem_singleton.mp (part.subset member)
      exact other
    have submitted := running.delivered frame queued expected (Nat.le_trans List.countP_le_length part.length_le)
    exact .running above added { submitted with } (by simp [readLine]) (by simp [readLine])

/-- Rendering writes to the terminal only. -/
theorem onRender_frame (rendered : app.onRender = .ok after) :
    Frame app after ∧ after.eventQueue = app.eventQueue ∧ after.running = app.running ∧
      after.submitted = app.submitted := by
  simp only [onRender] at rendered
  split at rendered
  next =>
    obtain ⟨object, _, rest⟩ := except_bind_ok.mp rendered
    obtain ⟨text, _, shown⟩ := except_bind_ok.mp rest
    cases shown
    exact ⟨⟨rfl, rfl, rfl, rfl⟩, rfl, rfl, rfl⟩
  next =>
    cases rendered
    exact ⟨.refl _, rfl, rfl, rfl⟩

theorem Opening.initial : Opening init := by
  refine ⟨rfl, rfl, ?_, Or.inl rfl, rfl⟩
  decide +kernel

/-- The application with the menu alone on the stack. -/
def opened (app : PsApp) (queue : SPSCQueue (Option Event) 64) (dispatched : List Event) : PsApp :=
  { app with
    layerstack := { layers := [0], layerIteratorOffset := 1 }
    eventQueue := queue
    dispatched
    dirtyUi := true }

theorem Opening.menu (opening : Opening app) : app.kinds[0]? = some (some .menu) := by
  rw [opening.kinds]
  rfl

theorem Opening.started (opening : Opening app) (queue : SPSCQueue (Option Event) 64) (dispatched : List Event) :
    handle { app with eventQueue := queue, dispatched } (.layerPush 0 false) = .ok (opened app queue dispatched) := by
  simp [handle, perform, LayerStack.call, LayerStack.pushLayer, LayerStack.split, opening.layerstack, lifecycle,
    PsApp.object, kind_menu opening.menu, Layer.onAttach, opened, bind, Except.bind, pure, Except.pure]

theorem Opening.opened (opening : Opening app) {queue : SPSCQueue (Option Event) 64} (drained : queue.contents = [])
    (dispatched : List Event) : Running (opened app queue dispatched) none [] where
  layers := rfl
  offset := List.mem_cons_self
  menu := opening.menu
  overlay := fun layer none => absurd none (Option.some_ne_none layer).symm
  queue := drained
  expected := fun _ member => absurd member List.not_mem_nil
  moves := Nat.zero_le 1

/-- Nothing receives a message while the stack is empty, and the first event puts
the menu on it. -/
theorem Opening.step {action : Action} (opening : Opening app) (taken : app.step world action = some after) :
    Standing after := by
  cases action with
  | message msg =>
    obtain ⟨phase, client, _, delivered⟩ := step_message.mp taken
    have ignored : pushToLayers world { app with client } (.message msg) = .ok { app with client } := by
      simp [pushToLayers, opening.layerstack, offer]
    cases ignored.symm.trans delivered
    exact .opening ⟨opening.layerstack, opening.kinds, opening.queue, Or.inl phase, opening.dispatched⟩
  | drained =>
    obtain ⟨_, rfl⟩ := step_drained.mp taken
    exact .opening ⟨opening.layerstack, opening.kinds, opening.queue, Or.inr rfl, opening.dispatched⟩
  | dispatch =>
    obtain ⟨exit, phase, dispatched⟩ := step_dispatch.mp taken
    rcases opening.phase with network | events
    · cases network.symm.trans phase
    cases events.symm.trans phase
    rcases dispatch_ok.mp dispatched with ⟨nothing, _⟩ | ⟨e, queue, popped, ⟨exits, _⟩ | ⟨_, event, rfl, processed⟩⟩
    · rw [SPSCQueue.pop_none, opening.queue] at nothing
      cases nothing
    · cases exits
    · have contents := SPSCQueue.pop_some popped
      rw [opening.queue] at contents
      obtain ⟨same, queued⟩ := List.cons.inj contents
      cases same
      obtain ⟨handled, handling, delivered⟩ := except_bind_ok.mp processed
      have started := opening.started queue (app.dispatched ++ [.layerPush 0 false])
      cases started.symm.trans handling
      have running := opening.opened queued.symm (app.dispatched ++ [.layerPush 0 false])
      obtain ⟨later, frame⟩ := running.unanswered (by simp) (by simp) delivered
      refine .running none [] later ?_ fun _ => rfl
      rw [frame.phase, PsApp.opened, events]
      simp
  | line line =>
    obtain ⟨phase, _⟩ := step_line.mp taken
    rcases opening.phase with network | events
    · cases network.symm.trans phase
    · cases events.symm.trans phase
  | render =>
    obtain ⟨phase, _⟩ := step_render.mp taken
    rcases opening.phase with network | events
    · cases network.symm.trans phase
    · cases events.symm.trans phase

theorem Running.step {action : Action} (running : Running app above pending) (allowed : PopAllowed app action)
    (exits : app.phase ≠ .events true) (drained : app.phase = .input → pending = [])
    (stays : action ≠ .line (some "q")) (taken : app.step world action = some after) : Standing after := by
  cases action with
  | message msg =>
    obtain ⟨phase, client, _, delivered⟩ := step_message.mp taken
    have received : Running { app with client } above pending := { running with }
    obtain ⟨frame, added, later⟩ := received.message delivered
    have network : after.phase = .network := frame.phase.trans phase
    exact .running above _ later (by simp [network]) (by simp [network])
  | drained =>
    obtain ⟨_, rfl⟩ := step_drained.mp taken
    exact .running above pending { running with } (by simp) (by simp)
  | dispatch =>
    obtain ⟨exit, phase, dispatched⟩ := step_dispatch.mp taken
    exact running.dispatch phase exits allowed dispatched
  | line line =>
    obtain ⟨phase, rfl⟩ := step_line.mp taken
    exact running.line (drained phase) fun quit => stays (quit ▸ rfl)
  | render =>
    obtain ⟨_, shown, rendered, rfl⟩ := step_render.mp taken
    obtain ⟨frame, queue, _⟩ := onRender_frame rendered
    have queued : Queued app shown [] := by simp [Queued, queue]
    have later := running.delivered frame queued (by simp) (by simpa using running.moves)
    rw [List.append_nil] at later
    refine .running above pending { later with } ?_ ?_ <;> simp only <;> split <;> simp

theorem Standing.step {action : Action} (standing : Standing app) (allowed : PopAllowed app action)
    (stays : action ≠ .line (some "q")) (taken : app.step world action = some after) : Standing after := by
  cases standing with
  | opening opening => exact opening.step taken
  | running above pending running exits drained => exact running.step allowed exits drained stays taken

/-! ## The removed layer -/

theorem processing_some {action : Action} {event : Event} (processed : app.processing action = some event) :
    action = .dispatch ∧ app.phase = .events false ∧ ∃ queue, app.eventQueue.pop = some (some event, queue) := by
  unfold processing at processed
  split at processed
  next phase =>
    obtain ⟨⟨_, queue⟩, popped, rfl⟩ := Option.bind_eq_some_iff.mp processed
    exact ⟨rfl, phase, queue, popped⟩
  next => cases processed

theorem step_processing {event : Event} {queue : SPSCQueue (Option Event) 64} (phase : app.phase = .events false)
    (popped : app.eventQueue.pop = some (some event, queue)) :
    app.step world .dispatch = (process world { app with eventQueue := queue } event).toOption := by
  simp [PsApp.step, phase, PsApp.dispatch, popped]

/-- Attaching and deleting layers reaches no further than the client and the objects. -/
theorem lifecycle_changes {effects : List (Lifecycle Nat)} (done : effects.foldlM lifecycle app = .ok after) :
    ∃ client objects, after = { app with client, objects } := by
  induction effects generalizing app with
  | nil =>
    cases done
    exact ⟨_, _, rfl⟩
  | cons effect rest ih =>
    obtain ⟨middle, first, later⟩ := except_bind_ok.mp done
    obtain ⟨client, objects, rfl⟩ := ih later
    cases effect <;>
      obtain ⟨object, _, changed⟩ := except_bind_ok.mp first <;>
      cases changed <;> exact ⟨_, _, rfl⟩

theorem perform_ok {call : LayerStack.Call Nat} (performed : app.perform call = .ok after) :
    ∃ layerstack effects client objects, app.layerstack.call call = some (layerstack, effects) ∧
      after = { app with layerstack, client, objects, dirtyUi := true } := by
  unfold perform at performed
  split at performed
  next => cases performed
  next layerstack effects called =>
    obtain ⟨client, objects, rfl⟩ := lifecycle_changes performed
    exact ⟨layerstack, effects, client, objects, called, rfl⟩

/-- With the offset at 0 a pop as a layer takes whatever is first. -/
theorem popLayer_first {stack after : LayerStack Nat} {layer : Nat} {rest : List Nat} {effects : List (Lifecycle Nat)}
    (layers : stack.layers = 0 :: rest) (zero : stack.layerIteratorOffset = 0)
    (popped : stack.call (.popLayer layer) = some (after, effects)) : after.layers = rest := by
  simp [LayerStack.call, LayerStack.popLayer, LayerStack.split, LayerStack.release, layers, zero] at popped
  rw [← popped.1]

/-- Once the offset has wrapped around no pop is defined. -/
theorem pop_wrapped {stack : LayerStack Nat} {layer : Nat} {isOverlay : Bool} (short : stack.layers.length ≤ 2)
    (wrapped : stack.layerIteratorOffset = -1) :
    stack.call (if isOverlay then .popOverlay layer else .popLayer layer) = none := by
  have outside : ¬ stack.layerIteratorOffset.toNat ≤ stack.layers.length := by
    have large : stack.layerIteratorOffset.toNat = 4294967295 := by rw [wrapped]; rfl
    omega
  cases isOverlay <;> simp [LayerStack.call, LayerStack.popOverlay, LayerStack.popLayer, LayerStack.split, outside]

theorem Running.popAllowed {layer : Nat} {isOverlay : Bool} {rest : List Event} {left : LayerStack Nat}
    {effects : List (Lifecycle Nat)} (running : Running app above (.layerPop layer isOverlay :: rest))
    (popped : app.layerstack.call (if isOverlay then .popOverlay layer else .popLayer layer) = some (left, effects))
    (right : left.layers = app.layerstack.layers.filter (· ≠ layer)) :
    app.layerstack.layerIteratorOffset = 1 ∨ (isOverlay = true ∧ app.layerstack.layerIteratorOffset = 0) := by
  have short : app.layerstack.layers.length ≤ 2 := by
    rw [running.layers]
    cases above <;> simp
  have expected := running.expected _ List.mem_cons_self
  have offset := running.offset
  simp only [List.mem_cons, List.not_mem_nil, or_false] at offset
  rcases offset with one | zero | wrapped
  · exact Or.inl one
  · cases isOverlay with
    | true => exact Or.inr ⟨rfl, zero⟩
    | false =>
      exfalso
      have first := popLayer_first running.layers zero popped
      -- the menu is not the layer that was to go, so it must still be there
      have other : 0 ≠ layer := by
        intro same
        subst same
        rcases expected.2 with ⟨live, _⟩ | ⟨gone, _⟩
        · subst live
          exact running.apart rfl
        · exact gone (running.layers ▸ List.mem_cons_self)
      have kept : 0 ∈ above.toList := by
        rw [← first, right, running.layers]
        simp [other]
      cases above with
      | none => simp at kept
      | some top => exact running.apart (by simpa [eq_comm] using kept)
  · rw [pop_wrapped short wrapped] at popped
    cases popped

/-- The menu alone lets every other event pass. -/
theorem Running.passes (running : Running app none pending) (world : World) (layer : Nat) (isOverlay : Bool) :
    ∃ after, pushToLayers world app (.layerPop layer isOverlay) = .ok after := by
  have found : app.object 0 = .ok .menu := object_some.mpr (kind_menu running.menu)
  simp [pushToLayers, running.layers, offer, found, Layer.onEvent, MenuLayer.onEvent, Except.map, Reaction.map,
    Reaction.ignore, bind, Except.bind]

theorem Running.popsRight {layer : Nat} {isOverlay : Bool} {rest : List Event} {queue : SPSCQueue (Option Event) 64}
    (running : Running app above (.layerPop layer isOverlay :: rest)) (queued : queue.contents = rest.map some)
    (allowed : app.layerstack.layerIteratorOffset = 1 ∨
      (isOverlay = true ∧ app.layerstack.layerIteratorOffset = 0)) :
    ∃ after, PsApp.process world { app with eventQueue := queue } (.layerPop layer isOverlay) = .ok after ∧
      after.layerstack.layers = app.layerstack.layers.filter (· ≠ layer) := by
  obtain ⟨rfl, ending⟩ := running.popping allowed
  obtain ⟨kind, live⟩ := running.live
  have taken := running.taken queued (app.dispatched ++ [.layerPop layer isOverlay])
  have removed := perform_pop taken.layers running.apart live allowed
  have later := taken.without (allowed.imp_right And.right) ending
  obtain ⟨after, delivered⟩ := later.passes world layer isOverlay
  refine ⟨after, except_bind_ok.mpr ⟨_, removed, delivered⟩, ?_⟩
  rw [(later.unanswered (by simp) (by simp) delivered).2.layerstack, running.layers]
  have apart := running.apart
  simp [PsApp.without, apart.symm]

theorem Standing.popsRight_iff {action : Action} (standing : Standing app) :
    PopsRight world app action ↔ PopAllowed app action := by
  refine forall₂_congr fun layer isOverlay => forall_congr' fun processed => ?_
  obtain ⟨rfl, phase, queue, popped⟩ := processing_some processed
  have contents := SPSCQueue.pop_some popped
  rw [step_processing phase popped]
  cases standing with
  | opening opening =>
    rw [opening.queue] at contents
    cases contents
  | running above pending running _ _ =>
    rw [running.queue] at contents
    cases pending with
    | nil => cases contents
    | cons event rest =>
      obtain ⟨same, queued⟩ := List.cons.inj contents
      cases same
      constructor
      · intro given
        obtain ⟨after, taken, right⟩ := given
        obtain ⟨handled, handling, delivered⟩ := except_bind_ok.mp (toOption_some.mp taken)
        obtain ⟨_, effects, _, _, popped, rfl⟩ := perform_ok handling
        rw [(offer_delivers (by simp) delivered).1.layerstack] at right
        exact running.popAllowed popped right
      · intro allowed
        obtain ⟨after, processed, right⟩ := running.popsRight queued.symm allowed
        exact ⟨after, toOption_some.mpr processed, right⟩

/-- The layer at index 0 is the menu. -/
def MenuFirst (app : PsApp) : Prop :=
  ∃ menu, app.layerstack.layers[0]? = some menu ∧ app.objects[menu]? = some (some .menu)

theorem Running.menuFirst (running : Running app above pending) : MenuFirst app := by
  refine ⟨0, ?_, kind_menu running.menu⟩
  rw [running.layers]
  rfl

theorem Standing.menuFirst (standing : Standing app) (dispatched : app.dispatched ≠ []) : MenuFirst app := by
  cases standing with
  | opening opening => exact absurd opening.dispatched dispatched
  | running above pending running _ _ => exact running.menuFirst

/-- In a run without `q`, every LayerPop removes the right layer exactly when each
is processed at an offset that still counts the menu, or counts nothing and the
pop is one as an overlay. In such a run the menu stays at index 0. -/
theorem pops_right_iff (world : World) {actions : List Action} (stays : .line (some "q") ∉ actions) :
    (Runs.Guarded (step world) (PopsRight world) init actions ↔ Runs.Guarded (step world) PopAllowed init actions) ∧
      (Runs.Guarded (step world) PopAllowed init actions → ∀ done, done <+: actions → ∀ app,
        Runs.exec (step world) init done = some app → app.dispatched ≠ [] → MenuFirst app) := by
  have initial : Standing init := .opening .initial
  have kept (action : Action) (member : action ∈ actions) (before after : PsApp) (standing : Standing before)
      (allowed : PopAllowed before action) (taken : step world before action = some after) : Standing after :=
    standing.step allowed (fun quit => stays (quit ▸ member)) taken
  refine ⟨Runs.guarded_iff Standing initial kept fun action _ app standing => standing.popsRight_iff, ?_⟩
  intro guarded done inside app reached
  have inner : Runs.Guarded (step world) (fun app action => PopAllowed app action ∧ action ∈ actions) init done :=
    fun earlier action before middle first => ⟨guarded earlier action (before.trans inside) middle first,
      inside.subset (before.subset (by simp))⟩
  have standing := Runs.history _ (fun _ => Standing) initial
    (fun _ action before after standing guards taken => kept action guards.2 before after standing guards.1 taken)
    inner reached
  exact standing.menuFirst

/-- The client starts, and its main loop has nothing to do. -/
private def started : List Action := [.drained, .dispatch, .dispatch]

/-- A battle is searched for, found and won; its LayerPop is next. -/
private def won : List Action :=
  [.line (some "1"), .render, .drained, .dispatch, .dispatch, .dispatch, .line none, .render,
    .message { roomId := "battle-1", type := "win", args := ["Ash"] }, .drained]

private def ended : List Action := [.dispatch, .dispatch]

private def offline : World := { parse := fun _ => none, assertions := fun _ => "" }

/-- The second battle's LayerPop deletes the menu and leaves the battle. -/
theorem second_battle_removes_menu :
    ∃ actions, Action.line (some "q") ∉ actions ∧
      ¬ Runs.Guarded (step offline) (PopsRight offline) init actions ∧
      ∃ app, Runs.exec (step offline) init actions = some app ∧ app.dispatched ≠ [] ∧ ¬ MenuFirst app := by
  refine ⟨started ++ won ++ ended ++ won ++ [.dispatch], by decide, ?_, ?_⟩
  · intro guarded
    have run : (Runs.exec (step offline) init (started ++ won ++ ended ++ won)).map (fun app =>
        (app.layerstack.layers, app.processing .dispatch,
          (app.step offline .dispatch).map fun after => after.layerstack.layers)) =
        some ([0, 2], some (.layerPop 2 false), some [2]) := by decide +kernel
    obtain ⟨app, reached, facts⟩ := Option.map_eq_some_iff.mp run
    obtain ⟨layers, facts⟩ := Prod.mk.inj facts
    obtain ⟨processed, removed⟩ := Prod.mk.inj facts
    obtain ⟨after, taken, right⟩ := guarded _ _ (List.prefix_refl _) app reached 2 false processed
    rw [taken, Option.map_some, right, layers] at removed
    cases removed
  · have run : (Runs.exec (step offline) init (started ++ won ++ ended ++ won ++ [.dispatch])).map (fun app =>
        (app.layerstack.layers, app.objects[2]?.join == some .menu, app.dispatched.isEmpty)) =
        some ([2], false, false) := by decide +kernel
    obtain ⟨app, reached, facts⟩ := Option.map_eq_some_iff.mp run
    obtain ⟨layers, facts⟩ := Prod.mk.inj facts
    obtain ⟨battle, begun⟩ := Prod.mk.inj facts
    refine ⟨app, reached, ?_, ?_⟩
    · intro nothing
      simp [nothing] at begun
    · intro given
      obtain ⟨menu, top, object⟩ := given
      rw [layers] at top
      cases top
      simp [object] at battle

theorem pops_right_iff_battle :
    (∃ app, Runs.exec (step offline) init (started ++ won ++ ended) = some app) ∧
      (Runs.Guarded (step offline) (PopsRight offline) init (started ++ won ++ ended) ↔
        Runs.Guarded (step offline) PopAllowed init (started ++ won ++ ended)) ∧
      (Runs.Guarded (step offline) PopAllowed init (started ++ won ++ ended) →
        ∀ done, done <+: started ++ won ++ ended → ∀ app,
          Runs.exec (step offline) init done = some app → app.dispatched ≠ [] → MenuFirst app) := by
  have run : (Runs.exec (step offline) init (started ++ won ++ ended)).isSome := by decide +kernel
  exact ⟨Option.isSome_iff_exists.mp run, pops_right_iff offline (by decide)⟩

end ShowdownCli.PsApp
