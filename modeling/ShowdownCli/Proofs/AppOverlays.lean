import ShowdownCli.Proofs.AppSubmissions

/-! At most one overlay. Whatever the pops remove, the stack is the menu with one
layer above it or a part of that, and only one pending event can lead to another
layer, while there is none. -/

namespace ShowdownCli.PsApp
open Library

/-- The layers on the stack that are not the menu. -/
def overlays (app : PsApp) : List Nat :=
  app.layerstack.layers.filter fun layer => app.kinds[layer]? ≠ some (some .menu)

/-- Events that can lead to another overlay. -/
def Opens : Event → Bool
  | .command _ | .login _ | .battleSearch => true
  | _ => false

/-- What may be pending below an overlay, or without one. -/
def Fitting (above : Option Nat) : Event → Prop
  | .login _ | .battleSearch => above = none
  | .layerPush _ _ | .message _ => False
  | _ => True

/-- The menu, unless it has been removed, and one layer above it. -/
structure Covered (app : PsApp) (base : List Nat) (above : Option Nat) : Prop where
  layers : app.layerstack.layers = base ++ above.toList
  base : base = [] ∨ base = [0] ∧ app.kinds[0]? = some (some .menu)
  overlay : ∀ layer, above = some layer →
    app.kinds[layer]? = some (some .login) ∨ app.kinds[layer]? = some (some .battle)

structure Awaiting (app : PsApp) (above : Option Nat) (pending : List Event) : Prop where
  queue : app.eventQueue.contents = pending.map some
  fitting : ∀ event ∈ pending, Fitting above event
  opens : pending.countP Opens ≤ 1

/-- After `q` the loop of `poll` is left and the main loop ends. -/
inductive Layered (app : PsApp) : Prop where
  | opening (opening : Opening app)
  | running (base : List Nat) (above : Option Nat) (pending : List Event) (covered : Covered app base above)
      (awaiting : Awaiting app above pending) (stays : app.phase ≠ .events true)
      (drained : app.phase = .input → pending = [])
  | leaving (base : List Nat) (above : Option Nat) (covered : Covered app base above) (quit : app.running = false)
      (left : app.phase ≠ .network ∧ app.phase ≠ .events false)

variable {world : World} {app after : PsApp} {base : List Nat} {above : Option Nat} {pending added : List Event}

theorem Covered.framed (covered : Covered app base above) (frame : Frame app after) : Covered after base above where
  layers := frame.layerstack ▸ covered.layers
  base := frame.kinds ▸ covered.base
  overlay := frame.kinds ▸ covered.overlay

theorem Awaiting.delivered (awaiting : Awaiting app above pending) (queued : Queued app after added)
    (fitting : ∀ event ∈ added, Fitting above event) (opens : (pending ++ added).countP Opens ≤ 1) :
    Awaiting after above (pending ++ added) where
  queue := by rw [queued, awaiting.queue, List.map_append]
  fitting := by
    intro event member
    rcases List.mem_append.mp member with member | member
    · exact awaiting.fitting event member
    · exact fitting event member
  opens := opens

theorem Awaiting.quiet (awaiting : Awaiting app above pending) (queued : Queued app after added)
    (quiet : ∀ event ∈ added, Fitting above event ∧ Opens event = false) :
    Awaiting after above (pending ++ added) := by
  refine awaiting.delivered queued (fun event member => (quiet event member).1) ?_
  have still : added.countP Opens = 0 := List.countP_eq_zero.mpr fun event member => by simp [(quiet event member).2]
  rw [List.countP_append, still]
  exact awaiting.opens

/-- The answers of layers to anything but a command open nothing. -/
theorem answer_quiet {kind : LayerKind} {layer : Nat} {event answer : Event} (command : ∀ cmd, event ≠ .command cmd)
    (answers : kind.Answers layer event answer) : Fitting above answer ∧ Opens answer = false := by
  cases event with
  | command cmd => exact absurd rfl (command cmd)
  | message msg =>
    cases kind with
    | menu | login => exact answers.elim
    | battle => rcases answers with rfl | rfl <;> exact ⟨trivial, rfl⟩
  | layerPush | layerPop | login | battleSearch | battleJoin => cases kind <;> exact answers.elim

/-- Delivering anything but a command. -/
theorem Covered.delivered {event : Event} (covered : Covered app base above) (awaiting : Awaiting app above pending)
    (command : ∀ cmd, event ≠ .command cmd) (delivered : pushToLayers world app event = .ok after) :
    Frame app after ∧ Covered after base above ∧ ∃ pending, Awaiting after above pending := by
  obtain ⟨frame, added, queued, answers⟩ := offer_delivers (command "q") delivered
  refine ⟨frame, covered.framed frame, _, awaiting.quiet queued fun answer member => ?_⟩
  obtain ⟨layer, _, kind, _, answered⟩ := answers answer member
  exact answer_quiet command answered

/-- A command that is not `q`. -/
theorem Covered.command {cmd : String} (covered : Covered app base above) (awaiting : Awaiting app above pending)
    (alone : pending.countP Opens = 0) (stays : cmd ≠ "q")
    (delivered : pushToLayers world app (.command cmd) = .ok after) :
    Frame app after ∧ Covered after base above ∧ ∃ pending, Awaiting after above pending := by
  rw [pushToLayers, covered.layers, List.reverse_append] at delivered
  cases above with
  | some top =>
    obtain ⟨frame, added, queued, _, kind, here, answers⟩ := offer_command stays delivered
    refine ⟨frame, covered.framed frame, _, awaiting.quiet queued fun answer member => ?_⟩
    have answered := answers answer member
    cases kind with
    | menu =>
      rcases covered.overlay top rfl with login | battle
      · cases login.symm.trans here
      · cases battle.symm.trans here
    | login =>
      cases answered
      exact ⟨trivial, rfl⟩
    | battle => exact answered.elim
  | none =>
    rcases covered.base with rfl | ⟨rfl, menu⟩
    · cases delivered
      exact ⟨.refl _, covered, pending, awaiting⟩
    · obtain ⟨frame, added, queued, single, kind, here, answers⟩ := offer_command stays delivered
      cases menu.symm.trans here
      refine ⟨frame, covered.framed frame, _, awaiting.delivered queued (fun answer member => ?_) ?_⟩
      · rcases answers answer member with rfl | ⟨isSignup, rfl⟩ <;> exact rfl
      · rw [List.countP_append, alone, Nat.zero_add]
        exact Nat.le_trans List.countP_le_length single

/-! ## Removing a layer -/

/-- The application after a pop has removed the layer at a position. -/
def removed (app : PsApp) (it gone : Nat) (layerIteratorOffset : UInt32) : PsApp :=
  { app with
    layerstack := { layers := app.layerstack.layers.eraseIdx it, layerIteratorOffset }
    objects := app.objects.set gone none
    dirtyUi := true }

theorem release_cases (stack : LayerStack Nat) (it : Nat) :
    stack.release it = (stack, []) ∨ ∃ gone, stack.layers[it]? = some gone ∧
      stack.release it = ({ layers := stack.layers.eraseIdx it, layerIteratorOffset := stack.layerIteratorOffset - 1 },
        [.onDetach gone, .delete gone]) := by
  unfold LayerStack.release
  cases found : stack.layers[it]? with
  | none => exact Or.inl rfl
  | some gone => exact Or.inr ⟨gone, rfl, rfl⟩

/-- A pop finds nothing, or removes one layer, whichever that is. -/
theorem perform_removes {layer : Nat} {isOverlay : Bool}
    (performed : app.perform (if isOverlay then .popOverlay layer else .popLayer layer) = .ok after) :
    after = { app with dirtyUi := true } ∨
      ∃ it gone offset, app.layerstack.layers[it]? = some gone ∧ after = app.removed it gone offset := by
  have released : ∃ it, app.layerstack.call (if isOverlay then .popOverlay layer else .popLayer layer) =
      some (app.layerstack.release it) := by
    unfold perform at performed
    cases split : app.layerstack.split with
    | none => cases isOverlay <;> simp [LayerStack.call, LayerStack.popOverlay, LayerStack.popLayer, split] at performed
    | some offset =>
      cases isOverlay
      · exact ⟨_, by simp [LayerStack.call, LayerStack.popLayer, split]; rfl⟩
      · exact ⟨_, by simp [LayerStack.call, LayerStack.popOverlay, split]; rfl⟩
  obtain ⟨it, called⟩ := released
  unfold perform at performed
  rw [called] at performed
  rcases release_cases app.layerstack it with nothing | ⟨gone, here, one⟩
  · rw [nothing] at performed
    cases performed
    exact Or.inl rfl
  · rw [one] at performed
    obtain ⟨detached, detaching, performed⟩ := except_bind_ok.mp performed
    obtain ⟨object, _, detaching⟩ := except_bind_ok.mp detaching
    cases detaching
    obtain ⟨deleted, deleting, performed⟩ := except_bind_ok.mp performed
    obtain ⟨object, _, deleting⟩ := except_bind_ok.mp deleting
    cases deleting
    cases performed
    exact Or.inr ⟨it, gone, _, here, rfl⟩

theorem removed_kinds (app : PsApp) (it gone : Nat) (offset : UInt32) :
    (app.removed it gone offset).kinds = app.kinds.set gone none := by
  simp [kinds, removed]

theorem Covered.apart {top : Nat} (covered : Covered app [0] (some top)) : top ≠ 0 := by
  rintro rfl
  rcases covered.base with none | ⟨_, menu⟩
  · cases none
  · rcases covered.overlay 0 rfl with login | battle
    · cases menu.symm.trans login
    · cases menu.symm.trans battle

theorem Covered.removed (covered : Covered app base above) {it gone : Nat}
    (here : app.layerstack.layers[it]? = some gone) (offset : UInt32) :
    ∃ base left, Covered (app.removed it gone offset) base left ∧ (above = none → left = none) := by
  rw [covered.layers] at here
  have layers : (app.removed it gone offset).layerstack.layers = (base ++ above.toList).eraseIdx it := by
    rw [← covered.layers]
    rfl
  have kinds := removed_kinds app it gone offset
  rcases covered.base with rfl | ⟨rfl, menu⟩
  · cases above with
    | none => cases here
    | some top =>
      cases it with
      | zero => exact ⟨[], none, ⟨layers, Or.inl rfl, by simp⟩, fun _ => rfl⟩
      | succ it => cases here
  · cases it with
    | zero =>
      cases here
      refine ⟨[], above, ⟨layers, Or.inl rfl, ?_⟩, id⟩
      rintro top rfl
      rw [kinds, List.getElem?_set_ne covered.apart.symm]
      exact covered.overlay top rfl
    | succ it =>
      cases above with
      | none => cases here
      | some top =>
        cases it with
        | zero =>
          cases here
          refine ⟨[0], none, ⟨layers, Or.inr ⟨rfl, ?_⟩, by simp⟩, fun _ => rfl⟩
          rw [kinds, List.getElem?_set_ne covered.apart]
          exact menu
        | succ it => cases here

/-! ## Processing an event -/

theorem Covered.attached {object : Layer} (covered : Covered app base none)
    (kind : object.kind = .login ∨ object.kind = .battle) :
    Covered (app.attached object) base (some app.objects.length) := by
  refine ⟨by simp [PsApp.attached, covered.layers], ?_, ?_⟩
  · exact covered.base.imp_right fun menu => ⟨menu.1, attached_earlier object menu.2⟩
  · intro layer top
    cases top
    rw [attached_last]
    exact kind.imp (fun same => by rw [same]) (fun same => by rw [same])

theorem Awaiting.taken {event : Event} {rest : List Event} (awaiting : Awaiting app above (event :: rest))
    (queued : after.eventQueue.contents = rest.map some) : Awaiting after above rest where
  queue := queued
  fitting := fun other member => awaiting.fitting other (List.mem_cons_of_mem _ member)
  opens := by
    have opens := awaiting.opens
    rw [List.countP_cons] at opens
    omega

theorem Awaiting.alone {event : Event} {rest : List Event} (awaiting : Awaiting app above (event :: rest))
    (opening : Opens event = true) : rest.countP Opens = 0 := by
  have opens := awaiting.opens
  rw [List.countP_cons, if_pos opening] at opens
  omega

/-- Events that open nothing fit with any layer above the menu, or none. -/
theorem Awaiting.change (awaiting : Awaiting app above pending) {other : Option Nat}
    (queue : after.eventQueue = app.eventQueue)
    (alone : pending.countP Opens = 0 ∨ (above = none → other = none)) : Awaiting after other pending where
  queue := by rw [queue, awaiting.queue]
  fitting := by
    intro event member
    have fitting := awaiting.fitting event member
    rcases alone with alone | kept
    · have still : Opens event = false := by simpa using List.countP_eq_zero.mp alone event member
      cases event with
      | command | login | battleSearch => cases still
      | layerPop | battleJoin => exact trivial
      | layerPush | message => exact fitting.elim
    · cases event with
      | login | battleSearch => exact kept fitting
      | command | layerPop | battleJoin => exact trivial
      | layerPush | message => exact fitting.elim
  opens := awaiting.opens

/-- Where processing an event leads, unless it is the end. -/
def Continues (app after : PsApp) : Prop :=
  after.phase = app.phase ∧ ∃ base above pending, Covered after base above ∧ Awaiting after above pending

theorem Covered.continues {event : Event} (covered : Covered app base above) (awaiting : Awaiting app above pending)
    (command : ∀ cmd, event ≠ .command cmd) (delivered : pushToLayers world app event = .ok after) :
    Continues app after := by
  obtain ⟨frame, later, pending, waits⟩ := covered.delivered awaiting command delivered
  exact ⟨frame.phase, _, _, _, later, waits⟩

theorem Covered.opens {event : Event} {object : Layer} (covered : Covered app base none)
    (awaiting : Awaiting app none pending) (alone : pending.countP Opens = 0)
    (kind : object.kind = .login ∨ object.kind = .battle) (command : ∀ cmd, event ≠ .command cmd)
    (delivered : pushToLayers world (app.attached object) event = .ok after) : Continues app after := by
  have waits : Awaiting (app.attached object) (some app.objects.length) pending := awaiting.change rfl (Or.inl alone)
  exact (covered.attached kind).continues waits command delivered

theorem Covered.pops {event : Event} {layer : Nat} {isOverlay : Bool} {handled : PsApp}
    (covered : Covered app base above) (awaiting : Awaiting app above pending)
    (performed : app.perform (if isOverlay then .popOverlay layer else .popLayer layer) = .ok handled)
    (command : ∀ cmd, event ≠ .command cmd) (delivered : pushToLayers world handled event = .ok after) :
    Continues app after := by
  rcases perform_removes performed with rfl | ⟨it, gone, offset, here, rfl⟩
  · have covers : Covered { app with dirtyUi := true } base above := { covered with }
    have waits : Awaiting { app with dirtyUi := true } above pending := { awaiting with }
    exact covers.continues waits command delivered
  · obtain ⟨base, left, covers, kept⟩ := covered.removed here offset
    have waits : Awaiting (app.removed it gone offset) left pending := awaiting.change rfl (Or.inr kept)
    exact covers.continues waits command delivered

theorem Covered.process {event : Event} {rest : List Event} {queue : SPSCQueue (Option Event) 64}
    (covered : Covered app base above) (awaiting : Awaiting app above (event :: rest))
    (queued : queue.contents = rest.map some) (stays : event ≠ .command "q")
    (processed : PsApp.process world { app with eventQueue := queue } event = .ok after) : Continues app after := by
  obtain ⟨handled, handling, delivered⟩ := except_bind_ok.mp processed
  have covers : Covered { app with eventQueue := queue, dispatched := app.dispatched ++ [event] } base above :=
    { covered with }
  have taken : Awaiting { app with eventQueue := queue, dispatched := app.dispatched ++ [event] } above rest :=
    awaiting.taken queued
  have fitting := awaiting.fitting event List.mem_cons_self
  cases event with
  | command cmd =>
    have other : cmd ≠ "q" := fun quit => stays (quit ▸ rfl)
    simp only [handle, if_neg other, Except.ok.injEq] at handling
    subst handling
    obtain ⟨frame, later, pending, waits⟩ := covers.command taken (awaiting.alone rfl) other delivered
    exact ⟨frame.phase, _, _, _, later, waits⟩
  | message | layerPush => exact fitting.elim
  | layerPop layer isOverlay => exact covers.pops taken handling (by simp) delivered
  | login isSignup =>
    cases fitting
    have opened := (perform_attach _ _).symm.trans handling
    cases opened
    exact covers.opens taken (awaiting.alone rfl) (Or.inl rfl) (by simp) delivered
  | battleSearch =>
    cases fitting
    have opened := (perform_attach _ _).symm.trans handling
    cases opened
    exact covers.opens taken (awaiting.alone rfl) (Or.inr rfl) (by simp) delivered
  | battleJoin =>
    cases handling
    have shown : Covered { app with
        eventQueue := queue, dispatched := app.dispatched ++ [.battleJoin], dirtyUi := true } base above :=
      { covers with }
    have waits : Awaiting { app with
        eventQueue := queue, dispatched := app.dispatched ++ [.battleJoin], dirtyUi := true } above rest :=
      { taken with }
    exact shown.continues waits (by simp) delivered

/-! ## Steps and runs -/

/-- The end begins: the rest of the queue is not processed. -/
theorem Covered.quit {queue : SPSCQueue (Option Event) 64} (covered : Covered app base above)
    (processed : PsApp.process world { app with eventQueue := queue } (.command "q") = .ok after) :
    Layered after := by
  obtain ⟨handled, handling, delivered⟩ := except_bind_ok.mp processed
  cases handling
  have frame := offer_frame delivered
  obtain ⟨events, submitted⟩ := offer_submits delivered
  have covers : Covered { app with
      eventQueue := queue, dispatched := app.dispatched ++ [.command "q"], running := false
      phase := .events true } base above := { covered with }
  exact .leaving base above (covers.framed frame) submitted.running (by simp [frame.phase])

theorem Running.layered (running : Running app above pending) (stays : app.phase ≠ .events true)
    (drained : app.phase = .input → pending = []) : Layered app := by
  have fitting : ∀ event ∈ pending, Fitting above event := by
    intro event member
    have expected := running.expected event member
    cases event with
    | login | battleSearch => exact expected
    | command | layerPop | battleJoin => exact trivial
    | layerPush | message => exact expected.elim
  have opens : pending.countP Opens ≤ 1 := by
    refine Nat.le_trans (List.countP_mono_left fun event _ opening => ?_) running.moves
    cases event with
    | command | login | battleSearch => rfl
    | layerPop | battleJoin | layerPush | message => cases opening
  exact .running [0] above pending ⟨running.layers, Or.inr ⟨rfl, running.menu⟩, running.overlay⟩
    ⟨running.queue, fitting, opens⟩ stays drained

theorem Standing.layered (standing : Standing app) : Layered app := by
  cases standing with
  | opening opening => exact .opening opening
  | running above pending running stays drained => exact running.layered stays drained

theorem Awaiting.drained (awaiting : Awaiting app above pending) (nothing : app.eventQueue.pop = none) :
    pending = [] := by
  have empty := SPSCQueue.pop_none.mp nothing
  rw [awaiting.queue] at empty
  exact List.map_eq_nil_iff.mp empty

theorem Awaiting.popped (awaiting : Awaiting app above pending) {e : Option Event}
    {queue : SPSCQueue (Option Event) 64} (popped : app.eventQueue.pop = some (e, queue)) :
    ∃ event rest, e = some event ∧ pending = event :: rest ∧ queue.contents = rest.map some := by
  have contents := SPSCQueue.pop_some popped
  rw [awaiting.queue] at contents
  cases pending with
  | nil => cases contents
  | cons event rest =>
    obtain ⟨rfl, queued⟩ := List.cons.inj contents
    exact ⟨event, rest, rfl, rfl, queued.symm⟩

theorem Covered.dispatch (covered : Covered app base above) (awaiting : Awaiting app above pending)
    (phase : app.phase = .events false) (dispatched : app.dispatch world false = .ok after) : Layered after := by
  rcases dispatch_ok.mp dispatched with ⟨nothing, rfl⟩ | ⟨e, queue, popped, ⟨exits, _⟩ | ⟨_, event, rfl, processed⟩⟩
  · have covers : Covered { app with phase := .input } base above := { covered with }
    have waits : Awaiting { app with phase := .input } above pending := { awaiting with }
    exact .running base above pending covers waits (by simp) fun _ => awaiting.drained nothing
  · cases exits
  · obtain ⟨_, rest, same, rfl, queued⟩ := awaiting.popped popped
    cases same
    by_cases quit : event = .command "q"
    · subst quit
      exact covered.quit processed
    · obtain ⟨same, base, above, pending, covers, waits⟩ := covered.process awaiting queued quit processed
      rw [phase] at same
      exact .running base above pending covers waits (by simp [same]) (by simp [same])

theorem Covered.rendered {shown : PsApp} (covered : Covered app base above) (rendered : app.onRender = .ok shown)
    (phase : Phase) : Covered { shown with phase } base above := by
  have later := covered.framed (onRender_frame rendered).1
  exact { later with }

theorem Covered.step {action : Action} (covered : Covered app base above) (awaiting : Awaiting app above pending)
    (stays : app.phase ≠ .events true) (drained : app.phase = .input → pending = [])
    (taken : app.step world action = some after) : Layered after := by
  cases action with
  | message msg =>
    obtain ⟨phase, client, _, delivered⟩ := step_message.mp taken
    have covers : Covered { app with client } base above := { covered with }
    have waits : Awaiting { app with client } above pending := { awaiting with }
    obtain ⟨frame, later, pending, awaits⟩ := covers.delivered waits (by simp) delivered
    have network : after.phase = .network := frame.phase.trans phase
    exact .running base above pending later awaits (by simp [network]) (by simp [network])
  | drained =>
    obtain ⟨_, rfl⟩ := step_drained.mp taken
    exact .running base above pending { covered with } { awaiting with } (by simp) (by simp)
  | dispatch =>
    obtain ⟨exit, phase, dispatched⟩ := step_dispatch.mp taken
    cases exit with
    | true => exact absurd phase stays
    | false => exact covered.dispatch awaiting phase dispatched
  | line line =>
    obtain ⟨phase, rfl⟩ := step_line.mp taken
    cases drained phase
    cases line with
    | none => exact .running base above [] { covered with } { awaiting with } (by simp [readLine]) fun _ => rfl
    | some cmd =>
      obtain ⟨frame, added, part, queued⟩ := submits app [.command cmd]
      have submitted := awaiting.delivered queued (fun event member => by
        cases List.mem_singleton.mp (part.subset member)
        exact trivial) (Nat.le_trans List.countP_le_length part.length_le)
      have covers := covered.framed frame
      exact .running base above _ { covers with } { submitted with } (by simp [readLine]) (by simp [readLine])
  | render =>
    obtain ⟨_, shown, rendered, rfl⟩ := step_render.mp taken
    have queue := (onRender_frame rendered).2.1
    have waits : Awaiting shown above pending := awaiting.change queue (Or.inr id)
    refine .running base above pending (covered.rendered rendered _) { waits with } ?_ ?_ <;>
      simp only <;> split <;> simp

/-- The steps that are left after `q`. -/
theorem Covered.leaves {action : Action} (covered : Covered app base above) (quit : app.running = false)
    (left : app.phase ≠ .network ∧ app.phase ≠ .events false) (taken : app.step world action = some after) :
    Layered after := by
  cases action with
  | message msg => exact absurd (step_message.mp taken).1 left.1
  | drained => exact absurd (step_drained.mp taken).1 left.1
  | dispatch =>
    obtain ⟨exit, phase, dispatched⟩ := step_dispatch.mp taken
    cases exit with
    | false => exact absurd phase left.2
    | true =>
      rcases dispatch_ok.mp dispatched with ⟨_, rfl⟩ | ⟨e, queue, _, ⟨_, rfl⟩ | ⟨polls, _⟩⟩
      · exact .leaving base above { covered with } quit (by simp)
      · exact .leaving base above { covered with } quit (by simp)
      · cases polls
  | line line =>
    obtain ⟨_, rfl⟩ := step_line.mp taken
    cases line with
    | none => exact .leaving base above { covered with } quit (by simp [readLine])
    | some cmd =>
      have covers := covered.framed (submits app [.command cmd]).1
      exact .leaving base above { covers with } quit (by simp [readLine])
  | render =>
    obtain ⟨_, shown, rendered, rfl⟩ := step_render.mp taken
    have running := (onRender_frame rendered).2.2.1.trans quit
    exact .leaving base above (covered.rendered rendered _) running (by simp [running])

theorem Layered.step {action : Action} (layered : Layered app) (taken : app.step world action = some after) :
    Layered after := by
  cases layered with
  | opening opening => exact (opening.step taken).layered
  | running _ _ _ covered awaiting stays drained => exact covered.step awaiting stays drained taken
  | leaving _ _ covered quit left => exact covered.leaves quit left taken

theorem layered {actions : List Action} (reached : Runs.exec (step world) init actions = some app) : Layered app :=
  Runs.always (fun _ => Layered) (.opening .initial) (fun _ _ _ _ prior taken => prior.step taken) reached

/-- The events that are processed are no messages, and a command finds a menu and an overlay at most. -/
theorem Layered.popped (layered : Layered app) (phase : app.phase = .events false) {e : Option Event}
    {queue : SPSCQueue (Option Event) 64} (popped : app.eventQueue.pop = some (e, queue)) :
    ∃ event, e = some event ∧ (∀ msg, event ≠ .message msg) ∧
      ∀ cmd, event = .command cmd → ∃ base above, Covered { app with eventQueue := queue } base above := by
  cases layered with
  | opening opening =>
    have contents := SPSCQueue.pop_some popped
    rw [opening.queue] at contents
    obtain ⟨rfl, _⟩ := List.cons.inj contents
    exact ⟨_, rfl, by simp, by simp⟩
  | running base above pending covered awaiting =>
    obtain ⟨event, rest, rfl, rfl, _⟩ := awaiting.popped popped
    refine ⟨event, rfl, ?_, fun _ _ => ⟨base, above, { covered with }⟩⟩
    rintro msg rfl
    exact awaiting.fitting _ List.mem_cons_self
  | leaving base above covered quit left => exact absurd phase left.2

theorem Covered.overlays (covered : Covered app base above) : overlays app = above.toList := by
  have below : base.filter (fun layer => app.kinds[layer]? ≠ some (some .menu)) = [] := by
    rcases covered.base with rfl | ⟨rfl, menu⟩
    · rfl
    · simp [menu]
  have shown : above.toList.filter (fun layer => app.kinds[layer]? ≠ some (some .menu)) = above.toList := by
    rw [List.filter_eq_self]
    intro layer member
    rcases covered.overlay layer (by simpa [eq_comm] using member) with login | battle
    · simp [login]
    · simp [battle]
  rw [PsApp.overlays, covered.layers, List.filter_append, below, shown, List.nil_append]

theorem Covered.single (covered : Covered app base above) : (PsApp.overlays app).length ≤ 1 := by
  rw [covered.overlays]
  cases above <;> simp

/-- In every state of every run at most one layer on the stack is not the menu, and
none is when an event that creates another is processed. -/
theorem one_overlay {actions : List Action} (reached : Runs.exec (step world) init actions = some app) :
    (overlays app).length ≤ 1 ∧ ∀ event, app.processing .dispatch = some event →
      (event = .battleSearch ∨ ∃ isSignup, event = .login isSignup) → overlays app = [] := by
  have alone (base : List Nat) (above : Option Nat) (covered : Covered app base above) (none : above = none) :
      overlays app = [] := by rw [covered.overlays, none]; rfl
  cases layered reached with
  | opening opening =>
    have empty : overlays app = [] := by simp [overlays, opening.layerstack]
    exact ⟨by simp [empty], fun _ _ _ => empty⟩
  | running base above pending covered awaiting =>
    refine ⟨covered.single, fun event processed creates => alone base above covered ?_⟩
    obtain ⟨_, _, queue, popped⟩ := processing_some processed
    obtain ⟨other, rest, same, rfl, _⟩ := awaiting.popped popped
    cases same
    have fitting := awaiting.fitting event List.mem_cons_self
    rcases creates with rfl | ⟨isSignup, rfl⟩
    · exact fitting
    · exact fitting
  | leaving base above covered quit left =>
    refine ⟨covered.single, fun event processed _ => ?_⟩
    exact absurd (processing_some processed).2.1 left.2

private def offlineAlways : World := { parse := fun _ => none, assertions := fun _ => "" }

/-- Two battles are searched for, one after the other; the second LayerPop removes the menu. -/
private def searches : List Action :=
  let search : List Action := [.line (some "1"), .render, .drained, .dispatch, .dispatch, .dispatch, .line none, .render,
    .message { roomId := "battle-1", type := "win", args := ["Ash"] }, .drained, .dispatch, .dispatch]
  [.drained, .dispatch, .dispatch] ++ search ++ search

theorem one_overlay_searches :
    ∃ app, Runs.exec (step offlineAlways) init searches = some app ∧ app.layerstack.layers = [2] ∧
      (overlays app).length ≤ 1 ∧ ∀ event, app.processing .dispatch = some event →
        (event = .battleSearch ∨ ∃ isSignup, event = .login isSignup) → overlays app = [] := by
  have run : (Runs.exec (step offlineAlways) init searches).map (fun app => app.layerstack.layers) = some [2] := by
    decide +kernel
  obtain ⟨app, reached, layers⟩ := Option.map_eq_some_iff.mp run
  exact ⟨app, reached, layers, one_overlay reached⟩

end ShowdownCli.PsApp
