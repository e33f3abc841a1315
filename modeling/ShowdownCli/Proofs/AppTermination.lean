import ShowdownCli.Proofs.AppProgress
import ShowdownCli.Proofs.AppSteps

/-! How the loops of the main loop end. The loop of `poll` runs out of events, because only
a command makes a layer submit another one; and after `q` the program is over within the turn. -/

namespace ShowdownCli.PsApp
open Library

variable {world : World} {app after : PsApp} {base : List Nat} {above : Option Nat} {pending : List Event}

/-! ## The loop of `poll` -/

def Commands : Option Event → Bool
  | some (.command _) => true
  | _ => false

/-- How often the loop can still take an event or find none: a pending command may be
answered by one event. -/
def remaining (app : PsApp) : Nat :=
  match app.phase with
  | .events false => app.eventQueue.contents.length + app.eventQueue.contents.countP Commands + 1
  | .events true => 1
  | _ => 0

theorem remaining_polling (phase : app.phase = .events false) :
    app.remaining = app.eventQueue.contents.length + app.eventQueue.contents.countP Commands + 1 := by
  rw [remaining, phase]

theorem remaining_leaving (phase : app.phase = .events true) : app.remaining = 1 := by
  rw [remaining, phase]

theorem remaining_elsewhere (elsewhere : ∀ exit, app.phase ≠ .events exit) : app.remaining = 0 := by
  cases phase : app.phase with
  | network | input | render | stopped => rw [remaining, phase]
  | events exit => exact absurd phase (elsewhere exit)

/-- No layer answers with a command. -/
theorem answer_plain {kind : LayerKind} {layer : Nat} {event answer : Event}
    (answers : kind.Answers layer event answer) : Commands (some answer) = false := by
  cases kind with
  | menu =>
    cases event with
    | command cmd => rcases answers with rfl | ⟨isSignup, rfl⟩ <;> rfl
    | message | layerPush | layerPop | login | battleSearch | battleJoin => exact answers.elim
  | login =>
    cases event with
    | command cmd =>
      cases answers
      rfl
    | message | layerPush | layerPop | login | battleSearch | battleJoin => exact answers.elim
  | battle =>
    cases event with
    | message msg => rcases answers with rfl | rfl <;> rfl
    | command | layerPush | layerPop | login | battleSearch | battleJoin => exact answers.elim

/-- Processing an event adds nothing to the queue, or to a command one event that is none. -/
theorem process_adds {event : Event} (stays : event ≠ .command "q") (message : ∀ msg, event ≠ .message msg)
    (processed : process world app event = .ok after) :
    ∃ added : List Event, after.eventQueue.contents = app.eventQueue.contents ++ added.map some ∧
      (added.map some).countP Commands = 0 ∧ added.length ≤ if Commands (some event) then 1 else 0 := by
  obtain ⟨handled, handling, delivered⟩ := except_bind_ok.mp processed
  have queue : handled.eventQueue = app.eventQueue := (handle_undisturbed handling).eventQueue
  cases event with
  | command cmd =>
    have other : cmd ≠ "q" := fun quit => stays (quit ▸ rfl)
    unfold pushToLayers at delivered
    cases layers : handled.layerstack.layers.reverse with
    | nil =>
      rw [layers] at delivered
      cases delivered
      exact ⟨[], by simp [queue], rfl, Nat.zero_le _⟩
    | cons top below =>
      rw [layers] at delivered
      obtain ⟨_, added, queued, single, kind, _, answers⟩ := offer_command other delivered
      refine ⟨added, by rw [queued, queue], ?_, single⟩
      rw [List.countP_eq_zero]
      intro answer member
      obtain ⟨plain, inside, rfl⟩ := List.mem_map.mp member
      simp [answer_plain (answers plain inside)]
  | message msg => exact absurd rfl (message msg)
  | layerPush | layerPop | login | battleSearch | battleJoin =>
    have silent := (offer_other_submits (by simp) (by simp) delivered).queue
    refine ⟨[], ?_, rfl, Nat.zero_le _⟩
    simp only [silent, List.map_nil, List.append_nil]
    rw [List.take_of_length_le handled.pending_le, queue]

theorem Layered.dispatch_remaining (layered : Layered app) (taken : app.step world .dispatch = some after) :
    after.remaining < app.remaining := by
  obtain ⟨exit, phase, dispatched⟩ := step_dispatch.mp taken
  rcases dispatch_ok.mp dispatched with ⟨_, rfl⟩ | ⟨e, queue, popped, ⟨_, rfl⟩ | ⟨rfl, event, rfl, processed⟩⟩
  · rw [remaining_elsewhere (by simp)]
    cases exit with
    | true => rw [remaining_leaving phase]; omega
    | false => rw [remaining_polling phase]; omega
  · rw [remaining_elsewhere (by simp)]
    cases exit with
    | true => rw [remaining_leaving phase]; omega
    | false => rw [remaining_polling phase]; omega
  · have contents := SPSCQueue.pop_some popped
    rw [remaining_polling phase, contents, List.length_cons, List.countP_cons]
    by_cases quit : event = .command "q"
    · subst quit
      rw [remaining_leaving (by rw [process_phase processed, if_pos rfl])]
      omega
    · have polling : after.phase = .events false := by
        rw [process_phase processed, if_neg quit]
        exact phase
      obtain ⟨_, same, message, _⟩ := layered.popped phase popped
      cases same
      obtain ⟨added, grown, plain, few⟩ := process_adds quit message processed
      change _ = queue.contents ++ _ at grown
      rw [remaining_polling polling, grown, List.length_append, List.length_map, List.countP_append, plain]
      omega

/-- At most one command is ever pending. -/
theorem Layered.remaining_le (layered : Layered app) : app.remaining ≤ 65 := by
  cases phase : app.phase with
  | network | input | render | stopped =>
    rw [remaining_elsewhere (by simp [phase])]
    omega
  | events exit =>
    cases exit with
    | true =>
      rw [remaining_leaving phase]
      omega
    | false =>
      rw [remaining_polling phase]
      cases layered with
      | opening opening =>
        rw [opening.queue]
        decide
      | running base above pending covered awaiting =>
        have short := app.pending_le
        have single : app.eventQueue.contents.countP Commands ≤ 1 := by
          rw [awaiting.queue, List.countP_map]
          refine Nat.le_trans (List.countP_mono_left fun event _ command => ?_) awaiting.opens
          cases event with
          | command => rfl
          | message | layerPush | layerPop | login | battleSearch | battleJoin => cases command
        omega
      | leaving base above covered quit left => exact absurd phase left.2

/-- The loop of `poll` ends: in every state that can be reached it takes at most 65 turns, and
over a whole run at most that many for each turn of the main loop. -/
theorem poll_ends {actions : List Action} (reached : Runs.exec (step world) init actions = some app) :
    actions.count .dispatch ≤ 65 * actions.count .drained ∧
      ∀ turns after, Runs.exec (step world) app (List.replicate turns .dispatch) = some after → turns ≤ 65 := by
  constructor
  · have spent : Layered app ∧ actions.count .dispatch + app.remaining ≤ 65 * actions.count .drained := by
      refine Runs.always (fun done app => Layered app ∧ done.count .dispatch + app.remaining ≤ 65 * done.count .drained)
        ⟨.opening .initial, by simp [init, remaining, submit, allocate]⟩ ?_ reached
      intro done action before after prior taken
      obtain ⟨layered, bound⟩ := prior
      have later := layered.step taken
      refine ⟨later, ?_⟩
      rw [List.count_append, List.count_append]
      cases action with
      | message msg =>
        obtain ⟨phase, client, _, delivered⟩ := step_message.mp taken
        have network : after.phase = .network := (offer_frame delivered).phase.trans phase
        rw [remaining_elsewhere (by simp [network])]
        simp
        omega
      | drained =>
        have most := later.remaining_le
        simp
        omega
      | dispatch =>
        have lower := layered.dispatch_remaining taken
        simp
        omega
      | line line =>
        obtain ⟨_, rfl⟩ := step_line.mp taken
        rw [remaining_elsewhere (by cases line <;> simp [readLine])]
        simp
        omega
      | render =>
        obtain ⟨_, shown, _, rfl⟩ := step_render.mp taken
        rw [remaining_elsewhere (by intro exit; dsimp only; split <;> simp)]
        simp
        omega
    omega
  · intro turns after more
    have start := layered reached
    have lower : ∀ action ∈ List.replicate turns Action.dispatch, ∀ before after, Layered before →
        before.step world action = some after → Layered after ∧ after.remaining + 1 ≤ before.remaining := by
      intro action member before after held taken
      cases List.eq_of_mem_replicate member
      exact ⟨held.step taken, held.dispatch_remaining taken⟩
    have bound := (Runs.spent (fun _ => true) Layered remaining start lower more).2
    rw [List.countP_true, List.length_replicate] at bound
    exact Nat.le_trans (Nat.le_of_add_left_le bound) start.remaining_le

private def idle : World := { parse := fun _ => none, assertions := fun _ => "" }

/-- The menu is opened, and the player asks to log in. -/
private def asking : List Action :=
  [.drained, .dispatch, .dispatch, .line (some "2"), .render, .drained, .dispatch, .dispatch, .dispatch]

theorem poll_ends_asking :
    ∃ app, Runs.exec (step idle) init asking = some app ∧ app.dispatched =
        [.layerPush 0 false, .command "2", .login false] ∧
      asking.count .dispatch ≤ 65 * asking.count .drained ∧
      ∀ turns after, Runs.exec (step idle) app (List.replicate turns .dispatch) = some after → turns ≤ 65 := by
  have run : (Runs.exec (step idle) init asking).map (fun app => app.dispatched) =
      some [.layerPush 0 false, .command "2", .login false] := by decide +kernel
  obtain ⟨app, reached, dispatched⟩ := Option.map_eq_some_iff.mp run
  exact ⟨app, reached, dispatched, poll_ends reached⟩

/-! ## The end of the program -/

/-- Only `q` ends the program, and after it no other event is processed. -/
structure Quitting (app : PsApp) : Prop where
  quit : app.running = false ↔ .command "q" ∈ app.dispatched
  last : .command "q" ∉ app.dispatched.dropLast
  left : app.running = false → app.phase ≠ .network ∧ app.phase ≠ .events false
  still : app.running = true → app.phase ≠ .events true ∧ app.phase ≠ .stopped

theorem handle_running {event : Event} (handled : handle app event = .ok after) :
    after.running = if event = .command "q" then false else app.running := by
  cases event with
  | command cmd =>
    cases handled
    by_cases quit : cmd = "q"
    · simp [quit]
    · simp [quit]
  | layerPush | layerPop =>
    obtain ⟨_, _, _, _, _, rfl⟩ := perform_ok handled
    rfl
  | login | battleSearch =>
    have attached := (perform_attach app _).symm.trans handled
    cases attached
    rfl
  | battleJoin | message =>
    cases handled
    rfl

theorem process_running {event : Event} (processed : process world app event = .ok after) :
    after.running = (if event = .command "q" then false else app.running) ∧
      after.dispatched = app.dispatched ++ [event] := by
  obtain ⟨handled, handling, delivered⟩ := except_bind_ok.mp processed
  obtain ⟨_, submitted⟩ := offer_submits delivered
  have running := handle_running handling
  refine ⟨submitted.running.trans running, ?_⟩
  exact (offer_frame delivered).dispatched.trans (handle_undisturbed handling).dispatched

/-- A step that processes no event and does not begin another turn. -/
theorem Quitting.same (quitting : Quitting app) (running : after.running = app.running)
    (dispatched : after.dispatched = app.dispatched)
    (left : app.running = false → after.phase ≠ .network ∧ after.phase ≠ .events false)
    (still : app.running = true → after.phase ≠ .events true ∧ after.phase ≠ .stopped) : Quitting after where
  quit := by rw [running, dispatched, quitting.quit]
  last := dispatched ▸ quitting.last
  left := fun ended => left (running ▸ ended)
  still := fun goes => still (running ▸ goes)

theorem Quitting.dispatch (quitting : Quitting app) (taken : app.step world .dispatch = some after) :
    Quitting after := by
  obtain ⟨exit, phase, dispatched⟩ := step_dispatch.mp taken
  rcases dispatch_ok.mp dispatched with ⟨_, rfl⟩ | ⟨e, queue, _, ⟨_, rfl⟩ | ⟨rfl, event, _, processed⟩⟩
  · exact quitting.same rfl rfl (by simp) (by simp)
  · exact quitting.same rfl rfl (by simp) (by simp)
  · have running : app.running = true := by
      cases ended : app.running with
      | false => exact absurd phase (quitting.left ended).2
      | true => rfl
    have unsaid : .command "q" ∉ app.dispatched := by
      rw [← quitting.quit, running]
      simp
    obtain ⟨ends, processes⟩ := process_running processed
    have polls := process_phase processed
    simp only [running, phase] at ends polls processes
    refine ⟨?_, ?_, ?_, ?_⟩
    · rw [ends, processes, List.mem_append, List.mem_singleton, or_iff_right unsaid]
      split
      next quit => simp [quit]
      next other => simp [Ne.symm other]
    · rw [processes, List.dropLast_concat]
      exact unsaid
    · intro ended
      rw [ends] at ended
      rw [polls]
      split at ended
      next quit => simp [quit]
      next => cases ended
    · intro goes
      rw [ends] at goes
      rw [polls]
      split at goes
      next => cases goes
      next other => simp [other]

theorem Quitting.step {action : Action} (quitting : Quitting app) (taken : app.step world action = some after) :
    Quitting after := by
  cases action with
  | message msg =>
    obtain ⟨phase, client, _, delivered⟩ := step_message.mp taken
    have frame := offer_frame delivered
    obtain ⟨_, submitted⟩ := offer_submits delivered
    have network : after.phase = .network := frame.phase.trans phase
    refine quitting.same submitted.running frame.dispatched (fun ended => ?_) fun _ => by simp [network]
    exact absurd phase (quitting.left ended).1
  | drained =>
    obtain ⟨phase, rfl⟩ := step_drained.mp taken
    refine quitting.same rfl rfl (fun ended => ?_) (by simp)
    exact absurd phase (quitting.left ended).1
  | dispatch => exact quitting.dispatch taken
  | line line =>
    obtain ⟨_, rfl⟩ := step_line.mp taken
    cases line with
    | none => exact quitting.same rfl rfl (by simp [readLine]) (by simp [readLine])
    | some cmd => exact quitting.same rfl rfl (by simp [readLine]) (by simp [readLine])
  | render =>
    obtain ⟨_, shown, rendered, rfl⟩ := step_render.mp taken
    obtain ⟨frame, _, running, _⟩ := onRender_frame rendered
    refine quitting.same running frame.dispatched (fun ended => ?_) fun goes => ?_
    · simp [running, ended]
    · simp [running, goes]

theorem quitting {actions : List Action} (reached : Runs.exec (step world) init actions = some app) : Quitting app :=
  Runs.always (fun _ => Quitting) ⟨by simp [init, submit, allocate], by simp [init, submit, allocate],
    by simp [init, submit, allocate], by simp [init, submit, allocate]⟩ (fun _ _ _ _ prior taken => prior.step taken) reached

/-- A turn of any other loop than that of `process_network`. -/
def Action.turns : Action → Bool
  | .message _ => false
  | _ => true

/-- The turns until the end, once `q` is the next event. -/
def turnsLeft (app : PsApp) : Nat :=
  match app.phase with
  | .render => if app.running then 6 else 1
  | .network => 5
  | .events _ => if app.running then 4 else 3
  | .input => 2
  | .stopped => 0

/-- The program has processed `q`. -/
structure Ended (client : PsClient) (dispatched : List Event) (app : PsApp) : Prop where
  ended : app.running = false
  left : app.phase ≠ .network ∧ app.phase ≠ .events false
  client : app.client = client
  dispatched : app.dispatched = dispatched

theorem Ended.step {client : PsClient} {dispatched : List Event} {action : Action} (ended : Ended client dispatched app)
    (taken : app.step world action = some after) :
    Ended client dispatched after ∧ after.turnsLeft + 1 ≤ app.turnsLeft := by
  obtain ⟨stopping, left, rfl, rfl⟩ := ended
  cases action with
  | message msg => exact absurd (step_message.mp taken).1 left.1
  | drained => exact absurd (step_drained.mp taken).1 left.1
  | dispatch =>
    obtain ⟨exit, phase, dispatched⟩ := step_dispatch.mp taken
    cases exit with
    | false => exact absurd phase left.2
    | true =>
      rcases dispatch_ok.mp dispatched with ⟨_, rfl⟩ | ⟨e, queue, _, ⟨_, rfl⟩ | ⟨polls, _⟩⟩
      · exact ⟨⟨stopping, by simp, rfl, rfl⟩, by simp [turnsLeft, phase, stopping]⟩
      · exact ⟨⟨stopping, by simp, rfl, rfl⟩, by simp [turnsLeft, phase, stopping]⟩
      · cases polls
  | line line =>
    obtain ⟨phase, rfl⟩ := step_line.mp taken
    cases line with
    | none => exact ⟨⟨stopping, by simp [readLine], rfl, rfl⟩, by simp [turnsLeft, readLine, phase, stopping]⟩
    | some cmd =>
      have still : (app.submit (.command cmd)).running = false := stopping
      exact ⟨⟨still, by simp [readLine], rfl, rfl⟩, by simp [turnsLeft, readLine, phase, still]⟩
  | render =>
    obtain ⟨phase, shown, rendered, rfl⟩ := step_render.mp taken
    obtain ⟨frame, _, running, _⟩ := onRender_frame rendered
    have halted : shown.running = false := running.trans stopping
    have client : shown.client = app.client := core_client (onRender_core rendered).1
    refine ⟨⟨halted, by simp [halted], client, frame.dispatched⟩, ?_⟩
    simp [turnsLeft, phase, stopping, halted]

/-- The line `q` was read: it is the next event, or it has been processed. -/
inductive Leaving (dispatched : List Event) (app : PsApp) : Prop where
  | queued (running : app.running = true) (rest : List (Option Event))
      (next : app.eventQueue.contents = some (.command "q") :: rest)
      (phase : app.phase = .render ∨ app.phase = .network ∨ app.phase = .events false)
      (same : app.dispatched = dispatched)
  | ended {client : PsClient} {final : List Event} (ended : Ended client final app)
      (once : final = dispatched ∨ final = dispatched ++ [.command "q"])

theorem Leaving.message {dispatched : List Event} {msg : Message} (leaving : Leaving dispatched app)
    (taken : app.step world (.message msg) = some after) :
    Leaving dispatched after ∧ after.turnsLeft ≤ app.turnsLeft := by
  obtain ⟨phase, client, _, delivered⟩ := step_message.mp taken
  cases leaving with
  | ended ended once => exact absurd phase ended.left.1
  | queued running rest next _ same =>
    have frame := offer_frame delivered
    obtain ⟨events, submitted⟩ := offer_submits delivered
    have network : after.phase = .network := frame.phase.trans phase
    have first : after.eventQueue.contents = some (.command "q") :: (rest ++ events.map some).take 62 := by
      rw [submitted.queue]
      change (app.eventQueue.contents ++ _).take 63 = _
      rw [next]
      rfl
    refine ⟨.queued (submitted.running.trans running) _ first (Or.inr (Or.inl network)) ?_, ?_⟩
    · exact frame.dispatched.trans same
    · simp [turnsLeft, network, phase]

theorem Leaving.turn {dispatched : List Event} {action : Action} (leaving : Leaving dispatched app)
    (other : action.turns = true) (taken : app.step world action = some after) :
    Leaving dispatched after ∧ after.turnsLeft + 1 ≤ app.turnsLeft := by
  cases leaving with
  | ended ended once =>
    obtain ⟨later, lower⟩ := ended.step taken
    exact ⟨.ended later once, lower⟩
  | queued running rest next phases same =>
    cases action with
    | message msg => cases other
    | drained =>
      obtain ⟨phase, rfl⟩ := step_drained.mp taken
      exact ⟨.queued running rest next (by simp) same, by simp [turnsLeft, phase, running]⟩
    | line line =>
      have phase := (step_line.mp taken).1
      simp [phase] at phases
    | render =>
      obtain ⟨phase, shown, rendered, rfl⟩ := step_render.mp taken
      obtain ⟨frame, queue, still, _⟩ := onRender_frame rendered
      have goes : shown.running = true := still.trans running
      refine ⟨.queued goes rest (queue ▸ next) (by simp [goes]) (frame.dispatched.trans same), ?_⟩
      simp [turnsLeft, phase, running, goes]
    | dispatch =>
      obtain ⟨exit, phase, polled⟩ := step_dispatch.mp taken
      have polling : exit = false := by simpa [phase] using phases
      subst polling
      rcases dispatch_ok.mp polled with ⟨nothing, _⟩ | ⟨e, queue, popped, ⟨exits, _⟩ | ⟨_, event, rfl, processed⟩⟩
      · rw [SPSCQueue.pop_none.mp nothing] at next
        cases next
      · cases exits
      · have contents := SPSCQueue.pop_some popped
        rw [next] at contents
        cases contents
        obtain ⟨ends, processes⟩ := process_running processed
        have leaves := process_phase processed
        rw [if_pos rfl] at ends leaves
        refine ⟨.ended ⟨ends, by simp [leaves], rfl, rfl⟩ (Or.inr ?_), by simp [turnsLeft, phase, leaves, ends, running]⟩
        rw [processes]
        exact congrArg (· ++ _) same

/-- If it is time to draw a battle, all of its numbers have been assigned. -/
def Drawable (app : PsApp) : Prop :=
  app.phase = .render → ∀ battle, app.dirtyUi = true → app.top = some (.battle battle) → battle.Printable

/-- On the way to the end only a number on the screen that was never assigned is in the way. -/
theorem Leaving.next {dispatched : List Event} (leaving : Leaving dispatched app) (layered : Layered app)
    (owning : Owning app) (going : app.phase ≠ .stopped) (drawable : app.Drawable) :
    ∃ action after, action.turns = true ∧ app.step world action = some after := by
  have proceeds {action : Action} (turns : action.turns = true) (free : Proceeds world app action) :
      ∃ action after, action.turns = true ∧ app.step world action = some after := by
    obtain ⟨after, taken⟩ := (step_proceeds layered owning).mpr free
    exact ⟨action, after, turns, taken⟩
  cases phase : app.phase with
  | network => exact @proceeds .drained rfl phase
  | input => exact @proceeds (.line none) rfl phase
  | render => exact @proceeds .render rfl ⟨phase, drawable phase⟩
  | stopped => exact absurd phase going
  | events exit =>
    refine @proceeds .dispatch rfl ⟨exit, phase, fun event processed => ?_⟩
    obtain ⟨_, polling, queue, popped⟩ := processing_some processed
    cases leaving with
    | ended ended => exact absurd polling ended.left.2
    | queued _ rest next =>
      have contents := SPSCQueue.pop_some popped
      rw [next] at contents
      cases contents
      intro battle _ token first digit
      have quit : (tokenize "q").head? = some "q" := by decide
      cases quit.symm.trans first
      exact absurd digit (by decide)

theorem stopped_of_turnsLeft (none : app.turnsLeft = 0) : app.phase = .stopped := by
  cases phase : app.phase with
  | stopped => rfl
  | network | input => simp [turnsLeft, phase] at none
  | events | render =>
    simp only [turnsLeft, phase] at none
    split at none <;> cases none

/-- A line finds the queue empty, so that `q` is the next event. -/
theorem Layered.reads_quit (layered : Layered app)
    (taken : app.step world (.line (some "q")) = some after) :
    Leaving app.dispatched after ∧ after.turnsLeft ≤ 6 := by
  obtain ⟨phase, rfl⟩ := step_line.mp taken
  have few : (app.readLine (some "q")).turnsLeft ≤ 6 := by
    cases running : (app.submit (.command "q")).running <;> simp [turnsLeft, readLine, running]
  refine ⟨?_, few⟩
  cases running : app.running with
  | false => exact .ended ⟨running, by simp [readLine], rfl, rfl⟩ (Or.inl rfl)
  | true =>
    have empty : app.eventQueue.contents = [] := by
      cases layered with
      | opening opening => simpa [phase] using opening.phase
      | running base above pending covered awaiting stays drained => rw [awaiting.queue, drained phase]; rfl
      | leaving base above covered quit left => cases running.symm.trans quit
    have pushed := (app.submit_one (.command "q")).queue
    rw [empty] at pushed
    exact .queued running [] pushed (Or.inl rfl) rfl

/-- Nothing but `q` ends the program. Once it is processed nothing else is processed or sent,
and a line `q` is always the next event: whatever messages still arrive, the program is over after
six turns of the other loops. Until then there is a next turn, unless a battle has to be drawn
whose numbers were not all assigned. -/
theorem quits {actions : List Action} (reached : Runs.exec (step world) init actions = some app) :
    (app.phase = .stopped → app.running = false) ∧ (app.running = false ↔ .command "q" ∈ app.dispatched) ∧
    .command "q" ∉ app.dispatched.dropLast ∧
    (∀ more after, app.running = false → Runs.exec (step world) app more = some after →
      more.length ≤ 3 ∧ after.client = app.client ∧ after.dispatched = app.dispatched ∧
      (after.phase ≠ .stopped → after.Drawable → ∃ action next, action.turns = true ∧ after.step world action = some next)) ∧
    ∀ more after, Runs.exec (step world) app (.line (some "q") :: more) = some after →
      more.countP Action.turns ≤ 6 ∧ (more.countP Action.turns = 6 → after.phase = .stopped) ∧
      (after.dispatched = app.dispatched ∨ after.dispatched = app.dispatched ++ [.command "q"]) ∧
      (after.phase ≠ .stopped → after.Drawable →
        ∃ action next, action.turns = true ∧ after.step world action = some next) := by
  have quits := quitting reached
  have continues {more : List Action} {after : PsApp} (rest : Runs.exec (step world) app more = some after) :
      Layered after ∧ Owning after := by
    have whole : Runs.exec (step world) init (actions ++ more) = some after := by
      rw [Runs.exec_append, reached]
      exact rest
    exact ⟨layered whole, owning whole⟩
  refine ⟨fun stopped => ?_, quits.quit, quits.last, fun more after ended rest => ?_, fun more after rest => ?_⟩
  · cases running : app.running with
    | false => rfl
    | true => exact absurd stopped (quits.still running).2
  · have start : Ended app.client app.dispatched app := ⟨ended, quits.left ended, rfl, rfl⟩
    obtain ⟨halted, bound⟩ := Runs.spent (fun _ => true) (Ended app.client app.dispatched) turnsLeft start
      (fun _ _ _ _ prior taken => prior.step taken) rest
    have few : app.turnsLeft ≤ 3 := by
      have left := start.left
      cases phase : app.phase <;> simp [turnsLeft, phase, ended] at left ⊢
    rw [List.countP_true] at bound
    obtain ⟨layered, owning⟩ := continues rest
    have leaving : Leaving app.dispatched after := .ended halted (Or.inl rfl)
    exact ⟨by omega, halted.client, halted.dispatched, leaving.next layered owning⟩
  · obtain ⟨middle, taken, later⟩ := Option.bind_eq_some_iff.mp rest
    obtain ⟨start, few⟩ := (layered reached).reads_quit taken
    have lower : ∀ action ∈ more, ∀ before after, Leaving app.dispatched before → before.step world action = some after →
        Leaving app.dispatched after ∧ after.turnsLeft + (if action.turns then 1 else 0) ≤ before.turnsLeft := by
      intro action _ before after held taken
      cases turns : action.turns with
      | true => exact held.turn turns taken
      | false =>
        cases action with
        | message msg => exact held.message taken
        | drained | dispatch | line | render => cases turns
    obtain ⟨leaving, bound⟩ := Runs.spent Action.turns (Leaving app.dispatched) turnsLeft start lower later
    obtain ⟨layered, owning⟩ := continues rest
    refine ⟨by omega, fun all => stopped_of_turnsLeft (by omega), ?_, leaving.next layered owning⟩
    cases leaving with
    | queued _ _ _ _ same => exact Or.inl same
    | ended ended once =>
      rw [ended.dispatched]
      exact once

/-- The menu is opened, `q` is read, and a message arrives before it is processed. -/
private def leavingMenu : List Action :=
  [.render, .message { roomId := "", type := "updateuser", args := ["Ash", "1"] }, .drained, .dispatch, .dispatch,
    .line none, .render]

theorem quits_leavingMenu :
    ∃ app after, Runs.exec (step idle) init [.drained, .dispatch, .dispatch] = some app ∧
      Runs.exec (step idle) app (.line (some "q") :: leavingMenu) = some after ∧
      leavingMenu.countP Action.turns = 6 ∧ after.phase = .stopped := by
  have run : (Runs.exec (step idle) init ([.drained, .dispatch, .dispatch] ++ .line (some "q") :: leavingMenu)).isSome := by
    decide +kernel
  obtain ⟨after, whole⟩ := Option.isSome_iff_exists.mp run
  rw [Runs.exec_append] at whole
  obtain ⟨app, reached, rest⟩ := Option.bind_eq_some_iff.mp whole
  have turns : leavingMenu.countP Action.turns = 6 := by decide
  obtain ⟨_, _, _, _, read⟩ := quits reached
  obtain ⟨_, stops, _⟩ := read leavingMenu after rest
  exact ⟨app, after, reached, rest, turns, stops turns⟩

end ShowdownCli.PsApp
