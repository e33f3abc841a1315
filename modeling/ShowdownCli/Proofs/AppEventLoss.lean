import ShowdownCli.Proofs.AppOverlays

/-! Which runs lose a submitted event. The queue holds 63, and what does not fit is
dropped; after `q` the loop of `poll` takes one event more than it processes. -/

namespace ShowdownCli.PsApp
open Library

/-- Every submitted event has been processed or is pending, in order. -/
def Kept (app : PsApp) : Prop := app.submitted.map some = app.dispatched.map some ++ app.eventQueue.contents

instance (app : PsApp) : Decidable (Kept app) := inferInstanceAs (Decidable (_ = _))

/-- What a battle answers to a message finds room, and no event is left after `q`. -/
def Fits (app : PsApp) (action : Action) : Prop :=
  (∀ msg, action = .message msg → app.receiver app.layerstack.layers.reverse = some .battle → msg.announces →
    app.eventQueue.contents.length < 63) ∧
  (action = .dispatch → app.phase = .events true → app.eventQueue.contents = [])

/-- Nothing is pending that was not submitted, and a line always finds room. -/
structure Accounted (app : PsApp) : Prop where
  part : (app.dispatched.map some ++ app.eventQueue.contents).Sublist (app.submitted.map some)
  room : app.phase = .input → app.eventQueue.contents.length < 63

variable {world : World} {app middle after : PsApp} {base : List Nat} {above : Option Nat} {pending events : List Event}

theorem kept_length (part : (app.dispatched.map some ++ app.eventQueue.contents).Sublist (app.submitted.map some)) :
    Kept app ↔ app.submitted.length ≤ app.dispatched.length + app.eventQueue.contents.length := by
  constructor
  · intro kept
    have lengths := congrArg List.length kept
    rw [List.length_map, List.length_append, List.length_map] at lengths
    exact Nat.le_of_eq lengths
  · intro long
    refine (part.eq_of_length_le ?_).symm
    rw [List.length_map, List.length_append, List.length_map]
    exact long

/-- A delivery keeps every event if the new ones fit. -/
theorem Submitted.kept (submitted : Submitted app after events) (dispatched : after.dispatched = app.dispatched)
    (part : (app.dispatched.map some ++ app.eventQueue.contents).Sublist (app.submitted.map some)) :
    (after.dispatched.map some ++ after.eventQueue.contents).Sublist (after.submitted.map some) ∧
      (Kept after ↔ Kept app ∧ app.eventQueue.contents.length + events.length ≤ 63) := by
  have short := app.pending_le
  have later : (after.dispatched.map some ++ after.eventQueue.contents).Sublist (after.submitted.map some) := by
    rw [dispatched, submitted.queue, submitted.submitted, List.map_append]
    refine ((List.Sublist.refl _).append (List.take_sublist ..)).trans ?_
    rw [← List.append_assoc]
    exact part.append (.refl _)
  refine ⟨later, ?_⟩
  have least := part.length_le
  rw [List.length_append, List.length_map, List.length_map] at least
  rw [kept_length later, kept_length part, dispatched, submitted.queue, submitted.submitted, List.length_append,
    List.length_take, List.length_append, List.length_map]
  omega

/-- What handling an event leaves alone. -/
structure Undisturbed (app after : PsApp) : Prop where
  eventQueue : after.eventQueue = app.eventQueue
  submitted : after.submitted = app.submitted
  dispatched : after.dispatched = app.dispatched

theorem handle_undisturbed {event : Event} (handled : handle app event = .ok after) : Undisturbed app after := by
  cases event with
  | command cmd =>
    cases handled
    split
    next => exact ⟨rfl, rfl, rfl⟩
    next => exact ⟨rfl, rfl, rfl⟩
  | layerPush | layerPop =>
    obtain ⟨_, _, _, _, _, rfl⟩ := perform_ok handled
    exact ⟨rfl, rfl, rfl⟩
  | login | battleSearch =>
    have attached := (perform_attach app _).symm.trans handled
    cases attached
    exact ⟨rfl, rfl, rfl⟩
  | battleJoin | message =>
    cases handled
    exact ⟨rfl, rfl, rfl⟩

/-! ## One step -/

/-- Below the top of the stack there is no menu, unless the top is the menu and alone. -/
theorem Covered.bottom (covered : Covered app base above) : ∀ top below,
    app.layerstack.layers.reverse = top :: below → below = [] ∨ app.kinds[top]? ≠ some (some .menu) := by
  intro top below order
  rw [covered.layers, List.reverse_append] at order
  cases above with
  | some layer =>
    cases order
    refine Or.inr fun menu => ?_
    rcases covered.overlay top rfl with login | battle
    · cases menu.symm.trans login
    · cases menu.symm.trans battle
  | none =>
    rcases covered.base with rfl | ⟨rfl, _⟩
    · cases order
    · cases order
      exact Or.inl rfl

/-- An event from the queue is answered at most once. -/
theorem process_answer {event : Event} (message : ∀ msg, event ≠ .message msg)
    (command : ∀ cmd, event = .command cmd → ∃ base above, Covered app base above)
    (processed : process world app event = .ok after) :
    ∃ handled events, Undisturbed { app with dispatched := app.dispatched ++ [event] } handled ∧
      Submitted handled after events ∧ events.length ≤ 1 ∧ Frame handled after := by
  obtain ⟨handled, handling, delivered⟩ := except_bind_ok.mp processed
  have undisturbed := handle_undisturbed handling
  by_cases commanded : ∃ cmd, event = .command cmd
  · obtain ⟨cmd, rfl⟩ := commanded
    obtain ⟨base, above, covered⟩ := command cmd rfl
    have covers : Covered handled base above := by
      cases handling
      split <;> exact { covered with }
    obtain ⟨events, submitted, single⟩ := offer_command_submits delivered covers.bottom
    exact ⟨handled, events, undisturbed, submitted, single, offer_frame delivered⟩
  · have other : ∀ cmd, event ≠ .command cmd := fun cmd same => commanded ⟨cmd, same⟩
    exact ⟨handled, [], undisturbed, offer_other_submits other message delivered, Nat.zero_le 1,
      offer_frame delivered⟩

/-- The place of the processed event is enough for its answer. -/
theorem Accounted.process {event : Event} {queue : SPSCQueue (Option Event) 64} (accounted : Accounted app)
    (popped : app.eventQueue.pop = some (some event, queue)) (message : ∀ msg, event ≠ .message msg)
    (command : ∀ cmd, event = .command cmd → ∃ base above, Covered { app with eventQueue := queue } base above)
    (phase : app.phase = .events false)
    (processed : PsApp.process world { app with eventQueue := queue } event = .ok after) :
    Accounted after ∧ (Kept after ↔ Kept app) := by
  obtain ⟨handled, events, undisturbed, submitted, single, frame⟩ := process_answer message command processed
  have contents := SPSCQueue.pop_some popped
  have moved : handled.dispatched.map some ++ handled.eventQueue.contents =
      app.dispatched.map some ++ app.eventQueue.contents := by
    rw [undisturbed.dispatched, undisturbed.eventQueue, contents, List.map_append, List.append_assoc]
    rfl
  have part := accounted.part
  rw [← moved, ← undisturbed.submitted] at part
  obtain ⟨later, kept⟩ := submitted.kept frame.dispatched part
  have polling : after.phase ≠ .input := by
    rw [process_phase processed]
    split <;> simp [phase]
  have short := app.pending_le
  rw [contents, List.length_cons] at short
  have fits : handled.eventQueue.contents.length + events.length ≤ 63 := by
    rw [undisturbed.eventQueue]
    exact Nat.le_trans (Nat.add_le_add_left single _) short
  refine ⟨⟨later, fun input => absurd input polling⟩, kept.trans ?_⟩
  rw [and_iff_left fits, Kept, Kept, moved, undisturbed.submitted]

theorem fits_other {action : Action} (message : ∀ msg, action ≠ .message msg)
    (exit : app.phase ≠ .events true ∨ action ≠ .dispatch) : Fits app action := by
  refine ⟨fun msg same => absurd same (message msg), fun dispatch phase => ?_⟩
  rcases exit with phase' | other
  · exact absurd phase phase'
  · exact absurd dispatch other

theorem Accounted.message {msg : Message} (accounted : Accounted app)
    (taken : app.step world (.message msg) = some after) :
    Accounted after ∧ (Kept after ↔ Kept app ∧ Fits app (.message msg)) := by
  obtain ⟨phase, client, _, delivered⟩ := step_message.mp taken
  have frame := offer_frame delivered
  obtain ⟨events, submitted, count⟩ := offer_message delivered
  have network : after.phase = .network := frame.phase.trans phase
  have short := app.pending_le
  have received : Submitted app after events := ⟨submitted.submitted, submitted.queue, submitted.running⟩
  obtain ⟨part, kept⟩ := received.kept frame.dispatched accounted.part
  refine ⟨⟨part, by simp [network]⟩, kept.trans (and_congr_right fun _ => ?_)⟩
  have fits : Fits app (.message msg) ↔ (app.receiver app.layerstack.layers.reverse = some .battle → msg.announces →
      app.eventQueue.contents.length < 63) := by
    simp [Fits]
  have total : events.length = if app.receiver app.layerstack.layers.reverse = some .battle ∧ msg.announces
      then 1 else 0 := count
  rw [fits, total]
  split
  next answered => simp only [answered, forall_const]; omega
  next silent =>
    refine iff_of_true (by omega) fun battle announces => absurd ⟨battle, announces⟩ silent

/-- An event that is taken from the queue and not processed is lost. -/
theorem Accounted.exit (accounted : Accounted app) {e : Option Event} {queue : SPSCQueue (Option Event) 64}
    (popped : app.eventQueue.pop = some (e, queue)) :
    Accounted { app with eventQueue := queue, phase := .input } ∧
      ¬ Kept { app with eventQueue := queue, phase := .input } := by
  have contents := SPSCQueue.pop_some popped
  have part := accounted.part
  rw [contents] at part
  have later := ((List.Sublist.refl _).append (List.sublist_cons_self e queue.contents)).trans part
  have short := app.pending_le
  have least := part.length_le
  rw [contents, List.length_cons] at short
  rw [List.length_append, List.length_map, List.length_cons, List.length_map] at least
  refine ⟨⟨later, fun _ => ?_⟩, fun kept => ?_⟩
  · exact Nat.lt_of_succ_le short
  · have lengths := congrArg List.length (show app.submitted.map some = app.dispatched.map some ++ queue.contents from kept)
    rw [List.length_append, List.length_map, List.length_map] at lengths
    omega

theorem Accounted.dispatch (accounted : Accounted app) (layered : Layered app)
    (taken : app.step world .dispatch = some after) :
    Accounted after ∧ (Kept after ↔ Kept app ∧ Fits app .dispatch) := by
  obtain ⟨exit, phase, dispatched⟩ := step_dispatch.mp taken
  rcases dispatch_ok.mp dispatched with ⟨nothing, rfl⟩ | ⟨e, queue, popped, ⟨rfl, rfl⟩ | ⟨rfl, event, rfl, processed⟩⟩
  · have empty := SPSCQueue.pop_none.mp nothing
    have fits : Fits app .dispatch := ⟨by simp, fun _ _ => empty⟩
    refine ⟨⟨accounted.part, fun _ => ?_⟩, (and_iff_left fits).symm⟩
    change app.eventQueue.contents.length < 63
    rw [empty]
    decide
  · obtain ⟨later, lost⟩ := accounted.exit popped
    refine ⟨later, iff_of_false lost fun both => ?_⟩
    have empty := both.2.2 rfl phase
    rw [SPSCQueue.pop_some popped] at empty
    cases empty
  · have fits : Fits app .dispatch := fits_other (by simp) (Or.inl (by simp [phase]))
    rw [and_iff_left fits]
    obtain ⟨_, same, message, command⟩ := layered.popped phase popped
    cases same
    exact accounted.process popped message command phase processed

theorem Accounted.step {action : Action} (accounted : Accounted app) (layered : Layered app)
    (taken : app.step world action = some after) : Accounted after ∧ (Kept after ↔ Kept app ∧ Fits app action) := by
  cases action with
  | message msg => exact accounted.message taken
  | drained =>
    obtain ⟨_, rfl⟩ := step_drained.mp taken
    have fits : Fits app .drained := fits_other (by simp) (Or.inr (by simp))
    exact ⟨⟨accounted.part, by simp⟩, (and_iff_left fits).symm⟩
  | dispatch => exact accounted.dispatch layered taken
  | line line =>
    obtain ⟨phase, rfl⟩ := step_line.mp taken
    have fits : Fits app (.line line) := fits_other (by simp) (Or.inr (by simp))
    rw [and_iff_left fits]
    cases line with
    | none => exact ⟨⟨accounted.part, by simp [readLine]⟩, Iff.rfl⟩
    | some cmd =>
      have submitted := app.submit_one (.command cmd)
      obtain ⟨part, kept⟩ := submitted.kept rfl accounted.part
      have room := accounted.room phase
      refine ⟨⟨part, by simp [readLine]⟩, kept.trans (and_iff_left ?_)⟩
      exact room
  | render =>
    obtain ⟨_, shown, rendered, rfl⟩ := step_render.mp taken
    obtain ⟨frame, queue, _, submitted⟩ := onRender_frame rendered
    have fits : Fits app .render := fits_other (by simp) (Or.inr (by simp))
    have part := accounted.part
    rw [and_iff_left fits]
    rw [← frame.dispatched, ← queue, ← submitted] at part
    refine ⟨⟨part, ?_⟩, ?_⟩
    · simp only
      split <;> simp
    · simp only [Kept, frame.dispatched, queue, submitted]

/-! ## Runs -/

theorem accounted {actions : List Action} (reached : Runs.exec (step world) init actions = some app) :
    Accounted app ∧ (Kept app ↔ Runs.Guarded (step world) Fits init actions) := by
  induction actions using List.reverseRecOn generalizing app with
  | nil =>
    cases reached
    have kept : Kept init := by
      rw [Kept, Opening.initial.queue]
      rfl
    have whole : init.submitted.map some = init.dispatched.map some ++ init.eventQueue.contents := kept
    refine ⟨⟨whole ▸ List.Sublist.refl _, by simp [init, allocate, submit]⟩, iff_of_true kept ?_⟩
    intro done action inside
    exact absurd (List.prefix_nil.mp inside) (by simp)
  | append_singleton done action ih =>
    obtain ⟨before, first, taken⟩ := Runs.exec_concat_some reached
    obtain ⟨accounted, kept⟩ := ih first
    obtain ⟨later, step⟩ := accounted.step (layered first) taken
    refine ⟨later, step.trans ?_⟩
    rw [Runs.guarded_concat, kept]
    refine and_congr_right fun _ => ⟨fun fits state same => ?_, fun all => all before first⟩
    cases first.symm.trans same
    exact fits

/-- In every state of a run no event has been lost exactly when every step before it
left room for what it submitted and left nothing behind after `q`. -/
theorem events_kept_iff {actions : List Action} (reached : Runs.exec (step world) init actions = some app) :
    Kept app ↔ Runs.Guarded (step world) Fits init actions := (accounted reached).2

private def offlineWorld : World := { parse := fun _ => none, assertions := fun _ => "" }

/-- The menu is shown, and a battle is searched for. -/
private def searching : List Action :=
  [.drained, .dispatch, .dispatch, .line (some "1"), .render, .drained, .dispatch, .dispatch, .dispatch, .line none,
    .render]

private def asked : Action := .message { type := "request", args := [""] }

private def victory : Action := .message { type := "win", args := ["Ash"] }

theorem events_kept_iff_searching :
    ∃ app, Runs.exec (step offlineWorld) init (searching ++ [asked, victory, .drained]) = some app ∧
      (Kept app ↔ Runs.Guarded (step offlineWorld) Fits init (searching ++ [asked, victory, .drained])) := by
  have run : (Runs.exec (step offlineWorld) init (searching ++ [asked, victory, .drained])).isSome := by decide +kernel
  obtain ⟨app, reached⟩ := Option.isSome_iff_exists.mp run
  exact ⟨app, reached, events_kept_iff reached⟩

/-- After 63 requests in one turn the battle's end finds no room; and the LayerPop with
which the menu answers `q` is taken from the queue but not processed. -/
theorem events_lost :
    (∃ actions app, Runs.exec (step offlineWorld) init actions = some app ∧ app.phase = .events false ∧
      .layerPop 1 false ∈ app.submitted ∧ some (.layerPop 1 false) ∉ app.eventQueue.contents ∧ ¬ Kept app) ∧
    ∃ actions app, Runs.exec (step offlineWorld) init actions = some app ∧ app.phase = .input ∧
      app.eventQueue.contents = [] ∧ ¬ Kept app := by
  constructor
  · have run : (Runs.exec (step offlineWorld) init
        (searching ++ List.replicate 63 asked ++ [victory, .drained])).map (fun app =>
          (app.phase, decide (.layerPop 1 false ∈ app.submitted),
            decide (some (.layerPop 1 false) ∈ app.eventQueue.contents), decide (Kept app))) =
        some (.events false, true, false, false) := by decide +kernel
    obtain ⟨app, reached, facts⟩ := Option.map_eq_some_iff.mp run
    simp only [Prod.mk.injEq, decide_eq_true_eq, decide_eq_false_iff_not] at facts
    exact ⟨_, app, reached, facts⟩
  · have run : (Runs.exec (step offlineWorld) init
        [.drained, .dispatch, .dispatch, .line (some "q"), .render, .drained, .dispatch, .dispatch]).map (fun app =>
          (app.phase, app.eventQueue.contents, decide (Kept app))) = some (.input, [], false) := by decide +kernel
    obtain ⟨app, reached, facts⟩ := Option.map_eq_some_iff.mp run
    simp only [Prod.mk.injEq, decide_eq_false_iff_not] at facts
    exact ⟨_, app, reached, facts⟩

end ShowdownCli.PsApp
