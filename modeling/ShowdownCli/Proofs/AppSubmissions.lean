import ShowdownCli.Proofs.AppLayers

/-! How many events a delivery submits. A layer submits at most one, and only a
battle answers a message; what no longer fits into the queue is dropped. -/

namespace ShowdownCli
open Library

/-- A battle answers these messages with an event. -/
def Message.announces (msg : Message) : Bool := msg.type ∈ ["request", "win", "tie"]

variable {world : World} {this : Nat} {client : PsClient} {event : Event} {msg : Message}

theorem BattleLayer.message {battle : BattleLayer} {reaction : Reaction BattleLayer}
    (reacted : battle.onMessage world this client msg = .ok reaction) :
    reaction.handled = true ∧ reaction.submitted.length = if msg.announces then 1 else 0 := by
  unfold onMessage at reacted
  split at reacted
  next => cases reacted
  next =>
    split at reacted
    next search =>
      obtain ⟨payload, _, found⟩ := except_bind_ok.mp reacted
      obtain ⟨searched, _, done⟩ := except_bind_ok.mp found
      cases done
      simp [Message.announces, search.1]
    next =>
      split at reacted
      next ended =>
        cases reacted
        simp only [Message.announces]
        rcases ended with win | tie
        · simp [win]
        · simp [tie]
      next other =>
        rw [not_or] at other
        split at reacted
        next asked =>
          cases reacted
          simp [Message.announces, asked]
        next unasked =>
          cases reacted
          simp [Message.announces, other, unasked]

theorem MenuLayer.message {reaction : Reaction Unit} (reacted : MenuLayer.onMessage client msg = .ok reaction) :
    reaction.handled = true ∧ reaction.submitted = [] := by
  unfold onMessage at reacted
  split at reacted
  next =>
    obtain ⟨winner, _, shown⟩ := except_bind_ok.mp reacted
    cases shown
    exact ⟨rfl, rfl⟩
  next =>
    cases reacted
    exact ⟨rfl, rfl⟩

theorem Layer.message {layer : Layer} {reaction : Reaction Layer}
    (reacted : layer.onEvent world this client (.message msg) = .ok reaction) :
    reaction.handled = decide (layer.kind ≠ .login) ∧
      reaction.submitted.length = if layer.kind = .battle ∧ msg.announces then 1 else 0 := by
  cases layer with
  | menu =>
    obtain ⟨inner, shown, rfl⟩ := except_map_ok.mp reacted
    obtain ⟨handled, silent⟩ := MenuLayer.message shown
    exact ⟨handled, by simp [Reaction.map, silent, Layer.kind]⟩
  | login overlay =>
    cases reacted
    exact ⟨rfl, rfl⟩
  | battle battleLayer =>
    obtain ⟨inner, shown, rfl⟩ := except_map_ok.mp reacted
    obtain ⟨handled, answered⟩ := BattleLayer.message shown
    exact ⟨handled, by simpa [Reaction.map, Layer.kind] using answered⟩

/-- A layer stays of its kind, and of the layers only the menu lets a command pass. -/
theorem Layer.command {cmd : String} {layer : Layer} {reaction : Reaction Layer}
    (reacted : layer.onEvent world this client (.command cmd) = .ok reaction) :
    reaction.layer.kind = layer.kind ∧ reaction.submitted.length ≤ 1 ∧ (layer.kind ≠ .menu → reaction.handled = true) := by
  by_cases quit : cmd = "q"
  · cases layer with
    | menu =>
      subst quit
      cases reacted
      exact ⟨rfl, Nat.le_refl 1, fun other => absurd rfl other⟩
    | login overlay =>
      cases reacted
      have reacts : Reacts this .login (.command cmd) _ (overlay.onEvent world this client (.command cmd)).handled :=
        overlay.reacts
      exact ⟨rfl, reacts.single, fun _ => reacts.command cmd rfl⟩
    | battle battleLayer =>
      obtain ⟨inner, shown, rfl⟩ := except_map_ok.mp reacted
      have reacts := BattleLayer.reacts shown
      exact ⟨rfl, reacts.single, fun _ => reacts.command cmd rfl⟩
  · obtain ⟨kind, reacts⟩ := Layer.reacts (by simpa using quit) reacted
    exact ⟨kind, reacts.single, fun _ => reacts.command cmd rfl⟩

theorem Layer.onEvent_kind {layer : Layer} {reaction : Reaction Layer}
    (reacted : layer.onEvent world this client event = .ok reaction) : reaction.layer.kind = layer.kind := by
  by_cases quit : event = .command "q"
  · subst quit
    exact (Layer.command reacted).1
  · exact (Layer.reacts quit reacted).1

namespace PsApp
variable {app middle after : PsApp} {events : List Event} {layers : List Nat}

/-- These events were submitted. The queue has those of them for which there was room. -/
structure Submitted (app after : PsApp) (events : List Event) : Prop where
  submitted : after.submitted = app.submitted ++ events
  queue : after.eventQueue.contents = (app.eventQueue.contents ++ events.map some).take 63
  running : after.running = app.running

theorem pending_le (app : PsApp) : app.eventQueue.contents.length ≤ 63 := by
  have short := app.eventQueue.held_lt
  rw [SPSCQueue.contents_length]
  omega

theorem Submitted.refl (app : PsApp) : Submitted app app [] where
  submitted := (List.append_nil _).symm
  queue := by simpa using (List.take_of_length_le app.pending_le).symm
  running := rfl

theorem take_take_append {α : Type} (n : Nat) (first rest : List α) :
    (first.take n ++ rest).take n = (first ++ rest).take n := by
  rw [List.take_append, List.take_append, List.take_take, Nat.min_self, List.length_take]
  congr 2
  omega

theorem Submitted.trans {later : List Event} (first : Submitted app middle events)
    (last : Submitted middle after later) : Submitted app after (events ++ later) where
  submitted := by rw [last.submitted, first.submitted, List.append_assoc]
  queue := by
    rw [last.queue, first.queue, take_take_append, List.map_append, List.append_assoc]
  running := last.running.trans first.running

theorem submit_one (app : PsApp) (e : Event) : Submitted app (app.submit e) [e] := by
  refine ⟨rfl, ?_, rfl⟩
  have short := app.pending_le
  by_cases room : app.eventQueue.contents.length + 1 < 64
  · have short : (app.eventQueue.contents ++ [e].map some).length ≤ 63 := by
      rw [List.length_append, List.length_map, List.length_singleton]
      omega
    rw [List.take_of_length_le short]
    exact (SPSCQueue.push_room room (some e)).2
  · have full : 64 ≤ app.eventQueue.contents.length + 1 := by omega
    rw [List.take_append_of_le_length (by omega), List.take_of_length_le short]
    exact congrArg (fun pushed => pushed.2.contents) (SPSCQueue.push_full full (some e))

theorem submits_all (app : PsApp) (events : List Event) : Submitted app (events.foldl submit app) events := by
  induction events generalizing app with
  | nil => exact .refl app
  | cons e rest ih => exact (app.submit_one e).trans (ih (app.submit e))

theorem react_submits (app : PsApp) (layer : Nat) (reaction : Reaction Layer) :
    Submitted app (app.react layer reaction) reaction.submitted := by
  have all := submits_all { app with
    client := reaction.client
    objects := app.objects.set layer (some reaction.layer)
    printed := app.printed ++ reaction.printed } reaction.submitted
  exact ⟨all.submitted, all.queue, all.running⟩

/-- Delivering an event changes nothing of a layer's kind and nothing of the stack. -/
theorem offer_frame (offered : offer world event layers app = .ok after) : Frame app after := by
  apply offer_always Frame.refl Frame.trans ?_ offered
  intro app layer object reaction _ found reacted
  exact (react_frame found (Layer.onEvent_kind reacted)).1

theorem offer_submits (offered : offer world event layers app = .ok after) :
    ∃ events, Submitted app after events := by
  apply offer_always ?_ ?_ ?_ offered
  · exact fun app => ⟨[], .refl app⟩
  · intro app middle after first last
    obtain ⟨events, submitted⟩ := first
    obtain ⟨more, later⟩ := last
    exact ⟨events ++ more, submitted.trans later⟩
  · intro app layer object reaction _ _ _
    exact ⟨reaction.submitted, react_submits app layer reaction⟩

/-- The layer that handles a message: the first that is not a login overlay. -/
def receiver (app : PsApp) (layers : List Nat) : Option LayerKind :=
  layers.findSome? fun layer => app.kinds[layer]?.join.filter (· ≠ .login)

theorem offer_message (offered : offer world (.message msg) layers app = .ok after) :
    ∃ events, Submitted app after events ∧
      events.length = if app.receiver layers = some .battle ∧ msg.announces then 1 else 0 := by
  induction layers generalizing app with
  | nil =>
    cases offered
    exact ⟨[], .refl _, rfl⟩
  | cons layer below ih =>
    obtain ⟨object, found, rest⟩ := except_bind_ok.mp offered
    obtain ⟨reaction, reacted, rest⟩ := except_bind_ok.mp rest
    obtain ⟨handled, count⟩ := Layer.message reacted
    have submitted := react_submits app layer reaction
    have frame := (react_frame found (Layer.onEvent_kind reacted)).1
    have here := object_kind found
    rw [handled] at rest
    by_cases login : object.kind = .login
    · rw [if_neg (by simp [login])] at rest
      obtain ⟨events, later, total⟩ := ih rest
      have silent : reaction.submitted = [] := List.length_eq_zero_iff.mp (by simpa [login] using count)
      rw [silent] at submitted
      refine ⟨events, submitted.trans later, ?_⟩
      rw [total]
      simp [receiver, here, login, frame.kinds]
    · rw [if_pos (by simp [login])] at rest
      cases rest
      refine ⟨reaction.submitted, submitted, ?_⟩
      rw [count]
      simp [receiver, here, login]

/-- A command is answered at most once, if nothing is below a menu that it reaches. -/
theorem offer_command_submits {cmd : String} (offered : offer world (.command cmd) layers app = .ok after)
    (bottom : ∀ top below, layers = top :: below → below = [] ∨ app.kinds[top]? ≠ some (some .menu)) :
    ∃ events, Submitted app after events ∧ events.length ≤ 1 := by
  cases layers with
  | nil =>
    cases offered
    exact ⟨[], .refl _, Nat.zero_le 1⟩
  | cons top below =>
    obtain ⟨object, found, rest⟩ := except_bind_ok.mp offered
    obtain ⟨reaction, reacted, rest⟩ := except_bind_ok.mp rest
    obtain ⟨_, single, handled⟩ := Layer.command reacted
    have submitted := react_submits app top reaction
    refine ⟨reaction.submitted, ?_, single⟩
    split at rest
    next =>
      cases rest
      exact submitted
    next passed =>
      rcases bottom top below rfl with rfl | other
      · cases rest
        exact submitted
      · refine absurd (handled fun menu => other ?_) passed
        rw [object_kind found, menu]

theorem offer_other_submits (command : ∀ cmd, event ≠ .command cmd) (message : ∀ msg, event ≠ .message msg)
    (offered : offer world event layers app = .ok after) : Submitted app after [] := by
  apply offer_always Submitted.refl Submitted.trans ?_ offered
  intro app layer object reaction _ _ reacted
  have reacts := (Layer.reacts (command "q") reacted).2
  have silent : reaction.submitted = [] := by
    rw [List.eq_nil_iff_forall_not_mem]
    exact fun answer member => unanswered command message (reacts.answers answer member)
  have submitted := react_submits app layer reaction
  rwa [silent] at submitted

/-! ## Phases -/

theorem handle_phase (handled : handle app event = .ok after) :
    after.phase = if event = .command "q" then .events true else app.phase := by
  cases event with
  | command cmd =>
    cases handled
    by_cases quit : cmd = "q"
    · simp [quit]
    · simp [quit]
  | layerPush | layerPop =>
    obtain ⟨_, _, _, _, _, rfl⟩ := perform_ok handled
    rfl
  | login | battleSearch =>
    have attached := (perform_attach app _).symm.trans handled
    cases attached
    rfl
  | battleJoin | message =>
    cases handled
    rfl

theorem process_phase (processed : process world app event = .ok after) :
    after.phase = if event = .command "q" then .events true else app.phase := by
  obtain ⟨handled, handling, delivered⟩ := except_bind_ok.mp processed
  rw [(offer_frame delivered).phase, handle_phase handling]

end PsApp
end ShowdownCli
