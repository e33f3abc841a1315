import ShowdownCli.Proofs.ProgramThreads

/-! What the program passes on, from end to end. A message may be lost on its way to the
main loop but none is heard twice or out of order, and what reaches the server is a
beginning of what the client has sent. -/

namespace ShowdownCli
open Library

namespace Inbound
open SPSCQueue
variable {state after : Inbound}

/-- A push keeps its message or drops it. -/
theorem producer_sublist {threads next : SPSCQueue.Threads Message 256} (moved : threads.step .producer = some next) :
    (next.pushed ++ inFlight next.producer).Sublist (threads.pushed ++ inFlight threads.producer) := by
  simp only [Threads.step, Threads.stepProducer] at moved
  cases writer : threads.producer with
  | idle => simp [writer] at moved
  | tailLoaded msg head tail =>
    simp only [writer] at moved
    split at moved
    next =>
      cases moved
      exact (List.Sublist.refl _).append (List.nil_sublist _)
    next =>
      cases moved
      exact .refl _
  | headLoaded msg head | tested msg tail =>
    simp only [writer, Option.some.injEq] at moved
    subst moved
    exact .refl _
  | written msg tail =>
    simp only [writer, Option.some.injEq] at moved
    subst moved
    simp [inFlight]

/-- What has been pushed, is being pushed and is waiting to be, in the order of the frames. -/
def InTurn (state : Inbound) : Prop :=
  (state.threads.pushed ++ inFlight state.threads.producer ++ state.batch).Sublist state.sent

theorem InTurn.step (inTurn : InTurn state) {action : Action} (taken : state.step action = some after) :
    InTurn after := by
  cases action with
  | frame raw =>
    simp only [Inbound.step, receive] at taken
    split at taken
    next idle handled =>
      cases taken
      unfold InTurn at *
      rw [handled, idle, List.append_nil] at inTurn
      simp only [sent, idle, List.flatMap_append, List.flatMap_singleton] at inTurn ⊢
      exact inTurn.append (.refl _)
    next => cases taken
  | network =>
    unfold InTurn at *
    rcases network_cases taken with ⟨idle, msg, rest, waiting, threads, moved, rfl⟩ | ⟨_, threads, moved, rfl⟩
    · have started := push_started idle moved
      subst started
      rw [idle, waiting] at inTurn
      simp only [inFlight, List.append_nil] at inTurn
      simp only [inFlight, List.append_assoc, List.singleton_append]
      exact inTurn
    · exact ((producer_sublist moved).append (.refl state.batch)).trans inTurn
  | poll =>
    have aside := poll_aside taken
    unfold InTurn at *
    simp only [sent] at inTurn ⊢
    rw [aside.pushed, aside.producer, aside.batch, aside.received]
    exact inTurn

theorem InTurn.initial : InTurn {} := List.Sublist.refl []

theorem inTurn {actions : List Action} (reached : Runs.exec Inbound.step {} actions = some state) : InTurn state :=
  Runs.always (fun _ => InTurn) .initial (fun _ _ _ _ prior taken => prior.step taken) reached

/-- However many messages are lost, those returned keep their order, each returned once. -/
theorem returned_sublist {actions : List Action} (reached : Runs.exec Inbound.step {} actions = some state) :
    state.returned.Sublist state.sent := by
  have delivered := (Accounted.reached reached).ordered.delivered.sublist
  have pushed := (List.sublist_append_left state.threads.pushed (inFlight state.threads.producer)).trans
    (List.sublist_append_left _ state.batch)
  exact (delivered.trans pushed).trans (inTurn reached)

/-- As long as no push has been refused the messages returned are the first of those sent. -/
theorem returned_prefix {actions : List Action} (reached : Runs.exec Inbound.step {} actions = some state)
    (kept : state.threads.refused = []) : state.returned <+: state.sent := by
  have accounted := Accounted.reached reached
  rw [accounted.whole kept, List.append_assoc]
  exact accounted.ordered.delivered.trans (List.prefix_append ..)

end Inbound

theorem Utterance.frame_ne (utterance : Utterance) : utterance.frame ≠ "" := by
  intro empty
  have nothing := congrArg String.toList empty
  cases utterance with
  | search => simp [frame] at nothing
  | login username assertion => simp [frame, String.toList_append] at nothing
  | join room => simp [frame, String.toList_append] at nothing
  | order room given =>
    simp only [frame, String.toList_append] at nothing
    obtain ⟨_, text⟩ := List.append_eq_nil_iff.mp nothing
    cases given with
    | switch pick => simp [Order.text, String.toList_append] at text
    | move pick tera => simp [Order.text, String.toList_append] at text
    | forfeit => simp [Order.text] at text
    | timer on => cases on <;> simp [Order.text] at text

namespace WsClient

theorem format_some {message : String} (filled : message ≠ "") : ∃ formattedMsg, format message = some formattedMsg := by
  have characters : message.toList ≠ [] := fun none => filled (String.toList_eq_nil_iff.mp none)
  rw [format, List.getLast?_eq_some_getLast characters]
  exact ⟨_, rfl⟩

theorem doWrite_aside {ws after : WsClient} (began : ws.doWrite = some after) :
    after.posted = ws.posted ∧ after.strand = ws.strand := by
  obtain ⟨front, _, rfl⟩ := Option.map_eq_some_iff.mp began
  exact ⟨rfl, rfl⟩

theorem run_aside {ws after : WsClient} (ran : ws.run = some after) :
    after.posted = ws.posted ∧ after.strand = ws.strand.tail := by
  unfold run at ran
  split at ran
  next => cases ran
  next handler rest strand =>
    rw [strand]
    cases handler with
    | push formattedMsg =>
      simp only [handle, onPush] at ran
      split at ran
      next => exact doWrite_aside ran
      next =>
        cases ran
        exact ⟨rfl, rfl⟩
    | written write ec =>
      simp only [handle, onWritten] at ran
      repeat' split at ran
      case h_2.isTrue => exact doWrite_aside ran
      all_goals
        cases ran
        try exact ⟨rfl, rfl⟩

/-- What is posted to the strand are the frames given, with their line ends. -/
theorem posted_formats {actions : List Action} {ws : WsClient} (reached : Runs.exec step {} actions = some ws) :
    ws.posted.map some = (actions.flatMap Program.writes).map format := by
  refine Runs.always (fun actions ws => ws.posted.map some = (actions.flatMap Program.writes).map format) rfl ?_ reached
  intro done action before after prior taken
  rw [List.flatMap_append, List.map_append, List.flatMap_singleton, ← prior]
  cases action with
  | send message =>
    obtain ⟨formattedMsg, formatted, rfl⟩ := Option.map_eq_some_iff.mp taken
    simp [Program.writes, formatted]
  | complete operation ec =>
    obtain ⟨write, _, rfl⟩ := Option.map_eq_some_iff.mp taken
    simp [Program.writes]
  | run =>
    rw [(run_aside taken).1]
    simp [Program.writes]

end WsClient

namespace Program
variable {world : World} {program : Program}

theorem sent_ne {app : PsApp} {turns : List PsApp.Action}
    (reached : Runs.exec (PsApp.step world) PsApp.init turns = some app) : ∀ frame ∈ app.client.sent, frame ≠ "" := by
  obtain ⟨_, seat, ⟨utterances, _, sent, _⟩, _⟩ := PsApp.spoken reached
  rw [sent]
  intro frame member
  rcases List.mem_append.mp member with begun | said
  · cases begun
  · obtain ⟨utterance, _, rfl⟩ := List.mem_map.mp said
    exact utterance.frame_ne

theorem formatted {frames : List String} (filled : ∀ frame ∈ frames, frame ≠ "") :
    ∃ lines : List String, frames.map WsClient.format = lines.map some := by
  induction frames with
  | nil => exact ⟨[], rfl⟩
  | cons frame rest ih =>
    obtain ⟨line, formatted⟩ := WsClient.format_some (filled frame List.mem_cons_self)
    obtain ⟨lines, others⟩ := ih fun other member => filled other (List.mem_cons_of_mem _ member)
    exact ⟨line :: lines, by rw [List.map_cons, List.map_cons, formatted, others]⟩

/-- What is written is a beginning of the frames sent, each with its line end. -/
theorem written {actions : List Action} (reached : Runs.exec (step world) {} actions = some program) :
    ∃ lines, program.app.client.sent.map WsClient.format = lines.map some ∧ program.websocket.completed <+: lines := by
  obtain ⟨app, _⟩ := acted_reached reached
  obtain ⟨handled, websocket, given⟩ := websocket_reached reached
  obtain ⟨lines, formats⟩ := formatted (sent_ne app)
  obtain ⟨gone, ordered⟩ := WsClient.ordered websocket
  have posted := WsClient.posted_formats websocket
  rw [given, List.map_take, formats, ← List.map_take] at posted
  have first : program.websocket.posted = lines.take program.posted :=
    List.map_injective_iff.mpr (fun _ _ => Option.some.inj) posted
  have completed := ordered.completed_prefix
  rw [first] at completed
  exact ⟨lines, formats, completed.trans (List.take_prefix ..)⟩

/-- Between the frames of the server and the main loop, and between the client and the
server, whatever the interleaving: what the main loop has processed is what the queue has
returned, messages of the frames received in their order and each once, and the first of them
without exception as long as no push was refused; what is written is a beginning of what the client has sent, each frame with its
line end; and every frame that has been sent can be posted. -/
theorem end_to_end {actions : List Action} (reached : Runs.exec (step world) {} actions = some program) :
    ∃ lines, Runs.exec (PsApp.step world) PsApp.init (processed world actions) = some program.app ∧
      (processed world actions).flatMap hears = program.inbound.returned ∧
      ((processed world actions).flatMap hears).Sublist (program.inbound.received.flatMap parseMessage) ∧
      (program.inbound.threads.refused = [] →
        (processed world actions).flatMap hears <+: program.inbound.received.flatMap parseMessage) ∧
      program.app.client.sent.map WsClient.format = lines.map some ∧ program.websocket.completed <+: lines ∧
      (program.posted < program.app.client.sent.length → ∃ after, program.step world .post = some after) := by
  obtain ⟨app, heard⟩ := acted_reached reached
  obtain ⟨⟨arrivals, inbound⟩, _⟩ := inbound_reached reached
  obtain ⟨lines, formats, written⟩ := written reached
  have filled := sent_ne app
  refine ⟨lines, app, heard, ?_, ?_, formats, written, ?_⟩
  · rw [heard]
    exact Inbound.returned_sublist inbound
  · intro kept
    rw [heard]
    exact Inbound.returned_prefix inbound kept
  · intro waiting
    obtain ⟨formattedMsg, formats⟩ := WsClient.format_some (filled _ (List.getElem_mem waiting))
    simp [step, post, List.getElem?_eq_getElem waiting, WsClient.send, formats]

private def mutedWorld : World := { parse := fun _ => none, assertions := fun _ => "" }

/-- A search is sent, and written while the answer to it arrives. -/
private def sought : List Action :=
  [.poll, .poll, .poll, .turn .dispatch, .turn .dispatch, .turn (.line (some "1")), .turn .render, .poll, .poll, .poll,
    .turn .dispatch, .turn .dispatch, .post, .strand, .turn .dispatch, .frame ['|', 't', 'i', 'e'], .network, .network,
    .complete 0 false, .network, .network, .network, .strand, .turn (.line none), .turn .render, .poll, .poll, .poll,
    .poll, .poll]

theorem end_to_end_sought :
    ∃ program, Runs.exec (step mutedWorld) {} sought = some program ∧
      program.websocket.completed = ["|/search gen9randombattle\n"] ∧
      ∃ lines, Runs.exec (PsApp.step mutedWorld) PsApp.init (processed mutedWorld sought) = some program.app ∧
        (processed mutedWorld sought).flatMap hears = program.inbound.returned ∧
        ((processed mutedWorld sought).flatMap hears).Sublist (program.inbound.received.flatMap parseMessage) ∧
        (program.inbound.threads.refused = [] →
          (processed mutedWorld sought).flatMap hears <+: program.inbound.received.flatMap parseMessage) ∧
        program.app.client.sent.map WsClient.format = lines.map some ∧ program.websocket.completed <+: lines ∧
        (program.posted < program.app.client.sent.length → ∃ after, program.step mutedWorld .post = some after) := by
  have run : (Runs.exec (step mutedWorld) {} sought).map (fun program => program.websocket.completed) =
      some ["|/search gen9randombattle\n"] := by decide +kernel
  obtain ⟨program, reached, written⟩ := Option.map_eq_some_iff.mp run
  exact ⟨program, reached, written, end_to_end reached⟩

end Program
end ShowdownCli
