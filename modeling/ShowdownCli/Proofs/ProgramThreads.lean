import ShowdownCli.Program
import ShowdownCli.Proofs.AppDialogue
import ShowdownCli.Proofs.InboundDelivery
import ShowdownCli.Proofs.WsClientWrites

/-! The threads of the program. Each part of a run of the program is a run of that part
alone: the main loop on the messages it polled, the inbound queue and the websocket. So
what holds of the parts holds of the program, whatever the interleaving. -/

namespace ShowdownCli.Program
open Library

/-- The message that an access of the polling thread returns. -/
def yields (inbound : Inbound) : Inbound.Action → List Message
  | .poll =>
    match inbound.threads.consumer with
    | .read _ out => [out]
    | _ => []
  | _ => []

/-- The message that the main loop is given. -/
def hears : PsApp.Action → List Message
  | .message msg => [msg]
  | _ => []

/-- The frame that the websocket is given. -/
def writes : WsClient.Action → List String
  | .send message => [message]
  | _ => []

def heard (program : Program) : Action → List Message
  | .poll => yields program.inbound .poll
  | _ => []

/-- What the main loop does in a step. -/
def acted (program : Program) : Action → List PsApp.Action
  | .poll => (polled program.inbound).toList
  | .turn action => [action]
  | _ => []

/-- The turns of the main loop in a run of the program. -/
def processed (world : World) (actions : List Action) : List PsApp.Action := Runs.shown (step world) acted {} actions

def posts (program : Program) : Action → List String
  | .post => program.app.client.sent[program.posted]?.toList
  | _ => []

variable {world : World} {program after : Program} {action : Action}

theorem step_poll (taken : program.step world .poll = some after) :
    program.caughtUp ∧ program.app.phase = .network ∧ program.inbound.poll = some after.inbound ∧
      after.websocket = program.websocket ∧ after.posted = program.posted ∧
      match polled program.inbound with
      | none => after.app = program.app
      | some turn => program.app.step world turn = some after.app := by
  simp only [step] at taken
  split at taken
  next ready =>
    obtain ⟨inbound, moved, rest⟩ := Option.bind_eq_some_iff.mp taken
    cases returned : polled program.inbound with
    | none =>
      rw [returned] at rest
      cases rest
      exact ⟨ready.1, ready.2, moved, rfl, rfl, rfl⟩
    | some turn =>
      rw [returned] at rest
      obtain ⟨app, turned, made⟩ := Option.bind_eq_some_iff.mp rest
      cases made
      exact ⟨ready.1, ready.2, moved, rfl, rfl, turned⟩
  next => cases taken

theorem step_turn {turn : PsApp.Action} (taken : program.step world (.turn turn) = some after) :
    program.caughtUp ∧ hears turn = [] ∧
      ∃ app, program.app.step world turn = some app ∧ after = { program with app } := by
  simp only [step] at taken
  split at taken
  next ready =>
    refine ⟨ready, ?_⟩
    cases turn with
    | message | drained => cases taken
    | dispatch | line | render =>
      obtain ⟨app, turned, rfl⟩ := Option.map_eq_some_iff.mp taken
      exact ⟨rfl, app, turned, rfl⟩
  next => cases taken

theorem step_post (taken : program.step world .post = some after) :
    ∃ message websocket, program.app.client.sent[program.posted]? = some message ∧
      program.websocket.send message = some websocket ∧
      after = { program with websocket, posted := program.posted + 1 } := by
  obtain ⟨message, here, rest⟩ := Option.bind_eq_some_iff.mp taken
  obtain ⟨websocket, sent, made⟩ := Option.bind_eq_some_iff.mp rest
  exact ⟨message, websocket, here, sent, (Option.some.inj made).symm⟩

theorem step_strand (taken : program.step world .strand = some after) :
    ∃ websocket, program.websocket.run = some websocket ∧ after = { program with websocket } := by
  simp only [step] at taken
  split at taken
  next =>
    obtain ⟨websocket, ran, rfl⟩ := Option.map_eq_some_iff.mp taken
    exact ⟨websocket, ran, rfl⟩
  next => cases taken

theorem step_acted (taken : program.step world action = some after) :
    Runs.exec (PsApp.step world) program.app (acted program action) = some after.app := by
  cases action with
  | frame raw =>
    obtain ⟨inbound, _, rfl⟩ := Option.map_eq_some_iff.mp taken
    rfl
  | network =>
    obtain ⟨inbound, _, rfl⟩ := Option.map_eq_some_iff.mp taken
    rfl
  | strand =>
    obtain ⟨websocket, _, rfl⟩ := step_strand taken
    rfl
  | complete operation ec =>
    obtain ⟨websocket, _, rfl⟩ := Option.map_eq_some_iff.mp taken
    rfl
  | post =>
    obtain ⟨message, websocket, _, _, rfl⟩ := step_post taken
    rfl
  | poll =>
    obtain ⟨_, _, _, _, _, turned⟩ := step_poll taken
    simp only [acted]
    cases returned : polled program.inbound with
    | none =>
      simp only [returned] at turned
      rw [turned]
      rfl
    | some turn =>
      simp only [returned] at turned
      simp [turned]
  | turn action =>
    obtain ⟨_, _, app, turned, rfl⟩ := step_turn taken
    simp [acted, turned]

theorem heard_acted (taken : program.step world action = some after) :
    (acted program action).flatMap hears = heard program action := by
  cases action with
  | frame | network | strand | complete | post => rfl
  | poll =>
    simp only [acted, polled, heard, yields]
    cases program.inbound.threads.consumer with
    | idle | headLoaded | tested | read => rfl
    | tailLoaded head tail =>
      simp only
      split <;> rfl
  | turn action =>
    obtain ⟨_, silent, _⟩ := step_turn taken
    exact (List.flatMap_singleton hears action).trans silent

/-- The inbound queue, with the messages that it yields. -/
theorem inbound_refines : Runs.Refines (step world) Inbound.step heard yields
    fun program inbound => program.inbound = inbound := by
  apply Runs.Refines.view
  intro program action after taken
  cases action with
  | frame raw =>
    obtain ⟨inbound, received, rfl⟩ := Option.map_eq_some_iff.mp taken
    exact Or.inr ⟨.frame raw, received, rfl⟩
  | network =>
    obtain ⟨inbound, moved, rfl⟩ := Option.map_eq_some_iff.mp taken
    exact Or.inr ⟨.network, moved, rfl⟩
  | strand =>
    obtain ⟨websocket, _, rfl⟩ := step_strand taken
    exact Or.inl ⟨rfl, rfl⟩
  | complete operation ec =>
    obtain ⟨websocket, _, rfl⟩ := Option.map_eq_some_iff.mp taken
    exact Or.inl ⟨rfl, rfl⟩
  | post =>
    obtain ⟨message, websocket, _, _, rfl⟩ := step_post taken
    exact Or.inl ⟨rfl, rfl⟩
  | poll =>
    obtain ⟨_, _, moved, _⟩ := step_poll taken
    exact Or.inr ⟨.poll, moved, rfl⟩
  | turn action =>
    obtain ⟨_, _, app, _, rfl⟩ := step_turn taken
    exact Or.inl ⟨rfl, rfl⟩

/-- The websocket, with the frames that it is given. -/
theorem websocket_refines : Runs.Refines (step world) WsClient.step posts (fun _ => writes)
    fun program websocket => program.websocket = websocket := by
  apply Runs.Refines.view
  intro program action after taken
  cases action with
  | frame raw =>
    obtain ⟨inbound, _, rfl⟩ := Option.map_eq_some_iff.mp taken
    exact Or.inl ⟨rfl, rfl⟩
  | network =>
    obtain ⟨inbound, _, rfl⟩ := Option.map_eq_some_iff.mp taken
    exact Or.inl ⟨rfl, rfl⟩
  | strand =>
    obtain ⟨websocket, ran, rfl⟩ := step_strand taken
    exact Or.inr ⟨.run, ran, rfl⟩
  | complete operation ec =>
    obtain ⟨websocket, completed, rfl⟩ := Option.map_eq_some_iff.mp taken
    exact Or.inr ⟨.complete operation ec, completed, rfl⟩
  | post =>
    obtain ⟨message, websocket, here, sent, rfl⟩ := step_post taken
    exact Or.inr ⟨.send message, sent, by simp [posts, here, writes]⟩
  | poll =>
    obtain ⟨_, _, _, same, _⟩ := step_poll taken
    exact Or.inl ⟨same, rfl⟩
  | turn action =>
    obtain ⟨_, _, app, _, rfl⟩ := step_turn taken
    exact Or.inl ⟨rfl, rfl⟩

/-! ## What the parts tell of a run -/

theorem yields_returned {state next : Inbound} {input : Inbound.Action} (taken : state.step input = some next) :
    next.returned = state.returned ++ yields state input := by
  have aside (same : next.threads.popped = state.threads.popped) : next.returned = state.returned ++ [] := by
    rw [Inbound.returned, same, List.append_nil]
    rfl
  cases input with
  | frame raw =>
    simp only [Inbound.step, Inbound.receive] at taken
    split at taken
    next =>
      cases taken
      exact aside rfl
    next => cases taken
  | network =>
    rcases Inbound.network_cases taken with ⟨idle, msg, rest, _, threads, moved, rfl⟩ | ⟨_, threads, moved, rfl⟩
    · have started := Inbound.push_started idle moved
      subst started
      exact aside rfl
    · apply aside
      simp only [SPSCQueue.Threads.step, SPSCQueue.Threads.stepProducer] at moved
      repeat' split at moved
      all_goals
        cases moved
        try rfl
  | poll =>
    simp only [Inbound.step, Inbound.poll] at taken
    cases reader : state.threads.consumer <;>
      simp only [reader, SPSCQueue.Threads.step, SPSCQueue.Threads.stepConsumer] at taken <;>
      simp only [yields, reader]
    case tailLoaded head tail =>
      split at taken <;> cases taken <;> exact aside rfl
    case read head out =>
      cases taken
      rfl
    all_goals
      cases taken
      exact aside rfl

theorem shown_returned {inputs : List Inbound.Action} {state : Inbound}
    (reached : Runs.exec Inbound.step {} inputs = some state) :
    Runs.shown Inbound.step yields {} inputs = state.returned := by
  have tracked : Runs.exec Inbound.step {} inputs = some state ∧
      Runs.shown Inbound.step yields {} inputs = state.returned := by
    refine Runs.always (fun inputs state => Runs.exec Inbound.step {} inputs = some state ∧
      Runs.shown Inbound.step yields {} inputs = state.returned) ⟨rfl, rfl⟩ ?_ reached
    intro done input before next prior taken
    obtain ⟨earlier, same⟩ := prior
    refine ⟨?_, ?_⟩
    · rw [Runs.exec_concat, earlier]
      exact taken
    · rw [Runs.shown_concat earlier, same, yields_returned taken]
  exact tracked.2

theorem inbound_reached {actions : List Action} (reached : Runs.exec (step world) {} actions = some program) :
    (∃ arrivals, Runs.exec Inbound.step {} arrivals = some program.inbound) ∧
      Runs.shown (step world) heard {} actions = program.inbound.returned := by
  obtain ⟨inbound, ⟨arrivals, taken, same⟩, rfl⟩ := inbound_refines.run rfl reached
  exact ⟨⟨arrivals, taken⟩, same.symm.trans (shown_returned taken)⟩

/-- What the main loop has done is a run of it, on the messages that `poll` has returned. -/
theorem acted_reached {actions : List Action} (reached : Runs.exec (step world) {} actions = some program) :
    Runs.exec (PsApp.step world) PsApp.init (processed world actions) = some program.app ∧
      (processed world actions).flatMap hears = program.inbound.returned := by
  obtain ⟨_, returned⟩ := inbound_reached reached
  refine ⟨Runs.exec_shown (fun _ _ _ => step_acted) reached, ?_⟩
  rw [processed, Runs.shown_label (fun _ _ _ => heard_acted) reached, returned]

theorem sent_grows {app next : PsApp} {turns : List PsApp.Action} {turn : PsApp.Action}
    (reached : Runs.exec (PsApp.step world) PsApp.init turns = some app) (taken : app.step world turn = some next) :
    app.client.sent <+: next.client.sent := by
  have part : turns ⊆ turns ++ [turn] := List.subset_append_left ..
  obtain ⟨layered, seat, _, faithful⟩ := PsApp.spoken_within reached part
  obtain ⟨_, ⟨utterances, _, sent, _⟩, _⟩ :=
    PsApp.step_speaks layered faithful (PsApp.informed reached part) (by simp) taken
  exact ⟨utterances.map Utterance.frame, sent.symm⟩

/-- The frames posted so far are the first of those sent. -/
def Posted (world : World) (actions : List Action) (program : Program) : Prop :=
  program.posted ≤ program.app.client.sent.length ∧
    Runs.shown (step world) posts {} actions = program.app.client.sent.take program.posted

theorem Posted.grows {actions : List Action} (posted : Posted world actions program) (caughtUp : program.caughtUp)
    (sent : program.app.client.sent <+: after.app.client.sent) (same : after.posted = program.posted) :
    after.posted ≤ after.app.client.sent.length ∧
      Runs.shown (step world) posts {} actions = after.app.client.sent.take after.posted := by
  obtain ⟨more, grown⟩ := sent
  have all : program.posted = program.app.client.sent.length := beq_iff_eq.mp caughtUp
  rw [same, all, ← grown, List.take_left, posted.2, all, List.take_length]
  exact ⟨by simp, rfl⟩

theorem Posted.step {actions : List Action} (posted : Posted world actions program)
    (reached : Runs.exec (Program.step world) {} actions = some program) (taken : program.step world action = some after) :
    Posted world (actions ++ [action]) after := by
  rw [Posted, Runs.shown_concat reached]
  have still (app : after.app = program.app) (same : after.posted = program.posted) :
      after.posted ≤ after.app.client.sent.length ∧
        Runs.shown (Program.step world) posts {} actions ++ [] = after.app.client.sent.take after.posted := by
    rw [List.append_nil, app, same]
    exact posted
  obtain ⟨app, _⟩ := acted_reached reached
  cases action with
  | frame raw =>
    obtain ⟨inbound, _, rfl⟩ := Option.map_eq_some_iff.mp taken
    exact still rfl rfl
  | network =>
    obtain ⟨inbound, _, rfl⟩ := Option.map_eq_some_iff.mp taken
    exact still rfl rfl
  | strand =>
    obtain ⟨websocket, _, rfl⟩ := step_strand taken
    exact still rfl rfl
  | complete operation ec =>
    obtain ⟨websocket, _, rfl⟩ := Option.map_eq_some_iff.mp taken
    exact still rfl rfl
  | post =>
    obtain ⟨message, websocket, here, _, rfl⟩ := step_post taken
    obtain ⟨inside, _⟩ := List.getElem?_eq_some_iff.mp here
    refine ⟨inside, ?_⟩
    rw [posted.2, List.take_add_one]
    rfl
  | poll =>
    obtain ⟨caughtUp, _, _, _, same, turned⟩ := step_poll taken
    simp only [posts, List.append_nil]
    cases returned : polled program.inbound with
    | none =>
      simp only [returned] at turned
      rw [turned, same]
      exact posted
    | some turn =>
      simp only [returned] at turned
      exact posted.grows caughtUp (sent_grows app turned) same
  | turn action =>
    obtain ⟨caughtUp, _, next, turned, rfl⟩ := step_turn taken
    simp only [posts, List.append_nil]
    exact @Posted.grows world program { program with app := next } actions posted caughtUp (sent_grows app turned) rfl

theorem posted_reached {actions : List Action} (reached : Runs.exec (step world) {} actions = some program) :
    Posted world actions program := by
  have tracked : Runs.exec (step world) {} actions = some program ∧ Posted world actions program := by
    refine Runs.always (fun actions program => Runs.exec (step world) {} actions = some program ∧
      Posted world actions program) ⟨rfl, Nat.zero_le _, rfl⟩ ?_ reached
    intro done action before next prior taken
    obtain ⟨earlier, held⟩ := prior
    refine ⟨?_, held.step earlier taken⟩
    rw [Runs.exec_concat, earlier]
    exact taken
  exact tracked.2

theorem websocket_reached {actions : List Action} (reached : Runs.exec (step world) {} actions = some program) :
    ∃ handled, Runs.exec WsClient.step {} handled = some program.websocket ∧
      handled.flatMap writes = program.app.client.sent.take program.posted := by
  obtain ⟨websocket, ⟨handled, taken, same⟩, rfl⟩ := websocket_refines.run rfl reached
  rw [Runs.shown_inputs taken] at same
  exact ⟨handled, taken, same.trans (posted_reached reached).2⟩

/-- Every run of the program, however its threads take turns, is made of a run of the main
loop, a run of the inbound queue and a run of the websocket. What the main loop has processed is
what the queue has yielded, no more and no less, and the websocket is given the frames of the
client in order. -/
theorem composed {actions : List Action} (reached : Runs.exec (step world) {} actions = some program) :
    (Runs.exec (PsApp.step world) PsApp.init (processed world actions) = some program.app ∧
      (processed world actions).flatMap hears = program.inbound.returned) ∧
    (∃ arrivals, Runs.exec Inbound.step {} arrivals = some program.inbound) ∧
    ∃ handled, Runs.exec WsClient.step {} handled = some program.websocket ∧
      handled.flatMap writes = program.app.client.sent.take program.posted := by
  obtain ⟨arrivals, _⟩ := inbound_reached reached
  exact ⟨acted_reached reached, arrivals, websocket_reached reached⟩

private def quietWorld : World := { parse := fun _ => none, assertions := fun _ => "" }

/-- The menu opens while the network thread is still pushing the message that is heard then. -/
private def greeted : List Action :=
  [.frame ['|', 'w', 'i', 'n', '|', 'A', 's', 'h'], .network, .poll, .network, .poll, .poll, .turn .dispatch, .network,
    .network, .network, .turn .dispatch, .turn (.line none), .turn .render, .poll, .poll, .poll, .poll, .poll]

theorem composed_greeted :
    ∃ program, Runs.exec (step quietWorld) {} greeted = some program ∧ program.inbound.returned.length = 1 ∧
      (Runs.exec (PsApp.step quietWorld) PsApp.init (processed quietWorld greeted) = some program.app ∧
        (processed quietWorld greeted).flatMap hears = program.inbound.returned) ∧
      (∃ arrivals, Runs.exec Inbound.step {} arrivals = some program.inbound) ∧
      ∃ handled, Runs.exec WsClient.step {} handled = some program.websocket ∧
        handled.flatMap writes = program.app.client.sent.take program.posted := by
  have run : (Runs.exec (step quietWorld) {} greeted).map (fun program => program.inbound.returned.length) = some 1 := by
    decide +kernel
  obtain ⟨program, reached, one⟩ := Option.map_eq_some_iff.mp run
  exact ⟨program, reached, one, composed reached⟩

end ShowdownCli.Program
