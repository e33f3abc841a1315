import ShowdownCli.Inbound
import ShowdownCli.Proofs.QueueOrder

/-! Inbound delivery. Order is never lost, but a message that arrives when the ring
is full is: its push returns false and the read loop goes on. A run loses nothing
exactly when every push starts with a free slot. -/

namespace ShowdownCli.Inbound
open Library SPSCQueue

/-- The messages of all frames received, in order. -/
def sent (state : Inbound) : List Message := state.received.flatMap parseMessage

/-- What `poll` has returned. -/
def returned (state : Inbound) : List Message := state.threads.popped

/-- All frames are handled, and a poll that starts now returns false. -/
structure Quiet (state : Inbound) : Prop where
  handled : state.threads.producer = .idle ∧ state.batch = []
  drained : state.threads.consumer = .idle ∧ state.threads.shared.pop = none

instance (state : Inbound) : Decidable (Quiet state) :=
  decidable_of_iff ((state.threads.producer = .idle ∧ state.batch = []) ∧
      state.threads.consumer = .idle ∧ state.threads.shared.pop.isNone = true)
    ⟨fun ⟨handled, drained⟩ => ⟨handled, drained.imp_right Option.isNone_iff_eq_none.mp⟩,
      fun quiet => ⟨quiet.handled, quiet.drained.imp_right Option.isNone_iff_eq_none.mpr⟩⟩

/-- A push that starts finds a slot free, by the two indices. -/
def HasRoom (state : Inbound) (action : Action) : Prop :=
  action = .network → state.threads.producer = .idle → state.threads.shared.held < 255

/-- The message of the push that is running. -/
def inFlight {n : Nat} : Producer Message n → List Message
  | .idle => []
  | .headLoaded msg _ | .tailLoaded msg _ _ | .tested msg _ | .written msg _ => [msg]

/-- The running push is going to return false. -/
def Doomed (state : Inbound) : Prop :=
  match state.threads.producer with
  | .headLoaded _ head => head = Ring.next state.threads.shared.tail
  | .tailLoaded _ head tail => head = Ring.next tail
  | _ => False

theorem held_full (queue : SPSCQueue Message 256) : queue.held < 255 ↔ queue.head ≠ Ring.next queue.tail := by
  have head := queue.head.isLt
  have tail := queue.tail.isLt
  rw [Ne, Fin.ext_iff]
  simp only [held, Ring.next, Ring.slot]
  omega

/-- How the messages of the frames are accounted for. -/
structure Accounted (state : Inbound) : Prop where
  ordered : Threads.Ordered (by decide) state.threads
  total : state.sent.length = state.threads.pushed.length + state.threads.refused.length +
    (inFlight state.threads.producer).length + state.batch.length
  whole : state.threads.refused = [] →
    state.sent = state.threads.pushed ++ inFlight state.threads.producer ++ state.batch

/-- A poll leaves the network thread's side alone. -/
structure Aside (state after : Inbound) : Prop where
  producer : after.threads.producer = state.threads.producer
  pushed : after.threads.pushed = state.threads.pushed
  refused : after.threads.refused = state.threads.refused
  tail : after.threads.shared.tail = state.threads.shared.tail
  received : after.received = state.received
  batch : after.batch = state.batch

variable {state after : Inbound}

theorem poll_aside (taken : state.step .poll = some after) : Aside state after := by
  simp only [step, poll] at taken
  cases reader : state.threads.consumer <;> simp only [reader, Threads.step, Threads.stepConsumer] at taken
  case tailLoaded head tail =>
    split at taken <;> cases taken <;> exact ⟨rfl, rfl, rfl, rfl, rfl, rfl⟩
  all_goals
    cases taken
    exact ⟨rfl, rfl, rfl, rfl, rfl, rfl⟩

theorem poll_ordered (ordered : Threads.Ordered (by decide) state.threads) (taken : state.step .poll = some after) :
    Threads.Ordered (by decide) after.threads := by
  simp only [step, poll] at taken
  split at taken
  all_goals
    obtain ⟨threads, moved, rfl⟩ := Option.map_eq_some_iff.mp taken
    exact ordered.step moved

/-- The network thread starts a push or goes on with the one it is in. -/
theorem network_cases (taken : state.step .network = some after) :
    (state.threads.producer = .idle ∧ ∃ msg rest, state.batch = msg :: rest ∧
      ∃ threads, state.threads.step (.push msg) = some threads ∧ after = { state with threads, batch := rest }) ∨
    (state.threads.producer ≠ .idle ∧
      ∃ threads, state.threads.step .producer = some threads ∧ after = { state with threads }) := by
  simp only [step, network] at taken
  split at taken
  next => cases taken
  next msg rest idle waiting =>
    obtain ⟨threads, moved, rfl⟩ := Option.map_eq_some_iff.mp taken
    exact Or.inl ⟨idle, msg, rest, waiting, threads, moved, rfl⟩
  next starting resting =>
    obtain ⟨threads, moved, rfl⟩ := Option.map_eq_some_iff.mp taken
    refine Or.inr ⟨fun idle => ?_, threads, moved, rfl⟩
    cases waiting : state.batch with
    | nil => exact starting idle waiting
    | cons msg rest => exact resting msg rest idle waiting

theorem push_started {threads next : SPSCQueue.Threads Message 256} {msg : Message} (idle : threads.producer = .idle)
    (moved : threads.step (.push msg) = some next) :
    next = { threads with producer := .headLoaded msg threads.shared.head } := by
  rw [Threads.step, idle] at moved
  exact (Option.some.inj moved).symm

/-- Going on with a push keeps its message in the account. -/
theorem producer_accounts {threads next : SPSCQueue.Threads Message 256}
    (moved : threads.step .producer = some next) :
    next.pushed.length + next.refused.length + (inFlight next.producer).length =
        threads.pushed.length + threads.refused.length + (inFlight threads.producer).length ∧
      (next.refused = [] → threads.refused = [] ∧
        next.pushed ++ inFlight next.producer = threads.pushed ++ inFlight threads.producer) := by
  simp only [Threads.step, Threads.stepProducer] at moved
  cases writer : threads.producer with
  | idle => simp [writer] at moved
  | tailLoaded msg head tail =>
    simp only [writer] at moved
    split at moved <;> cases moved
    · exact ⟨by simp only [inFlight, List.length_append, List.length_cons, List.length_nil]; omega, by simp⟩
    · exact ⟨rfl, by simp [inFlight]⟩
  | headLoaded msg head | tested msg tail | written msg tail =>
    simp only [writer, Option.some.injEq] at moved
    subst moved
    exact ⟨by simp [inFlight] <;> omega, by simp [inFlight]⟩

theorem Accounted.step (accounted : Accounted state) {action : Action} (taken : state.step action = some after) :
    Accounted after := by
  obtain ⟨ordered, total, whole⟩ := accounted
  cases action with
  | frame raw =>
    simp only [Inbound.step, receive] at taken
    split at taken
    next idle handled =>
      cases taken
      rw [handled, idle] at total whole
      refine ⟨ordered, ?_, fun nothing => ?_⟩
      · simp only [sent, inFlight, idle, List.flatMap_append, List.length_append, List.flatMap_singleton] at total ⊢
        simp at total ⊢
        omega
      · have before := whole nothing
        simp only [sent, inFlight, idle, List.append_nil, List.flatMap_append, List.flatMap_singleton] at before ⊢
        rw [before]
    · cases taken
  | network =>
    rcases network_cases taken with ⟨idle, msg, rest, waiting, threads, moved, rfl⟩ | ⟨_, threads, moved, rfl⟩
    · refine ⟨ordered.step moved, ?_, ?_⟩
      all_goals
        have started := push_started idle moved
        subst started
        simp only [idle, waiting, inFlight, sent, List.append_nil, List.append_assoc, List.singleton_append,
          List.length_cons, List.length_nil] at total whole ⊢
      · omega
      · exact whole
    · obtain ⟨counts, keeps⟩ := producer_accounts moved
      refine ⟨ordered.step moved, ?_, fun nothing => ?_⟩
      · simp only [sent] at total ⊢
        omega
      · obtain ⟨before, same⟩ := keeps nothing
        simp only [sent] at whole ⊢
        rw [same, whole before]
  | poll =>
    have aside := poll_aside taken
    refine ⟨poll_ordered ordered taken, ?_, ?_⟩
    · simpa only [sent, aside.received, aside.pushed, aside.refused, aside.producer, aside.batch] using total
    · simpa only [sent, aside.received, aside.pushed, aside.refused, aside.producer, aside.batch] using whole

theorem Accounted.initial : Accounted {} := ⟨Threads.Ordered.initial _, rfl, fun _ => rfl⟩

/-- A push is refused in the end exactly when it started without room. -/
def Kept (state : Inbound) : Prop := state.threads.refused = [] ∧ ¬ Doomed state

theorem kept_step {action : Action} (taken : state.step action = some after) :
    Kept after ↔ Kept state ∧ HasRoom state action := by
  cases action with
  | frame raw =>
    simp only [step, receive] at taken
    split at taken
    · cases taken
      simp [Kept, Doomed, HasRoom]
    · cases taken
  | network =>
    rcases network_cases taken with ⟨idle, msg, rest, waiting, threads, moved, rfl⟩ | ⟨busy, threads, moved, rfl⟩
    · have started := push_started idle moved
      subst started
      simp [Kept, Doomed, HasRoom, idle, held_full]
    · have room : HasRoom state .network := fun _ idle => absurd idle busy
      simp only [room, and_true]
      simp only [Threads.step, Threads.stepProducer] at moved
      cases writer : state.threads.producer with
      | idle => exact absurd writer busy
      | tailLoaded msg head tail =>
        simp only [writer] at moved
        split at moved
        next full =>
          cases moved
          simp [Kept, Doomed, writer, full]
        next space =>
          cases moved
          simp [Kept, Doomed, writer, space]
      | headLoaded msg head | tested msg tail | written msg tail =>
        simp only [writer, Option.some.injEq] at moved
        subst moved
        simp [Kept, Doomed, writer]
  | poll =>
    have aside := poll_aside taken
    have room : HasRoom state .poll := fun network => by cases network
    simp only [Kept, Doomed, aside.refused, aside.producer, aside.tail, room, and_true]

theorem kept_iff {actions : List Action} (reached : Runs.exec step {} actions = some state) :
    Kept state ↔ Runs.Guarded step HasRoom {} actions := by
  have tracked : Runs.exec step {} actions = some state ∧ (Kept state ↔ Runs.Guarded step HasRoom {} actions) := by
    refine Runs.always (fun done state => Runs.exec step {} done = some state ∧
      (Kept state ↔ Runs.Guarded step HasRoom {} done)) ?_ ?_ reached
    · refine ⟨rfl, iff_of_true ⟨rfl, id⟩ ?_⟩
      intro done action inside
      simp at inside
    · rintro done action before after ⟨middle, prior⟩ taken
      refine ⟨by rw [Runs.exec_concat, middle]; exact taken, ?_⟩
      rw [kept_step taken, prior, Runs.guarded_concat]
      simp [middle]
  exact tracked.2

theorem Accounted.reached {actions : List Action} (reached : Runs.exec Inbound.step {} actions = some state) :
    Accounted state :=
  Runs.always (fun _ => Accounted) .initial (fun _ _ _ _ accounted taken => accounted.step taken) reached

/-- With nothing running and nothing to pop, every message in the ring was returned. -/
theorem quiet_delivered (ordered : Threads.Ordered (by decide) state.threads) (quiet : Quiet state) :
    state.returned = state.threads.pushed := by
  have empty : state.threads.shared.head = state.threads.shared.tail := by
    by_contra filled
    have drained := quiet.drained.2
    simp [pop, filled] at drained
  rw [ordered.head, ordered.tail] at empty
  have counts := (Ring.slot_eq_iff (by decide) ordered.delivered.length_le ordered.room).mp empty
  exact ordered.delivered.eq_of_length counts

/-- If every push finds room, the messages returned are always the first of those
sent. And once everything is handled and drained, all of them were returned exactly
when every push found room. -/
theorem lossless_iff {actions : List Action} (reached : Runs.exec step {} actions = some state) :
    (Runs.Guarded step HasRoom {} actions → state.returned <+: state.sent) ∧
      (Quiet state → (state.returned = state.sent ↔ Runs.Guarded step HasRoom {} actions)) := by
  have accounted := Accounted.reached reached
  rw [← kept_iff reached]
  constructor
  · intro kept
    rw [accounted.whole kept.1, List.append_assoc]
    exact accounted.ordered.delivered.trans (List.prefix_append ..)
  · intro quiet
    obtain ⟨idle, handled⟩ := quiet.handled
    rw [quiet_delivered accounted.ordered quiet]
    constructor
    · intro same
      have total := accounted.total
      rw [same, idle, handled] at total
      refine ⟨by simpa [inFlight] using total, ?_⟩
      simp [Doomed, idle]
    · intro kept
      rw [accounted.whole kept.1, idle, handled]
      simp [inFlight]

/-- A frame of as many messages as the ring has slots, handled before the first poll. -/
private def burst : List Char := (List.replicate 256 ['|', 't', '\n']).flatten

private def burstActions : List Action :=
  .frame burst :: List.replicate (255 * 5 + 3) .network ++ List.replicate (255 * 5) .poll

theorem burst_loses :
    ∃ state, Runs.exec step {} burstActions = some state ∧ Quiet state ∧ state.returned ≠ state.sent := by
  have run : (Runs.exec step {} burstActions).map
      (fun state => (decide (Quiet state), state.returned.length, state.sent.length)) = some (true, 255, 256) := by
    decide +kernel
  obtain ⟨state, reached, facts⟩ := Option.map_eq_some_iff.mp run
  obtain ⟨quiet, counts⟩ := Prod.mk.inj facts
  refine ⟨state, reached, of_decide_eq_true quiet, fun same => ?_⟩
  obtain ⟨returned, sent⟩ := Prod.mk.inj counts
  rw [same, sent] at returned
  cases returned

private def dialogue : List Action :=
  [.frame ['|', 'a', '\n', '|', 'b'], .network, .network, .network, .network, .network, .poll, .network, .poll,
    .network, .poll, .network, .network, .network, .poll, .poll, .poll, .poll, .poll, .poll, .poll]

theorem lossless_iff_dialogue :
    ∃ state, Runs.exec step {} dialogue = some state ∧ Quiet state ∧
      (Runs.Guarded step HasRoom {} dialogue → state.returned <+: state.sent) ∧
      (Quiet state → (state.returned = state.sent ↔ Runs.Guarded step HasRoom {} dialogue)) := by
  have run : (Runs.exec step {} dialogue).map (fun state => decide (Quiet state)) = some true := by decide +kernel
  obtain ⟨state, reached, quiet⟩ := Option.map_eq_some_iff.mp run
  exact ⟨state, reached, of_decide_eq_true quiet, lossless_iff reached⟩

end ShowdownCli.Inbound
