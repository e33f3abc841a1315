import ShowdownCli.Proofs.ProgramDelivery

/-! How long a message waits. Once it has been pushed, the main loop returns it after five
accesses to the queue for each message up to it, whatever the network thread does meanwhile. -/

namespace ShowdownCli.SPSCQueue.Threads
open Library

variable {α : Type} {n : Nat} {positive : 0 < n} {state after : Threads α n} {target : Nat}

/-- The accesses of the consumer until so many values have been popped, at most. A tail that
was loaded too early costs the rest of its call. -/
def needed (target : Nat) (state : Threads α n) : Nat :=
  if target ≤ state.popped.length then 0
  else match state.consumer with
    | .idle => 5 * (target - state.popped.length)
    | .headLoaded _ => 5 * (target - state.popped.length) - 1
    | .tailLoaded head tail =>
      if head = tail then 5 * (target - state.popped.length) + 1 else 5 * (target - state.popped.length) - 2
    | .tested _ => 5 * (target - state.popped.length) - 3
    | .read _ _ => 5 * (target - state.popped.length) - 4

theorem needed_le (target : Nat) (state : Threads α n) : state.needed target ≤ 5 * (target - state.popped.length) + 1 := by
  unfold needed
  repeat' split
  all_goals omega

theorem needed_zero : state.needed target = 0 ↔ target ≤ state.popped.length := by
  unfold needed
  constructor
  · intro none
    repeat' split at none
    all_goals omega
  · intro enough
    rw [if_pos enough]

section Steps
variable [Inhabited α]

theorem nearer_pop (taken : state.step .pop = some after) : after.needed target ≤ state.needed target - 1 := by
  simp only [step] at taken
  cases consumer : state.consumer with
  | idle =>
    simp only [consumer, Option.some.injEq] at taken
    subst taken
    simp only [needed, consumer]
    split <;> omega
  | headLoaded | tailLoaded | tested | read => simp [consumer] at taken

/-- As long as the value is waiting the tail that is loaded cannot be the head. -/
theorem Ordered.nearer (ordered : Ordered positive state) (pushed : target ≤ state.pushed.length)
    (taken : state.step .consumer = some after) : after.needed target ≤ state.needed target - 1 := by
  have knows := ordered.consumer
  have counts := ordered.delivered.length_le
  have room := ordered.room
  simp only [Threads.step, Threads.stepConsumer] at taken
  cases consumer : state.consumer with
  | idle => simp [consumer] at taken
  | headLoaded head =>
    simp only [consumer, Option.some.injEq, ConsumerKnows] at taken knows
    subst taken
    simp only [needed, consumer]
    by_cases enough : target ≤ state.popped.length
    · simp [enough]
    · have filled : head ≠ state.shared.tail := by
        rw [knows, ordered.tail]
        intro same
        have equal := (Ring.slot_eq_iff positive counts room).mp same
        omega
      simp only [if_neg enough, if_neg filled]
      omega
  | tailLoaded head tail =>
    simp only [consumer] at taken
    split at taken
    next empty =>
      cases taken
      simp only [needed, consumer, if_pos empty]
      split <;> omega
    next filled =>
      cases taken
      simp only [needed, consumer, if_neg filled]
      split <;> omega
  | tested head =>
    simp only [consumer, Option.some.injEq] at taken
    subst taken
    simp only [needed, consumer]
    split <;> omega
  | read head out =>
    simp only [consumer, Option.some.injEq] at taken
    subst taken
    simp only [needed, consumer, List.length_append, List.length_singleton]
    repeat' split
    all_goals omega

end Steps
end ShowdownCli.SPSCQueue.Threads

namespace ShowdownCli
open Library

namespace Inbound
open SPSCQueue
variable {state after : Inbound} {target : Nat}

theorem poll_nearer (ordered : Threads.Ordered (by decide) state.threads) (pushed : target ≤ state.threads.pushed.length)
    (taken : state.step .poll = some after) : after.threads.needed target ≤ state.threads.needed target - 1 := by
  simp only [step, poll] at taken
  split at taken
  all_goals obtain ⟨threads, moved, rfl⟩ := Option.map_eq_some_iff.mp taken
  · exact Threads.nearer_pop moved
  · exact ordered.nearer pushed moved

/-- The network thread neither helps the polling thread nor holds it up. -/
theorem network_needed (taken : state.step .network = some after) :
    after.threads.needed target = state.threads.needed target := by
  rcases network_cases taken with ⟨idle, msg, rest, _, threads, moved, rfl⟩ | ⟨_, threads, moved, rfl⟩
  · have started := push_started idle moved
    subst started
    rfl
  · simp only [Threads.step, Threads.stepProducer] at moved
    repeat' split at moved
    all_goals
      cases moved
      try rfl

theorem pushed_grows {action : Action} (taken : state.step action = some after) :
    state.threads.pushed <+: after.threads.pushed := by
  cases action with
  | frame raw =>
    simp only [step, receive] at taken
    split at taken <;> cases taken
    exact List.prefix_refl _
  | network =>
    rcases network_cases taken with ⟨idle, msg, rest, _, threads, moved, rfl⟩ | ⟨_, threads, moved, rfl⟩
    · have started := push_started idle moved
      subst started
      exact List.prefix_refl _
    · simp only [Threads.step, Threads.stepProducer] at moved
      repeat' split at moved
      all_goals
        cases moved
        try simp
  | poll =>
    have aside := poll_aside taken
    rw [aside.pushed]

end Inbound

namespace Program
variable {world : World} {program after : Program}

def polls : Action → Bool
  | .poll => true
  | _ => false

theorem step_nearer {action : Action} {target : Nat} (taken : program.step world action = some after)
    (ordered : SPSCQueue.Threads.Ordered (by decide) program.inbound.threads)
    (pushed : target ≤ program.inbound.threads.pushed.length) :
    program.inbound.threads.pushed <+: after.inbound.threads.pushed ∧
      after.inbound.threads.needed target ≤
        program.inbound.threads.needed target - (if polls action then 1 else 0) := by
  cases action with
  | frame raw =>
    obtain ⟨inbound, received, rfl⟩ := Option.map_eq_some_iff.mp taken
    have stepped : program.inbound.step (.frame raw) = some inbound := received
    refine ⟨Inbound.pushed_grows stepped, ?_⟩
    simp only [Inbound.receive] at received
    split at received <;> cases received
    exact Nat.le_refl _
  | network =>
    obtain ⟨inbound, moved, rfl⟩ := Option.map_eq_some_iff.mp taken
    have stepped : program.inbound.step .network = some inbound := moved
    exact ⟨Inbound.pushed_grows stepped, Nat.le_of_eq (Inbound.network_needed stepped)⟩
  | strand =>
    obtain ⟨websocket, _, rfl⟩ := step_strand taken
    exact ⟨List.prefix_refl _, Nat.le_refl _⟩
  | complete operation ec =>
    obtain ⟨websocket, _, rfl⟩ := Option.map_eq_some_iff.mp taken
    exact ⟨List.prefix_refl _, Nat.le_refl _⟩
  | post =>
    obtain ⟨message, websocket, _, _, rfl⟩ := step_post taken
    exact ⟨List.prefix_refl _, Nat.le_refl _⟩
  | poll =>
    obtain ⟨_, _, moved, _⟩ := step_poll taken
    have stepped : program.inbound.step .poll = some after.inbound := moved
    exact ⟨Inbound.pushed_grows stepped, Inbound.poll_nearer ordered pushed stepped⟩
  | turn action =>
    obtain ⟨_, _, app, _, rfl⟩ := step_turn taken
    exact ⟨List.prefix_refl _, Nat.le_refl _⟩

/-- Whatever the network thread does meanwhile, a message that has been pushed is processed by
the time the main loop has made five accesses for each message up to it and one more: it is
among those that `poll` has returned, and these are what the turns of the run were given. -/
theorem keeps_up {actions more : List Action} {count : Nat}
    (reached : Runs.exec (step world) {} actions = some program) (later : Runs.exec (step world) program more = some after)
    (pushed : count ≤ program.inbound.threads.pushed.length)
    (often : 5 * (count - program.inbound.threads.popped.length) + 1 ≤ more.countP polls) :
    program.inbound.threads.pushed.take count <+: after.inbound.returned ∧
      Runs.exec (PsApp.step world) PsApp.init (processed world (actions ++ more)) = some after.app ∧
      (processed world (actions ++ more)).flatMap hears = after.inbound.returned := by
  have ordered {actions : List Action} {program : Program} (reached : Runs.exec (step world) {} actions = some program) :
      SPSCQueue.Threads.Ordered (by decide) program.inbound.threads := by
    obtain ⟨⟨arrivals, taken⟩, _⟩ := inbound_reached reached
    exact (Inbound.Accounted.reached taken).ordered
  have spent := Runs.lowered polls
    (fun state => (∃ actions, Runs.exec (step world) {} actions = some state) ∧
      program.inbound.threads.pushed <+: state.inbound.threads.pushed)
    (fun state => state.inbound.threads.needed count) ⟨⟨actions, reached⟩, List.prefix_refl _⟩
    (by
      rintro action before next ⟨⟨done, earlier⟩, grown⟩ taken
      obtain ⟨grows, nearer⟩ := step_nearer taken (ordered earlier) (pushed.trans grown.length_le)
      refine ⟨⟨⟨done ++ [action], ?_⟩, grown.trans grows⟩, nearer⟩
      rw [Runs.exec_concat, earlier]
      exact taken) later
  obtain ⟨⟨_, grown⟩, left⟩ := spent
  have bound := SPSCQueue.Threads.needed_le count program.inbound.threads
  have popped : count ≤ after.inbound.threads.popped.length := SPSCQueue.Threads.needed_zero.mp (by omega)
  have whole : Runs.exec (step world) {} (actions ++ more) = some after := by
    rw [Runs.exec_append, reached]
    exact later
  -- both are beginnings of what has been pushed since
  have returned : program.inbound.threads.pushed.take count <+: after.inbound.returned :=
    List.prefix_of_prefix_length_le ((List.take_prefix ..).trans grown) (ordered whole).delivered
      ((List.length_take_le ..).trans popped)
  exact ⟨returned, acted_reached whole⟩

private def sleepyWorld : World := { parse := fun _ => none, assertions := fun _ => "" }

/-- The main loop has loaded the tail when the message is published, and has to come again. -/
private def early : List Action :=
  [.frame ['|', 't', 'i', 'e'], .network, .network, .network, .network, .poll, .poll, .network]

private def again : List Action :=
  [.poll, .turn .dispatch, .turn .dispatch, .turn (.line none), .turn .render, .poll, .poll, .poll, .poll, .poll]

theorem keeps_up_early :
    ∃ program after, Runs.exec (step sleepyWorld) {} early = some program ∧ program.inbound.threads.pushed.length = 1 ∧
      Runs.exec (step sleepyWorld) program again = some after ∧
      program.inbound.threads.pushed.take 1 <+: after.inbound.returned ∧
      Runs.exec (PsApp.step sleepyWorld) PsApp.init (processed sleepyWorld (early ++ again)) = some after.app ∧
      (processed sleepyWorld (early ++ again)).flatMap hears = after.inbound.returned := by
  have first : (Runs.exec (step sleepyWorld) {} early).map (fun program => program.inbound.threads.pushed.length) =
      some 1 := by decide +kernel
  have both : (Runs.exec (step sleepyWorld) {} (early ++ again)).isSome := by decide +kernel
  obtain ⟨program, reached, pushed⟩ := Option.map_eq_some_iff.mp first
  rw [Runs.exec_append, reached, Option.bind_some] at both
  obtain ⟨after, later⟩ := Option.isSome_iff_exists.mp both
  have polled : again.countP polls = 6 := by decide
  exact ⟨program, after, reached, pushed, later, keeps_up reached later (by omega) (by omega)⟩

end Program
end ShowdownCli
