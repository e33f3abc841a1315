import ShowdownCli.Library.Atomic
import ShowdownCli.Library.Fifo
import ShowdownCli.Proofs.QueueOrder

/-! The queue between two threads is linearizable. A push that is refused takes effect
when it loads the head and one that is accepted when it stores the tail; a pop that
finds nothing takes effect when it loads the tail and any other when it stores the head. -/

namespace ShowdownCli.SPSCQueue
open Library

namespace Threads
variable {α : Type} {n : Nat} {positive : 0 < n} {state after : Threads α n}

theorem Ordered.full (ordered : Ordered positive state) :
    state.shared.head = Ring.next state.shared.tail ↔ n ≤ (state.pushed.drop state.popped.length).length + 1 := by
  have counts := ordered.delivered.length_le
  have room := ordered.room
  rw [ordered.head, ordered.tail, Ring.next_slot, List.length_drop]
  constructor
  · intro turn
    by_contra space
    have same := (Ring.slot_eq_iff positive (by omega) (by omega)).mp turn
    omega
  · intro full
    rw [show state.pushed.length + 1 = state.popped.length + n by omega, Ring.slot_add_size]

theorem Ordered.empty (ordered : Ordered positive state) :
    state.shared.head = state.shared.tail ↔ state.pushed.drop state.popped.length = [] := by
  have counts := ordered.delivered.length_le
  rw [ordered.head, ordered.tail, Ring.slot_eq_iff positive counts ordered.room, List.drop_eq_nil_iff]
  omega

abbrev Mark (α : Type) := Atomic.Mark Party (Fifo.Call α) (Fifo.Answer α)

variable [Inhabited α]

/-- What the callers see of a step. The variable of the popping caller is a fresh one. -/
def marks (state : Threads α n) : Action α → List (Mark α)
  | .push val => [.invoke .producer (.push val)]
  | .pop => [.invoke .consumer (.pop default)]
  | .producer =>
    match state.producer with
    | .tailLoaded _ head tail => if head = Ring.next tail then [.respond .producer (.pushed false)] else []
    | .written _ _ => [.respond .producer (.pushed true)]
    | _ => []
  | .consumer =>
    match state.consumer with
    | .tailLoaded head tail => if head = tail then [.respond .consumer (.popped false default)] else []
    | .read _ out => [.respond .consumer (.popped true out)]
    | _ => []

/-- Where the push that is running stands: from its load of the head it is settled whether
there is room. -/
def pushing (state : Threads α n) : Atomic.Pending (Fifo.Call α) (Fifo.Answer α) :=
  match state.producer with
  | .idle => .idle
  | .headLoaded val head =>
    if head = Ring.next state.shared.tail then .answered (.pushed false) else .called (.push val)
  | .tailLoaded val head tail => if head = Ring.next tail then .answered (.pushed false) else .called (.push val)
  | .tested val _ | .written val _ => .called (.push val)

/-- Where the pop that is running stands: from its load of the tail it is settled whether
there is a value. -/
def popping (state : Threads α n) : Atomic.Pending (Fifo.Call α) (Fifo.Answer α) :=
  match state.consumer with
  | .idle => .idle
  | .tailLoaded head tail => if head = tail then .answered (.popped false default) else .called (.pop default)
  | .headLoaded _ | .tested _ | .read _ _ => .called (.pop default)

/-- The values between the two indices are those of the atomic queue. -/
structure Abstracts (positive : 0 < n) (state : Threads α n)
    (object : Atomic.Object Party (Fifo.Call α) (Fifo.Answer α) (List α)) : Prop where
  ordered : Ordered positive state
  value : object.value = state.pushed.drop state.popped.length
  producer : object.pending .producer = state.pushing
  consumer : object.pending .consumer = state.popping

variable {object : Atomic.Object Party (Fifo.Call α) (Fifo.Answer α) (List α)}

/-- The atomic queue shows what the callers see of a step and abstracts what it leads to. -/
def Matched (positive : 0 < n) (object : Atomic.Object Party (Fifo.Call α) (Fifo.Answer α) (List α))
    (seen : List (Mark α)) (after : Threads α n) : Prop :=
  ∃ final, Runs.Shows (Atomic.step (Fifo.call (n - 1))) Atomic.marks object seen final ∧ Abstracts positive after final

theorem Matched.silent (abstracts : Abstracts positive after object) : Matched positive object [] after :=
  ⟨object, .nil object, abstracts⟩

theorem Abstracts.push (abstracts : Abstracts positive state object) {val : α}
    (taken : state.step (.push val) = some after) : Matched positive object (state.marks (.push val)) after := by
  have later := abstracts.ordered.push val taken
  simp only [step] at taken
  split at taken
  next idle =>
    cases taken
    have resting : object.pending .producer = .idle := by rw [abstracts.producer, pushing, idle]
    have called := Atomic.invokes (Fifo.call (n - 1)) resting (.push val)
    have reading : (object.waiting .producer (.called (.push val))).pending .consumer = state.popping := by
      rw [Atomic.waiting_other (by decide), abstracts.consumer]
    by_cases full : state.shared.head = Ring.next state.shared.tail
    · have filled := abstracts.ordered.full.mp full
      rw [← abstracts.value] at filled
      have refusal := Fifo.call_full (Nat.sub_le_of_le_add filled) val
      refine ⟨_, called.trans (Atomic.performs (Atomic.waiting_self ..) refusal), later, abstracts.value, ?_, ?_⟩
      · rw [Atomic.perform_self]
        simp [pushing, full]
      · exact (Atomic.perform_other (by decide) ..).trans reading
    · refine ⟨_, called, later, abstracts.value, ?_, reading⟩
      simp [pushing, full]
  next => cases taken

theorem Abstracts.pop (abstracts : Abstracts positive state object) (taken : state.step .pop = some after) :
    Matched positive object (state.marks .pop) after := by
  have later := abstracts.ordered.pop taken
  simp only [step] at taken
  split at taken
  next idle =>
    cases taken
    have resting : object.pending .consumer = .idle := by rw [abstracts.consumer, popping, idle]
    have called := Atomic.invokes (Fifo.call (n - 1)) resting (.pop default)
    refine ⟨_, called, later, abstracts.value, ?_, ?_⟩
    · exact (Atomic.waiting_other (by decide) ..).trans abstracts.producer
    · exact Atomic.waiting_self ..
  next => cases taken

theorem Abstracts.stepProducer (abstracts : Abstracts positive state object)
    (taken : state.step .producer = some after) : Matched positive object (state.marks .producer) after := by
  have later := abstracts.ordered.stepProducer taken
  have knows := abstracts.ordered.producer
  have counts := abstracts.ordered.delivered.length_le
  have pending := abstracts.producer
  simp only [step, Threads.stepProducer] at taken
  cases producer : state.producer with
  | idle => simp [producer] at taken
  | headLoaded val head =>
    simp only [producer, Option.some.injEq] at taken
    subst taken
    simp only [marks, producer]
    simp only [pushing, producer] at pending
    exact .silent ⟨later, abstracts.value, by simpa [pushing] using pending, abstracts.consumer⟩
  | tailLoaded val head tail =>
    simp only [producer] at taken
    simp only [pushing, producer] at pending
    split at taken
    next full =>
      cases taken
      rw [if_pos full] at pending
      simp only [marks, producer, if_pos full]
      refine ⟨_, Atomic.responds pending, later, abstracts.value, Atomic.waiting_self .., ?_⟩
      exact (Atomic.waiting_other (by decide) ..).trans abstracts.consumer
    next space =>
      cases taken
      rw [if_neg space] at pending
      simp only [marks, producer, if_neg space]
      exact .silent ⟨later, abstracts.value, pending, abstracts.consumer⟩
  | tested val tail =>
    simp only [producer, Option.some.injEq] at taken
    subst taken
    simp only [marks, producer]
    simp only [pushing, producer] at pending
    exact .silent ⟨later, abstracts.value, pending, abstracts.consumer⟩
  | written val tail =>
    simp only [producer, Option.some.injEq, ProducerKnows] at taken knows
    subst taken
    simp only [pushing, producer] at pending
    simp only [marks, producer]
    have room : object.value.length < n - 1 := by
      rw [abstracts.value, List.length_drop]
      omega
    have stored := Atomic.performs pending (Fifo.call_room room val)
    refine ⟨_, stored.trans (Atomic.responds (Atomic.perform_self ..)), later, ?_, Atomic.waiting_self .., ?_⟩
    · show object.value ++ [val] = (state.pushed ++ [val]).drop state.popped.length
      rw [abstracts.value, List.drop_append_of_le_length counts]
    · rw [Atomic.waiting_other (by decide)]
      exact (Atomic.perform_other (by decide) ..).trans abstracts.consumer

theorem Abstracts.stepConsumer (abstracts : Abstracts positive state object)
    (taken : state.step .consumer = some after) : Matched positive object (state.marks .consumer) after := by
  have later := abstracts.ordered.stepConsumer taken
  have knows := abstracts.ordered.consumer
  have pending := abstracts.consumer
  simp only [step, Threads.stepConsumer] at taken
  cases consumer : state.consumer with
  | idle => simp [consumer] at taken
  | headLoaded head =>
    simp only [consumer, Option.some.injEq, ConsumerKnows] at taken knows
    subst taken
    simp only [popping, consumer] at pending
    simp only [marks, consumer]
    rw [← abstracts.ordered.head] at knows
    subst knows
    by_cases none : state.shared.head = state.shared.tail
    · have nothing : object.value = [] := abstracts.value.trans (abstracts.ordered.empty.mp none)
      have missed : (Fifo.call (n - 1) (.pop default)).run object.value = (.popped false default, ([] : List α)) := by
        rw [nothing]
        rfl
      refine ⟨_, Atomic.performs pending missed, later, ?_, ?_, ?_⟩
      · exact nothing.symm.trans abstracts.value
      · exact (Atomic.perform_other (by decide) ..).trans abstracts.producer
      · rw [Atomic.perform_self]
        simp [popping, none]
    · exact .silent ⟨later, abstracts.value, abstracts.producer, by simpa [popping, none] using pending⟩
  | tailLoaded head tail =>
    simp only [consumer] at taken
    simp only [popping, consumer] at pending
    split at taken
    next none =>
      cases taken
      rw [if_pos none] at pending
      simp only [marks, consumer, if_pos none]
      refine ⟨_, Atomic.responds pending, later, abstracts.value, ?_, Atomic.waiting_self ..⟩
      exact (Atomic.waiting_other (by decide) ..).trans abstracts.producer
    next filled =>
      cases taken
      rw [if_neg filled] at pending
      simp only [marks, consumer, if_neg filled]
      exact .silent ⟨later, abstracts.value, abstracts.producer, pending⟩
  | tested head =>
    simp only [consumer, Option.some.injEq] at taken
    subst taken
    simp only [popping, consumer] at pending
    simp only [marks, consumer]
    exact .silent ⟨later, abstracts.value, abstracts.producer, pending⟩
  | read head out =>
    simp only [consumer, Option.some.injEq, ConsumerKnows] at taken knows
    subst taken
    simp only [popping, consumer] at pending
    simp only [marks, consumer]
    obtain ⟨inside, item⟩ := List.getElem?_eq_some_iff.mp knows.2
    have first : object.value = out :: state.pushed.drop (state.popped.length + 1) := by
      rw [abstracts.value, List.drop_eq_getElem_cons inside, item]
    have taken : (Fifo.call (n - 1) (.pop default)).run object.value =
        (.popped true out, state.pushed.drop (state.popped.length + 1)) := by
      rw [first]
      rfl
    have removed := Atomic.performs pending taken
    refine ⟨_, removed.trans (Atomic.responds (Atomic.perform_self ..)), later, ?_, ?_, Atomic.waiting_self ..⟩
    · show _ = state.pushed.drop (state.popped ++ [out]).length
      rw [List.length_append, List.length_singleton]
      rfl
    · rw [Atomic.waiting_other (by decide)]
      exact (Atomic.perform_other (by decide) ..).trans abstracts.producer

theorem refines (positive : 0 < n) : Runs.Refines (Threads.step (α := α)) (Atomic.step (Fifo.call (n - 1))) marks
    Atomic.marks (Abstracts positive) := by
  intro state action after object abstracts taken
  cases action with
  | push val => exact abstracts.push taken
  | pop => exact abstracts.pop taken
  | producer => exact abstracts.stepProducer taken
  | consumer => exact abstracts.stepConsumer taken

/-- Whatever the interleaving of the two threads, what their calls return is what a
first-in first-out queue of `n - 1` places would have answered, had each call happened at
one moment while it ran. The calls in the order of these moments are a sequential use. -/
theorem linearizable (positive : 0 < n) {actions : List (Action α)}
    (reached : Runs.exec Threads.step (start positive) actions = some state) :
    let history := Runs.shown Threads.step marks (start positive) actions
    let contents := state.pushed.drop state.popped.length
    Atomic.Linearizable (Fifo.call (n - 1)) [] contents history ∧
      ∃ object, Atomic.Sequential (Fifo.call (n - 1)) [] history object ∧ object.value = contents := by
  have related : Abstracts positive (start positive) (Atomic.start ([] : List α)) :=
    ⟨.initial positive, rfl, rfl, rfl⟩
  obtain ⟨object, shows, abstracts⟩ := (refines positive).run related reached
  have linearizable : Atomic.Linearizable (Fifo.call (n - 1)) [] (state.pushed.drop state.popped.length)
      (Runs.shown Threads.step marks (start positive) actions) := ⟨object, shows, abstracts.value⟩
  exact ⟨linearizable, linearizable.sequential⟩

/-- The second push is refused because it loaded the head before the pop stored it, though
it returns after the pop. -/
private def stale : List (Action Nat) :=
  [.push 7, .producer, .producer, .producer, .producer, .push 8, .pop, .consumer, .consumer, .consumer, .consumer,
    .producer, .producer]

theorem linearizable_stale :
    ∃ state : Threads Nat 2, Runs.exec Threads.step (start (by decide)) stale = some state ∧
      state.refused = [8] ∧ state.popped = [7] ∧
      let history := Runs.shown Threads.step marks (start (by decide) : Threads Nat 2) stale
      let contents := state.pushed.drop state.popped.length
      Atomic.Linearizable (Fifo.call 1) [] contents history ∧
        ∃ object, Atomic.Sequential (Fifo.call 1) [] history object ∧ object.value = contents := by
  have run : ∃ state : Threads Nat 2, Runs.exec Threads.step (start (by decide)) stale = some state ∧
      state.refused = [8] ∧ state.popped = [7] := ⟨_, rfl, rfl, rfl⟩
  obtain ⟨state, reached, refused, popped⟩ := run
  exact ⟨state, reached, refused, popped, linearizable (by decide) reached⟩

end Threads
end ShowdownCli.SPSCQueue
