import ShowdownCli.Library.Runs
import ShowdownCli.Queue

/-! Every interleaving of one pushing and one popping thread delivers in order.
Both threads act on indices that may be out of date, but an old head only makes
the ring look fuller and an old tail only makes it look emptier. -/

namespace ShowdownCli.SPSCQueue.Threads
open Library

variable {α : Type} {n : Nat}

/-- The slot a producer owns from its test until it stores the tail. -/
def writing : Producer α n → Option (Fin n)
  | .tested _ tail | .written _ tail => some tail
  | _ => none

/-- The slot a consumer owns from its test until it stores the head. -/
def reading : Consumer α n → Option (Fin n)
  | .tested head | .read head _ => some head
  | _ => none

/-- The count of the first value that is still in its slot. -/
def base (state : Threads α n) : Nat :=
  match state.consumer with
  | .read _ _ => state.popped.length + 1
  | _ => state.popped.length

/-- The value that is in its slot before the tail covers it. -/
def unpublished (state : Threads α n) : List α :=
  match state.producer with
  | .written val _ => [val]
  | _ => []

variable (positive : 0 < n)

/-- A loaded head is that of some earlier count, which still left the producer
within one turn of the ring. -/
def HeadSeen (state : Threads α n) (head : Fin n) : Prop :=
  ∃ count ≤ state.popped.length, head = Ring.slot positive count ∧ state.pushed.length < count + n

def ProducerKnows (state : Threads α n) : Prop :=
  match state.producer with
  | .idle => True
  | .headLoaded _ head => HeadSeen positive state head
  | .tailLoaded _ head tail => HeadSeen positive state head ∧ tail = Ring.slot positive state.pushed.length
  | .tested _ tail | .written _ tail =>
    tail = Ring.slot positive state.pushed.length ∧ state.pushed.length + 1 < state.popped.length + n

def ConsumerKnows (state : Threads α n) : Prop :=
  match state.consumer with
  | .idle => True
  | .headLoaded head => head = Ring.slot positive state.popped.length
  | .tailLoaded head tail => head = Ring.slot positive state.popped.length ∧
    ∃ count, state.popped.length ≤ count ∧ count ≤ state.pushed.length ∧ tail = Ring.slot positive count
  | .tested head => head = Ring.slot positive state.popped.length ∧ state.popped.length < state.pushed.length
  | .read head out => head = Ring.slot positive state.popped.length ∧
    state.pushed[state.popped.length]? = some out

structure Ordered (state : Threads α n) : Prop where
  delivered : state.popped <+: state.pushed
  room : state.pushed.length < state.popped.length + n
  head : state.shared.head = Ring.slot positive state.popped.length
  tail : state.shared.tail = Ring.slot positive state.pushed.length
  producer : ProducerKnows positive state
  consumer : ConsumerKnows positive state
  cells : Ring.Shows positive state.shared.queue state.base (state.pushed.drop state.base ++ state.unpublished)

theorem Ordered.initial [Inhabited α] : Ordered positive (start (α := α) positive) :=
  ⟨List.prefix_refl _, by simpa [start] using positive, Fin.ext (Nat.zero_mod n).symm,
    Fin.ext (Nat.zero_mod n).symm, trivial, trivial, Ring.Shows.nil _ _ _⟩

variable {positive}

/-- What the consumer knows stays true when the producer publishes a value. -/
theorem ConsumerKnows.published {state after : Threads α n} {val : α} (knows : ConsumerKnows positive state)
    (same : after.consumer = state.consumer) (popped : after.popped = state.popped)
    (pushed : after.pushed = state.pushed ++ [val]) : ConsumerKnows positive after := by
  unfold ConsumerKnows at knows ⊢
  rw [same, popped, pushed]
  cases reader : state.consumer with
  | idle => trivial
  | headLoaded head => simpa only [reader] using knows
  | tailLoaded head tail =>
    simp only [reader] at knows
    obtain ⟨head, count, later, published, seen⟩ := knows
    exact ⟨head, count, later, by simp; omega, seen⟩
  | tested head =>
    simp only [reader] at knows
    exact ⟨knows.1, by simp; omega⟩
  | read head out =>
    simp only [reader] at knows
    obtain ⟨inside, _⟩ := List.getElem?_eq_some_iff.mp knows.2
    refine ⟨knows.1, ?_⟩
    rw [List.getElem?_append_left inside]
    exact knows.2

theorem HeadSeen.consumed {state after : Threads α n} {out : α} {head : Fin n} (seen : HeadSeen positive state head)
    (pushed : after.pushed = state.pushed) (popped : after.popped = state.popped ++ [out]) :
    HeadSeen positive after head := by
  obtain ⟨count, older, seen, near⟩ := seen
  refine ⟨count, ?_, seen, pushed ▸ near⟩
  rw [popped, List.length_append]
  omega

/-- What the producer knows stays true when the consumer gives a slot back. -/
theorem ProducerKnows.consumed {state after : Threads α n} {out : α} (knows : ProducerKnows positive state)
    (same : after.producer = state.producer) (pushed : after.pushed = state.pushed)
    (popped : after.popped = state.popped ++ [out]) : ProducerKnows positive after := by
  unfold ProducerKnows at knows ⊢
  rw [same, pushed]
  cases writer : state.producer with
  | idle => trivial
  | headLoaded val head =>
    simp only [writer] at knows
    exact knows.consumed pushed popped
  | tailLoaded val head tail =>
    simp only [writer] at knows
    exact ⟨knows.1.consumed pushed popped, knows.2⟩
  | tested val tail | written val tail =>
    simp only [writer] at knows
    refine ⟨knows.1, ?_⟩
    rw [popped, List.length_append, List.length_singleton]
    omega

theorem Ordered.base_le {state : Threads α n} (ordered : Ordered positive state) :
    state.base ≤ state.pushed.length := by
  have counts := ordered.delivered.length_le
  have knows := ordered.consumer
  unfold base ConsumerKnows at *
  cases consumer : state.consumer <;> simp only [consumer] at knows ⊢ <;> try exact counts
  obtain ⟨inside, _⟩ := List.getElem?_eq_some_iff.mp knows.2
  exact inside

section Steps
variable [Inhabited α]

theorem Ordered.push {state : Threads α n} (ordered : Ordered positive state) (val : α) {after : Threads α n}
    (taken : state.step (.push val) = some after) : Ordered positive after := by
  simp only [step] at taken
  split at taken
  next idle =>
    cases taken
    refine { ordered with producer := ?_, consumer := ordered.consumer, cells := ?_ }
    · exact ⟨state.popped.length, Nat.le_refl _, ordered.head, ordered.room⟩
    · have cells := ordered.cells
      simp only [unpublished, idle] at cells
      exact cells
  next => cases taken

theorem Ordered.pop {state : Threads α n} (ordered : Ordered positive state) {after : Threads α n}
    (taken : state.step .pop = some after) : Ordered positive after := by
  simp only [step] at taken
  split at taken
  next idle =>
    cases taken
    refine { ordered with producer := ordered.producer, consumer := ordered.head, cells := ?_ }
    have cells := ordered.cells
    simp only [base, idle] at cells
    exact cells
  next => cases taken

theorem Ordered.stepProducer {state : Threads α n} (ordered : Ordered positive state) {after : Threads α n}
    (taken : state.step .producer = some after) : Ordered positive after := by
  have knows := ordered.producer
  have cells := ordered.cells
  have counts := ordered.delivered.length_le
  have within := ordered.base_le
  simp only [step, Threads.stepProducer] at taken
  cases producer : state.producer with
  | idle => simp [producer] at taken
  | headLoaded val head =>
    simp only [producer, Option.some.injEq, ProducerKnows, unpublished] at taken knows cells
    subst taken
    exact { ordered with producer := ⟨knows, ordered.tail⟩, consumer := ordered.consumer, cells := cells }
  | tailLoaded val head tail =>
    simp only [producer, ProducerKnows, unpublished] at taken knows cells
    obtain ⟨⟨count, older, seen, near⟩, mine⟩ := knows
    split at taken
    next full =>
      cases taken
      exact { ordered with producer := trivial, consumer := ordered.consumer, cells := cells }
    next space =>
      cases taken
      refine { ordered with producer := ⟨mine, ?_⟩, consumer := ordered.consumer, cells := cells }
      -- the test excludes that the next count is a whole turn ahead of the head seen
      have apart : state.pushed.length + 1 ≠ count + n := by
        intro turn
        apply space
        rw [seen, mine, Ring.next_slot, turn, Ring.slot_add_size]
      show state.pushed.length + 1 < state.popped.length + n
      omega
  | tested val tail =>
    simp only [producer, Option.some.injEq, ProducerKnows, unpublished, List.append_nil] at taken knows cells
    subst taken
    obtain ⟨mine, room⟩ := knows
    refine { ordered with producer := ⟨mine, room⟩, consumer := ordered.consumer, cells := ?_ }
    have space : (state.pushed.drop state.base).length < n := by
      have lower : state.popped.length ≤ state.base := by unfold base; split <;> omega
      rw [List.length_drop]
      omega
    have place : state.base + (state.pushed.drop state.base).length = state.pushed.length := by
      rw [List.length_drop]
      omega
    have written := cells.write space val
    rw [place, ← mine] at written
    exact written
  | written val tail =>
    simp only [producer, Option.some.injEq, ProducerKnows, unpublished] at taken knows cells
    subst taken
    obtain ⟨mine, room⟩ := knows
    refine ⟨ordered.delivered.trans (List.prefix_append ..), ?_, ordered.head, ?_, trivial, ?_, ?_⟩
    · simpa using room
    · rw [List.length_append, List.length_singleton, ← Ring.next_slot, ← mine]
    · exact ordered.consumer.published rfl rfl rfl
    · show Ring.Shows positive state.shared.queue state.base ((state.pushed ++ [val]).drop state.base ++ [])
      rw [List.append_nil, List.drop_append_of_le_length within]
      exact cells

theorem Ordered.stepConsumer {state : Threads α n} (ordered : Ordered positive state) {after : Threads α n}
    (taken : state.step .consumer = some after) : Ordered positive after := by
  have knows := ordered.consumer
  have cells := ordered.cells
  have counts := ordered.delivered.length_le
  have room := ordered.room
  simp only [step, Threads.stepConsumer] at taken
  cases consumer : state.consumer with
  | idle => simp [consumer] at taken
  | headLoaded head =>
    simp only [consumer, Option.some.injEq, ConsumerKnows, base] at taken knows cells
    subst taken
    refine { ordered with producer := ordered.producer, consumer := ⟨knows, ?_⟩, cells := cells }
    exact ⟨state.pushed.length, counts, Nat.le_refl _, ordered.tail⟩
  | tailLoaded head tail =>
    simp only [consumer, ConsumerKnows, base] at taken knows cells
    obtain ⟨mine, count, later, published, seen⟩ := knows
    split at taken
    next empty =>
      cases taken
      exact { ordered with producer := ordered.producer, consumer := trivial, cells := cells }
    next filled =>
      cases taken
      refine { ordered with producer := ordered.producer, consumer := ⟨mine, ?_⟩, cells := cells }
      have apart : state.popped.length ≠ count := by
        intro same
        apply filled
        rw [mine, seen, same]
      show state.popped.length < state.pushed.length
      omega
  | tested head =>
    simp only [consumer, Option.some.injEq, ConsumerKnows, base] at taken knows cells
    subst taken
    obtain ⟨mine, filled⟩ := knows
    rw [List.drop_eq_getElem_cons filled, List.cons_append] at cells
    refine { ordered with producer := ordered.producer, consumer := ⟨mine, ?_⟩, cells := ?_ }
    · rw [mine, cells.head]
      exact List.getElem?_eq_getElem filled
    · subst mine
      apply cells.tail.outside
      have short : state.unpublished.length ≤ 1 := by unfold unpublished; split <;> simp
      simp only [List.length_append, List.length_drop]
      omega
  | read head out =>
    simp only [consumer, Option.some.injEq, ConsumerKnows, base] at taken knows cells
    subst taken
    obtain ⟨mine, value⟩ := knows
    obtain ⟨inside, item⟩ := List.getElem?_eq_some_iff.mp value
    have same := List.prefix_iff_eq_take.mp ordered.delivered
    refine ⟨?_, ?_, ?_, ordered.tail, ?_, trivial, ?_⟩
    · rw [List.prefix_iff_eq_take, List.length_append, List.length_singleton, List.take_add_one, value, ← same]
      rfl
    · simp only [List.length_append, List.length_singleton]
      omega
    · rw [List.length_append, List.length_singleton, ← Ring.next_slot, ← mine]
    · exact ordered.producer.consumed rfl rfl rfl
    · have moved : state.popped.length + 1 = (state.popped ++ [out]).length := by simp
      rw [moved] at cells
      exact cells

theorem Ordered.step {state : Threads α n} (ordered : Ordered positive state) {action : Action α}
    {after : Threads α n} (taken : state.step action = some after) : Ordered positive after := by
  cases action with
  | push val => exact ordered.push val taken
  | pop => exact ordered.pop taken
  | producer => exact ordered.stepProducer taken
  | consumer => exact ordered.stepConsumer taken

theorem Ordered.reached {actions : List (Action α)} {state : Threads α n}
    (reached : Runs.exec Threads.step (start positive) actions = some state) : Ordered positive state :=
  Runs.always (fun _ state => Ordered positive state) (Ordered.initial positive)
    (fun _ _ _ _ ordered taken => ordered.step taken) reached

end Steps

/-- Between its test and its store each thread owns its slot alone. -/
theorem Ordered.apart {state : Threads α n} (ordered : Ordered positive state) {slot : Fin n}
    (written : writing state.producer = some slot) : reading state.consumer ≠ some slot := by
  intro read
  have producer : slot = Ring.slot positive state.pushed.length ∧
      state.pushed.length + 1 < state.popped.length + n := by
    have knows := ordered.producer
    unfold writing ProducerKnows at *
    cases writer : state.producer <;> simp only [writer, Option.some.injEq, reduceCtorEq] at written knows
    all_goals exact written ▸ knows
  have consumer : slot = Ring.slot positive state.popped.length ∧ state.popped.length < state.pushed.length := by
    have knows := ordered.consumer
    unfold reading ConsumerKnows at *
    cases reader : state.consumer <;> simp only [reader, Option.some.injEq, reduceCtorEq] at read knows
    · exact read ▸ knows
    · obtain ⟨inside, _⟩ := List.getElem?_eq_some_iff.mp knows.2
      exact ⟨read ▸ knows.1, inside⟩
  have same := (Ring.slot_eq_iff positive (by omega) (by omega)).mp (consumer.1.symm.trans producer.1)
  omega

/-- Whatever the interleaving, pops return what was pushed in the same order,
and the two threads are never inside the same slot. -/
theorem delivers_in_order [Inhabited α] {actions : List (Action α)} {state : Threads α n}
    (reached : Runs.exec Threads.step (start positive) actions = some state) :
    state.popped <+: state.pushed ∧
      ∀ slot, writing state.producer = some slot → reading state.consumer ≠ some slot :=
  ⟨(Ordered.reached reached).delivered, fun _ written => (Ordered.reached reached).apart written⟩

/-- One free slot, and a pop that starts while the push is still running. -/
theorem delivers_in_order_two :
    ∃ state : Threads Nat 2,
      Runs.exec Threads.step (start (by decide)) [.push 7, .pop, .producer, .producer, .producer, .producer,
        .consumer, .consumer, .consumer, .consumer] = some state ∧
      state.popped = [7] ∧ state.popped <+: state.pushed ∧
      ∀ slot, writing state.producer = some slot → reading state.consumer ≠ some slot := by
  have run : ∃ state : Threads Nat 2,
      Runs.exec Threads.step (start (by decide)) [.push 7, .pop, .producer, .producer, .producer, .producer,
        .consumer, .consumer, .consumer, .consumer] = some state ∧ state.popped = [7] := ⟨_, rfl, rfl⟩
  obtain ⟨state, reached, seven⟩ := run
  exact ⟨state, reached, seven, delivers_in_order reached⟩

end ShowdownCli.SPSCQueue.Threads
