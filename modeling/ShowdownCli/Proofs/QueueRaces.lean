import ShowdownCli.Proofs.QueueOrder
import ShowdownCli.WeakQueue

/-! The queue does not race. A thread writes to a slot only after it has loaded a store of
the other's index that was made once the other had left the slot, and that store carries
what the other did before. Only loads of the other's index can be out of date, so all
other steps are steps of `Threads`. -/

namespace ShowdownCli.SPSCQueue.Weak
open Library Weak

variable {α : Type} {n : Nat}

/-- The pushes whose slot has been written to. -/
def written (state : Weak α n) : Nat :=
  match state.producer with
  | .written _ _ => state.pushed.length + 1
  | _ => state.pushed.length

/-- The pops whose slot has been read. -/
def taken (state : Weak α n) : Nat := state.latest.base

section Facts
variable (positive : 0 < n)

/-- A thread accesses the slots in turn, the slot of its count when it has done that many. -/
def InTurn (queue : Fin n → Plain Party α) (party : Party) (done : Nat) : Prop :=
  ∀ slot, (queue slot).last party ≠ 0 → ∃ count < done, (queue slot).last party = count + 1 ∧ slot = Ring.slot positive count

def ProducerSees (state : Weak α n) : Prop :=
  match state.producer with
  | .idle => True
  | .headLoaded _ head | .tailLoaded _ head _ => head = Ring.slot positive (state.head.seen .producer)
  | .tested _ _ | .written _ _ => state.pushed.length + 1 < state.head.seen .producer + n

def ConsumerSees (state : Weak α n) : Prop :=
  match state.consumer with
  | .idle | .headLoaded _ => True
  | .tailLoaded _ tail => tail = Ring.slot positive (state.tail.seen .consumer)
  | .tested _ | .read _ _ => state.popped.length < state.tail.seen .consumer

structure Synchronized (state : Weak α n) : Prop where
  ordered : Threads.Ordered positive state.latest
  heads : Counts (Ring.slot positive) Party.consumer state.popped.length state.head
  tails : Counts (Ring.slot positive) Party.producer state.pushed.length state.tail
  room : state.pushed.length < state.head.seen .producer + n
  filled : state.popped.length ≤ state.tail.seen .consumer
  freed : state.head.seen .producer ≤ state.views .producer .consumer
  found : state.tail.seen .consumer ≤ state.views .consumer .producer
  causal : state.views.Causal
  headViews : state.head.Within state.views.clock
  tailViews : state.tail.Within state.views.clock
  writes : state.views.clock .producer = state.written
  reads : state.views.clock .consumer = state.taken
  writer : InTurn positive state.queue .producer state.written
  reader : InTurn positive state.queue .consumer state.taken
  producer : ProducerSees positive state
  consumer : ConsumerSees positive state

end Facts

variable {positive : 0 < n} {state after : Weak α n}

theorem Synchronized.initial [Inhabited α] : Synchronized positive (start positive : Weak α n) := by
  have first : (⟨0, positive⟩ : Fin n) = Ring.slot positive 0 := Fin.ext (Nat.zero_mod n).symm
  refine ⟨Threads.Ordered.initial positive, ?_, ?_, ?_, ?_, ?_, ?_, fun _ _ => Nat.le_refl _, fun _ _ => Nat.le_refl _,
    fun _ _ => Nat.le_refl _, rfl, rfl, ?_, ?_, trivial, trivial⟩
  · show Counts (Ring.slot positive) Party.consumer 0 (.initial ⟨0, positive⟩)
    rw [first]
    exact .initial ..
  · show Counts (Ring.slot positive) Party.producer 0 (.initial ⟨0, positive⟩)
    rw [first]
    exact .initial ..
  · show 0 < 0 + n
    omega
  · exact Nat.le_refl _
  · exact Nat.le_refl _
  · exact Nat.le_refl _
  · exact fun _ touched => absurd rfl touched
  · exact fun _ touched => absurd rfl touched

theorem write_values (state : Weak α n) (party : Party) (slot : Fin n) (val : α) :
    (fun other => (state.write party slot val other).value) =
      Function.update (fun other => (state.queue other).value) slot val := by
  funext other
  by_cases same : other = slot
  · subst same
    simp [write, Plain.write]
  · simp [write, Function.update_of_ne same]

theorem InTurn.write {party : Party} {done : Nat} (turns : InTurn positive state.queue party done)
    (clock : state.views.clock party = done) (val : α) :
    InTurn positive (state.write party (Ring.slot positive done) val) party (done + 1) := by
  intro slot touched
  by_cases same : slot = Ring.slot positive done
  · refine ⟨done, Nat.lt_succ_self _, ?_, same⟩
    rw [Weak.write, same, Function.update_self, Plain.write_last_self, View.tick_self]
    exact congrArg (· + 1) clock
  · rw [Weak.write, Function.update_of_ne same] at touched ⊢
    obtain ⟨count, earlier, last, place⟩ := turns slot touched
    exact ⟨count, Nat.lt_succ_of_lt earlier, last, place⟩

theorem InTurn.other {party other : Party} {done : Nat} (turns : InTurn positive state.queue other done)
    (apart : other ≠ party) (slot : Fin n) (val : α) : InTurn positive (state.write party slot val) other done := by
  have same : ∀ place, (state.write party slot val place).last other = (state.queue place).last other := by
    intro place
    by_cases here : place = slot
    · rw [Weak.write, here, Function.update_self, Plain.write_last_other apart]
    · rw [Weak.write, Function.update_of_ne here]
  intro place touched
  rw [same] at touched ⊢
  exact turns place touched

section Steps
variable [Inhabited α]

theorem Synchronized.push {val : α} {store : Nat} (synchronized : Synchronized positive state)
    (taken : state.step (.push val store) = some after) : Synchronized positive after := by
  simp only [step] at taken
  split at taken
  next idle =>
    obtain ⟨⟨message, head⟩, loaded, last⟩ := Option.bind_eq_some_iff.mp taken
    cases last
    obtain ⟨newer, saw, _⟩ := Cell.load_newer loaded
    obtain ⟨heads, current, within, value, covers⟩ := synchronized.heads.load loaded
    obtain ⟨headViews, carried⟩ := synchronized.headViews.load loaded
    have clock : (state.views.acquire .producer message).clock = state.views.clock := Views.clock_acquire carried
    have room := synchronized.room
    have ordered := synchronized.ordered
    have written : state.written = state.pushed.length := by simp only [Weak.written, idle]
    refine { synchronized with
      ordered := ?_, heads, room := ?_, freed := ?_, found := ?_, causal := synchronized.causal.acquire carried _
      headViews := ?_, tailViews := ?_, writes := ?_, reads := ?_, writer := ?_, producer := ?_, consumer := ?_ }
    · have cells := ordered.cells
      simp only [latest, Threads.unpublished, idle] at cells
      refine { ordered with head := ?_, producer := ?_, consumer := ordered.consumer, cells := cells }
      · show head.current = _
        rw [current]
        exact ordered.head
      · refine ⟨store, within, value, ?_⟩
        show state.pushed.length < store + n
        omega
    · show state.pushed.length < head.seen .producer + n
      omega
    · show head.seen .producer ≤ (state.views.acquire .producer message) .producer .consumer
      rw [saw, Views.acquire_self]
      exact Nat.le_trans covers (View.le_join_right ..)
    · show _ ≤ (state.views.acquire .producer message) .consumer .producer
      rw [Views.acquire_other (by decide)]
      exact synchronized.found
    · show head.Within (state.views.acquire .producer message).clock
      rw [clock]
      exact headViews
    · show state.tail.Within (state.views.acquire .producer message).clock
      rw [clock]
      exact synchronized.tailViews
    · show (state.views.acquire .producer message).clock .producer = state.pushed.length
      rw [clock, synchronized.writes, written]
    · show (state.views.acquire .producer message).clock .consumer = state.taken
      rw [clock, synchronized.reads]
    · show InTurn positive state.queue .producer state.pushed.length
      rw [← written]
      exact synchronized.writer
    · show message.value = Ring.slot positive (head.seen .producer)
      rw [saw, value]
    · exact synchronized.consumer
  next => cases taken

theorem Synchronized.pop {store : Nat} (synchronized : Synchronized positive state)
    (taken : state.step (.pop store) = some after) : Synchronized positive after := by
  simp only [step] at taken
  split at taken
  next idle =>
    obtain ⟨⟨message, head⟩, loaded, last⟩ := Option.bind_eq_some_iff.mp taken
    cases last
    obtain ⟨_, _, other⟩ := Cell.load_newer loaded
    obtain ⟨heads, current, _⟩ := synchronized.heads.load loaded
    have value := synchronized.heads.load_own loaded
    have seen : head.seen .producer = state.head.seen .producer := other _ (by decide)
    have counted : state.taken = state.popped.length := by simp only [Weak.taken, Threads.base, latest, idle]
    refine { synchronized with
      ordered := ?_, heads, room := ?_, freed := ?_, headViews := (synchronized.headViews.load loaded).1, reads := ?_
      reader := ?_, producer := ?_, consumer := trivial }
    · apply synchronized.ordered.pop
      rw [← synchronized.heads.current, ← current] at value
      simp only [Threads.step, latest, idle, current, value]
    · show state.pushed.length < head.seen .producer + n
      rw [seen]
      exact synchronized.room
    · show head.seen .producer ≤ _
      rw [seen]
      exact synchronized.freed
    · rw [synchronized.reads, counted]
      rfl
    · show InTurn positive state.queue .consumer state.popped.length
      rw [← counted]
      exact synchronized.reader
    · have sees := synchronized.producer
      simp only [ProducerSees, seen] at sees ⊢
      exact sees
  next => cases taken

/-- The steps of a push but its load of the head. -/
theorem Synchronized.producer_latest {store : Nat} (synchronized : Synchronized positive state)
    (taken : state.step (.producer store) = some after) : state.latest.step .producer = some after.latest := by
  simp only [step, stepProducer] at taken
  simp only [Threads.step, Threads.stepProducer]
  cases producer : state.producer with
  | idle => simp [producer] at taken
  | headLoaded val head =>
    simp only [producer] at taken
    obtain ⟨⟨message, tail⟩, loaded, last⟩ := Option.bind_eq_some_iff.mp taken
    cases last
    obtain ⟨_, current, _⟩ := synchronized.tails.load loaded
    have value := synchronized.tails.load_own loaded
    rw [← synchronized.tails.current, ← current] at value
    simp only [latest, producer, current, value]
  | tailLoaded val head tail =>
    simp only [producer] at taken
    split at taken
    next full =>
      cases taken
      simp only [latest, producer, if_pos full]
    next space =>
      cases taken
      simp only [latest, producer, if_neg space]
  | tested val tail =>
    simp only [producer, Option.some.injEq] at taken
    subst taken
    simp only [latest, producer, write_values]
  | written val tail =>
    simp only [producer, Option.some.injEq] at taken
    subst taken
    simp only [latest, producer, Cell.store_current]

theorem Synchronized.stepProducer {store : Nat} (synchronized : Synchronized positive state)
    (taken : state.step (.producer store) = some after) : Synchronized positive after := by
  have ordered := synchronized.ordered.stepProducer (synchronized.producer_latest taken)
  have knows := synchronized.ordered.producer
  have sees := synchronized.producer
  have room := synchronized.room
  have writes := synchronized.writes
  have writer := synchronized.writer
  simp only [step, Weak.stepProducer] at taken
  cases producer : state.producer with
  | idle => simp [producer] at taken
  | headLoaded val head =>
    simp only [producer, ProducerSees, Weak.written] at taken sees writes writer
    obtain ⟨⟨message, tail⟩, loaded, last⟩ := Option.bind_eq_some_iff.mp taken
    cases last
    obtain ⟨_, _, other⟩ := Cell.load_newer loaded
    have seen : tail.seen .consumer = state.tail.seen .consumer := other _ (by decide)
    refine { synchronized with
      ordered, tails := (synchronized.tails.load loaded).1, filled := ?_, found := ?_
      tailViews := (synchronized.tailViews.load loaded).1, writes, writer, producer := sees, consumer := ?_ }
    · show _ ≤ tail.seen .consumer
      rw [seen]
      exact synchronized.filled
    · show tail.seen .consumer ≤ _
      rw [seen]
      exact synchronized.found
    · have consumer := synchronized.consumer
      simp only [ConsumerSees, seen] at consumer ⊢
      exact consumer
  | tailLoaded val head tail =>
    simp only [producer, ProducerSees, Threads.ProducerKnows, latest, Weak.written] at taken sees knows writes writer
    split at taken
    next full =>
      cases taken
      exact { synchronized with ordered, writes, writer, producer := trivial }
    next space =>
      cases taken
      refine { synchronized with ordered, writes, writer, producer := ?_ }
      have apart : state.pushed.length + 1 ≠ state.head.seen .producer + n := by
        intro turn
        apply space
        rw [sees, knows.2, Ring.next_slot, turn, Ring.slot_add_size]
      show state.pushed.length + 1 < state.head.seen .producer + n
      omega
  | tested val tail =>
    simp only [producer, Option.some.injEq, ProducerSees, Threads.ProducerKnows, latest, Weak.written]
      at taken sees knows writes writer
    subst taken
    have ticks := Views.clock_tick_le state.views .producer
    refine { synchronized with
      ordered, freed := ?_, found := ?_, causal := synchronized.causal.tick _
      headViews := synchronized.headViews.trans ticks, tailViews := synchronized.tailViews.trans ticks, writes := ?_
      reads := ?_, writer := ?_, reader := synchronized.reader.other (show Party.consumer ≠ .producer by decide) _ _
      producer := sees }
    · show _ ≤ state.views.tick .producer .producer .consumer
      rw [Views.tick_self, View.tick_other (by decide)]
      exact synchronized.freed
    · show _ ≤ state.views.tick .producer .consumer .producer
      rw [Views.tick_other (by decide)]
      exact synchronized.found
    · show (state.views.tick .producer).clock .producer = state.pushed.length + 1
      rw [Views.clock_tick_self, writes]
    · show (state.views.tick .producer).clock .consumer = state.taken
      rw [Views.clock_tick_other (by decide), synchronized.reads]
    · show InTurn positive (state.write .producer tail val) .producer (state.pushed.length + 1)
      rw [knows.1]
      exact writer.write writes val
  | written val tail =>
    simp only [producer, Option.some.injEq, ProducerSees, Threads.ProducerKnows, latest, Weak.written]
      at taken sees knows writes writer
    subst taken
    have count : (state.pushed ++ [val]).length = state.pushed.length + 1 := List.length_append
    refine { synchronized with
      ordered, tails := ?_, room := ?_, filled := ?_, found := ?_
      tailViews := synchronized.tailViews.store (synchronized.causal .producer) _, writes := ?_, writer := ?_
      producer := trivial, consumer := ?_ }
    · rw [count]
      apply synchronized.tails.store
      · rw [← Ring.next_slot, ← knows.1]
      · exact Nat.le_of_eq writes.symm
    · rw [count]
      exact sees
    · rw [Cell.store_seen_other (by decide)]
      exact synchronized.filled
    · rw [Cell.store_seen_other (by decide)]
      exact synchronized.found
    · exact writes.trans count.symm
    · show InTurn positive state.queue .producer (state.pushed ++ [val]).length
      rw [count]
      exact writer
    · have consumer := synchronized.consumer
      simp only [ConsumerSees, Cell.store_seen_other (show Party.consumer ≠ Party.producer by decide)] at consumer ⊢
      exact consumer

theorem Synchronized.stepConsumer {store : Nat} (synchronized : Synchronized positive state)
    (taken : state.step (.consumer store) = some after) : Synchronized positive after := by
  have knows := synchronized.ordered.consumer
  have sees := synchronized.consumer
  have filled := synchronized.filled
  have reads := synchronized.reads
  have reader := synchronized.reader
  simp only [step, Weak.stepConsumer] at taken
  cases consumer : state.consumer with
  | idle => simp [consumer] at taken
  | headLoaded head =>
    simp only [consumer, Threads.ConsumerKnows, latest, Weak.taken, Threads.base] at taken knows reads reader
    obtain ⟨⟨message, tail⟩, loaded, last⟩ := Option.bind_eq_some_iff.mp taken
    cases last
    obtain ⟨newer, saw, _⟩ := Cell.load_newer loaded
    obtain ⟨tails, current, within, value, covers⟩ := synchronized.tails.load loaded
    obtain ⟨tailViews, carried⟩ := synchronized.tailViews.load loaded
    have clock : (state.views.acquire .consumer message).clock = state.views.clock := Views.clock_acquire carried
    have ordered := synchronized.ordered
    refine { synchronized with
      ordered := ?_, tails, filled := ?_, freed := ?_, found := ?_, causal := synchronized.causal.acquire carried _
      headViews := ?_, tailViews := ?_, writes := ?_, reads := ?_, reader := reader, consumer := ?_ }
    · have cells := ordered.cells
      simp only [latest, Threads.base, consumer] at cells
      refine { ordered with tail := ?_, producer := ordered.producer, consumer := ⟨knows, store, ?_, within, value⟩, cells }
      · show tail.current = _
        rw [current]
        exact ordered.tail
      · show state.popped.length ≤ store
        omega
    · show state.popped.length ≤ tail.seen .consumer
      omega
    · show _ ≤ (state.views.acquire .consumer message) .producer .consumer
      rw [Views.acquire_other (by decide)]
      exact synchronized.freed
    · show tail.seen .consumer ≤ (state.views.acquire .consumer message) .consumer .producer
      rw [saw, Views.acquire_self]
      exact Nat.le_trans covers (View.le_join_right ..)
    · show state.head.Within (state.views.acquire .consumer message).clock
      rw [clock]
      exact synchronized.headViews
    · show tail.Within (state.views.acquire .consumer message).clock
      rw [clock]
      exact tailViews
    · show (state.views.acquire .consumer message).clock .producer = state.written
      rw [clock, synchronized.writes]
    · show (state.views.acquire .consumer message).clock .consumer = state.popped.length
      rw [clock, reads]
    · show message.value = Ring.slot positive (tail.seen .consumer)
      rw [saw, value]
  | tailLoaded head tail =>
    simp only [consumer, ConsumerSees, Threads.ConsumerKnows, latest, Weak.taken, Threads.base]
      at taken sees knows reads reader
    split at taken
    next empty =>
      cases taken
      have ordered : Threads.Ordered positive { state with consumer := .idle : Weak α n }.latest := by
        apply synchronized.ordered.stepConsumer
        simp only [Threads.step, Threads.stepConsumer, latest, consumer, if_pos empty]
      exact { synchronized with ordered, reads, reader, consumer := trivial }
    next some =>
      cases taken
      have ordered : Threads.Ordered positive { state with consumer := .tested head : Weak α n }.latest := by
        apply synchronized.ordered.stepConsumer
        simp only [Threads.step, Threads.stepConsumer, latest, consumer, if_neg some]
      refine { synchronized with ordered, reads, reader, consumer := ?_ }
      have apart : state.popped.length ≠ state.tail.seen .consumer := by
        intro same
        apply some
        rw [knows.1, sees, same]
      show state.popped.length < state.tail.seen .consumer
      omega
  | tested head =>
    simp only [consumer, Option.some.injEq, ConsumerSees, Threads.ConsumerKnows, latest, Weak.taken, Threads.base]
      at taken sees knows reads reader
    subst taken
    have ticks := Views.clock_tick_le state.views .consumer
    refine { synchronized with
      ordered := ?_, freed := ?_, found := ?_, causal := synchronized.causal.tick _
      headViews := synchronized.headViews.trans ticks, tailViews := synchronized.tailViews.trans ticks, writes := ?_
      reads := ?_, writer := synchronized.writer.other (show Party.producer ≠ .consumer by decide) _ _, reader := ?_
      consumer := sees }
    · apply synchronized.ordered.stepConsumer
      simp only [Threads.step, Threads.stepConsumer, latest, consumer, write_values]
    · show _ ≤ state.views.tick .consumer .producer .consumer
      rw [Views.tick_other (by decide)]
      exact synchronized.freed
    · show _ ≤ state.views.tick .consumer .consumer .producer
      rw [Views.tick_self, View.tick_other (by decide)]
      exact synchronized.found
    · show (state.views.tick .consumer).clock .producer = state.written
      rw [Views.clock_tick_other (by decide), synchronized.writes]
    · show (state.views.tick .consumer).clock .consumer = state.popped.length + 1
      rw [Views.clock_tick_self, reads]
    · show InTurn positive (state.write .consumer head default) .consumer (state.popped.length + 1)
      rw [knows.1]
      exact reader.write reads default
  | read head out =>
    simp only [consumer, Option.some.injEq, ConsumerSees, Threads.ConsumerKnows, latest, Weak.taken, Threads.base]
      at taken sees knows reads reader
    subst taken
    have count : (state.popped ++ [out]).length = state.popped.length + 1 := List.length_append
    refine { synchronized with
      ordered := ?_, heads := ?_, room := ?_, filled := ?_, freed := ?_
      headViews := synchronized.headViews.store (synchronized.causal .consumer) _, reads := ?_, reader := ?_
      producer := ?_, consumer := trivial }
    · apply synchronized.ordered.stepConsumer
      simp only [Threads.step, Threads.stepConsumer, latest, consumer, Cell.store_current]
    · rw [count]
      apply synchronized.heads.store
      · rw [← Ring.next_slot, ← knows.1]
      · exact Nat.le_of_eq reads.symm
    · rw [Cell.store_seen_other (by decide)]
      exact synchronized.room
    · rw [count]
      exact sees
    · rw [Cell.store_seen_other (by decide)]
      exact synchronized.freed
    · exact reads.trans count.symm
    · show InTurn positive state.queue .consumer (state.popped ++ [out]).length
      rw [count]
      exact reader
    · have producer := synchronized.producer
      simp only [ProducerSees, Cell.store_seen_other (show Party.producer ≠ Party.consumer by decide)] at producer ⊢
      exact producer

theorem Synchronized.step {action : Action α} (synchronized : Synchronized positive state)
    (taken : state.step action = some after) : Synchronized positive after := by
  cases action with
  | push val store => exact synchronized.push taken
  | pop store => exact synchronized.pop taken
  | producer store => exact synchronized.stepProducer taken
  | consumer store => exact synchronized.stepConsumer taken

theorem Synchronized.reached {actions : List (Action α)}
    (reached : Runs.exec Weak.step (start positive) actions = some state) : Synchronized positive state :=
  Runs.always (fun _ state => Synchronized positive state) .initial (fun _ _ _ _ synchronized taken => synchronized.step taken)
    reached

end Steps

theorem Synchronized.head_seen (synchronized : Synchronized positive state) :
    state.head.seen .producer ≤ state.popped.length := synchronized.heads.known _

theorem Synchronized.written_lt (synchronized : Synchronized positive state) :
    state.written < state.popped.length + n := by
  have room := synchronized.ordered.room
  have sees := synchronized.producer
  have seen := synchronized.head_seen
  unfold written ProducerSees at *
  cases producer : state.producer <;> simp only [producer] at sees ⊢
  all_goals first | exact room | omega

theorem Synchronized.writes_safely (synchronized : Synchronized positive state) {val : α} {tail : Fin n}
    (tested : state.producer = .tested val tail) : ¬ (state.queue tail).Races .producer (state.views .producer) := by
  rintro ⟨other, apart, unseen⟩
  have sees := synchronized.producer
  have knows := synchronized.ordered.producer
  simp only [ProducerSees, Threads.ProducerKnows, latest, tested] at sees knows
  cases other with
  | producer => exact apart rfl
  | consumer =>
    obtain ⟨count, popped, last, place⟩ := synchronized.reader tail (by omega)
    have behind : state.taken ≤ state.pushed.length := synchronized.ordered.base_le
    have freed := synchronized.freed
    -- the slot was read a whole turn before, by a pop that the head seen accounts for
    have turn : count + n ≤ state.pushed.length := by
      by_contra near
      have same := (Ring.slot_eq_iff positive (by omega) (by omega)).mp (place.symm.trans knows.1)
      omega
    omega

theorem Synchronized.reads_safely (synchronized : Synchronized positive state) {head : Fin n}
    (tested : state.consumer = .tested head) : ¬ (state.queue head).Races .consumer (state.views .consumer) := by
  rintro ⟨other, apart, unseen⟩
  have sees := synchronized.consumer
  have knows := synchronized.ordered.consumer
  simp only [ConsumerSees, Threads.ConsumerKnows, latest, tested] at sees knows
  cases other with
  | consumer => exact apart rfl
  | producer =>
    obtain ⟨count, pushed, last, place⟩ := synchronized.writer head (by omega)
    have found := synchronized.found
    have ahead := synchronized.written_lt
    -- a later push has not come round to the slot
    have reached : count ≤ state.popped.length := by
      by_contra later
      have same := (Ring.slot_eq_iff positive (by omega) (by omega)).mp (knows.1.symm.trans place)
      omega
    omega

theorem Synchronized.no_race (synchronized : Synchronized positive state) : ¬ state.Races := by
  rintro (⟨val, tail, tested, races⟩ | ⟨head, tested, races⟩)
  · exact synchronized.writes_safely tested races
  · exact synchronized.reads_safely tested races

theorem Synchronized.full (synchronized : Synchronized positive state) {val : α} {head tail : Fin n}
    (loaded : state.producer = .tailLoaded val head tail) :
    head = Ring.next tail ↔ state.pushed.length + 1 = state.head.seen .producer + n := by
  have sees := synchronized.producer
  have knows := synchronized.ordered.producer
  have room := synchronized.room
  have seen := synchronized.head_seen
  have counts := synchronized.ordered.delivered.length_le
  simp only [ProducerSees, Threads.ProducerKnows, latest, loaded] at sees knows counts
  rw [sees, knows.2, Ring.next_slot]
  constructor
  · intro turn
    by_contra space
    have same := (Ring.slot_eq_iff positive (by omega) (by omega)).mp turn
    omega
  · intro full
    rw [full, Ring.slot_add_size]

theorem Synchronized.empty (synchronized : Synchronized positive state) {head tail : Fin n}
    (loaded : state.consumer = .tailLoaded head tail) :
    head = tail ↔ state.tail.seen .consumer = state.popped.length := by
  have sees := synchronized.consumer
  have knows := synchronized.ordered.consumer
  have seen := synchronized.tails.known .consumer
  have room := synchronized.ordered.room
  simp only [ConsumerSees, Threads.ConsumerKnows, latest, loaded] at sees knows room
  rw [knows.1, sees, Ring.slot_eq_iff positive synchronized.filled (by omega)]
  exact eq_comm

variable [Inhabited α]

/-- Each step of `Threads` is the step here that reads the latest store. -/
theorem Synchronized.follow {action : SPSCQueue.Action α} {next : Threads α n}
    (synchronized : Synchronized positive state) (taken : state.latest.step action = some next) :
    ∃ fresh after, fresh.plain = action ∧ state.step fresh = some after ∧ after.latest = next := by
  have heads := synchronized.heads.load_latest
  have tails := synchronized.tails.load_latest
  cases action with
  | push val =>
    refine ⟨.push val state.head.latest, ?_⟩
    simp only [Threads.step, latest] at taken
    simp only [Weak.step, heads]
    cases producer : state.producer with
    | idle =>
      simp only [producer] at taken
      exact ⟨_, rfl, rfl, Option.some.inj taken⟩
    | headLoaded | tailLoaded | tested | written => simp [producer] at taken
  | pop =>
    refine ⟨.pop state.head.latest, ?_⟩
    simp only [Threads.step, latest] at taken
    simp only [Weak.step, heads]
    cases consumer : state.consumer with
    | idle =>
      simp only [consumer] at taken
      exact ⟨_, rfl, rfl, Option.some.inj taken⟩
    | headLoaded | tailLoaded | tested | read => simp [consumer] at taken
  | producer =>
    have done : ∃ after, state.step (.producer state.tail.latest) = some after := by
      simp only [Threads.step, Threads.stepProducer, latest] at taken
      simp only [Weak.step, Weak.stepProducer, tails]
      cases producer : state.producer with
      | idle => simp [producer] at taken
      | headLoaded | tested | written => exact ⟨_, rfl⟩
      | tailLoaded => dsimp only; split <;> exact ⟨_, rfl⟩
    obtain ⟨after, stepped⟩ := done
    refine ⟨.producer state.tail.latest, after, rfl, stepped, ?_⟩
    exact Option.some.inj ((synchronized.producer_latest stepped).symm.trans taken)
  | consumer =>
    refine ⟨.consumer state.tail.latest, ?_⟩
    simp only [Threads.step, Threads.stepConsumer, latest] at taken
    simp only [Weak.step, Weak.stepConsumer, tails]
    cases consumer : state.consumer with
    | idle => simp [consumer] at taken
    | headLoaded =>
      simp only [consumer] at taken
      exact ⟨_, rfl, rfl, Option.some.inj taken⟩
    | tailLoaded head tail =>
      simp only [consumer] at taken
      dsimp only
      split at taken
      next none =>
        rw [if_pos none]
        exact ⟨_, rfl, rfl, Option.some.inj taken⟩
      next some =>
        rw [if_neg some]
        exact ⟨_, rfl, rfl, Option.some.inj taken⟩
    | tested head =>
      simp only [consumer, Option.some.injEq] at taken
      refine ⟨_, rfl, rfl, ?_⟩
      rw [← taken]
      simp only [latest, write_values]
    | read =>
      simp only [consumer, Option.some.injEq] at taken
      refine ⟨_, rfl, rfl, ?_⟩
      rw [← taken]
      simp only [latest, Cell.store_current]

/-- Every interleaving of accesses that read the latest stores is among the runs here. -/
theorem interleaved {actions : List (SPSCQueue.Action α)} {final : Threads α n}
    (reached : Runs.exec Threads.step (Threads.start positive) actions = some final) :
    ∃ fresh state, fresh.map Action.plain = actions ∧ Runs.exec Weak.step (start positive) fresh = some state ∧
      state.latest = final := by
  refine Runs.always (fun actions final => ∃ fresh state, fresh.map Action.plain = actions ∧
    Runs.exec Weak.step (start positive) fresh = some state ∧ state.latest = final) ⟨[], start positive, rfl, rfl, rfl⟩ ?_ reached
  rintro done action _ next ⟨fresh, state, plain, run, rfl⟩ taken
  obtain ⟨last, after, same, stepped, latest⟩ := (Synchronized.reached run).follow taken
  refine ⟨fresh ++ [last], after, ?_, ?_, latest⟩
  · rw [List.map_append, plain, List.map_singleton, same]
  · rw [Runs.exec_concat, run, Option.bind_some, stepped]

/-- With the memory orders of the source the threads never race for a slot, and what is popped
is what was pushed, in order. Only the refusals are weaker: a push is refused and a pop
finds nothing by what the thread has seen of the other's index, which may be out of date. The runs whose
accesses read the latest stores are among these. -/
theorem race_free {actions : List (Action α)} (reached : Runs.exec Weak.step (start positive) actions = some state) :
    ¬ state.Races ∧ state.popped <+: state.pushed ∧ state.pushed.length < state.popped.length + n ∧
      (∀ val head tail, state.producer = .tailLoaded val head tail →
        (head = Ring.next tail ↔ state.pushed.length + 1 = state.head.seen .producer + n)) ∧
      (∀ head tail, state.consumer = .tailLoaded head tail →
        (head = tail ↔ state.tail.seen .consumer = state.popped.length)) ∧
      ∀ (accesses : List (SPSCQueue.Action α)) (final : Threads α n),
        Runs.exec Threads.step (Threads.start positive) accesses = some final →
          ∃ fresh state, fresh.map Action.plain = accesses ∧ Runs.exec Weak.step (start positive) fresh = some state ∧
            state.latest = final := by
  have synchronized := Synchronized.reached reached
  exact ⟨synchronized.no_race, synchronized.ordered.delivered, synchronized.ordered.room,
    fun _ _ _ loaded => synchronized.full loaded, fun _ _ loaded => synchronized.empty loaded, fun _ _ => interleaved⟩

/-- One value is left in a queue of two places, and the consumer has found it empty and the
producer full. -/
private def outdated : List (Action Nat) :=
  [.push 7 0, .producer 0, .producer 0, .producer 0, .producer 0, .pop 0, .consumer 1, .consumer 0, .consumer 0,
    .consumer 0, .push 8 0, .producer 1, .producer 0, .producer 0, .producer 0, .pop 1, .consumer 1, .consumer 0,
    .push 9 0, .producer 2, .producer 0]

theorem race_free_outdated :
    ∃ state : Weak Nat 3, Runs.exec Weak.step (start (by decide)) outdated = some state ∧
      state.pushed = [7, 8] ∧ state.refused = [9] ∧ state.popped = [7] ∧
      ¬ state.Races ∧ state.popped <+: state.pushed ∧ state.pushed.length < state.popped.length + 3 ∧
      (∀ val head tail, state.producer = .tailLoaded val head tail →
        (head = Ring.next tail ↔ state.pushed.length + 1 = state.head.seen .producer + 3)) ∧
      (∀ head tail, state.consumer = .tailLoaded head tail →
        (head = tail ↔ state.tail.seen .consumer = state.popped.length)) ∧
      ∀ (accesses : List (SPSCQueue.Action Nat)) (final : Threads Nat 3),
        Runs.exec Threads.step (Threads.start (by decide)) accesses = some final →
          ∃ fresh state, fresh.map Action.plain = accesses ∧ Runs.exec Weak.step (start (by decide)) fresh = some state ∧
            state.latest = final := by
  have run : ∃ state : Weak Nat 3, Runs.exec Weak.step (start (by decide)) outdated = some state ∧
      state.pushed = [7, 8] ∧ state.refused = [9] ∧ state.popped = [7] := ⟨_, rfl, rfl, rfl, rfl⟩
  obtain ⟨state, reached, pushed, refused, popped⟩ := run
  exact ⟨state, reached, pushed, refused, popped, race_free reached⟩

end ShowdownCli.SPSCQueue.Weak
