import ShowdownCli.Library.Weak
import ShowdownCli.Queue

/-! The ring buffer under the memory orders that its source names. Each thread loads the
index of the other with `acquire` and its own with `relaxed`, and stores its own with
`release`; the slots are plain memory. A load may return an older store. -/

namespace ShowdownCli.SPSCQueue
open Library Weak

structure Weak (α : Type) (n : Nat) where
  queue : Fin n → Plain Party α
  head : Cell Party (Fin n)
  tail : Cell Party (Fin n)
  views : Views Party
  producer : Producer α n
  consumer : Consumer α n
  pushed : List α
  refused : List α
  popped : List α

namespace Weak
variable {α : Type} {n : Nat} [Inhabited α]

/-- The steps of `Threads`, each with the store that its load reads, if it is a load. -/
inductive Action (α : Type) where
  | push (val : α) (store : Nat)
  | pop (store : Nat)
  | producer (store : Nat)
  | consumer (store : Nat)

/-- The step of `Threads`, whatever store is read. -/
def Action.plain : Action α → SPSCQueue.Action α
  | .push val _ => .push val
  | .pop _ => .pop
  | .producer _ => .producer
  | .consumer _ => .consumer

def start (positive : 0 < n) : Weak α n where
  queue := fun _ => .initial default
  head := .initial ⟨0, positive⟩
  tail := .initial ⟨0, positive⟩
  views := fun _ _ => 0
  producer := .idle
  consumer := .idle
  pushed := []
  refused := []
  popped := []

/-- The slot after an access by the thread. -/
def write (state : Weak α n) (party : Party) (slot : Fin n) (val : α) : Fin n → Plain Party α :=
  Function.update state.queue slot ((state.queue slot).write party ((state.views party).tick party) val)

def stepProducer (state : Weak α n) (store : Nat) : Option (Weak α n) :=
  match state.producer with
  | .idle => none
  | .headLoaded val head => do
    let (message, tail) ← state.tail.load .producer store
    return { state with tail, producer := .tailLoaded val head message.value }
  | .tailLoaded val head tail =>
    if head = Ring.next tail then
      some { state with producer := .idle, refused := state.refused ++ [val] }
    else some { state with producer := .tested val tail }
  | .tested val tail =>
    some { state with
      queue := state.write .producer tail val, views := state.views.tick .producer, producer := .written val tail }
  | .written val tail =>
    some { state with
      tail := state.tail.store .producer { value := Ring.next tail, view := state.views .producer }
      producer := .idle
      pushed := state.pushed ++ [val] }

def stepConsumer (state : Weak α n) (store : Nat) : Option (Weak α n) :=
  match state.consumer with
  | .idle => none
  | .headLoaded head => do
    let (message, tail) ← state.tail.load .consumer store
    return { state with tail, views := state.views.acquire .consumer message, consumer := .tailLoaded head message.value }
  | .tailLoaded head tail =>
    if head = tail then some { state with consumer := .idle }
    else some { state with consumer := .tested head }
  | .tested head =>
    some { state with
      queue := state.write .consumer head default
      views := state.views.tick .consumer
      consumer := .read head (state.queue head).value }
  | .read head out =>
    some { state with
      head := state.head.store .consumer { value := Ring.next head, view := state.views .consumer }
      consumer := .idle
      popped := state.popped ++ [out] }

def step (state : Weak α n) : Action α → Option (Weak α n)
  | .push val store =>
    match state.producer with
    | .idle => do
      let (message, head) ← state.head.load .producer store
      return { state with
        head, views := state.views.acquire .producer message, producer := .headLoaded val message.value }
    | _ => none
  | .pop store =>
    match state.consumer with
    | .idle => do
      let (message, head) ← state.head.load .consumer store
      return { state with head, consumer := .headLoaded message.value }
    | _ => none
  | .producer store => state.stepProducer store
  | .consumer store => state.stepConsumer store

/-- The next access of a thread to a slot conflicts with one that did not happen before:
the behaviour of the program is undefined. -/
def Races (state : Weak α n) : Prop :=
  (∃ val tail, state.producer = .tested val tail ∧ (state.queue tail).Races .producer (state.views .producer)) ∨
    ∃ head, state.consumer = .tested head ∧ (state.queue head).Races .consumer (state.views .consumer)

/-- The same state with the latest stores alone. -/
def latest (state : Weak α n) : Threads α n where
  shared := { queue := fun slot => (state.queue slot).value, head := state.head.current, tail := state.tail.current }
  producer := state.producer
  consumer := state.consumer
  pushed := state.pushed
  refused := state.refused
  popped := state.popped

end Weak
end ShowdownCli.SPSCQueue
