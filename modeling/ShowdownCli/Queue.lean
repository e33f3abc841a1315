import ShowdownCli.Library.Ring

/-! The single-producer single-consumer ring buffer behind the inbound messages
and the events (`core/thread/queue.h`). `push` and `pop` are complete calls;
`Threads.step` is the same code one atomic access at a time. -/

namespace ShowdownCli
open Library

/-- `m_capacity` is `n` and never changes. A default-constructed value stands
for one that was never written and for what a move leaves behind. -/
structure SPSCQueue (α : Type) (n : Nat) where
  queue : Fin n → α
  head : Fin n
  tail : Fin n

namespace SPSCQueue
variable {α : Type} {n : Nat} [Inhabited α]

def empty (positive : 0 < n) : SPSCQueue α n :=
  { queue := fun _ => default, head := ⟨0, positive⟩, tail := ⟨0, positive⟩ }

def push (queue : SPSCQueue α n) (val : α) : Bool × SPSCQueue α n :=
  let head := queue.head
  let tail := queue.tail
  if head = Ring.next tail then (false, queue)
  else (true, { queue with queue := Function.update queue.queue tail val, tail := Ring.next tail })

def pop (queue : SPSCQueue α n) : Option (α × SPSCQueue α n) :=
  let head := queue.head
  let tail := queue.tail
  if head = tail then none
  else some (queue.queue head,
    { queue with queue := Function.update queue.queue head default, head := Ring.next head })

/-- `pop` with the variable of its caller, which only a successful call assigns. -/
def popInto (queue : SPSCQueue α n) (out : α) : Bool × α × SPSCQueue α n :=
  match queue.pop with
  | none => (false, out, queue)
  | some (val, after) => (true, val, after)

/-- The number of values held, from the two indices alone. -/
def held (queue : SPSCQueue α n) : Nat := (queue.tail.val + n - queue.head.val) % n

def contents (queue : SPSCQueue α n) : List α :=
  (List.range queue.held).map fun index => queue.queue (Ring.slot queue.head.pos (queue.head.val + index))

end SPSCQueue

namespace SPSCQueue

/-- The two threads, as the processes that call the queue. -/
inductive Party where
  | producer
  | consumer
deriving DecidableEq

/-- Where the producing thread is inside `push`, with its local variables. -/
inductive Producer (α : Type) (n : Nat) where
  | idle
  | headLoaded (val : α) (head : Fin n)
  | tailLoaded (val : α) (head tail : Fin n)
  | tested (val : α) (tail : Fin n)
  | written (val : α) (tail : Fin n)
deriving DecidableEq

/-- Where the consuming thread is inside `pop`, with its local variables. -/
inductive Consumer (α : Type) (n : Nat) where
  | idle
  | headLoaded (head : Fin n)
  | tailLoaded (head tail : Fin n)
  | tested (head : Fin n)
  | read (head : Fin n) (out : α)
deriving DecidableEq

/-- Both threads and the memory they share. `pushed`, `refused` and `popped`
record what the finished calls returned, in order. -/
structure Threads (α : Type) (n : Nat) where
  shared : SPSCQueue α n
  producer : Producer α n
  consumer : Consumer α n
  pushed : List α
  refused : List α
  popped : List α

inductive Action (α : Type) where
  | push (val : α)
  | pop
  | producer
  | consumer

namespace Threads
variable {α : Type} {n : Nat} [Inhabited α]

def start (positive : 0 < n) : Threads α n :=
  { shared := empty positive, producer := .idle, consumer := .idle, pushed := [], refused := [], popped := [] }

def stepProducer (state : Threads α n) : Option (Threads α n) :=
  match state.producer with
  | .idle => none
  | .headLoaded val head => some { state with producer := .tailLoaded val head state.shared.tail }
  | .tailLoaded val head tail =>
    if head = Ring.next tail then
      some { state with producer := .idle, refused := state.refused ++ [val] }
    else some { state with producer := .tested val tail }
  | .tested val tail =>
    some { state with
      shared := { state.shared with queue := Function.update state.shared.queue tail val }
      producer := .written val tail }
  | .written val tail =>
    some { state with
      shared := { state.shared with tail := Ring.next tail }
      producer := .idle
      pushed := state.pushed ++ [val] }

def stepConsumer (state : Threads α n) : Option (Threads α n) :=
  match state.consumer with
  | .idle => none
  | .headLoaded head => some { state with consumer := .tailLoaded head state.shared.tail }
  | .tailLoaded head tail =>
    if head = tail then some { state with consumer := .idle }
    else some { state with consumer := .tested head }
  | .tested head =>
    some { state with
      shared := { state.shared with queue := Function.update state.shared.queue head default }
      consumer := .read head (state.shared.queue head) }
  | .read head out =>
    some { state with
      shared := { state.shared with head := Ring.next head }
      consumer := .idle
      popped := state.popped ++ [out] }

/-- A call begins with its load of `m_head`; every later access is a step of
its own. The threads may take turns in any order. -/
def step (state : Threads α n) : Action α → Option (Threads α n)
  | .push val =>
    match state.producer with
    | .idle => some { state with producer := .headLoaded val state.shared.head }
    | _ => none
  | .pop =>
    match state.consumer with
    | .idle => some { state with consumer := .headLoaded state.shared.head }
    | _ => none
  | .producer => state.stepProducer
  | .consumer => state.stepConsumer

end Threads
end SPSCQueue
end ShowdownCli
