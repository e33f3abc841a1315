import Mathlib.Data.Int.ModEq
import ShowdownCli.Library.Fifo
import ShowdownCli.Proofs.QueueContents

/-! The queue refines a bounded queue with one place less than it has cells. Its
contents are the abstraction, so no sequence of complete calls tells the two apart,
however often the indices wrap around. -/

namespace ShowdownCli.SPSCQueue
open Library

variable {α : Type} {n : Nat}

/-- Counting from the head to the tail may pass the last cell. -/
theorem held_difference (queue : SPSCQueue α n) : ((queue.tail.val : Int) - queue.head.val) % n = queue.held := by
  have head := queue.head.isLt
  rw [held, Int.natCast_mod, Nat.cast_sub (by omega), Nat.cast_add, add_sub_right_comm, Int.add_emod_right]

theorem push_refines (queue : SPSCQueue α n) (val : α) :
    (queue.push val).1 = (Fifo.push (n - 1) queue.contents val).1 ∧
      (queue.push val).2.contents = (Fifo.push (n - 1) queue.contents val).2 := by
  by_cases room : queue.contents.length < n - 1
  · rw [Fifo.push, if_pos room]
    exact push_room (by omega) val
  · rw [Fifo.push, if_neg room, push_full (by omega) val]
    exact ⟨rfl, rfl⟩

variable [Inhabited α]

def call : Fifo.Call α → StateM (SPSCQueue α n) (Fifo.Answer α)
  | .push val => fun queue => (.pushed (queue.push val).1, (queue.push val).2)
  | .pop out => fun queue => (.popped (queue.popInto out).1 (queue.popInto out).2.1, (queue.popInto out).2.2)

theorem popInto_nil {queue : SPSCQueue α n} (none : queue.contents = []) (out : α) :
    queue.popInto out = (false, out, queue) := by
  rw [popInto, pop_none.mpr none]

theorem popInto_refines (queue : SPSCQueue α n) (out : α) :
    (queue.popInto out).1 = (Fifo.pop queue.contents out).1 ∧
      (queue.popInto out).2.1 = (Fifo.pop queue.contents out).2.1 ∧
      (queue.popInto out).2.2.contents = (Fifo.pop queue.contents out).2.2 := by
  cases popped : queue.pop with
  | none =>
    have none := pop_none.mp popped
    rw [popInto_nil none, none]
    exact ⟨rfl, rfl, rfl⟩
  | some result =>
    obtain ⟨val, after⟩ := result
    rw [popInto, popped, pop_some popped]
    exact ⟨rfl, rfl, rfl⟩

/-- The contents before and after a call are those of the bounded queue. -/
theorem call_simulates : Simulates (fun (queue : SPSCQueue α n) items => queue.contents = items) call
    (Fifo.call (n - 1)) := by
  intro input queue items same
  subst same
  cases input with
  | push val =>
    obtain ⟨accepted, after⟩ := queue.push_refines val
    exact ⟨congrArg Fifo.Answer.pushed accepted, after⟩
  | pop out =>
    obtain ⟨found, stored, after⟩ := queue.popInto_refines out
    exact ⟨congrArg₂ Fifo.Answer.popped found stored, after⟩

theorem empty_contents (positive : 0 < n) : (empty positive : SPSCQueue α n).contents = [] := by
  rw [← empty_iff]
  rfl

/-- Along every sequence of complete calls the queue answers as a first-in first-out queue
of `n - 1` places would, and it holds the same values. A push that it refuses and a pop that
finds nothing leave the indices, the cells and the variable of the caller as they were. -/
theorem refines_fifo (positive : 0 < n) (calls : List (Fifo.Call α)) :
    ∃ answers, ∃ queue : SPSCQueue α n, ∃ items,
      (calls.mapM call).run (empty positive) = (answers, queue) ∧
      (calls.mapM (Fifo.call (n - 1))).run [] = (answers, items) ∧
      queue.contents = items ∧ ((queue.tail.val : Int) - queue.head.val) % n = items.length ∧
      queue.head.val < n ∧ queue.tail.val < n ∧
      (∀ val, n - 1 ≤ items.length → queue.push val = (false, queue)) ∧
      (∀ out, items = [] → queue.popInto out = (false, out, queue)) := by
  obtain ⟨answers, same⟩ := call_simulates.run calls (empty_contents (α := α) positive)
  generalize (calls.mapM call).run (empty positive) = left at answers same ⊢
  generalize (calls.mapM (Fifo.call (n - 1))).run [] = right at answers same ⊢
  obtain ⟨heard, queue⟩ := left
  obtain ⟨told, items⟩ := right
  cases answers
  cases same
  refine ⟨heard, queue, queue.contents, rfl, rfl, rfl, ?_, queue.head.isLt, queue.tail.isLt, ?_, ?_⟩
  · rw [held_difference, contents_length]
  · intro val full
    exact push_full (Nat.le_add_of_sub_le full) val
  · intro out none
    exact popInto_nil none out

/-- Two places, and a fourth push that has to wrap around. -/
theorem refines_fifo_three : ∃ answers, ∃ queue : SPSCQueue Nat 3, ∃ items,
    (([.push 5, .push 6, .push 7, .pop 0, .push 8] : List (Fifo.Call Nat)).mapM call).run (empty (by decide)) =
      (answers, queue) ∧
    (([.push 5, .push 6, .push 7, .pop 0, .push 8] : List (Fifo.Call Nat)).mapM (Fifo.call 2)).run [] =
      (answers, items) ∧
    queue.contents = items ∧ ((queue.tail.val : Int) - queue.head.val) % 3 = items.length ∧
    queue.head.val < 3 ∧ queue.tail.val < 3 ∧
    (∀ val, 2 ≤ items.length → queue.push val = (false, queue)) ∧
    (∀ out, items = [] → queue.popInto out = (false, out, queue)) :=
  refines_fifo (by decide) _

end ShowdownCli.SPSCQueue
