import Mathlib.Data.List.Basic

/-! Machines that answer each call they are given, and the bounded first-in
first-out queue as one of them. A machine whose calls agree with those of another
on related states gives the same answers along every sequence of calls. -/

namespace ShowdownCli.Library

universe u
variable {σ τ ι ω : Type u}

/-- Related states give equal answers to a call and stay related. -/
def Simulates (same : σ → τ → Prop) (machine : ι → StateM σ ω) (model : ι → StateM τ ω) : Prop :=
  ∀ input left right, same left right →
    ((machine input).run left).1 = ((model input).run right).1 ∧
      same ((machine input).run left).2 ((model input).run right).2

theorem Simulates.run {same : σ → τ → Prop} {machine : ι → StateM σ ω} {model : ι → StateM τ ω}
    (simulates : Simulates same machine model) (inputs : List ι) {left : σ} {right : τ} (related : same left right) :
    ((inputs.mapM machine).run left).1 = ((inputs.mapM model).run right).1 ∧
      same ((inputs.mapM machine).run left).2 ((inputs.mapM model).run right).2 := by
  induction inputs generalizing left right with
  | nil => exact ⟨rfl, related⟩
  | cons input rest ih =>
    obtain ⟨answer, after⟩ := simulates input left right related
    obtain ⟨answers, final⟩ := ih after
    rw [List.mapM_cons, List.mapM_cons]
    exact ⟨congrArg₂ List.cons answer answers, final⟩

namespace Fifo

variable {α : Type u}

/-- A popping caller passes a variable to store the value in. -/
inductive Call (α : Type u) where
  | push (val : α)
  | pop (out : α)
deriving DecidableEq

/-- Whether the call succeeded, and after a pop the caller's variable. -/
inductive Answer (α : Type u) where
  | pushed (accepted : Bool)
  | popped (found : Bool) (out : α)
deriving DecidableEq

def push (capacity : Nat) (items : List α) (val : α) : Bool × List α :=
  if items.length < capacity then (true, items ++ [val]) else (false, items)

def pop (items : List α) (out : α) : Bool × α × List α :=
  match items with
  | [] => (false, out, [])
  | item :: rest => (true, item, rest)

def call (capacity : Nat) : Call α → StateM (List α) (Answer α)
  | .push val => fun items => (.pushed (push capacity items val).1, (push capacity items val).2)
  | .pop out => fun items => (.popped (pop items out).1 (pop items out).2.1, (pop items out).2.2)

theorem call_full {capacity : Nat} {items : List α} (full : capacity ≤ items.length) (val : α) :
    (call capacity (.push val)).run items = (.pushed false, items) := by
  show (_, _) = _
  rw [push, if_neg (Nat.not_lt.mpr full)]

theorem call_room {capacity : Nat} {items : List α} (room : items.length < capacity) (val : α) :
    (call capacity (.push val)).run items = (.pushed true, items ++ [val]) := by
  show (_, _) = _
  rw [push, if_pos room]

end Fifo
end ShowdownCli.Library
