import Mathlib.Data.List.Basic

/-! The stack of UI layers (`core/layerstack.h`): one vector of owning pointers
and an offset that should separate the layers from the overlays. -/

namespace ShowdownCli

/-- What an operation does to a layer object, in the order it happens. -/
inductive Lifecycle (α : Type) where
  | onAttach (layer : α)
  | onDetach (layer : α)
  | delete (layer : α)
deriving DecidableEq

structure LayerStack (α : Type) where
  layers : List α := []
  layerIteratorOffset : UInt32 := 0
deriving DecidableEq

namespace LayerStack
variable {α : Type}

/-- `begin() + m_layer_iterator_offset` only exists up to `end()`. -/
def split (stack : LayerStack α) : Option Nat :=
  if stack.layerIteratorOffset.toNat ≤ stack.layers.length then some stack.layerIteratorOffset.toNat else none

/-- The common tail of both pops, at the position the search returned. -/
def release (stack : LayerStack α) (it : Nat) : LayerStack α × List (Lifecycle α) :=
  match stack.layers[it]? with
  | none => (stack, [])
  | some layer =>
    ({ layers := stack.layers.eraseIdx it, layerIteratorOffset := stack.layerIteratorOffset - 1 },
      [.onDetach layer, .delete layer])

def pushLayer (stack : LayerStack α) (layer : α) : Option (LayerStack α × List (Lifecycle α)) :=
  stack.split.map fun offset =>
    ({ layers := stack.layers.insertIdx offset layer, layerIteratorOffset := stack.layerIteratorOffset + 1 },
      [.onAttach layer])

def pushOverlay (stack : LayerStack α) (overlay : α) : Option (LayerStack α × List (Lifecycle α)) :=
  some ({ stack with layers := stack.layers ++ [overlay] }, [.onAttach overlay])

variable [DecidableEq α]

/-- A search that finds nothing returns the end of the range it searched, which
is the start of the overlays here. -/
def popLayer (stack : LayerStack α) (layer : α) : Option (LayerStack α × List (Lifecycle α)) :=
  stack.split.map fun offset => stack.release ((stack.layers.take offset).idxOf layer)

def popOverlay (stack : LayerStack α) (overlay : α) : Option (LayerStack α × List (Lifecycle α)) :=
  stack.split.map fun offset => stack.release (offset + (stack.layers.drop offset).idxOf overlay)

end LayerStack

/-- Calls the application makes on its layer stack. -/
inductive LayerStack.Call (α : Type) where
  | pushLayer (layer : α)
  | pushOverlay (overlay : α)
  | popLayer (layer : α)
  | popOverlay (overlay : α)
deriving DecidableEq

def LayerStack.call {α : Type} [DecidableEq α] (stack : LayerStack α) :
    Call α → Option (LayerStack α × List (Lifecycle α))
  | .pushLayer layer => stack.pushLayer layer
  | .pushOverlay overlay => stack.pushOverlay overlay
  | .popLayer layer => stack.popLayer layer
  | .popOverlay overlay => stack.popOverlay overlay

/-- The destructor runs from the back of the vector to its front. Its index is an `int`,
which `m_layers.size() - 1` is reduced to. -/
def LayerStack.destroy {α : Type} (stack : LayerStack α) : List (Lifecycle α) :=
  let last := Int.bmod (stack.layers.length - 1) UInt32.size
  (stack.layers.take (last + 1).toNat).reverse.flatMap fun layer => [.onDetach layer, .delete layer]

end ShowdownCli
