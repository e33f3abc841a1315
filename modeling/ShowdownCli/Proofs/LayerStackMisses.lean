import ShowdownCli.Proofs.LayerStackHalves

/-! Pops that name a pointer which is not in their part of the stack. Both searches
return the end of their own part, but both pops compare it with the end of the whole
vector, so a layer that is not there is taken for the first overlay. -/

namespace ShowdownCli.LayerStack

variable {α : Type}

/-- A pop whose pointer is not in the part that it searches. -/
def Halves.Misses (halves : Halves α) : Call α → Prop
  | .popLayer layer => layer ∉ halves.layers
  | .popOverlay overlay => overlay ∉ halves.overlays
  | _ => False

theorem release_end (stack : LayerStack α) : stack.release stack.layers.length = (stack, []) := by
  rw [release, List.getElem?_eq_none (Nat.le_refl _)]

variable [DecidableEq α] {stack : LayerStack α} {halves : Halves α}

/-- A layer that is not found is searched up to the first overlay. -/
theorem Refines.missLayer (same : Refines stack halves) {layer : α} (absent : layer ∉ halves.layers) :
    stack.call (.popLayer layer) = some (stack.release halves.layers.length) := by
  rw [call, LayerStack.popLayer, same.split, Option.map_some, same.layers, List.take_left, List.idxOf_eq_length absent]

/-- An overlay that is not found is searched up to the end. -/
theorem Refines.missOverlay (same : Refines stack halves) {overlay : α} (absent : overlay ∉ halves.overlays) :
    stack.call (.popOverlay overlay) = some (stack, []) := by
  have whole : halves.layers.length + halves.overlays.length = stack.layers.length := by
    rw [same.layers, List.length_append]
  rw [call, LayerStack.popOverlay, same.split, Option.map_some]
  conv_lhs => rw [same.layers, List.drop_left, List.idxOf_eq_length absent, whole, release_end]

/-- Popping what is not there changes nothing, unless it is a layer and there are overlays. -/
theorem miss_iff (same : Refines stack halves) {call : Call α} (misses : halves.Misses call) :
    stack.call call = some (stack, []) ↔ ∀ layer, call = .popLayer layer → halves.overlays = [] := by
  cases call with
  | pushLayer | pushOverlay => exact misses.elim
  | popOverlay overlay => exact iff_of_true (same.missOverlay misses) (by simp)
  | popLayer layer =>
    simp only [same.missLayer misses, Option.some.injEq, Call.popLayer.injEq, forall_eq']
    have shape := same.layers
    cases overlays : halves.overlays with
    | nil =>
      rw [overlays, List.append_nil] at shape
      rw [← shape]
      exact iff_of_true stack.release_end rfl
    | cons overlay rest =>
      have first : stack.layers[halves.layers.length]? = some overlay := by
        rw [shape, overlays, List.getElem?_append_right (Nat.le_refl _), Nat.sub_self, List.getElem?_cons_zero]
      rw [release, first]
      simp

/-- The menu with one overlay above it, and a pop of a layer that was never pushed. -/
theorem missed_layer_takes_overlay :
    Refines { layers := [0, 1], layerIteratorOffset := 1 } { layers := [0], overlays := [1] } ∧
      (LayerStack.mk [0, 1] 1).call (.popLayer 7) = some (LayerStack.mk [0] 0, [.onDetach 1, .delete 1]) := by
  decide

theorem miss_iff_menu : (LayerStack.mk [0] 1).call (.popLayer 7) = some (LayerStack.mk [0] 1, []) ↔
    ∀ layer, Call.popLayer 7 = .popLayer layer → (Halves.mk [0] []).overlays = [] := by
  have same : Refines (LayerStack.mk [0] 1) (Halves.mk [0] []) := ⟨rfl, rfl⟩
  have misses : (Halves.mk [0] []).Misses (.popLayer 7) := List.not_mem_cons_of_ne_of_not_mem (by decide) List.not_mem_nil
  exact miss_iff same misses

end ShowdownCli.LayerStack
