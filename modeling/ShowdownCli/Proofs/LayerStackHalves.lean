import ShowdownCli.Library.Runs
import ShowdownCli.LayerStack

/-! The stack as the pair of lists its comments describe: layers in the first
half, overlays in the second. Every operation but `popOverlay` keeps the two
in step; that one also moves the boundary, although no layer has left. -/

namespace ShowdownCli.LayerStack
open Library

variable {α : Type}

/-- The live layers and the live overlays, each in push order. -/
structure Halves (α : Type) where
  layers : List α := []
  overlays : List α := []
deriving DecidableEq

structure Refines (stack : LayerStack α) (halves : Halves α) : Prop where
  layers : stack.layers = halves.layers ++ halves.overlays
  offset : stack.layerIteratorOffset.toNat = halves.layers.length

instance [DecidableEq α] (stack : LayerStack α) (halves : Halves α) : Decidable (Refines stack halves) :=
  decidable_of_iff (stack.layers = halves.layers ++ halves.overlays ∧
      stack.layerIteratorOffset.toNat = halves.layers.length)
    ⟨fun ⟨layers, offset⟩ => ⟨layers, offset⟩, fun same => ⟨same.layers, same.offset⟩⟩

theorem Refines.split {stack : LayerStack α} {halves : Halves α} (same : Refines stack halves) :
    stack.split = some halves.layers.length := by
  simp [LayerStack.split, same.offset, same.layers]

theorem Refines.bounded {stack : LayerStack α} {halves : Halves α} (same : Refines stack halves) :
    halves.layers.length < UInt32.size := same.offset ▸ stack.layerIteratorOffset.toNat_lt

private theorem insertIdx_boundary (first rest : List α) (item : α) :
    (first ++ rest).insertIdx first.length item = first ++ item :: rest := by
  induction first with
  | nil => simp
  | cons head first ih => simp [ih]

variable [DecidableEq α]

def Halves.step (halves : Halves α) : Call α → Halves α
  | .pushLayer layer => { halves with layers := halves.layers ++ [layer] }
  | .pushOverlay overlay => { halves with overlays := halves.overlays ++ [overlay] }
  | .popLayer layer => { halves with layers := halves.layers.erase layer }
  | .popOverlay overlay => { halves with overlays := halves.overlays.erase overlay }

def halves (calls : List (Call α)) : Halves α := calls.foldl Halves.step {}

theorem halves_concat (calls : List (Call α)) (call : Call α) :
    halves (calls ++ [call]) = (halves calls).step call := by
  simp [halves]

/-- A pop names a live pointer of its own kind. -/
def Halves.Permits (halves : Halves α) : Call α → Prop
  | .popLayer layer => layer ∈ halves.layers
  | .popOverlay overlay => overlay ∈ halves.overlays
  | _ => True

instance (halves : Halves α) (call : Call α) : Decidable (halves.Permits call) := by
  cases call <;> unfold Halves.Permits <;> infer_instance

def Call.pushed : Call α → Option α
  | .pushLayer layer => some layer
  | .pushOverlay overlay => some overlay
  | _ => none

structure WellUsed (calls : List (Call α)) : Prop where
  distinct : (calls.filterMap Call.pushed).Nodup
  pops : ∀ done call, done ++ [call] <+: calls → (halves done).Permits call

def step (stack : LayerStack α) (call : Call α) : Option (LayerStack α) := (stack.call call).map Prod.fst

/-- The stack after the calls exists and is the two lists in one. -/
def Agrees (calls : List (Call α)) : Prop :=
  ∃ stack, Runs.exec step {} calls = some stack ∧ Refines stack (halves calls)

theorem Refines.pushLayer {stack after : LayerStack α} {halves : Halves α} (same : Refines stack halves)
    (layer : α) (taken : stack.step (.pushLayer layer) = some after) :
    Refines after (halves.step (.pushLayer layer)) ↔ halves.layers.length + 1 < UInt32.size := by
  simp only [step, call, LayerStack.pushLayer, same.split, Option.map_some, Option.some.injEq] at taken
  subst taken
  have offset : (stack.layerIteratorOffset + 1).toNat = (halves.layers.length + 1) % UInt32.size := by
    rw [UInt32.toNat_add, same.offset]
    rfl
  constructor
  · intro refined
    exact refined.bounded.trans_eq' (by simp [Halves.step])
  · intro room
    refine ⟨?_, ?_⟩
    · simp [Halves.step, same.layers, insertIdx_boundary]
    · rw [offset, Nat.mod_eq_of_lt room]
      simp [Halves.step]

theorem Refines.pushOverlay {stack after : LayerStack α} {halves : Halves α} (same : Refines stack halves)
    (overlay : α) (taken : stack.step (.pushOverlay overlay) = some after) :
    Refines after (halves.step (.pushOverlay overlay)) := by
  simp only [step, call, LayerStack.pushOverlay, Option.map_some, Option.some.injEq] at taken
  subst taken
  exact ⟨by simp [Halves.step, same.layers], same.offset⟩

/-- A layer of the first half is found there, and only it leaves. -/
theorem Refines.popLayer {stack after : LayerStack α} {halves : Halves α} (same : Refines stack halves)
    {layer : α} (live : layer ∈ halves.layers) (taken : stack.step (.popLayer layer) = some after) :
    Refines after (halves.step (.popLayer layer)) := by
  have found : halves.layers.idxOf layer < halves.layers.length := List.idxOf_lt_length_of_mem live
  have here : stack.layers[halves.layers.idxOf layer]? = some layer := by
    rw [same.layers, List.getElem?_append_left found, List.getElem?_eq_getElem found, List.getElem_idxOf]
  simp only [step, call, LayerStack.popLayer, same.split, Option.map_some, Option.some.injEq] at taken
  rw [same.layers, List.take_left, LayerStack.release, here] at taken
  subst taken
  refine ⟨?_, ?_⟩
  · rw [same.layers]
    simp only [Halves.step]
    rw [List.eraseIdx_append_of_lt_length found, ← List.erase_eq_eraseIdx_of_idxOf rfl]
  · simp only [Halves.step, List.length_erase_of_mem live]
    rw [UInt32.toNat_sub, same.offset]
    have bounded : halves.layers.length < 4294967296 := same.bounded
    simp only [UInt32.toNat_one]
    omega

/-- An overlay is found too, but the boundary of the layers moves with it. -/
theorem Refines.popOverlay {stack after : LayerStack α} {halves : Halves α} (same : Refines stack halves)
    {overlay : α} (live : overlay ∈ halves.overlays) (taken : stack.step (.popOverlay overlay) = some after) :
    ¬ Refines after (halves.step (.popOverlay overlay)) := by
  intro refined
  have found : halves.overlays.idxOf overlay < halves.overlays.length := List.idxOf_lt_length_of_mem live
  have here : stack.layers[halves.layers.length + halves.overlays.idxOf overlay]? = some overlay := by
    rw [same.layers, List.getElem?_append_right (by omega), Nat.add_sub_cancel_left,
      List.getElem?_eq_getElem found, List.getElem_idxOf]
  simp only [step, call, LayerStack.popOverlay, same.split, Option.map_some, Option.some.injEq] at taken
  rw [same.layers, List.drop_left, LayerStack.release, here] at taken
  subst taken
  have moved := refined.offset
  simp only [Halves.step] at moved
  rw [UInt32.toNat_sub, same.offset] at moved
  have bounded : halves.layers.length < 4294967296 := same.bounded
  simp only [UInt32.toNat_one] at moved
  omega

theorem Refines.defined {stack : LayerStack α} {halves : Halves α} (same : Refines stack halves)
    (call : Call α) : ∃ after, stack.step call = some after := by
  cases call <;> simp [step, LayerStack.call, LayerStack.pushLayer, LayerStack.pushOverlay,
    LayerStack.popLayer, LayerStack.popOverlay, same.split]

/-- A call keeps the two lists in step exactly when it removes no overlay and
leaves fewer layers than the counter can count. -/
def Keeps (halves : Halves α) (call : Call α) : Prop :=
  (∀ overlay, call ≠ .popOverlay overlay) ∧ (halves.step call).layers.length < UInt32.size

theorem Refines.step_iff {stack after : LayerStack α} {halves : Halves α} (same : Refines stack halves)
    {call : Call α} (permitted : halves.Permits call) (taken : stack.step call = some after) :
    Refines after (halves.step call) ↔ Keeps halves call := by
  cases call with
  | pushLayer layer =>
    rw [same.pushLayer layer taken]
    simp [Keeps, Halves.step]
  | pushOverlay overlay =>
    exact iff_of_true (same.pushOverlay overlay taken) ⟨by simp, same.bounded⟩
  | popLayer layer =>
    have shorter := List.length_erase_le (a := layer) (l := halves.layers)
    exact iff_of_true (same.popLayer permitted taken) ⟨by simp, shorter.trans_lt same.bounded⟩
  | popOverlay overlay =>
    exact iff_of_false (same.popOverlay permitted taken) fun keeps => keeps.1 overlay rfl

/-- The stack is the two lists after every call of a run exactly when the run
pops no overlay and never holds so many layers that the counter wraps. -/
theorem agrees_iff {calls : List (Call α)} (used : WellUsed calls) :
    (∀ done, done <+: calls → Agrees done) ↔
      ∀ done call, done ++ [call] <+: calls → Keeps (halves done) call := by
  apply Runs.prefixes_iff
  · exact ⟨{}, rfl, rfl, rfl⟩
  · intro done call inside prior
    obtain ⟨stack, reached, same⟩ := prior done (List.prefix_refl _)
    obtain ⟨after, taken⟩ := same.defined call
    have extended : Runs.exec step {} (done ++ [call]) = some after := by
      rw [Runs.exec_concat, reached]
      exact taken
    rw [← same.step_iff (used.pops done call inside) taken, ← halves_concat]
    constructor
    · intro given
      obtain ⟨other, reached, refined⟩ := given
      cases extended.symm.trans reached
      exact refined
    · exact fun refined => ⟨after, extended, refined⟩

/-- A menu with one overlay above it; removing the overlay leaves the menu on the
wrong side of the boundary. -/
theorem overlay_pop_disagrees :
    WellUsed [Call.pushLayer 0, .pushOverlay 1, .popOverlay 1] ∧
      ¬ Agrees [Call.pushLayer 0, .pushOverlay 1, .popOverlay 1] := by
  refine ⟨⟨by decide, Runs.forall_steps.mpr (by decide)⟩, ?_⟩
  intro given
  obtain ⟨stack, reached, refined⟩ := given
  cases reached
  exact absurd refined (by decide)

theorem agrees_iff_layers :
    (∀ done, done <+: [Call.pushLayer 0, .pushOverlay 1, .pushLayer 2, .popLayer 0] → Agrees done) ↔
      ∀ done call, done ++ [call] <+: [Call.pushLayer 0, .pushOverlay 1, .pushLayer 2, .popLayer 0] →
        Keeps (halves done) call :=
  agrees_iff ⟨by decide, Runs.forall_steps.mpr (by decide)⟩

end ShowdownCli.LayerStack
