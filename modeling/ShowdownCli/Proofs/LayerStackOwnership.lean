import Mathlib.Data.List.Nodup
import Mathlib.Data.List.Perm.Basic
import ShowdownCli.Library.Log
import ShowdownCli.Proofs.LayerStackHalves

/-! The stack owns its layers. Each of them is attached by the call that pushes it, and
detached and deleted by one pop or by the destructor. -/

namespace ShowdownCli
open Library

namespace Lifecycle
variable {α : Type}

def layer : Lifecycle α → α
  | .onAttach layer | .onDetach layer | .delete layer => layer

end Lifecycle

namespace LayerStack
variable {α : Type}

/-- What a call does to the layers, or the destructor, which is no call. -/
abbrev Block (α : Type) := Option (Call α) × List (Lifecycle α)

/-- A stack with all that was done to its layers. -/
structure Owner (α : Type) where
  stack : LayerStack α := {}
  blocks : List (Block α) := []
deriving DecidableEq

theorem release_cases (stack : LayerStack α) (it : Nat) : stack.release it = (stack, []) ∨
    ∃ layer, (stack.release it).2 = [.onDetach layer, .delete layer] ∧
      stack.layers.Perm (layer :: (stack.release it).1.layers) := by
  unfold release
  cases found : stack.layers[it]? with
  | none => exact Or.inl rfl
  | some layer =>
    obtain ⟨inside, rfl⟩ := List.getElem?_eq_some_iff.mp found
    exact Or.inr ⟨_, rfl, (List.getElem_cons_eraseIdx_perm inside).symm⟩

/-- How many layers the index of the destructor runs over. -/
def indexed (stack : LayerStack α) : Nat := (Int.bmod (stack.layers.length - 1) UInt32.size + 1).toNat

theorem destroy_indexed (stack : LayerStack α) : stack.destroy =
    (stack.layers.take stack.indexed).reverse.flatMap fun layer => [.onDetach layer, .delete layer] := rfl

/-- The index is an `int`, and half of the sizes that it is computed from are out of its range. -/
theorem indexed_all (stack : LayerStack α) : stack.layers.length ≤ stack.indexed ↔ stack.layers.length ≤ 2147483648 := by
  have size : (UInt32.size : Int) = 4294967296 := rfl
  unfold indexed Int.bmod
  simp only [size]
  split <;> omega

theorem take_all (layers : List α) (distinct : layers.Nodup) (count : Nat) :
    (∀ layer ∈ layers, layer ∈ layers.take count) ↔ layers.length ≤ count := by
  constructor
  · intro all
    refine Nat.le_of_not_lt fun short => ?_
    have inside := all layers[count] (List.getElem_mem short)
    obtain ⟨index, before, same⟩ := List.mem_take_iff_getElem.mp inside
    have equal := (List.Nodup.getElem_inj_iff distinct).mp same
    omega
  · intro long layer member
    rwa [List.take_of_length_le long]

variable [DecidableEq α]

def Owner.step (owner : Owner α) (call : Call α) : Option (Owner α) :=
  (owner.stack.call call).map fun (stack, effects) => { stack, blocks := owner.blocks ++ [(some call, effects)] }

/-- The whole life of the stack, to the end of its destructor. -/
def Owner.finish (owner : Owner α) : List (Block α) := owner.blocks ++ [(none, owner.stack.destroy)]

/-- The part of a block that is about a layer. -/
def Block.on (layer : α) (block : Block α) : Option (Block α) :=
  match block.2.filter fun effect => effect.layer = layer with
  | [] => none
  | effects => some (block.1, effects)

def about (layer : α) (blocks : List (Block α)) : List (Block α) := blocks.filterMap (Block.on layer)

/-- The layer is attached by its push, and then one pop or the destructor detaches and deletes it. -/
def Owned (layer : α) (blocks : List (Block α)) : Prop :=
  ∃ push release, push.pushed = some layer ∧ release.bind Call.pushed = none ∧
    about layer blocks = [(some push, [.onAttach layer]), (release, [.onDetach layer, .delete layer])]

/-- The layer is attached by its push and nothing else was done to it. -/
def Attached (layer : α) (blocks : List (Block α)) : Prop :=
  ∃ push, push.pushed = some layer ∧ about layer blocks = [(some push, [.onAttach layer])]

variable {stack after : LayerStack α} {call : Call α} {calls : List (Call α)} {effects : List (Lifecycle α)}
  {blocks : List (Block α)} {layer other : α} {owner final : Owner α}

/-! ## One call -/

theorem call_push (called : stack.call call = some (after, effects)) (pushed : call.pushed = some layer) :
    effects = [.onAttach layer] ∧ after.layers.Perm (layer :: stack.layers) := by
  cases call with
  | pushLayer pushedLayer =>
    cases pushed
    obtain ⟨offset, bounded, made⟩ := Option.map_eq_some_iff.mp called
    cases made
    refine ⟨rfl, List.perm_insertIdx _ _ ?_⟩
    unfold split at bounded
    split at bounded
    next inside =>
      cases bounded
      exact inside
    next => cases bounded
  | pushOverlay overlay =>
    cases pushed
    cases called
    exact ⟨rfl, List.perm_append_singleton _ _⟩
  | popLayer | popOverlay => cases pushed

theorem call_pop_cases (called : stack.call call = some (after, effects)) (pops : call.pushed = none) :
    effects = [] ∧ after = stack ∨
      ∃ layer, effects = [.onDetach layer, .delete layer] ∧ stack.layers.Perm (layer :: after.layers) := by
  have released : ∃ it, stack.release it = (after, effects) := by
    cases call with
    | pushLayer | pushOverlay => cases pops
    | popLayer | popOverlay =>
      obtain ⟨offset, _, released⟩ := Option.map_eq_some_iff.mp called
      exact ⟨_, released⟩
  obtain ⟨it, released⟩ := released
  have cases := stack.release_cases it
  rw [released] at cases
  rcases cases with same | removed
  · cases same
    exact Or.inl ⟨rfl, rfl⟩
  · exact Or.inr removed

/-! ## The blocks about one layer -/

theorem about_concat (layer : α) (blocks : List (Block α)) (block : Block α) :
    about layer (blocks ++ [block]) = about layer blocks ++ (block.on layer).toList := Log.filterMap_concat ..

theorem on_nothing (layer : α) (call : Option (Call α)) : Block.on layer (call, []) = none := rfl

theorem on_attach (layer other : α) (call : Option (Call α)) : Block.on layer (call, [.onAttach other]) =
    if other = layer then some (call, [.onAttach layer]) else none := by
  by_cases same : other = layer
  · subst same
    simp [Block.on, Lifecycle.layer]
  · simp [Block.on, Lifecycle.layer, same]

theorem on_release (layer other : α) (call : Option (Call α)) : Block.on layer (call, [.onDetach other, .delete other]) =
    if other = layer then some (call, [.onDetach layer, .delete layer]) else none := by
  by_cases same : other = layer
  · subst same
    simp [Block.on, Lifecycle.layer]
  · simp [Block.on, Lifecycle.layer, same]

theorem Attached.keep {later : List (Block α)} (attached : Attached layer blocks)
    (same : about layer later = about layer blocks) : Attached layer later := by
  obtain ⟨push, pushes, attached⟩ := attached
  exact ⟨push, pushes, same.trans attached⟩

theorem Owned.keep {later : List (Block α)} (owned : Owned layer blocks)
    (same : about layer later = about layer blocks) : Owned layer later := by
  obtain ⟨push, release, pushes, pops, owned⟩ := owned
  exact ⟨push, release, pushes, pops, same.trans owned⟩

/-- A call or the destructor releases a layer that was only attached before. -/
theorem Attached.release {later : List (Block α)} {release : Option (Call α)} (attached : Attached layer blocks)
    (pops : release.bind Call.pushed = none)
    (released : about layer later = about layer blocks ++ [(release, [.onDetach layer, .delete layer])]) :
    Owned layer later := by
  obtain ⟨push, pushes, attached⟩ := attached
  rw [attached] at released
  exact ⟨push, release, pushes, pops, released⟩

/-- What a stack of distinct layers owes to them. -/
structure Holds (calls : List (Call α)) (owner : Owner α) : Prop where
  distinct : owner.stack.layers.Nodup
  attached : ∀ layer ∈ owner.stack.layers, Attached layer owner.blocks
  released : ∀ layer ∈ calls.filterMap Call.pushed, layer ∉ owner.stack.layers → Owned layer owner.blocks
  unpushed : ∀ layer, layer ∉ calls.filterMap Call.pushed → layer ∉ owner.stack.layers ∧ about layer owner.blocks = []

theorem Holds.push (holds : Holds calls owner) {after : Owner α} (taken : owner.step call = some after)
    (pushed : call.pushed = some layer) (fresh : layer ∉ calls.filterMap Call.pushed) : Holds (calls ++ [call]) after := by
  obtain ⟨⟨stack, effects⟩, called, rfl⟩ := Option.map_eq_some_iff.mp taken
  obtain ⟨rfl, layers⟩ := call_push called pushed
  obtain ⟨absent, untouched⟩ := holds.unpushed layer fresh
  have live (other : α) : other ∈ stack.layers ↔ other = layer ∨ other ∈ owner.stack.layers := by
    rw [layers.mem_iff, List.mem_cons]
  have grown (other : α) : other ∈ (calls ++ [call]).filterMap Call.pushed ↔
      other ∈ calls.filterMap Call.pushed ∨ other = layer := by
    rw [Log.filterMap_concat, pushed, Option.toList_some, List.mem_append, List.mem_singleton]
  have others {other : α} (different : other ≠ layer) :
      about other (owner.blocks ++ [(some call, [.onAttach layer])]) = about other owner.blocks := by
    rw [about_concat, on_attach, if_neg (Ne.symm different), Option.toList_none, List.append_nil]
  constructor
  · rw [layers.nodup_iff]
    exact List.nodup_cons.mpr ⟨absent, holds.distinct⟩
  · intro other member
    by_cases same : other = layer
    · subst same
      refine ⟨call, pushed, ?_⟩
      rw [about_concat, untouched, on_attach, if_pos rfl]
      rfl
    · exact (holds.attached other (((live other).mp member).resolve_left same)).keep (others same)
  · intro other member gone
    rw [live, not_or] at gone
    obtain ⟨different, gone⟩ := gone
    exact (holds.released other (((grown other).mp member).resolve_right different) gone).keep (others different)
  · intro other unpushed
    rw [grown, not_or] at unpushed
    obtain ⟨absent, untouched⟩ := holds.unpushed other unpushed.1
    exact ⟨fun member => ((live other).mp member).elim unpushed.2 absent, (others unpushed.2).trans untouched⟩

theorem Holds.pop (holds : Holds calls owner) {after : Owner α} (taken : owner.step call = some after)
    (pops : call.pushed = none) : Holds (calls ++ [call]) after := by
  obtain ⟨⟨stack, effects⟩, called, rfl⟩ := Option.map_eq_some_iff.mp taken
  have grown : (calls ++ [call]).filterMap Call.pushed = calls.filterMap Call.pushed := by
    rw [Log.filterMap_concat, pops, Option.toList_none, List.append_nil]
  rcases call_pop_cases called pops with ⟨rfl, rfl⟩ | ⟨layer, rfl, layers⟩
  · have same (other : α) : about other (owner.blocks ++ [(some call, [])]) = about other owner.blocks := by
      rw [about_concat, on_nothing, Option.toList_none, List.append_nil]
    constructor
    · exact holds.distinct
    · exact fun other member => (holds.attached other member).keep (same other)
    · intro other member gone
      rw [grown] at member
      exact (holds.released other member gone).keep (same other)
    · intro other unpushed
      rw [grown] at unpushed
      obtain ⟨absent, untouched⟩ := holds.unpushed other unpushed
      exact ⟨absent, (same other).trans untouched⟩
  · have distinct := layers.nodup_iff.mp holds.distinct
    obtain ⟨absent, rest⟩ := List.nodup_cons.mp distinct
    have live (other : α) : other ∈ owner.stack.layers ↔ other = layer ∨ other ∈ stack.layers := by
      rw [layers.mem_iff, List.mem_cons]
    have others {other : α} (different : other ≠ layer) :
        about other (owner.blocks ++ [(some call, [.onDetach layer, .delete layer])]) = about other owner.blocks := by
      rw [about_concat, on_release, if_neg (Ne.symm different), Option.toList_none, List.append_nil]
    constructor
    · exact rest
    · intro other member
      have different : other ≠ layer := fun same => absent (same ▸ member)
      exact (holds.attached other ((live other).mpr (Or.inr member))).keep (others different)
    · intro other member gone
      rw [grown] at member
      by_cases same : other = layer
      · subst same
        have released : about other (owner.blocks ++ [(some call, [.onDetach other, .delete other])]) =
            about other owner.blocks ++ [(some call, [.onDetach other, .delete other])] := by
          rw [about_concat, on_release, if_pos rfl, Option.toList_some]
        have popped : (some call).bind Call.pushed = none := pops
        exact (holds.attached other ((live other).mpr (Or.inl rfl))).release popped released
      · have earlier : other ∉ owner.stack.layers := fun inside => ((live other).mp inside).elim same gone
        exact (holds.released other member earlier).keep (others same)
    · intro other unpushed
      rw [grown] at unpushed
      obtain ⟨outside, untouched⟩ := holds.unpushed other unpushed
      rw [live, not_or] at outside
      exact ⟨outside.2, (others outside.1).trans untouched⟩

theorem holds (distinct : (calls.filterMap Call.pushed).Nodup) (reached : Runs.exec Owner.step {} calls = some owner) :
    Holds calls owner := by
  have initial : Holds [] ({} : Owner α) := by
    constructor <;> simp [about]
  refine Runs.always (fun done owner => (done.filterMap Call.pushed).Nodup → Holds done owner) (fun _ => initial) ?_
    reached distinct
  intro done call before after prior taken nodup
  rw [Log.filterMap_concat] at nodup
  obtain ⟨earlier, _, apart⟩ := List.nodup_append.mp nodup
  have holds := prior earlier
  cases pushed : call.pushed with
  | none => exact holds.pop taken pushed
  | some layer =>
    rw [pushed, Option.toList_some] at apart
    exact holds.push taken pushed fun member => apart layer member layer (List.mem_singleton_self layer) rfl

/-! ## The destructor -/

theorem filter_released (layers : List α) (distinct : layers.Nodup) (layer : α) :
    (layers.flatMap fun other => [Lifecycle.onDetach other, .delete other]).filter (fun effect => effect.layer = layer) =
      if layer ∈ layers then [.onDetach layer, .delete layer] else [] := by
  induction layers with
  | nil => rfl
  | cons first rest ih =>
    obtain ⟨absent, distinct⟩ := List.nodup_cons.mp distinct
    rw [List.flatMap_cons, List.filter_append, ih distinct]
    by_cases same : first = layer
    · subst same
      simp [Lifecycle.layer, absent]
    · simp [Lifecycle.layer, same, Ne.symm same]

theorem on_destroy (distinct : stack.layers.Nodup) (layer : α) : Block.on layer (none, stack.destroy) =
    if layer ∈ stack.layers.take stack.indexed then some (none, [.onDetach layer, .delete layer]) else none := by
  have part : (stack.layers.take stack.indexed).reverse.Nodup :=
    List.nodup_reverse.mpr (distinct.sublist (List.take_sublist ..))
  have effects := filter_released _ part layer
  simp only [List.mem_reverse] at effects
  by_cases member : layer ∈ stack.layers.take stack.indexed
  · rw [if_pos member] at effects ⊢
    simp only [Block.on, destroy_indexed, effects]
  · rw [if_neg member] at effects ⊢
    simp only [Block.on, destroy_indexed, effects]

/-- Every layer is released when no layer is left that the destructor does not reach. -/
theorem Holds.owned_iff (holds : Holds calls owner) :
    (∀ layer ∈ calls.filterMap Call.pushed, Owned layer owner.finish) ↔
      ∀ layer ∈ owner.stack.layers, layer ∈ owner.stack.layers.take owner.stack.indexed := by
  have last (layer : α) : about layer owner.finish =
      about layer owner.blocks ++ (if layer ∈ owner.stack.layers.take owner.stack.indexed
        then some (none, [.onDetach layer, .delete layer]) else none : Option (Block α)).toList := by
    rw [Owner.finish, about_concat, on_destroy holds.distinct]
  constructor
  · intro owned layer member
    have pushed : layer ∈ calls.filterMap Call.pushed :=
      Classical.byContradiction fun unpushed => (holds.unpushed layer unpushed).1 member
    obtain ⟨_, _, _, _, twice⟩ := owned layer pushed
    obtain ⟨_, _, once⟩ := holds.attached layer member
    refine Classical.byContradiction fun beyond => ?_
    rw [last, once, if_neg beyond] at twice
    cases twice
  · intro all layer pushed
    by_cases member : layer ∈ owner.stack.layers
    · have released := last layer
      rw [if_pos (all layer member), Option.toList_some] at released
      exact (holds.attached layer member).release rfl released
    · refine (holds.released layer pushed member).keep ?_
      have beyond : layer ∉ owner.stack.layers.take owner.stack.indexed :=
        fun inside => member (List.mem_of_mem_take inside)
      rw [last, if_neg beyond, Option.toList_none, List.append_nil]

theorem Holds.owned_all (holds : Holds calls owner) :
    (∀ layer ∈ calls.filterMap Call.pushed, Owned layer owner.finish) ↔ owner.stack.layers.length ≤ 2147483648 := by
  rw [holds.owned_iff, take_all _ holds.distinct, indexed_all]

/-- Whatever the pops name, a pointer in the stack is of a layer that was attached and nothing
else. Every layer is released once and by one pop or the destructor, exactly when the index of
the destructor can count those that are left. -/
theorem released_iff (distinct : (calls.filterMap Call.pushed).Nodup)
    (reached : Runs.exec Owner.step {} calls = some owner) :
    ((∀ done before, done <+: calls → Runs.exec Owner.step {} done = some before →
        ∀ layer ∈ before.stack.layers, Attached layer before.blocks) ∧
      ∀ layer ∈ calls.filterMap Call.pushed, Owned layer owner.finish) ↔ owner.stack.layers.length ≤ 2147483648 := by
  rw [(holds distinct reached).owned_all, and_iff_right]
  intro done before inside earlier
  have part := distinct.sublist (inside.sublist.filterMap Call.pushed)
  exact (holds part earlier).attached

theorem released_iff_exchange :
    ∃ owner, Runs.exec Owner.step {} [.pushLayer 0, .pushOverlay 1, .pushLayer 2, .popLayer 1, .popOverlay 3] = some owner ∧
      owner.stack.layers = [0, 2] ∧
      (((∀ done before, done <+: [.pushLayer 0, .pushOverlay 1, .pushLayer 2, .popLayer 1, .popOverlay 3] →
          Runs.exec Owner.step {} done = some before →
          ∀ layer ∈ before.stack.layers, Attached layer before.blocks) ∧
        ∀ layer ∈ [Call.pushLayer 0, .pushOverlay 1, .pushLayer 2, .popLayer 1, .popOverlay 3].filterMap Call.pushed,
          Owned layer owner.finish) ↔ owner.stack.layers.length ≤ 2147483648) := by
  have run : (Runs.exec Owner.step {} [Call.pushLayer 0, .pushOverlay 1, .pushLayer 2, .popLayer 1, .popOverlay 3]).map
      (fun owner => owner.stack.layers) = some [0, 2] := by decide
  obtain ⟨owner, reached, layers⟩ := Option.map_eq_some_iff.mp run
  exact ⟨owner, reached, layers, released_iff (by decide) reached⟩

theorem exec_overlays (items : List α) : Runs.exec Owner.step {} (items.map Call.pushOverlay) = some
    { stack := { layers := items }, blocks := items.map fun item => (some (.pushOverlay item), [.onAttach item]) } := by
  induction items using List.reverseRecOn with
  | nil => rfl
  | append_singleton items item ih =>
    rw [List.map_append, List.map_singleton, Runs.exec_concat, ih, Option.bind_some, Owner.step, call, pushOverlay,
      List.map_append]
    rfl

/-- One overlay more than the index can count: none of them is released. -/
theorem overlays_leak : ∃ owner, Runs.exec Owner.step {} ((List.range 2147483649).map Call.pushOverlay) = some owner ∧
    (((List.range 2147483649).map Call.pushOverlay).filterMap Call.pushed).Nodup ∧
    ¬ ∀ layer ∈ ((List.range 2147483649).map Call.pushOverlay).filterMap Call.pushed, Owned layer owner.finish := by
  have pushes (items : List Nat) : (items.map Call.pushOverlay).filterMap Call.pushed = items := by
    rw [List.filterMap_map]
    exact List.filterMap_some
  have distinct : (((List.range 2147483649).map Call.pushOverlay).filterMap Call.pushed).Nodup := by
    rw [pushes]
    exact List.nodup_range
  refine ⟨_, exec_overlays _, distinct, ?_⟩
  rw [(holds distinct (exec_overlays _)).owned_all]
  simp only [List.length_range]
  omega

end LayerStack
end ShowdownCli
