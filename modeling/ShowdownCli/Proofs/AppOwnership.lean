import Mathlib.Data.List.Nodup
import ShowdownCli.Proofs.AppSteps

/-! Who owns the layers. Once the menu has been put on the stack, the objects that have
not been deleted are those on the stack, each once, whatever the pops removed. -/

namespace ShowdownCli.PsApp
open Library

/-- There is a layer at an address that has not been deleted. -/
def Live (app : PsApp) (layer : Nat) : Prop := ∃ kind, app.kinds[layer]? = some (some kind)

theorem live_object {app : PsApp} {layer : Nat} : app.Live layer ↔ ∃ object, app.object layer = .ok object := by
  constructor
  · intro live
    obtain ⟨kind, here⟩ := live
    obtain ⟨object, found, _⟩ := kind_object here
    exact ⟨object, found⟩
  · intro live
    obtain ⟨object, found⟩ := live
    exact ⟨object.kind, object_kind found⟩

structure Owned (app : PsApp) : Prop where
  once : app.layerstack.layers.Nodup
  live : ∀ layer, app.Live layer ↔ layer ∈ app.layerstack.layers

/-- The stack owns the layers, or the first event still holds the menu. -/
inductive Owning (app : PsApp) : Prop where
  | pending (opening : Opening app)
  | owned (owned : Owned app)

variable {world : World} {app start middle after : PsApp} {event : Event}

theorem Owned.congr (owned : Owned app) (layers : after.layerstack = app.layerstack) (kinds : after.kinds = app.kinds) :
    Owned after := by
  refine ⟨layers ▸ owned.once, fun layer => ?_⟩
  rw [Live, kinds, layers]
  exact owned.live layer

theorem Owned.removed (owned : Owned app) {it gone : Nat} (here : app.layerstack.layers[it]? = some gone)
    (offset : UInt32) : Owned (app.removed it gone offset) := by
  obtain ⟨inside, rfl⟩ := List.getElem?_eq_some_iff.mp here
  have others : app.layerstack.layers.eraseIdx it =
      app.layerstack.layers.filter (· ≠ app.layerstack.layers[it]) := by
    rw [← owned.once.erase_getElem it inside, owned.once.erase_eq_filter]
    exact List.filter_congr fun layer _ => by rw [bne, beq_eq_decide, decide_not]
  refine ⟨owned.once.sublist (List.eraseIdx_sublist ..), fun layer => ?_⟩
  have live := owned.live layer
  rw [Live, removed_kinds]
  show _ ↔ layer ∈ app.layerstack.layers.eraseIdx it
  rw [others, List.mem_filter, ← live, Live]
  by_cases same : app.layerstack.layers[it] = layer
  · subst same
    simp only [ne_eq, not_true_eq_false, decide_false, Bool.false_eq_true, and_false, iff_false]
    rintro ⟨kind, found⟩
    rw [List.getElem?_set] at found
    split at found
    next =>
      split at found
      next => cases Option.some.inj found
      next => cases found
    next other => exact other rfl
  · rw [List.getElem?_set_ne same]
    simp [Ne.symm same]

theorem Owned.attached (owned : Owned app) (object : Layer) : Owned (app.attached object) := by
  have fresh : app.objects.length ∉ app.layerstack.layers := by
    rw [← owned.live]
    rintro ⟨kind, found⟩
    obtain ⟨inside, _⟩ := List.getElem?_eq_some_iff.mp found
    simp [kinds] at inside
  refine ⟨?_, fun layer => ?_⟩
  · show (app.layerstack.layers ++ [app.objects.length]).Nodup
    rw [List.nodup_append]
    refine ⟨owned.once, List.nodup_singleton _, fun layer member other last => ?_⟩
    rw [List.mem_singleton.mp last]
    rintro rfl
    exact fresh member
  · have live := owned.live layer
    have length : app.kinds.length = app.objects.length := List.length_map _
    show _ ↔ layer ∈ app.layerstack.layers ++ [app.objects.length]
    rw [Live, attached_kinds, List.mem_append, List.mem_singleton, ← live, Live]
    rcases Nat.lt_trichotomy layer app.objects.length with earlier | same | later
    · rw [List.getElem?_append_left (by omega)]
      exact (or_iff_left (Nat.ne_of_lt earlier)).symm
    · subst same
      exact iff_of_true ⟨object.kind, by simp [← length]⟩ (Or.inr rfl)
    · rw [List.getElem?_eq_none (by rw [List.length_append, List.length_singleton]; omega),
        List.getElem?_eq_none (by omega)]
      simp [Nat.ne_of_gt later]

theorem Owned.outcome (owned : Owned app) (outcome : Outcome app event after) : Owned after := by
  cases outcome with
  | same same => exact owned.congr (core_layerstack same) (core_kinds same)
  | opened empty menu _ _ _ =>
    have live := (owned.live 0).mp ⟨.menu, by rw [menu]; rfl⟩
    rw [empty] at live
    cases live
  | removed it gone offset here removed =>
    subst removed
    exact owned.removed here offset
  | attached object base covered creates attached =>
    subst attached
    exact owned.attached object

theorem Opening.owning {action : Action} (opening : Opening app) (taken : app.step world action = some after) :
    Owning after := by
  cases action with
  | message msg =>
    obtain ⟨_, client, _, delivered⟩ := step_message.mp taken
    have empty : app.layerstack.layers = [] := by rw [opening.layerstack]
    simp only [pushToLayers, empty, List.reverse_nil] at delivered
    cases delivered
    exact .pending { opening with }
  | drained =>
    obtain ⟨_, rfl⟩ := step_drained.mp taken
    exact .pending { opening with phase := Or.inr rfl }
  | dispatch =>
    obtain ⟨exit, phase, dispatched⟩ := step_dispatch.mp taken
    rcases dispatch_ok.mp dispatched with ⟨nothing, _⟩ | ⟨e, queue, popped, ⟨exits, _⟩ | ⟨_, event, same, processed⟩⟩
    · rw [SPSCQueue.pop_none, opening.queue] at nothing
      cases nothing
    · rcases opening.phase with network | events
      · cases network.symm.trans phase
      · cases exits.symm.trans (Phase.events.inj (phase.symm.trans events))
    · have contents := SPSCQueue.pop_some popped
      rw [opening.queue] at contents
      obtain ⟨first, _⟩ := List.cons.inj contents
      cases first.trans same
      obtain ⟨handled, handling, delivered⟩ := except_bind_ok.mp processed
      have started := (opening.started _ _).symm.trans handling
      cases started
      have frame := offer_frame delivered
      refine .owned (Owned.congr ⟨List.nodup_singleton 0, fun layer => ?_⟩ frame.layerstack frame.kinds)
      have menu : (PsApp.opened app queue (app.dispatched ++ [.layerPush 0 false])).kinds = [some .menu] := opening.kinds
      rw [Live, menu]
      show _ ↔ layer ∈ [0]
      rw [List.mem_singleton]
      cases layer with
      | zero => exact iff_of_true ⟨.menu, rfl⟩ rfl
      | succ layer => simp
  | line line =>
    obtain ⟨phase, _⟩ := step_line.mp taken
    rcases opening.phase with network | events
    · cases network.symm.trans phase
    · cases events.symm.trans phase
  | render =>
    obtain ⟨phase, _⟩ := step_render.mp taken
    rcases opening.phase with network | events
    · cases network.symm.trans phase
    · cases events.symm.trans phase

theorem Owned.step {action : Action} (owned : Owned app) (layered : Layered app)
    (taken : app.step world action = some after) : Owned after := by
  cases layered.taken taken with
  | still same _ => exact owned.congr (core_layerstack same) (core_kinds same)
  | message msg _ client _ delivered =>
    have received : Owned { app with client } := { owned with }
    exact received.congr (offer_frame delivered).layerstack (offer_frame delivered).kinds
  | event event start middle _ _ same outcome _ delivered =>
    have begun : Owned start := owned.congr (core_layerstack same) (core_kinds same)
    exact (begun.outcome outcome).congr (offer_frame delivered).layerstack (offer_frame delivered).kinds

theorem Owning.step {action : Action} (owning : Owning app) (layered : Layered app)
    (taken : app.step world action = some after) : Owning after := by
  cases owning with
  | pending opening => exact opening.owning taken
  | owned owned => exact .owned (owned.step layered taken)

theorem owning {actions : List Action} (reached : Runs.exec (step world) init actions = some app) : Owning app := by
  have both : Layered app ∧ Owning app := by
    refine Runs.always (fun _ app => Layered app ∧ Owning app) ⟨.opening .initial, .pending .initial⟩ ?_ reached
    intro _ action before after prior taken
    obtain ⟨layered, owning⟩ := prior
    exact ⟨layered.step taken, owning.step layered taken⟩
  exact both.2

/-- In every run, from its first event on, the stack holds each layer that has been created
and not deleted, once, and no other: no pointer in it dangles and no layer is leaked,
though the pops may remove the wrong layer. -/
theorem live_iff_stacked {actions : List Action} (reached : Runs.exec (step world) init actions = some app)
    (begun : app.dispatched ≠ []) :
    app.layerstack.layers.Nodup ∧
      ∀ layer, (∃ object, app.object layer = .ok object) ↔ layer ∈ app.layerstack.layers := by
  cases owning reached with
  | pending opening => exact absurd opening.dispatched begun
  | owned owned => exact ⟨owned.once, fun layer => live_object.symm.trans (owned.live layer)⟩

private def unreachable : World := { parse := fun _ => none, assertions := fun _ => "" }

/-- Two battles that end; the menu was removed in place of the second one. -/
private def rematch : List Action :=
  let battle : List Action := [.line (some "1"), .render, .drained, .dispatch, .dispatch, .dispatch, .line none, .render,
    .message { roomId := "battle-1", type := "tie", args := [] }, .drained, .dispatch, .dispatch]
  [.drained, .dispatch, .dispatch] ++ battle ++ battle

theorem live_iff_stacked_rematch :
    ∃ app, Runs.exec (step unreachable) init rematch = some app ∧ app.layerstack.layers = [2] ∧
      app.layerstack.layers.Nodup ∧
      ∀ layer, (∃ object, app.object layer = .ok object) ↔ layer ∈ app.layerstack.layers := by
  have run : (Runs.exec (step unreachable) init rematch).map (fun app =>
      (app.layerstack.layers, app.dispatched.isEmpty)) = some ([2], false) := by decide +kernel
  obtain ⟨app, reached, facts⟩ := Option.map_eq_some_iff.mp run
  obtain ⟨layers, begun⟩ := Prod.mk.inj facts
  refine ⟨app, reached, layers, live_iff_stacked reached ?_⟩
  intro nothing
  simp [nothing] at begun

end ShowdownCli.PsApp
