import ShowdownCli.Proofs.AppOwnership
import ShowdownCli.Proofs.AppTermination
import ShowdownCli.Proofs.LayerStackOwnership

/-! The end of the application. The destructor of the stack finds exactly the layers that are
left, so over the whole life of the program each layer is deleted once. -/

namespace ShowdownCli.PsApp
open Library

variable {world : World} {app after : PsApp}

theorem deleted_live {first : Nat} (layer : Nat) :
    Live { app with objects := app.objects.set first none } layer ↔ app.Live layer ∧ layer ≠ first := by
  have kinds : PsApp.kinds { app with objects := app.objects.set first none } = app.kinds.set first none :=
    List.map_set ..
  rw [Live, Live, kinds, List.getElem?_set]
  by_cases same : first = layer
  · subst same
    simp only [if_true, ne_eq, not_true_eq_false, and_false, iff_false]
    rintro ⟨kind, found⟩
    split at found
    next => cases Option.some.inj found
    next => cases found
  · simp [same, Ne.symm same]

/-- Each of the layers is there when it is detached and deleted, and no other is touched. -/
theorem deletes {layers : List Nat} (distinct : layers.Nodup) (live : ∀ layer ∈ layers, app.Live layer) :
    ∃ final, (layers.flatMap fun layer => [.onDetach layer, .delete layer]).foldlM lifecycle app = .ok final ∧
      ∀ layer, final.Live layer ↔ app.Live layer ∧ layer ∉ layers := by
  induction layers generalizing app with
  | nil => exact ⟨app, rfl, fun layer => by simp⟩
  | cons first rest ih =>
    rw [List.nodup_cons] at distinct
    obtain ⟨object, found⟩ := live_object.mp (live first List.mem_cons_self)
    have left : ∀ layer ∈ rest, Live { app with objects := app.objects.set first none } layer := by
      intro layer member
      refine (deleted_live layer).mpr ⟨live layer (List.mem_cons_of_mem _ member), ?_⟩
      rintro rfl
      exact distinct.1 member
    obtain ⟨final, done, remain⟩ := ih distinct.2 left
    have detached : lifecycle app (.onDetach first) = .ok app := by
      rw [lifecycle, found]
      rfl
    have deleted : lifecycle app (.delete first) = .ok { app with objects := app.objects.set first none } := by
      rw [lifecycle, found]
      rfl
    refine ⟨final, ?_, fun layer => ?_⟩
    · exact except_bind_ok.mpr ⟨app, detached, except_bind_ok.mpr ⟨_, deleted, done⟩⟩
    · rw [remain, deleted_live, List.mem_cons, not_or, and_assoc]

theorem Owned.destroy (owned : Owned app) (few : app.layerstack.layers.length ≤ 2147483648) :
    ∃ final, app.destroy = .ok final ∧ ∀ layer, ¬ final.Live layer := by
  have every : app.layerstack.layers.take app.layerstack.indexed = app.layerstack.layers :=
    List.take_of_length_le (app.layerstack.indexed_all.mpr few)
  have live : ∀ layer ∈ app.layerstack.layers.reverse, app.Live layer :=
    fun layer member => (owned.live layer).mpr (List.mem_reverse.mp member)
  obtain ⟨final, done, remain⟩ := deletes (List.nodup_reverse.mpr owned.once) live
  refine ⟨final, ?_, fun layer alive => ?_⟩
  · rw [PsApp.destroy, LayerStack.destroy_indexed, every]
    exact done
  · obtain ⟨there, absent⟩ := (remain layer).mp alive
    exact absent (List.mem_reverse.mpr ((owned.live layer).mp there))

theorem Covered.short {base : List Nat} {above : Option Nat} (covered : Covered app base above) :
    app.layerstack.layers.length ≤ 2 := by
  rw [covered.layers, List.length_append]
  have one : above.toList.length ≤ 1 := by cases above <;> simp
  rcases covered.base with rfl | ⟨rfl, _⟩
  · simp only [List.length_nil]
    omega
  · simp only [List.length_singleton]
    omega

theorem Layered.short (layered : Layered app) : app.layerstack.layers.length ≤ 2 := by
  cases layered with
  | opening opening => simp [opening.layerstack]
  | running base above pending covered => exact covered.short
  | leaving base above covered => exact covered.short

/-- When the main loop has ended, destroying the stack detaches and deletes every layer that
is left and touches none that was deleted before. -/
theorem leaves_nothing {actions : List Action} (reached : Runs.exec (step world) init actions = some app)
    (stopped : app.phase = .stopped) :
    ∃ final, app.destroy = .ok final ∧ ∀ layer object, final.object layer ≠ .ok object := by
  cases owning reached with
  | pending opening =>
    rcases opening.phase with network | events
    · cases network.symm.trans stopped
    · cases events.symm.trans stopped
  | owned owned =>
    have few := (layered reached).short
    obtain ⟨final, done, none⟩ := owned.destroy (by omega)
    exact ⟨final, done, fun layer object found => none layer (live_object.mpr ⟨object, found⟩)⟩

private def unplugged : World := { parse := fun _ => none, assertions := fun _ => "" }

/-- The login is opened over the menu, and the program ends under it. -/
private def abandoned : List Action :=
  [.drained, .dispatch, .dispatch, .line (some "2"), .render, .drained, .dispatch, .dispatch, .dispatch, .line (some "q"),
    .render, .drained, .dispatch, .dispatch, .line none, .render]

theorem leaves_nothing_abandoned :
    ∃ app, Runs.exec (step unplugged) init abandoned = some app ∧ app.layerstack.layers = [0, 1] ∧ app.phase = .stopped ∧
      ∃ final, app.destroy = .ok final ∧ ∀ layer object, final.object layer ≠ .ok object := by
  have run : (Runs.exec (step unplugged) init abandoned).map (fun app => (app.layerstack.layers, app.phase)) =
      some ([0, 1], .stopped) := by decide +kernel
  obtain ⟨app, reached, facts⟩ := Option.map_eq_some_iff.mp run
  obtain ⟨layers, stopped⟩ := Prod.mk.inj facts
  exact ⟨app, reached, layers, stopped, leaves_nothing reached stopped⟩

end ShowdownCli.PsApp
