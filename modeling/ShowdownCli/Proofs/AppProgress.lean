import ShowdownCli.Proofs.AppEventLoss
import ShowdownCli.Proofs.AppOwnership
import ShowdownCli.Proofs.AppSurvival

/-! Which runs of the main loop go on. The events taken are never null and the layers
never deleted, so what can still go wrong is a message, the split of the stack at a pop, a
move chosen before the first request, and a number on the screen that was never assigned. -/

namespace ShowdownCli
open Library

/-- Both numbers of a Pokemon on the screen. -/
def Pokemon.Assigned (p : Pokemon) : Prop := p.hpCurrent ≠ none ∧ p.hpMax ≠ none

namespace BattleLayer
variable {battle : BattleLayer} {client : PsClient} {cmd : String}

/-- A move or a switch by number is only chosen after a request. -/
def Decided (battle : BattleLayer) (cmd : String) : Prop :=
  ∀ token, (tokenize cmd).head? = some token → token ∈ ["1", "2", "3", "4"] → battle.state.forceSwitch ≠ none

theorem isForceSwitch_succeeds : Succeeds battle.isForceSwitch ↔ battle.state.forceSwitch ≠ none := by
  unfold isForceSwitch
  cases battle.state.forceSwitch with
  | none => exact iff_of_false (not_succeeds _) (by simp)
  | some forced => exact iff_of_true (succeeds_ok _) (by simp)

theorem choose_succeeds {rest : List String} :
    Succeeds (battle.choose client cmd rest) ↔ battle.state.forceSwitch ≠ none := by
  rw [← isForceSwitch_succeeds]
  apply succeeds_bind_total
  intro forced _
  split
  next => exact succeeds_ok _
  next => exact succeeds_ok _

theorem onCommand_succeeds : Succeeds (battle.onCommand client cmd) ↔ battle.Decided cmd := by
  unfold onCommand Decided
  cases tokens : tokenize cmd with
  | nil => exact iff_of_true (succeeds_ok _) (by simp)
  | cons token rest =>
    simp only [List.head?_cons, Option.some.injEq, forall_eq']
    by_cases digit : token ∈ ["1", "2", "3", "4"]
    · rw [if_pos digit]
      simp only [digit, forall_const]
      rw [← choose_succeeds]
      exact succeeds_bind_total fun _ _ => succeeds_ok _
    · rw [if_neg digit]
      refine iff_of_true ?_ fun member => absurd member digit
      repeat' split
      all_goals exact succeeds_ok _

/-- Every number on the screen has been assigned. -/
def Printable (battle : BattleLayer) : Prop :=
  ∀ p ∈ battle.state.opponentTeam ++ battle.state.yourTeam, p.Assigned

theorem printed_succeeds {number : Option Int} : Succeeds (printed number) ↔ number ≠ none := by
  cases number with
  | none => exact iff_of_false (not_succeeds _) (by simp)
  | some value => exact iff_of_true (succeeds_ok _) (by simp)

theorem forall_zipIdx {α : Type} {items : List α} {holds : α → Prop} :
    (∀ item ∈ items.zipIdx, holds item.1) ↔ ∀ item ∈ items, holds item := by
  rw [← List.forall_mem_map (f := Prod.fst), List.zipIdx_map_fst]

theorem renderPokemon_succeeds {index : Nat} {p : Pokemon} :
    Succeeds (renderPokemon index p) ↔ p.Assigned := by
  unfold renderPokemon Pokemon.Assigned
  rw [← printed_succeeds, ← printed_succeeds, succeeds_bind]
  constructor
  · intro given
    obtain ⟨current, first, rest⟩ := given
    obtain ⟨max, second, _⟩ := succeeds_bind.mp rest
    exact ⟨⟨current, first⟩, max, second⟩
  · intro given
    obtain ⟨⟨current, first⟩, max, second⟩ := given
    exact ⟨current, first, succeeds_bind.mpr ⟨max, second, succeeds_ok _⟩⟩

theorem renderOpponent_succeeds {index : Nat} {p : Pokemon} :
    Succeeds (renderOpponent index p) ↔ p.Assigned :=
  (succeeds_bind_total fun _ _ => succeeds_ok _).trans renderPokemon_succeeds

/-- There is an active Pokemon to be asked for in every team that is not empty. -/
theorem activePokemon_succeeds {state : BattleState} {p : Pokemon} (member : p ∈ state.yourTeam) :
    Succeeds state.activePokemon := by
  unfold BattleState.activePokemon
  split
  next => exact succeeds_ok _
  next =>
    cases team : state.yourTeam with
    | nil => simp [team] at member
    | cons first rest => exact succeeds_ok first

theorem renderOurs_succeeds {state : BattleState} {index : Nat} {p : Pokemon} (member : p ∈ state.yourTeam) :
    Succeeds (renderOurs state index p) ↔ p.Assigned := by
  rw [← @renderPokemon_succeeds index]
  apply succeeds_bind_total
  intro line _
  split
  next => exact (succeeds_bind_total fun _ _ => succeeds_ok _).mpr (activePokemon_succeeds member)
  next => exact succeeds_ok _

theorem onRender_succeeds : Succeeds battle.onRender ↔ battle.Printable := by
  have opponents : Succeeds (battle.state.opponentTeam.zipIdx.mapM fun item => renderOpponent item.2 item.1) ↔
      ∀ p ∈ battle.state.opponentTeam, p.Assigned := by
    rw [succeeds_mapM]
    exact Iff.trans (forall₂_congr fun _ _ => renderOpponent_succeeds) forall_zipIdx
  have ours : Succeeds (battle.state.yourTeam.zipIdx.mapM fun item => renderOurs battle.state item.2 item.1) ↔
      ∀ p ∈ battle.state.yourTeam, p.Assigned := by
    rw [succeeds_mapM]
    refine Iff.trans (forall₂_congr fun item member => ?_) forall_zipIdx
    exact renderOurs_succeeds (List.fst_mem_of_mem_zipIdx member)
  unfold Printable
  rw [List.forall_mem_append, ← opponents, ← ours]
  constructor
  · intro given
    obtain ⟨theirs, first, rest⟩ := succeeds_bind.mp given
    obtain ⟨lines, second, _⟩ := succeeds_bind.mp rest
    exact ⟨⟨theirs, first⟩, lines, second⟩
  · intro given
    obtain ⟨⟨theirs, first⟩, lines, second⟩ := given
    exact succeeds_bind.mpr ⟨theirs, first, succeeds_bind.mpr ⟨lines, second, succeeds_ok _⟩⟩

end BattleLayer

theorem Layer.command_succeeds {world : World} {layer : Layer} {this : Nat} {client : PsClient} {cmd : String} :
    Succeeds (layer.onEvent world this client (.command cmd)) ↔ ∀ battle, layer = .battle battle → battle.Decided cmd := by
  cases layer with
  | menu => exact iff_of_true (succeeds_ok _) (by simp)
  | login overlay => exact iff_of_true (succeeds_ok _) (by simp)
  | battle battleLayer =>
    simp only [Layer.battle.injEq, forall_eq']
    exact succeeds_map.trans BattleLayer.onCommand_succeeds

namespace PsApp

/-- The layer that commands go to and that is on the screen. -/
def top (app : PsApp) : Option Layer := app.layerstack.layers.getLast?.bind fun layer => (app.objects[layer]?).join

/-- What an event needs to be processed. -/
def Bearable (app : PsApp) : Event → Prop
  | .command cmd => ∀ battle, app.top = some (.battle battle) → battle.Decided cmd
  | .layerPop _ _ => app.layerstack.layerIteratorOffset.toNat ≤ app.layerstack.layers.length
  | _ => True

/-- What a step needs to have a result. -/
def Proceeds (world : World) (app : PsApp) : Action → Prop
  | .message msg => app.phase = .network ∧ Harmless world app msg
  | .drained => app.phase = .network
  | .dispatch => ∃ exit, app.phase = .events exit ∧ ∀ event, app.processing .dispatch = some event → app.Bearable event
  | .line _ => app.phase = .input
  | .render => app.phase = .render ∧
      ∀ battle, app.dirtyUi = true → app.top = some (.battle battle) → battle.Printable

variable {world : World} {app start after : PsApp} {event : Event} {layers : List Nat} {cmd : String}

theorem offer_ignored (command : ∀ cmd, event ≠ .command cmd) (message : ∀ msg, event ≠ .message msg)
    (live : ∀ layer ∈ layers, app.Live layer) : offer world event layers app = .ok app := by
  induction layers with
  | nil => rfl
  | cons layer below ih =>
    obtain ⟨object, found⟩ := live_object.mp (live layer List.mem_cons_self)
    have ignored : object.onEvent world layer app.client event = .ok (.ignore object app.client) := by
      cases event with
      | command cmd => exact absurd rfl (command cmd)
      | message msg => exact absurd rfl (message msg)
      | layerPush | layerPop | login | battleSearch | battleJoin => cases object <;> rfl
    rw [offer, found]
    change (object.onEvent world layer app.client event >>= _) = _
    rw [ignored]
    have passed : offer world event below (app.react layer (.ignore object app.client)) = .ok app := by
      rw [react_ignore found]
      exact ih fun other member => live other (List.mem_cons_of_mem _ member)
    exact passed

/-- A command ends at the top layer, or passes the menu that has nothing below it. -/
theorem command_succeeds (live : ∀ layer ∈ app.layerstack.layers, app.Live layer)
    (bottom : ∀ top below, app.layerstack.layers.reverse = top :: below →
      below = [] ∨ app.kinds[top]? ≠ some (some .menu)) :
    Succeeds (pushToLayers world app (.command cmd)) ↔ app.Bearable (.command cmd) := by
  unfold pushToLayers Bearable top
  rw [List.getLast?_eq_head?_reverse]
  cases layers : app.layerstack.layers.reverse with
  | nil => exact iff_of_true (succeeds_ok _) (by simp)
  | cons layer below =>
    have inside : layer ∈ app.layerstack.layers := List.mem_reverse.mp (layers ▸ List.mem_cons_self)
    obtain ⟨object, found⟩ := live_object.mp (live layer inside)
    simp only [List.head?_cons, Option.bind_some, object_some.mp found, Option.join_some, Option.some.injEq]
    rw [← @Layer.command_succeeds world object layer app.client cmd, offer, found]
    change Succeeds (object.onEvent world layer app.client (.command cmd) >>= _) ↔ _
    refine succeeds_bind_total fun reaction reacted => ?_
    split
    next => exact succeeds_ok _
    next passed =>
      rcases bottom layer below layers with rfl | other
      · exact succeeds_ok _
      · refine absurd ((Layer.command reacted).2.2 fun menu => other ?_) passed
        rw [object_kind found, menu]

/-- A pop finds what it removes alive. -/
theorem pop_succeeds (owned : Owned app) {layer : Nat} {isOverlay : Bool} :
    Succeeds (app.perform (if isOverlay then .popOverlay layer else .popLayer layer)) ↔
      app.layerstack.layerIteratorOffset.toNat ≤ app.layerstack.layers.length := by
  unfold perform
  by_cases inside : app.layerstack.layerIteratorOffset.toNat ≤ app.layerstack.layers.length
  · refine iff_of_true ?_ inside
    have split : app.layerstack.split = some app.layerstack.layerIteratorOffset.toNat := if_pos inside
    have released : ∃ it, app.layerstack.call (if isOverlay then .popOverlay layer else .popLayer layer) =
        some (app.layerstack.release it) := by
      cases isOverlay
      · exact ⟨_, by simp [LayerStack.call, LayerStack.popLayer, split]; rfl⟩
      · exact ⟨_, by simp [LayerStack.call, LayerStack.popOverlay, split]; rfl⟩
    obtain ⟨it, called⟩ := released
    rw [called]
    rcases release_cases app.layerstack it with nothing | ⟨gone, here, one⟩
    · rw [nothing]
      exact succeeds_ok _
    · rw [one]
      have live := (owned.live gone).mpr (List.mem_of_getElem? here)
      obtain ⟨layer, found⟩ := live_object.mp live
      have there : app.objects[gone]? = some (some layer) := object_some.mp found
      simp only [List.foldlM_cons, List.foldlM_nil, lifecycle, object, there]
      refine succeeds_bind.mpr ⟨_, rfl, ?_⟩
      simp only [there]
      exact ⟨_, rfl⟩
  · refine iff_of_false ?_ inside
    have split : app.layerstack.split = none := if_neg inside
    cases isOverlay <;>
      simp [LayerStack.call, LayerStack.popOverlay, LayerStack.popLayer, split, not_succeeds]

theorem Owned.alive (owned : Owned app) : ∀ layer ∈ app.layerstack.layers.reverse, app.Live layer :=
  fun layer member => (owned.live layer).mpr (List.mem_reverse.mp member)

/-- Events that no layer looks at are delivered. -/
theorem Owned.delivers (owned : Owned app) (command : ∀ cmd, event ≠ .command cmd) (message : ∀ msg, event ≠ .message msg) :
    Succeeds (pushToLayers world app event) :=
  ⟨app, offer_ignored command message owned.alive⟩

theorem Layered.fitting (layered : Layered app) (owned : Owned app) (phase : app.phase = .events false)
    {queue : SPSCQueue (Option Event) 64} (popped : app.eventQueue.pop = some (some event, queue)) :
    ∀ layer isOverlay, event ≠ .layerPush layer isOverlay := by
  rintro layer isOverlay rfl
  cases layered with
  | opening opening =>
    have menu := (owned.live 0).mp ⟨.menu, by rw [opening.kinds]; rfl⟩
    rw [opening.layerstack] at menu
    cases menu
  | running base above pending covered awaiting =>
    obtain ⟨_, rest, same, rfl, _⟩ := awaiting.popped popped
    cases same
    exact awaiting.fitting _ List.mem_cons_self
  | leaving base above covered quit left => exact left.2 phase

theorem Owned.process_succeeds (owned : Owned app) (layered : Layered app) (phase : app.phase = .events false)
    {queue : SPSCQueue (Option Event) 64} (popped : app.eventQueue.pop = some (some event, queue)) :
    Succeeds (process world { app with eventQueue := queue } event) ↔ app.Bearable event := by
  obtain ⟨_, same, message, commanded⟩ := layered.popped phase popped
  cases same
  have begun : Owned { app with eventQueue := queue, dispatched := app.dispatched ++ [event] } := { owned with }
  unfold process
  cases event with
  | command cmd =>
    obtain ⟨base, above, covered⟩ := commanded cmd rfl
    obtain ⟨middle, handling, layers, objects, kinds⟩ : ∃ middle, handle { app with
        eventQueue := queue, dispatched := app.dispatched ++ [.command cmd] } (.command cmd) = .ok middle ∧
        middle.layerstack = app.layerstack ∧ middle.objects = app.objects ∧ middle.kinds = app.kinds := by
      refine ⟨_, rfl, ?_⟩
      split <;> exact ⟨rfl, rfl, rfl⟩
    have covers : Covered middle base above := by
      exact ⟨layers ▸ covered.layers, kinds ▸ covered.base, kinds ▸ covered.overlay⟩
    have owns : Owned middle := owned.congr layers kinds
    have top : middle.top = app.top := by rw [PsApp.top, layers, objects, PsApp.top]
    have delivered : Succeeds (pushToLayers world middle (.command cmd)) ↔ middle.Bearable (.command cmd) :=
      command_succeeds (fun layer member => (owns.live layer).mpr member) covers.bottom
    simp only [Bearable, top] at delivered
    rw [succeeds_bind]
    simp only [handling, Except.ok.injEq, exists_eq_left', Bearable]
    exact delivered
  | message msg => exact absurd rfl (message msg)
  | layerPush layer isOverlay => exact absurd rfl (layered.fitting owned phase popped layer isOverlay)
  | layerPop layer isOverlay =>
    refine (succeeds_bind_total fun middle handling => ?_).trans (pop_succeeds begun)
    exact (begun.outcome (layered.outcome phase popped rfl handling)).delivers (by simp) (by simp)
  | login isSignup =>
    refine iff_of_true (succeeds_bind.mpr ⟨_, perform_attach _ _, ?_⟩) trivial
    exact (begun.attached _).delivers (by simp) (by simp)
  | battleSearch =>
    refine iff_of_true (succeeds_bind.mpr ⟨_, perform_attach _ _, ?_⟩) trivial
    exact (begun.attached _).delivers (by simp) (by simp)
  | battleJoin =>
    refine iff_of_true (succeeds_bind.mpr ⟨_, rfl, ?_⟩) trivial
    have shown : Owned { app with
      eventQueue := queue, dispatched := app.dispatched ++ [.battleJoin], dirtyUi := true } := { owned with }
    exact shown.delivers (by simp) (by simp)

theorem Opening.process_succeeds (opening : Opening app) {queue : SPSCQueue (Option Event) 64}
    (popped : app.eventQueue.pop = some (some event, queue)) :
    Succeeds (process world { app with eventQueue := queue } event) ↔ app.Bearable event := by
  have contents := SPSCQueue.pop_some popped
  rw [opening.queue] at contents
  obtain ⟨same, _⟩ := List.cons.inj contents
  cases same
  refine iff_of_true (succeeds_bind.mpr ⟨_, opening.started _ _, ?_⟩) trivial
  have menu : (PsApp.opened app queue (app.dispatched ++ [.layerPush 0 false])).kinds = [some .menu] := opening.kinds
  have live : ∀ layer ∈ [0], (PsApp.opened app queue (app.dispatched ++ [.layerPush 0 false])).Live layer := by
    intro layer member
    rw [List.mem_singleton.mp member, Live, menu]
    exact ⟨.menu, rfl⟩
  exact ⟨_, offer_ignored (by simp) (by simp) live⟩

theorem Owning.alive (owning : Owning app) : Alive app := by
  intro layer member
  cases owning with
  | pending opening =>
    rw [opening.layerstack] at member
    cases member
  | owned owned =>
    obtain ⟨object, found⟩ := live_object.mp ((owned.live layer).mpr member)
    exact ⟨object, object_some.mp found⟩

theorem Owning.process_succeeds (owning : Owning app) (layered : Layered app) (phase : app.phase = .events false)
    {queue : SPSCQueue (Option Event) 64} (popped : app.eventQueue.pop = some (some event, queue)) :
    Succeeds (process world { app with eventQueue := queue } event) ↔ app.Bearable event := by
  cases owning with
  | pending opening => exact opening.process_succeeds popped
  | owned owned => exact owned.process_succeeds layered phase popped

theorem Owning.dispatch_proceeds (owning : Owning app) (layered : Layered app) :
    (∃ after, app.step world .dispatch = some after) ↔ Proceeds world app .dispatch := by
  simp only [Proceeds, step_dispatch]
  constructor
  · intro given
    obtain ⟨after, exit, phase, dispatched⟩ := given
    refine ⟨exit, phase, fun event processed => ?_⟩
    obtain ⟨_, polling, queue, popped⟩ := processing_some processed
    cases phase.symm.trans polling
    rcases dispatch_ok.mp dispatched with ⟨nothing, _⟩ | ⟨e, other, popped', ⟨exits, _⟩ | ⟨_, event', same, processed⟩⟩
    · cases nothing.symm.trans popped
    · cases exits
    · cases popped.symm.trans popped'
      cases same
      exact (owning.process_succeeds layered polling popped).mp ⟨after, processed⟩
  · intro given
    obtain ⟨exit, phase, bearable⟩ := given
    cases popped : app.eventQueue.pop with
    | none => exact ⟨_, exit, phase, dispatch_ok.mpr (Or.inl ⟨popped, rfl⟩)⟩
    | some taken =>
      obtain ⟨e, queue⟩ := taken
      cases exit with
      | true => exact ⟨_, true, phase, dispatch_ok.mpr (Or.inr ⟨e, queue, popped, Or.inl ⟨rfl, rfl⟩⟩)⟩
      | false =>
        obtain ⟨event, rfl, _⟩ := layered.popped phase popped
        have processing : app.processing .dispatch = some event := by simp [PsApp.processing, phase, popped]
        obtain ⟨after, processed⟩ := (owning.process_succeeds layered phase popped).mpr (bearable event processing)
        exact ⟨after, false, phase, dispatch_ok.mpr (Or.inr ⟨_, queue, popped, Or.inr ⟨rfl, event, rfl, processed⟩⟩)⟩

theorem Alive.onRender_succeeds (alive : Alive app) : Succeeds app.onRender ↔
    ∀ battle, app.dirtyUi = true → app.top = some (.battle battle) → battle.Printable := by
  unfold onRender PsApp.top
  cases last : app.layerstack.layers.getLast? with
  | none => exact iff_of_true (by cases app.dirtyUi <;> exact succeeds_ok _) (by simp)
  | some layer =>
    cases app.dirtyUi with
    | false => exact iff_of_true (succeeds_ok _) (by simp)
    | true =>
      obtain ⟨shown, here⟩ := alive layer (List.mem_of_getLast? last)
      simp only [object_some.mpr here, Option.bind_some, here, Option.join_some, Option.some.injEq, forall_const]
      change Succeeds (shown.onRender >>= _) ↔ _
      refine Iff.trans (succeeds_bind_total fun _ _ => succeeds_ok _) ?_
      cases shown with
      | menu => exact iff_of_true (succeeds_ok _) (by simp)
      | login overlay => exact iff_of_true (succeeds_ok _) (by simp)
      | battle battleLayer =>
        simp only [Layer.battle.injEq, forall_eq']
        exact BattleLayer.onRender_succeeds

theorem step_proceeds {action : Action} (layered : Layered app) (owning : Owning app) :
    (∃ after, app.step world action = some after) ↔ Proceeds world app action := by
  cases action with
  | message msg =>
    change _ ↔ app.phase = .network ∧ Harmless world app msg
    rw [← processMessage_succeeds owning.alive]
    cases phase : app.phase <;> simp [step, phase, toOption_some, Succeeds]
  | drained => cases phase : app.phase <;> simp [step, phase, Proceeds]
  | dispatch => exact owning.dispatch_proceeds layered
  | line line => cases phase : app.phase <;> simp [step, phase, Proceeds]
  | render =>
    change _ ↔ app.phase = .render ∧ ∀ battle, app.dirtyUi = true → app.top = some (.battle battle) → battle.Printable
    rw [← owning.alive.onRender_succeeds]
    simp only [step_render]
    constructor
    · intro given
      obtain ⟨_, phase, shown, rendered, _⟩ := given
      exact ⟨phase, shown, rendered⟩
    · intro given
      obtain ⟨phase, shown, rendered⟩ := given
      exact ⟨_, phase, shown, rendered, rfl⟩

/-- A run of the main loop has a result exactly if each of its messages is harmless where it
arrives, each LayerPop finds the offset inside the vector, each number typed into a battle comes
after a request, and each battle is only drawn with all its numbers assigned. Whatever else it
does, it takes no null event, and uses no layer that was deleted. -/
theorem proceeds_iff (world : World) (actions : List Action) :
    (∃ app, Runs.exec (step world) init actions = some app) ↔ Runs.Guarded (step world) (Proceeds world) init actions := by
  apply Runs.finishes_iff (fun app => Layered app ∧ Owning app) ⟨.opening .initial, .pending .initial⟩
  · intro action before after held taken
    obtain ⟨layered, owning⟩ := held
    exact ⟨layered.step taken, owning.step layered taken⟩
  · intro action app held
    exact step_proceeds held.1 held.2

end PsApp
end ShowdownCli
