import ShowdownCli.Proofs.AppBattles
import ShowdownCli.Proofs.ProgramDelivery

/-! What a battle is fed. Of all layers a battle is the one where every message ends, from
the event that opens it to the one that removes it, so its record is that of a contiguous
part of what the main loop processes. -/

namespace ShowdownCli
open Library

namespace PsApp
variable {world : World} {app after opened : PsApp} {action : Action} {layer : Nat} {battle : BattleLayer}

theorem battleAt_some : app.battleAt layer = some battle ↔ app.object layer = .ok (.battle battle) := by
  refine ⟨fun here => ?_, battleAt_object⟩
  obtain ⟨object, found, same⟩ := Option.bind_eq_some_iff.mp here
  have slot := Option.join_eq_some_iff.mp found
  cases object with
  | menu | login => cases same
  | battle battleLayer =>
    cases same
    exact object_some.mpr slot

theorem battleAt_kind (here : app.battleAt layer = some battle) : app.kinds[layer]? = some (some .battle) :=
  object_kind (battleAt_some.mp here)

theorem kind_battleAt (here : app.kinds[layer]? = some (some .battle)) : ∃ battle, app.battleAt layer = some battle := by
  obtain ⟨object, found, same⟩ := kind_object here
  cases object with
  | menu | login => cases same
  | battle battleLayer => exact ⟨battleLayer, battleAt_object found⟩

/-- A battle that is there after a step was there before, or its address is new. -/
theorem Layered.arose (layered : Layered app) (taken : app.step world action = some after)
    (here : after.battleAt layer = some battle) :
    (∃ earlier, app.battleAt layer = some earlier) ∨ action = .dispatch ∧ app.objects.length ≤ layer := by
  cases layered.taken taken with
  | still same =>
    rw [battleAt, core_objects same] at here
    exact Or.inl ⟨battle, here⟩
  | message msg _ client _ delivered =>
    have frame := offer_frame delivered
    have kind := battleAt_kind here
    rw [frame.kinds] at kind
    exact Or.inl (kind_battleAt kind)
  | event event start middle asked _ same outcome _ delivered =>
    have frame := offer_frame delivered
    have kind := battleAt_kind here
    rw [frame.kinds] at kind
    obtain ⟨earlier, there⟩ := kind_battleAt kind
    have objects := core_objects same
    rcases outcome.created.2 layer earlier there with old | ⟨beyond, _⟩
    · rw [battleAt, objects] at old
      exact Or.inl ⟨earlier, old⟩
    · exact Or.inr ⟨asked, objects ▸ beyond⟩

/-- A battle is on top, so every message ends there. -/
theorem battle_hears (layered : Layered app) (owning : Owning app) (here : app.battleAt layer = some battle) :
    app.layerstack.layers.getLast? = some layer ∧ app.hearer app.layerstack.layers.reverse = some layer := by
  have kind := battleAt_kind here
  cases owning with
  | pending opening =>
    rw [opening.kinds] at kind
    cases layer <;> simp at kind
  | owned owned =>
    have member := (owned.live layer).mp ⟨_, kind⟩
    obtain ⟨top, last, battle⟩ := layered.battle member kind
    cases layered.one layer member top (List.mem_of_getLast? last) kind battle
    refine ⟨last, ?_⟩
    rw [← List.head?_reverse] at last
    obtain ⟨below, layers⟩ := List.head?_eq_some_iff.mp last
    rw [layers, hearer, List.find?_cons_of_pos (by simp [kind])]

variable {done : List Action}

/-- Since a step opened it at a new address, the battle has heard all that was processed. -/
def HeardAll (world : World) (done : List Action) (layer : Nat) : Prop :=
  ∃ before start opened rest, done = before ++ .dispatch :: rest ∧ Runs.exec (step world) init before = some start ∧
    start.objects.length ≤ layer ∧ start.step world .dispatch = some opened ∧ opened.battleAt layer = some {} ∧
    Play.heard (delivered world layer done) = rest.flatMap Program.hears

theorem HeardAll.step (heard : HeardAll world done layer) (reached : Runs.exec (PsApp.step world) init done = some app)
    (layered : Layered app) (owning : Owning app) (here : app.battleAt layer = some battle)
    (taken : app.step world action = some after) : HeardAll world (done ++ [action]) layer := by
  obtain ⟨before, start, opened, rest, rfl, began, absent, opens, fresh, same⟩ := heard
  refine ⟨before, start, opened, rest ++ [action], List.append_assoc .., began, absent, opens, fresh, ?_⟩
  rw [delivered_concat reached, Play.heard, List.filterMap_append, List.flatMap_append, List.flatMap_singleton]
  refine congrArg₂ (· ++ ·) same ?_
  cases action with
  | message msg =>
    obtain ⟨_, client, received, _⟩ := step_message.mp taken
    rw [delivery, (battle_hears layered owning here).2, if_pos rfl, received]
    rfl
  | dispatch =>
    rw [delivery]
    split
    next =>
      split <;> rfl
    next => rfl
  | drained | line | render => rfl

/-- A new battle has not heard anything. -/
theorem HeardAll.fresh (follows : Follows world done app) (reached : Runs.exec (PsApp.step world) init done = some app)
    (owning : Owning app) (taken : app.step world .dispatch = some after) (beyond : app.objects.length ≤ layer)
    (later : Follows world (done ++ [.dispatch]) after) (here : after.battleAt layer = some battle) :
    HeardAll world (done ++ [.dispatch]) layer := by
  have quiet : delivered world layer (done ++ [.dispatch]) = [] := by
    rw [delivered_concat reached, follows.fresh layer beyond, delivery]
    split
    next =>
      rw [if_neg fun last => Nat.not_le_of_lt (owning.inside (List.mem_of_getLast? last)) beyond]
      rfl
    next => rfl
  obtain ⟨play, run, same⟩ := later.runs layer battle here
  rw [quiet] at run
  cases run
  refine ⟨done, app, after, [], rfl, reached, beyond, taken, ?_, ?_⟩
  · rw [here, ← same]
    rfl
  · rw [quiet]
    rfl

theorem heard_all {actions : List Action} (reached : Runs.exec (PsApp.step world) init actions = some app)
    (here : app.battleAt layer = some battle) : HeardAll world actions layer := by
  have all : Runs.exec (PsApp.step world) init actions = some app ∧
      ∀ layer battle, app.battleAt layer = some battle → HeardAll world actions layer := by
    refine Runs.always (fun done app => Runs.exec (PsApp.step world) init done = some app ∧
      ∀ layer battle, app.battleAt layer = some battle → HeardAll world done layer) ⟨rfl, ?_⟩ ?_ reached
    · intro layer battle here
      cases layer <;> cases here
    · intro done action before after prior taken
      obtain ⟨earlier, heard⟩ := prior
      have later : Runs.exec (PsApp.step world) init (done ++ [action]) = some after := by
        rw [Runs.exec_concat, earlier, Option.bind_some, taken]
      refine ⟨later, fun layer battle here => ?_⟩
      rcases (layered earlier).arose taken here with ⟨battle, there⟩ | ⟨rfl, beyond⟩
      · exact (heard layer battle there).step earlier (layered earlier) (owning earlier) there taken
      · exact .fresh (following earlier) earlier (owning earlier) taken beyond (following later) here
  exact all.2 layer battle here

end PsApp

namespace Program
variable {world : World} {program : Program} {layer : Nat} {battle : BattleLayer}

/-- From the socket to the record of a battle: it is that of the messages which the main loop
has processed since it opened the battle, all of them and no others. These are the last of those
that the queue has returned, messages of the frames received, in order and each once, and they
are consecutive as long as no push was refused. -/
theorem battles_fed {actions : List Action} (reached : Runs.exec (step world) {} actions = some program)
    (here : program.app.object layer = .ok (.battle battle)) :
    ∃ before start opened rest, processed world actions = before ++ .dispatch :: rest ∧
      before.flatMap hears ++ rest.flatMap hears = program.inbound.returned ∧
      Runs.exec (PsApp.step world) PsApp.init before = some start ∧ start.objects.length ≤ layer ∧
      start.step world .dispatch = some opened ∧ opened.object layer = .ok (.battle {}) ∧ Runs.exec (PsApp.step world) opened rest = some program.app ∧
      Runs.exec (BattleState.step world.parse) {} (rest.flatMap hears) = some battle.state ∧
      (rest.flatMap hears).Sublist (program.inbound.received.flatMap parseMessage) ∧
      (program.inbound.threads.refused = [] →
        rest.flatMap hears <:+: program.inbound.received.flatMap parseMessage) := by
  obtain ⟨app, returned⟩ := acted_reached reached
  obtain ⟨⟨arrivals, inbound⟩, _⟩ := inbound_reached reached
  have there := PsApp.battleAt_object here
  obtain ⟨before, start, opened, rest, turns, began, absent, opens, fresh, same⟩ := PsApp.heard_all app there
  obtain ⟨play, run, becomes⟩ := (PsApp.following app).runs layer battle there
  have record := Play.exec_state run
  rw [same, becomes] at record
  have heard : before.flatMap hears ++ rest.flatMap hears = program.inbound.returned := by
    rw [← returned, turns, List.flatMap_append, List.flatMap_cons]
    rfl
  have last : rest.flatMap hears <:+ program.inbound.returned := ⟨_, heard⟩
  rw [turns, Runs.exec_append, began, Option.bind_some, Runs.exec_cons, opens, Option.bind_some] at app
  refine ⟨before, start, opened, rest, turns, heard, began, absent, opens, PsApp.battleAt_some.mp fresh, app, record, ?_, fun kept => ?_⟩
  · exact last.sublist.trans (Inbound.returned_sublist inbound)
  · exact last.isInfix.trans (Inbound.returned_prefix inbound kept).isInfix

private def deafWorld : World := { parse := fun _ => none, assertions := fun _ => "" }

/-- A battle is searched for, and its third turn begins. -/
private def fed : List Action :=
  [.poll, .poll, .poll, .turn .dispatch, .turn .dispatch, .turn (.line (some "1")), .turn .render, .poll, .poll, .poll,
    .turn .dispatch, .turn .dispatch, .post, .turn .dispatch, .frame ['|', 't', 'u', 'r', 'n', '|', '3'], .network,
    .network, .network, .network, .network, .turn (.line none), .turn .render, .poll, .poll, .poll, .poll, .poll]

theorem battles_fed_turn :
    ∃ program, Runs.exec (step deafWorld) {} fed = some program ∧
      program.app.object 1 = .ok (.battle { state := { turn := some 3 } }) ∧
      ∃ before start opened rest, processed deafWorld fed = before ++ .dispatch :: rest ∧
        before.flatMap hears ++ rest.flatMap hears = program.inbound.returned ∧
        Runs.exec (PsApp.step deafWorld) PsApp.init before = some start ∧ start.objects.length ≤ 1 ∧ start.step deafWorld .dispatch = some opened ∧
        opened.object 1 = .ok (.battle {}) ∧ Runs.exec (PsApp.step deafWorld) opened rest = some program.app ∧
        Runs.exec (BattleState.step deafWorld.parse) {} (rest.flatMap hears) = some { turn := some 3 } ∧
        (rest.flatMap hears).Sublist (program.inbound.received.flatMap parseMessage) ∧
        (program.inbound.threads.refused = [] →
          rest.flatMap hears <:+: program.inbound.received.flatMap parseMessage) := by
  have run : (Runs.exec (step deafWorld) {} fed).map (fun program => program.app.objects[1]?) =
      some (some (some (.battle { state := { turn := some 3 } }))) := by decide +kernel
  obtain ⟨program, reached, here⟩ := Option.map_eq_some_iff.mp run
  have there := PsApp.object_some.mpr here
  exact ⟨program, reached, there, battles_fed reached there⟩

end Program
end ShowdownCli
