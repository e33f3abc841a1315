import ShowdownCli.Library.Purge
import ShowdownCli.Layers
import ShowdownCli.Proofs.BattleChanges

/-! Two rooms on one connection. The parser notes the room of every message, but a battle
takes the messages of any room, so what another room says goes unnoticed only where it
happens to agree with what this battle has recorded. -/

namespace ShowdownCli
open Library

/-- A message about the battle in another room. -/
def Message.foreign (room : String) (msg : Message) : Bool :=
  msg.type ∈ ["request", "switch", "drag", "-damage", "-heal", "faint", "turn", "win", "tie"] ∧
    msg.roomId ≠ "" ∧ msg.roomId ≠ room

namespace Pokemon

/-- The numbers of a condition, if it has any, are the recorded ones. -/
def Shows (p : Pokemon) (reading : Reading) : Prop :=
  ∀ current max, reading = some (current, max) → p.hpCurrent = some current ∧ p.hpMax = some max

theorem read_same {p : Pokemon} {reading : Reading} : p.read reading = p ↔ p.Shows reading := by
  obtain ⟨name, ident, hpCurrent, hpMax, active, fainted, moves, status, teraType⟩ := p
  cases reading with
  | none => simp [read, Shows]
  | some numbers => simp [read, Shows, Prod.ext_iff, eq_comm]

theorem faint_same {p : Pokemon} : p.faint = p ↔ p.fainted = true ∧ p.active = false ∧ p.hpCurrent = some 0 := by
  obtain ⟨name, ident, hpCurrent, hpMax, active, fainted, moves, status, teraType⟩ := p
  simp only [faint, mk.injEq, true_and, and_true]
  constructor
  · rintro ⟨hp, inactive, down⟩
    exact ⟨down.symm, inactive.symm, hp.symm⟩
  · rintro ⟨down, inactive, hp⟩
    exact ⟨hp.symm, inactive.symm, down.symm⟩

theorem deactivate_same {p : Pokemon} : p.deactivate = p ↔ p.active = false := by
  obtain ⟨name, ident, hpCurrent, hpMax, active, fainted, moves, status, teraType⟩ := p
  simp [deactivate, eq_comm]

theorem enter_same {p : Pokemon} {reading : Reading} :
    p.enter.read reading = p ↔ p.active = true ∧ p.fainted = false ∧ p.Shows reading := by
  obtain ⟨name, ident, hpCurrent, hpMax, active, fainted, moves, status, teraType⟩ := p
  rw [← read_same]
  cases reading with
  | none => simp [read, enter, eq_comm]
  | some numbers =>
    simp only [read, enter, mk.injEq, true_and, and_true]
    tauto

end Pokemon

/-- The first Pokemon with the name is the only active one, and as the switch reports it. -/
structure InPlace (name : String) (reading : Reading) (team before : List Pokemon) (p : Pokemon) (after : List Pokemon) :
    Prop where
  team : team = before ++ p :: after
  first : name ∉ before.map Pokemon.name
  named : p.name = name
  active : p.active = true
  fainted : p.fainted = false
  shown : p.Shows reading
  others : ∀ other ∈ before ++ after, other.active = false

/-- A Pokemon that is brought in, while all others leave the field, when that was so before. -/
theorem entering_same {text : String} {change : Pokemon → Pokemon} (keeps : ∀ p, (change p).name = p.name)
    {team : List Pokemon} :
    Keyed.touch Pokemon.name (parseIdent text).name change
        (Keyed.enroll Pokemon.name (parseIdent text).name (.sighted text) (team.map Pokemon.deactivate)) = team ↔
      ∃ before p after, team = before ++ p :: after ∧ (parseIdent text).name ∉ before.map Pokemon.name ∧
        p.name = (parseIdent text).name ∧ change p.deactivate = p ∧ ∀ other ∈ before ++ after, other.active = false := by
  rw [Keyed.touch_enroll (Pokemon.sighted_name text)]
  constructor
  · intro same
    split at same
    next known =>
      obtain ⟨before, p, after, shape, first, named, touched⟩ := Keyed.touch_split change known
      rw [touched] at same
      have inactive : ∀ q ∈ before ++ p :: after, q.active = false := by
        rw [← shape]
        intro q member
        obtain ⟨_, _, rfl⟩ := List.mem_map.mp member
        rfl
      have kept : (change p).deactivate = p := by
        have view := congrArg (List.map Pokemon.deactivate) same
        rw [shape, List.map_append, List.map_cons] at view
        exact (List.cons.inj (List.append_inj view (by simp)).2).1
      refine ⟨before, change p, after, same.symm, first, (keeps p).trans named, by rw [kept], ?_⟩
      exact fun q member => inactive q (by simp at member ⊢; tauto)
    next unknown =>
      have longer := congrArg List.length same
      simp at longer
  · rintro ⟨before, p, after, shape, first, named, entered, others⟩
    have calm {part : List Pokemon} (inactive : ∀ q ∈ part, q.active = false) : part.map Pokemon.deactivate = part := by
      rw [List.map_congr_left fun q member => Pokemon.deactivate_same.mpr (inactive q member), List.map_id']
    have cleared : team.map Pokemon.deactivate = before ++ p.deactivate :: after := by
      rw [shape, List.map_append, List.map_cons, calm fun q member => others q (List.mem_append_left _ member),
        calm fun q member => others q (List.mem_append_right _ member)]
    have known : (parseIdent text).name ∈ (before ++ p.deactivate :: after).map Pokemon.name := by
      simp [named]
    rw [cleared, if_pos known, Keyed.touch_first _ first (p.deactivate_name.trans named), entered, shape]

namespace Effect

theorem enter_inPlace {text : String} {reading : Reading} {team : List Pokemon} :
    (Effect.enter text reading).on team = team ↔ ∃ before p after, InPlace (parseIdent text).name reading team before p after := by
  rw [on, entering_same (by simp)]
  refine exists_congr fun before => exists_congr fun p => exists_congr fun after => ?_
  constructor
  · rintro ⟨shape, first, named, entered, others⟩
    have same : p.enter.read reading = p := entered
    obtain ⟨active, fainted, shown⟩ := Pokemon.enter_same.mp same
    exact ⟨shape, first, named, active, fainted, shown, others⟩
  · rintro ⟨shape, first, named, active, fainted, shown, others⟩
    exact ⟨shape, first, named, Pokemon.enter_same.mpr ⟨active, fainted, shown⟩, others⟩

end Effect

namespace BattleState
variable {parse : String → Option Json} {state after : BattleState} {msg : Message}

theorem perform_same {effect : Effect} :
    state.perform effect = state ↔ effect.on (state.team (state.ours effect.ident)) = state.team (state.ours effect.ident) := by
  constructor
  · intro same
    have edited := congrArg (fun other => other.team (state.ours effect.ident)) same
    simpa [perform] using edited
  · exact fun same => editTeam_same _ _ _ same

/-- A message that leaves a battle as it is, of one of the types that change its teams
or its turn. -/
inductive Inert (state : BattleState) (msg : Message) : Prop where
  | hp {text : String} (type : msg.type = "-damage" ∨ msg.type = "-heal") (ident : msg.args[0]? = some text)
      (shown : ∀ p, state.found (parseIdent text) = some p → ∃ condition reading,
        msg.args[1]? = some condition ∧ readCondition condition = .ok reading ∧ p.Shows reading)
  | faint {text : String} (type : msg.type = "faint") (ident : msg.args[0]? = some text)
      (down : ∀ p, state.found (parseIdent text) = some p →
        p.fainted = true ∧ p.active = false ∧ p.hpCurrent = some 0)
  | switch {text condition : String} {reading : Reading} {before after : List Pokemon} {p : Pokemon}
      (type : msg.type = "switch" ∨ msg.type = "drag") (ident : msg.args[0]? = some text)
      (argument : msg.args[2]? = some condition) (read : readCondition condition = .ok reading)
      (inPlace : InPlace (parseIdent text).name reading (state.team (state.ours (parseIdent text))) before p after)
  | turn {text : String} {turn : Int} (type : msg.type = "turn") (argument : msg.args[0]? = some text)
      (read : stoi text.toList = .ok turn) (same : state.turn = some turn)

theorem Inert.change (parse : String → Option Json) (inert : Inert state msg) : ∃ after, Change parse state msg after ∧ after = state := by
  cases inert with
  | @hp text type ident shown =>
    by_cases known : state.Knows (parseIdent text)
    · obtain ⟨p, found⟩ := knows_found.mp known
      obtain ⟨condition, reading, argument, read, agrees⟩ := shown p found
      refine ⟨_, .hp type ident fun _ => ⟨condition, argument, read⟩, ?_⟩
      apply perform_same.mpr
      apply Keyed.touch_same.mpr
      intro other here
      cases found.symm.trans here
      exact Pokemon.read_same.mpr agrees
    · exact ⟨state.perform (.hp text none), .hp type ident fun other => absurd other known,
        perform_unknown known (by simp)⟩
  | faint type ident down =>
    refine ⟨_, .faint type ident, ?_⟩
    apply perform_same.mpr
    apply Keyed.touch_same.mpr
    exact fun p found => Pokemon.faint_same.mpr (down p found)
  | switch type ident argument read inPlace =>
    exact ⟨_, .switch type ident argument read, perform_same.mpr (Effect.enter_inPlace.mpr ⟨_, _, _, inPlace⟩)⟩
  | turn type argument read same => exact ⟨_, .turn type argument read, by rw [← same]⟩

theorem Change.inert (change : Change parse state msg after) (same : after = state)
    (type : msg.type ∈ ["switch", "drag", "-damage", "-heal", "faint", "turn"]) : Inert state msg := by
  cases change with
  | blank request => simp [request] at type
  | first request | later request => simp [request.1] at type
  | hp type ident read =>
    refine .hp type ident fun p found => ?_
    obtain ⟨condition, argument, read⟩ := read (knows_found.mpr ⟨p, found⟩)
    exact ⟨condition, _, argument, read, Pokemon.read_same.mp (Keyed.touch_same.mp (perform_same.mp same) p found)⟩
  | faint type ident =>
    refine .faint type ident fun p found => ?_
    exact Pokemon.faint_same.mp (Keyed.touch_same.mp (perform_same.mp same) p found)
  | switch type ident argument read =>
    obtain ⟨before, p, after, inPlace⟩ := Effect.enter_inPlace.mp (perform_same.mp same)
    exact .switch type ident argument read inPlace
  | turn type argument read => exact .turn type argument read (congrArg BattleState.turn same).symm
  | other other => exact absurd (by simp at type ⊢; tauto) other

theorem Inert.type (inert : Inert state msg) :
    msg.type ∈ ["switch", "drag", "-damage", "-heal", "faint", "turn"] := by
  cases inert with
  | hp type | switch type => rcases type with type | type <;> simp [type]
  | faint type | turn type => simp [type]

theorem step_inert (type : msg.type ∈ ["switch", "drag", "-damage", "-heal", "faint", "turn"]) :
    step parse state msg = some state ↔ Inert state msg := by
  rw [step_iff]
  constructor
  · exact fun change => change.inert rfl type
  · intro inert
    obtain ⟨after, change, rfl⟩ := inert.change parse
    exact change

end BattleState

/-- A battle on top of the stack, with the events it has submitted. -/
structure Delivery where
  battle : BattleLayer
  client : PsClient
  submitted : List Event := []
deriving DecidableEq

namespace Delivery
variable {world : World} {this : Nat} {room : String} {delivery after : Delivery} {msg : Message}

/-- `on_event` for a `MessageEvent`. -/
def receive (world : World) (this : Nat) (delivery : Delivery) (msg : Message) : Option Delivery :=
  match delivery.battle.onMessage world this delivery.client msg with
  | .ok reaction => some { battle := reaction.layer, client := reaction.client,
                           submitted := delivery.submitted ++ reaction.submitted }
  | .error _ => none

/-- What must not depend on other rooms: the state, the submitted events and the frames sent. -/
def observe (delivery : Delivery) : BattleState × List Event × List String :=
  (delivery.battle.state, delivery.submitted, delivery.client.sent)

/-- The events with which a battle answers a message. -/
def answers (this : Nat) (msg : Message) : List Event :=
  if msg.type = "win" ∨ msg.type = "tie" then [.layerPop this false]
  else if msg.type = "request" then [.battleJoin]
  else []

theorem receive_foreign (foreign : msg.foreign room = true) : delivery.receive world this msg = some after ↔
    ∃ state, BattleState.step world.parse delivery.battle.state msg = some state ∧
      after = { delivery with
        battle := { delivery.battle with state }, submitted := delivery.submitted ++ answers this msg } := by
  have search : ¬ (msg.type = "updatesearch" ∧ msg.args ≠ []) := by
    rintro ⟨type, _⟩
    simp [Message.foreign, type] at foreign
  simp only [receive, BattleLayer.onMessage, BattleState.step, if_neg search, answers]
  cases (BattleState.apply world.parse msg).run delivery.battle.state with
  | error fault state => simp
  | ok _ state =>
    simp only [Option.some.injEq, exists_eq_left']
    by_cases ended : msg.type = "win" ∨ msg.type = "tie"
    · simp only [if_pos ended, Option.some.injEq]
      exact eq_comm
    by_cases asked : msg.type = "request"
    · simp only [if_neg ended, if_pos asked, Option.some.injEq]
      exact eq_comm
    · simp only [if_neg ended, if_neg asked, Option.some.injEq]
      exact eq_comm

/-- The observer sees every change that a message of another room makes. -/
theorem observe_faithful (foreign : msg.foreign room = true) (received : delivery.receive world this msg = some after)
    (same : after.observe = delivery.observe) : after = delivery := by
  obtain ⟨state, _, rfl⟩ := (receive_foreign foreign).mp received
  simp only [observe, Prod.mk.injEq] at same
  obtain ⟨unchanged, silent, _⟩ := same
  subst unchanged
  rw [silent]

theorem receive_inert (foreign : msg.foreign room = true) :
    delivery.receive world this msg = some delivery ↔ BattleState.Inert delivery.battle.state msg := by
  rw [receive_foreign foreign]
  constructor
  · rintro ⟨state, applied, same⟩
    have unchanged : state = delivery.battle.state := congrArg (fun other => other.battle.state) same.symm
    have silent : answers this msg = [] := by
      have submitted := congrArg submitted same
      exact List.self_eq_append_right.mp submitted
    rw [unchanged] at applied
    refine (BattleState.step_inert ?_).mp applied
    unfold answers at silent
    split at silent
    next => cases silent
    next lasting =>
    split at silent
    next => cases silent
    next unasked =>
      simp only [Message.foreign, List.mem_cons, List.not_mem_nil, or_false, decide_eq_true_eq] at foreign
      simp only [List.mem_cons, List.not_mem_nil, or_false]
      tauto
  · intro inert
    have silent : answers this msg = [] := by
      have type := inert.type
      simp only [List.mem_cons, List.not_mem_nil, or_false] at type
      unfold answers
      rcases type with type | type | type | type | type | type <;> simp [type]
    refine ⟨_, (BattleState.step_inert inert.type).mpr inert, ?_⟩
    rw [silent, List.append_nil]

/-- A run in which a battle is delivered messages of any rooms. At every point of it the
battle is as without the messages of the other rooms, exactly when each of those is inert
where it arrives. -/
theorem isolated_iff (world : World) (this : Nat) (start : Delivery) (msgs : List Message) :
    (∀ done, done <+: msgs → (Runs.exec (receive world this) start done).map observe =
        (Runs.exec (receive world this) start (Runs.purge (Message.foreign start.battle.battleRoom) done)).map observe) ↔
      Runs.Guarded (receive world this) (fun delivery msg =>
        msg.foreign start.battle.battleRoom = true → BattleState.Inert delivery.battle.state msg) start msgs := by
  have faithful : ∀ delivery msg after, msg.foreign start.battle.battleRoom = true →
      receive world this delivery msg = some after → after.observe = delivery.observe → after = delivery :=
    fun _ _ _ foreign => observe_faithful foreign
  rw [Runs.purge_iff faithful]
  unfold Runs.Guarded Runs.Unnoticed
  constructor
  · exact fun unnoticed done msg inside state reached foreign =>
      (receive_inert foreign).mp (unnoticed done msg inside state reached foreign)
  · exact fun inert done msg inside state reached foreign =>
      (receive_inert foreign).mpr (inert done msg inside state reached foreign)

/-- The earlier battle ends, and this one is popped. -/
theorem other_win_ends_battle :
    (Runs.exec (receive { parse := fun _ => none, assertions := fun _ => "" } 1)
        { battle := { battleRoom := "battle-2" }, client := {} } (parseMessage ">battle-1\n|win|Ash".toList)).map observe ≠
      (Runs.exec (receive { parse := fun _ => none, assertions := fun _ => "" } 1)
        { battle := { battleRoom := "battle-2" }, client := {} }
        (Runs.purge (Message.foreign "battle-2") (parseMessage ">battle-1\n|win|Ash".toList))).map observe := by
  decide +kernel

end Delivery
end ShowdownCli
