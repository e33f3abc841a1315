import ShowdownCli.Library.Log
import ShowdownCli.Library.Runs
import ShowdownCli.Proofs.BattleTeams

/-! Messages seen from the two sides of a battle. Once a request has fixed our
side it stays fixed, and then every message acts on one team at most. -/

namespace ShowdownCli
open Library

namespace Message

/-- The identifier of a message about one Pokemon. -/
def about (msg : Message) : Option Ident :=
  if msg.type ∈ ["-damage", "-heal", "faint", "switch", "drag"] then msg.args[0]?.map parseIdent else none

/-- The identifier of a message that brings a Pokemon in. -/
def entering (msg : Message) : Option Ident :=
  if msg.type ∈ ["switch", "drag"] then msg.args[0]?.map parseIdent else none

/-- The name a message makes known of our side or of the other one. -/
def joining (side : String) (ours : Bool) (msg : Message) : Option String :=
  (msg.entering.filter fun ident => (ident.side == side) == ours).map Ident.name

/-- The identifier and the condition that a message reports. -/
def report (msg : Message) : Option (Ident × String) :=
  if msg.type ∈ ["-damage", "-heal"] then do return (parseIdent (← msg.args[0]?), ← msg.args[1]?)
  else if msg.type ∈ ["switch", "drag"] then do return (parseIdent (← msg.args[0]?), ← msg.args[2]?)
  else none

/-- The payload of a request, when there is one. -/
def payload (parse : String → Option Json) (msg : Message) : Option Json :=
  if msg.type = "request" then (msg.args[0]?.filter (· ≠ "")).bind parse else none

/-- The numbers at a place of a message, if it has any that can be read. -/
def reading (msg : Message) (index : Nat) : Reading :=
  ((msg.args[index]?).bind fun condition => (BattleState.readCondition condition).toOption).join

/-- What a message about one Pokemon does. -/
def influence (msg : Message) : Option Effect :=
  if msg.type ∈ ["-damage", "-heal"] then (msg.args[0]?).map fun text => .hp text (msg.reading 1)
  else if msg.type = "faint" then (msg.args[0]?).map .faint
  else if msg.type ∈ ["switch", "drag"] then (msg.args[0]?).map fun text => .enter text (msg.reading 2)
  else none

theorem reading_ok {msg : Message} {index : Nat} {condition : String} {reading : Reading}
    (argument : msg.args[index]? = some condition) (read : BattleState.readCondition condition = .ok reading) :
    msg.reading index = reading := by
  simp [Message.reading, argument, read, Except.toOption]

/-- The messages with an effect are those about a Pokemon. -/
theorem influence_about (msg : Message) : msg.influence.map Effect.ident = msg.about := by
  simp only [influence, about, List.mem_cons, List.not_mem_nil, or_false]
  by_cases hp : msg.type = "-damage" ∨ msg.type = "-heal"
  · rcases hp with type | type <;> simp [type, Function.comp_def]
  · by_cases faint : msg.type = "faint"
    · simp [faint, Function.comp_def]
    · by_cases switch : msg.type = "switch" ∨ msg.type = "drag"
      · rcases switch with type | type <;> simp [type, Function.comp_def]
      · simp only [not_or] at hp switch
        simp [hp, faint, switch]

/-- A Pokemon comes in with a switch or a drag. -/
theorem influence_entering (msg : Message) : (msg.influence.bind Effect.entrant) = msg.entering.map Ident.name := by
  simp only [influence, entering, List.mem_cons, List.not_mem_nil, or_false]
  by_cases hp : msg.type = "-damage" ∨ msg.type = "-heal"
  · rcases hp with type | type <;> simp [type, Option.bind_map, Function.comp_def, Effect.entrant]
  · by_cases faint : msg.type = "faint"
    · simp [faint, Option.bind_map, Function.comp_def, Effect.entrant]
    · by_cases switch : msg.type = "switch" ∨ msg.type = "drag"
      · rcases switch with type | type <;> simp only [type] <;> cases msg.args[0]? <;> rfl
      · simp only [not_or] at hp switch
        simp [hp, faint, switch]

end Message

/-- The number a condition starts with. -/
def currentHp (condition : String) : Nat := decimal (condition.toList.takeWhile Char.isDigit)

namespace BattleState
variable {parse : String → Option Json}

theorem payload_some {msg : Message} {j : Json} : msg.payload parse = some j ↔ Requests parse msg j := by
  unfold Message.payload Requests
  by_cases type : msg.type = "request"
  · simp [type, Option.bind_eq_some_iff, Option.filter_eq_some_iff, and_assoc]
  · simp [type]

/-- The side a request names as ours. -/
def sideId (j : Json) : Except Fault String := do
  (← (← j.constMember "side").constMember "id").getString

/-- The Pokemon a request lists. -/
def requestPokemon (j : Json) : Except Fault (List Json) := do
  return (← (← j.constMember "side").constMember "pokemon").elements

/-- Their names, in order. -/
def requestNames (j : Json) : Except Fault (List String) := do
  (← requestPokemon j).mapM fun p => do return (parseIdent (← (← p.constMember "ident").getString)).name

/-- Their conditions, in order. -/
def requestConditions (j : Json) : Except Fault (List String) := do
  (← requestPokemon j).mapM fun p => do (← p.constMember "condition").getString

/-- The side that a message can fix as ours. -/
def fixing (parse : String → Option Json) (msg : Message) : Option String :=
  match (msg.payload parse).map sideId with
  | some (.ok side) => if side = "" then none else some side
  | _ => none

theorem fixing_some {msg : Message} {side : String} :
    fixing parse msg = some side ↔ side ≠ "" ∧ ∃ j, Requests parse msg j ∧ sideId j = .ok side := by
  simp only [← payload_some]
  unfold fixing
  cases found : msg.payload parse with
  | none => simp
  | some j =>
    cases named : sideId j with
    | error fault => simp [named]
    | ok id =>
      by_cases blank : id = ""
      · simp [named, blank, eq_comm]
      · simp only [Option.map_some, named, blank, if_false, Option.some.injEq, Except.ok.injEq, exists_eq_left']
        exact ⟨fun same => ⟨same ▸ blank, same⟩, And.right⟩

theorem readSide_id {j : Json} {side : Side} (read : readSide j = .ok side) : sideId j = .ok side.id := by
  simp only [readSide, except_bind_ok] at read
  obtain ⟨_, found, _, _, _, _, _, found', value, member, id, text, _, _, _, _, _, _, built⟩ := read
  cases built
  simp only [sideId, except_bind_ok]
  exact ⟨_, found', value, member, text⟩

/-- Our team is read from the listed Pokemon one by one. -/
theorem readSide_pokemon {j : Json} {side : Side} (read : readSide j = .ok side) :
    ∃ listed, requestPokemon j = .ok listed ∧
      List.Forall₂ (fun p pkm => readPokemon p = .ok pkm) listed side.pokemon := by
  simp only [readSide, except_bind_ok] at read
  obtain ⟨_, _, _, _, _, _, _, _, _, _, _, _, section_, found, pokemon, list, team, reads, built⟩ := read
  cases built
  refine ⟨pokemon.elements, ?_, mapM_ok.mp reads⟩
  simp only [requestPokemon, except_bind_ok]
  exact ⟨section_, found, pokemon, list, rfl⟩

/-- The members that a Pokemon is read from. -/
theorem readPokemon_ok {p : Json} {pkm : Pokemon} (read : readPokemon p = .ok pkm) :
    (do return (parseIdent (← (← p.constMember "ident").getString)).name : Except Fault String) = .ok pkm.name ∧
      p.constMember "active" = .ok (.bool pkm.active) ∧ pkm.fainted = false ∧
      ∃ condition reading, (do (← p.constMember "condition").getString) = .ok condition ∧
        readCondition condition = .ok reading ∧ pkm.hpCurrent = reading.map Prod.fst ∧
          pkm.hpMax = reading.map Prod.snd := by
  simp only [readPokemon, except_bind_ok] at read
  obtain ⟨value, member, ident, text, value', member', active, flag, _, _, _, _, value'', member'', condition, text'',
    reading, readable, _, _, _, _, built⟩ := read
  cases built
  refine ⟨?_, ?_, rfl, condition, reading, ?_, readable, rfl, rfl⟩
  · exact except_bind_ok.mpr ⟨value, member, except_bind_ok.mpr ⟨ident, text, rfl⟩⟩
  · rw [member']
    cases value' <;> cases flag
    rfl
  · exact except_bind_ok.mpr ⟨value'', member'', text''⟩

theorem requestNames_read {j : Json} {side : Side} (read : readSide j = .ok side) :
    requestNames j = .ok (names side.pokemon) := by
  obtain ⟨listed, found, reads⟩ := readSide_pokemon read
  refine except_bind_ok.mpr ⟨listed, found, mapM_ok.mpr ?_⟩
  rw [List.forall₂_map_right_iff]
  exact reads.imp fun _ _ read => (readPokemon_ok read).1

theorem forall₂_getElem? {α β : Type} {relation : α → β → Prop} {first : List α} {second : List β}
    (related : List.Forall₂ relation first second) {i : Nat} {a : α} (here : first[i]? = some a) :
    ∃ b, second[i]? = some b ∧ relation a b := by
  induction related generalizing i with
  | nil => cases here
  | cons head _ ih =>
    cases i with
    | zero =>
      cases here
      exact ⟨_, rfl, head⟩
    | succ i => exact ih here

/-- A request that is read has a condition for each Pokemon. -/
theorem requestConditions_total {j : Json} {side : Side} (read : readSide j = .ok side) :
    ∃ conditions, requestConditions j = .ok conditions := by
  obtain ⟨listed, pokemon, reads⟩ := readSide_pokemon read
  have texts : Succeeds (listed.mapM fun p => do (← p.constMember "condition").getString) := by
    refine succeeds_mapM.mpr fun p member => ?_
    obtain ⟨i, here⟩ := List.mem_iff_getElem?.mp member
    obtain ⟨pkm, _, read⟩ := forall₂_getElem? reads here
    obtain ⟨_, _, _, condition, _, text, _⟩ := readPokemon_ok read
    exact ⟨condition, text⟩
  obtain ⟨conditions, texts⟩ := texts
  exact ⟨conditions, except_bind_ok.mpr ⟨listed, pokemon, texts⟩⟩

theorem requestConditions_read {j : Json} {side : Side} (read : readSide j = .ok side) {conditions : List String}
    (found : requestConditions j = .ok conditions) :
    List.Forall₂ (fun condition pkm => pkm.fainted = false ∧ ∃ reading, readCondition condition = .ok reading ∧
      pkm.hpCurrent = reading.map Prod.fst ∧ pkm.hpMax = reading.map Prod.snd) conditions side.pokemon := by
  obtain ⟨listed, pokemon, reads⟩ := readSide_pokemon read
  obtain ⟨listed', pokemon', texts⟩ := except_bind_ok.mp found
  cases pokemon.symm.trans pokemon'
  replace texts := mapM_ok.mp texts
  clear found pokemon pokemon' read
  generalize side.pokemon = team at reads ⊢
  induction reads generalizing conditions with
  | nil =>
    cases texts
    exact .nil
  | cons first _ ih =>
    cases texts with
    | cons text texts =>
      obtain ⟨_, _, standing, condition, reading, text', readable, current⟩ := readPokemon_ok first
      cases text.symm.trans text'
      exact .cons ⟨standing, reading, readable, current⟩ (ih texts)

@[simp] theorem perform_yourSide (state : BattleState) (effect : Effect) :
    (state.perform effect).yourSide = state.yourSide := editTeam_yourSide ..

theorem perform_team (state : BattleState) (effect : Effect) (which : Bool) :
    (state.perform effect).team which =
      if state.ours effect.ident = which then effect.on (state.team which) else state.team which := by
  unfold perform
  split
  next same =>
    subst same
    exact editTeam_team ..
  next other => exact editTeam_other _ _ _ (Ne.symm other)

theorem perform_names (state : BattleState) (effect : Effect) (which : Bool) :
    names ((state.perform effect).team which) =
      Keyed.grown (names (state.team which))
        (if state.ours effect.ident = which then effect.entrant.toList else []) := by
  rw [perform_team]
  split
  · exact effect.names_on _
  · exact (Keyed.grown_nil _).symm

section Step
variable {state after : BattleState} {msg : Message}

theorem step_known (known : state.yourSide ≠ "") (taken : step parse state msg = some after) :
    after.yourSide = state.yourSide := by
  cases step_iff.mp taken with
  | first _ unknown => exact absurd unknown known
  | hp | faint | switch => exact perform_yourSide ..
  | blank | later | turn | other => rfl

/-- A message that can fix our side fixes it when it is the first to. -/
theorem step_fixing {side : String} (fixes : fixing parse msg = some side) (unknown : state.yourSide = "")
    (taken : step parse state msg = some after) :
    ∃ j read moves, Requests parse msg j ∧ readSide j = .ok read ∧ read.id = side ∧
      after = (state.takeSide read).takeMoves j moves := by
  obtain ⟨_, j, request, id⟩ := fixing_some.mp fixes
  obtain ⟨moves, _, ⟨_, read, done, rfl⟩ | ⟨known, _⟩⟩ := (step_request request).mp taken
  · exact ⟨j, read, moves, request, done, Except.ok.inj ((readSide_id done).symm.trans id), rfl⟩
  · exact absurd unknown known

theorem step_unfixed (open_ : fixing parse msg = none) (unknown : state.yourSide = "")
    (taken : step parse state msg = some after) : after.yourSide = "" := by
  cases step_iff.mp taken with
  | @first j side _ request _ read =>
    by_contra known
    have fixes : fixing parse msg = some side.id := fixing_some.mpr ⟨known, j, request, readSide_id read⟩
    cases open_.symm.trans fixes
  | hp | faint | switch => exact (perform_yourSide ..).trans unknown
  | blank | later | turn | other => exact unknown

/-- With our side known, a message adds to a team the name that joins it. -/
theorem step_names (known : state.yourSide ≠ "") (taken : step parse state msg = some after) (which : Bool) :
    names (after.team which) =
      Keyed.grown (names (state.team which)) (msg.joining state.yourSide which).toList := by
  have idle (silent : msg.entering = none) :
      names (state.team which) = Keyed.grown (names (state.team which)) (msg.joining state.yourSide which).toList := by
    simp [Message.joining, silent]
  cases step_iff.mp taken with
  | first _ unknown => exact absurd unknown known
  | hp type =>
    have silent : msg.entering = none := by rcases type with type | type <;> simp [Message.entering, type]
    rw [perform_names, Message.joining, silent]
    split <;> simp [Effect.entrant]
  | faint type =>
    have silent : msg.entering = none := by simp [Message.entering, type]
    rw [perform_names, Message.joining, silent]
    split <;> simp [Effect.entrant]
  | @switch text _ reading type ident =>
    have entering : msg.entering = some (parseIdent text) := by
      rcases type with type | type <;> simp [Message.entering, type, ident]
    rw [perform_names, Message.joining, entering]
    by_cases same : state.ours (parseIdent text) = which
    · simp [same, Effect.entrant, Option.filter, show ((parseIdent text).side == state.yourSide) = which from same]
    · simp [same, Option.filter, show ((parseIdent text).side == state.yourSide) ≠ which from same]
  | blank type => exact idle (by simp [Message.entering, type])
  | later request => exact idle (by simp [Message.entering, request.1])
  | turn type => exact idle (by simp [Message.entering, type])
  | other type =>
    simp only [List.mem_cons, List.not_mem_nil, or_false, not_or] at type
    exact idle (by simp [Message.entering, type])

/-- A message about one side leaves the other side's team as it was. -/
theorem step_bystander (known : state.yourSide ≠ "") (taken : step parse state msg = some after) {which : Bool}
    (apart : ∀ ident, msg.about = some ident → state.ours ident ≠ which) : after.team which = state.team which := by
  have idle {effect : Effect} (about : msg.about = some effect.ident) :
      (state.perform effect).team which = state.team which := by
    rw [perform_team, if_neg (apart _ about)]
  cases step_iff.mp taken with
  | first _ unknown => exact absurd unknown known
  | hp type ident =>
    refine idle ?_
    rcases type with type | type <;> simp [Message.about, type, ident]
  | faint type ident => exact idle (by simp [Message.about, type, ident])
  | switch type ident =>
    refine idle ?_
    rcases type with type | type <;> simp [Message.about, type, ident]
  | blank | later | turn | other => rfl

theorem influence_hp {text : String} (type : msg.type = "-damage" ∨ msg.type = "-heal") (ident : msg.args[0]? = some text) :
    msg.influence = some (.hp text (msg.reading 1)) := by
  rcases type with type | type <;> simp [Message.influence, type, ident]

theorem influence_switch {text : String} (type : msg.type = "switch" ∨ msg.type = "drag")
    (ident : msg.args[0]? = some text) : msg.influence = some (.enter text (msg.reading 2)) := by
  rcases type with type | type <;> simp [Message.influence, type, ident]

/-- A message about a Pokemon that is applied does what it says. -/
theorem step_influence {effect : Effect} (effects : msg.influence = some effect)
    (taken : step parse state msg = some after) : after = state.perform effect := by
  have silent (none : msg.influence = none) : after = state.perform effect := by cases none.symm.trans effects
  cases step_iff.mp taken with
  | @hp text reading type ident read =>
    cases (influence_hp type ident).symm.trans effects
    by_cases knows : state.Knows (parseIdent text)
    · obtain ⟨condition, argument, readable⟩ := read knows
      rw [Message.reading_ok argument readable]
    · have unknown (reading : Reading) : state.perform (.hp text reading) = state :=
        @perform_unknown state (.hp text reading) knows (by simp)
      rw [unknown, unknown]
  | @faint text type ident =>
    cases (show msg.influence = some (.faint text) by simp [Message.influence, type, ident]).symm.trans effects
    rfl
  | @switch text condition reading type ident argument readable =>
    cases (influence_switch type ident).symm.trans effects
    rw [Message.reading_ok argument readable]
  | blank type => exact silent (by simp [Message.influence, type])
  | first request | later request => exact silent (by simp [Message.influence, request.1])
  | turn type => exact silent (by simp [Message.influence, type])
  | other type =>
    simp only [List.mem_cons, List.not_mem_nil, or_false, not_or] at type
    exact silent (by simp [Message.influence, type])

end Step

/-- The log from the message on that fixes our side. -/
def opened (parse : String → Option Json) (log : List Message) : List Message :=
  Log.since (fun msg => (fixing parse msg).isSome) log

/-- Until a message fixes our side, it is not known. -/
theorem exec_unfixed {log : List Message} (none : ∀ msg ∈ log, fixing parse msg = none) {state : BattleState}
    (reached : Runs.exec (step parse) {} log = some state) : state.yourSide = "" := by
  refine Runs.always (fun done state => done <+: log → state.yourSide = "") (fun _ => rfl) ?_ reached
    (List.prefix_refl _)
  intro done msg before after prior taken inside
  exact step_unfixed (none msg (inside.subset (by simp))) (prior ((List.prefix_append ..).trans inside)) taken

theorem exec_unopened {log : List Message} (unopened : opened parse log = []) {state : BattleState}
    (reached : Runs.exec (step parse) {} log = some state) : state.yourSide = "" :=
  exec_unfixed (fun msg member => by simpa using Log.since_nil.mp unopened msg member) reached

/-- A run passes through the message that fixes our side, with nothing known before. -/
theorem exec_opened {log rest : List Message} {request : Message} (begins : opened parse log = request :: rest)
    {state : BattleState} (reached : Runs.exec (step parse) {} log = some state) :
    ∃ side before blank middle, fixing parse request = some side ∧ log = before ++ request :: rest ∧
      Runs.exec (step parse) {} before = some blank ∧ blank.yourSide = "" ∧
      step parse blank request = some middle ∧ Runs.exec (step parse) middle rest = some state := by
  obtain ⟨before, rfl, none, fixes⟩ := Log.since_split begins
  rw [Runs.exec_append] at reached
  obtain ⟨blank, first, later⟩ := Option.bind_eq_some_iff.mp reached
  rw [Runs.exec_cons] at later
  obtain ⟨middle, fixed, last⟩ := Option.bind_eq_some_iff.mp later
  obtain ⟨side, fixes⟩ := Option.isSome_iff_exists.mp fixes
  exact ⟨side, before, blank, middle, fixes, rfl, first,
    exec_unfixed (fun msg member => by simpa using none msg member) first, fixed, last⟩

/-- Our side stays fixed, and the names of both teams grow by those that join. -/
theorem exec_names {start state : BattleState} {log : List Message} (known : start.yourSide ≠ "")
    (reached : Runs.exec (step parse) start log = some state) :
    state.yourSide = start.yourSide ∧ ∀ which, names (state.team which) =
      Keyed.grown (names (start.team which)) (log.filterMap (Message.joining start.yourSide which)) := by
  refine Runs.always (fun done state => state.yourSide = start.yourSide ∧ ∀ which, names (state.team which) =
    Keyed.grown (names (start.team which)) (done.filterMap (Message.joining start.yourSide which))) ?_ ?_ reached
  · exact ⟨rfl, fun which => by simp⟩
  · intro done msg before after prior taken
    have known : before.yourSide ≠ "" := prior.1 ▸ known
    refine ⟨(step_known known taken).trans prior.1, fun which => ?_⟩
    rw [step_names known taken, prior.1, prior.2, Keyed.grown_grown, Log.filterMap_concat]

theorem exec_known {log : List Message} {state : BattleState} (reached : Runs.exec (step parse) {} log = some state) :
    state.yourSide = "" ↔ opened parse log = [] := by
  refine ⟨fun unknown => ?_, fun unopened => exec_unopened unopened reached⟩
  cases begins : opened parse log with
  | nil => rfl
  | cons request rest =>
    obtain ⟨side, _, blank, middle, fixes, _, _, blankUnknown, fixed, later⟩ := exec_opened begins reached
    obtain ⟨_, read, _, _, _, rfl, rfl⟩ := step_fixing fixes blankUnknown fixed
    have nonempty := (fixing_some.mp fixes).1
    exact absurd ((exec_names nonempty later).1.symm.trans unknown) nonempty

end BattleState
end ShowdownCli
