import ShowdownCli.Library.Keyed
import ShowdownCli.Library.Results
import ShowdownCli.BattleState

/-! What one applied message can do to a battle. Each handler is reduced to an
update of the team its identifier selects, so that no later proof follows the
handlers' single assignments again. -/

namespace ShowdownCli.BattleState
open Library

theorem throw_ok {α : Type} {fault : Fault} {state after : BattleState} {value : α} :
    (throw fault : Handler α).run state = .ok value after ↔ False := by
  refine iff_of_false ?_ id
  intro same
  cases same

@[simp] theorem attempt_ok {α : Type} {result : Except Fault α} {state after : BattleState} {value : α} :
    (attempt result).run state = .ok value after ↔ result = .ok value ∧ after = state := by
  cases result with
  | ok first =>
    simp only [attempt, EStateM.run_pure, EStateM.Result.ok.injEq, Except.ok.injEq]
    exact and_congr_right fun _ => eq_comm
  | error fault => simp [attempt, throw_ok]

end ShowdownCli.BattleState

namespace ShowdownCli
open Library

/-- The two numbers of a condition, if it has any. -/
abbrev Reading := Option (Int × Int)

namespace Pokemon

def read (reading : Reading) (p : Pokemon) : Pokemon :=
  match reading with
  | none => p
  | some (current, max) => { p with hpCurrent := some current, hpMax := some max }

def deactivate (p : Pokemon) : Pokemon := { p with active := false }

def enter (p : Pokemon) : Pokemon := { p with active := true, fainted := false }

def faint (p : Pokemon) : Pokemon := { p with fainted := true, active := false, hpCurrent := some 0 }

/-- A Pokemon of which only the identifier is known. -/
def sighted (text : String) : Pokemon :=
  { name := (parseIdent text).name, ident := text, active := false, fainted := false }

@[simp] theorem read_name (reading : Reading) (p : Pokemon) : (p.read reading).name = p.name := by
  unfold read; split <;> rfl

@[simp] theorem read_ident (reading : Reading) (p : Pokemon) : (p.read reading).ident = p.ident := by
  unfold read; split <;> rfl

@[simp] theorem read_active (reading : Reading) (p : Pokemon) : (p.read reading).active = p.active := by
  unfold read; split <;> rfl

@[simp] theorem read_fainted (reading : Reading) (p : Pokemon) : (p.read reading).fainted = p.fainted := by
  unfold read; split <;> rfl

@[simp] theorem deactivate_name (p : Pokemon) : p.deactivate.name = p.name := rfl
@[simp] theorem enter_name (p : Pokemon) : p.enter.name = p.name := rfl
@[simp] theorem faint_name (p : Pokemon) : p.faint.name = p.name := rfl
@[simp] theorem sighted_name (text : String) : (sighted text).name = (parseIdent text).name := rfl

end Pokemon

/-- What a message does to the team its identifier selects. -/
inductive Effect where
  | hp (text : String) (reading : Reading)
  | faint (text : String)
  | enter (text : String) (reading : Reading)

namespace Effect

def text : Effect → String
  | .hp text _ | .faint text | .enter text _ => text

def ident (effect : Effect) : Ident := parseIdent effect.text

@[simp] theorem ident_hp (text : String) (reading : Reading) : (Effect.hp text reading).ident = parseIdent text := rfl
@[simp] theorem ident_faint (text : String) : (Effect.faint text).ident = parseIdent text := rfl
@[simp] theorem ident_enter (text : String) (reading : Reading) :
    (Effect.enter text reading).ident = parseIdent text := rfl

def on : Effect → List Pokemon → List Pokemon
  | .hp text reading, team => Keyed.touch Pokemon.name (parseIdent text).name (Pokemon.read reading) team
  | .faint text, team => Keyed.touch Pokemon.name (parseIdent text).name Pokemon.faint team
  | .enter text reading, team =>
    Keyed.touch Pokemon.name (parseIdent text).name (fun p => p.enter.read reading)
      (Keyed.enroll Pokemon.name (parseIdent text).name (.sighted text) (team.map Pokemon.deactivate))

end Effect

namespace BattleState

/-- The team with the name the identifier has. -/
def Knows (state : BattleState) (ident : Ident) : Prop :=
  ident.name ∈ (state.team (state.ours ident)).map Pokemon.name

/-- The Pokemon an identifier is resolved to. -/
def found (state : BattleState) (ident : Ident) : Option Pokemon :=
  Keyed.lookup Pokemon.name ident.name (state.team (state.ours ident))

theorem knows_found {state : BattleState} {ident : Ident} : state.Knows ident ↔ ∃ p, state.found ident = some p := by
  rw [Knows, ← Keyed.lookup_isSome, Option.isSome_iff_exists, found]

def perform (state : BattleState) (effect : Effect) : BattleState :=
  state.editTeam (state.ours effect.ident) effect.on

structure Side where
  name : String
  id : String
  pokemon : List Pokemon

/-- Everything the first request is read for. -/
def readSide (j : Json) : Except Fault Side := do
  let name ← (← (← j.constMember "side").constMember "name").getString
  let id ← (← (← j.constMember "side").constMember "id").getString
  let pokemon ← (← j.constMember "side").constMember "pokemon"
  return { name := name, id := id, pokemon := ← pokemon.elements.mapM readPokemon }

/-- What every request is read for. -/
def readMoves (j : Json) : Except Fault (List MoveOption) :=
  if j.contains "active" then do
    let moves ← (← (← j.constMember "active").index 0).constMember "moves"
    moves.elements.mapM readMove
  else .ok []

def takeSide (state : BattleState) (side : Side) : BattleState :=
  { state with
    yourTeam := side.pokemon
    yourName := side.name
    yourSide := side.id
    opponentTeam := state.opponentTeam.filter fun p => (parseIdent p.ident).side ≠ side.id }

def takeMoves (state : BattleState) (j : Json) (moves : List MoveOption) : BattleState :=
  { state with availableMoves := moves, forceSwitch := some (j.contains "forceSwitch") }

/-- The payload of a request, when there is one. -/
def Requests (parse : String → Option Json) (msg : Message) (j : Json) : Prop :=
  msg.type = "request" ∧ ∃ payload, msg.args[0]? = some payload ∧ payload ≠ "" ∧ parse payload = some j

/-- Everything that applying a message without failure can do. -/
inductive Change (parse : String → Option Json) (state : BattleState) (msg : Message) : BattleState → Prop where
  | blank (type : msg.type = "request") (payload : msg.args[0]? = some "") : Change parse state msg state
  | first {j : Json} {side : Side} {moves : List MoveOption} (request : Requests parse msg j)
      (unknown : state.yourSide = "") (read : readSide j = .ok side) (options : readMoves j = .ok moves) :
      Change parse state msg ((state.takeSide side).takeMoves j moves)
  | later {j : Json} {moves : List MoveOption} (request : Requests parse msg j)
      (known : state.yourSide ≠ "") (options : readMoves j = .ok moves) :
      Change parse state msg (state.takeMoves j moves)
  | hp {text : String} {reading : Reading} (type : msg.type = "-damage" ∨ msg.type = "-heal")
      (ident : msg.args[0]? = some text)
      (read : state.Knows (parseIdent text) →
        ∃ condition, msg.args[1]? = some condition ∧ readCondition condition = .ok reading) :
      Change parse state msg (state.perform (.hp text reading))
  | faint {text : String} (type : msg.type = "faint") (ident : msg.args[0]? = some text) :
      Change parse state msg (state.perform (.faint text))
  | switch {text condition : String} {reading : Reading} (type : msg.type = "switch" ∨ msg.type = "drag")
      (ident : msg.args[0]? = some text) (argument : msg.args[2]? = some condition)
      (read : readCondition condition = .ok reading) :
      Change parse state msg (state.perform (.enter text reading))
  | turn {text : String} {turn : Int} (type : msg.type = "turn") (argument : msg.args[0]? = some text)
      (read : stoi text.toList = .ok turn) : Change parse state msg { state with turn := some turn }
  | other (type : msg.type ∉ ["request", "-damage", "-heal", "faint", "switch", "drag", "turn"]) :
      Change parse state msg state

section Teams
variable (state : BattleState) (which : Bool) (edit : List Pokemon → List Pokemon)

@[simp] theorem editTeam_yourSide : (state.editTeam which edit).yourSide = state.yourSide := by
  unfold editTeam; split <;> rfl

@[simp] theorem editTeam_ours (ident : Ident) : (state.editTeam which edit).ours ident = state.ours ident := by
  simp [ours]

@[simp] theorem editTeam_team : (state.editTeam which edit).team which = edit (state.team which) := by
  cases which <;> rfl

theorem editTeam_other {other : Bool} (apart : other ≠ which) :
    (state.editTeam which edit).team other = state.team other := by
  cases which <;> cases other <;> first | rfl | exact absurd rfl apart

theorem editTeam_editTeam (next : List Pokemon → List Pokemon) :
    (state.editTeam which edit).editTeam which next = state.editTeam which (next ∘ edit) := by
  cases which <;> rfl

theorem editTeam_same (same : edit (state.team which) = state.team which) : state.editTeam which edit = state := by
  cases which
  · exact congrArg (fun team => { state with opponentTeam := team }) same
  · exact congrArg (fun team => { state with yourTeam := team }) same

theorem editTeam_congr {other : List Pokemon → List Pokemon}
    (same : edit (state.team which) = other (state.team which)) :
    state.editTeam which edit = state.editTeam which other := by
  cases which
  · exact congrArg (fun team => { state with opponentTeam := team }) same
  · exact congrArg (fun team => { state with yourTeam := team }) same

end Teams

theorem findPokemon_none {state : BattleState} {ident : Ident} :
    state.findPokemon ident = none ↔ ¬ state.Knows ident := by
  simp [findPokemon, Knows, List.findIdx?_eq_none_iff]

theorem findPokemon_modify {state : BattleState} {ident : Ident} {pkm : Nat}
    (found : state.findPokemon ident = some pkm) (edit : Pokemon → Pokemon) :
    state.editPokemon (state.ours ident) pkm edit =
      state.editTeam (state.ours ident) (Keyed.touch Pokemon.name ident.name edit) :=
  editTeam_congr _ _ _ (Keyed.modify_found found)

/-- Both numbers are assigned exactly when the condition can be read. -/
theorem updateHp_ok {which : Bool} {pkm : Nat} {condition : String} {state after : BattleState} :
    (updateHp which pkm condition).run state = .ok () after ↔
      ∃ reading, readCondition condition = .ok reading ∧
        after = state.editPokemon which pkm (Pokemon.read reading) := by
  unfold updateHp readCondition
  cases slash : condition.toList.idxOf? '/' with
  | none =>
    have unread : state.editPokemon which pkm (Pokemon.read none) = state := by
      apply editTeam_same
      exact List.modify_id _ _
    simp [slash, unread, eq_comm]
  | some slash =>
    simp only [slash, bind_ok, attempt_ok, EStateM.run_modify, except_bind_ok]
    constructor
    · intro given
      obtain ⟨current, _, ⟨readCurrent, rfl⟩, _, _, assigned, max, _, ⟨readMax, rfl⟩, last⟩ := given
      cases assigned
      cases last
      refine ⟨some (current, max), ⟨current, readCurrent, max, readMax, rfl⟩, ?_⟩
      simp only [editPokemon, editTeam_editTeam]
      apply editTeam_congr
      simp only [Function.comp_apply, List.modify_modify_eq]
      rfl
    · intro given
      obtain ⟨reading, ⟨current, readCurrent, max, readMax, whole⟩, rfl⟩ := given
      cases whole
      refine ⟨current, state, ⟨readCurrent, rfl⟩, _, _, rfl, max, _, ⟨readMax, rfl⟩, ?_⟩
      simp only [editPokemon, editTeam_editTeam]
      congr 1
      apply editTeam_congr
      simp only [Function.comp_apply, List.modify_modify_eq]
      rfl

theorem findPokemon_knows {state : BattleState} {ident : Ident} {pkm : Nat}
    (found : state.findPokemon ident = some pkm) : state.Knows ident := by
  by_contra unknown
  rw [findPokemon_none.mpr unknown] at found
  cases found

theorem perform_unknown {state : BattleState} {effect : Effect} (unknown : ¬ state.Knows effect.ident)
    (silent : ∀ text reading, effect ≠ .enter text reading) : state.perform effect = state := by
  apply editTeam_same
  cases effect with
  | hp text reading => exact Keyed.touch_absent unknown
  | faint text => exact Keyed.touch_absent unknown
  | enter text reading => exact absurd rfl (silent text reading)

theorem applyHp_ok {msg : Message} {state after : BattleState} :
    (applyHp msg).run state = .ok () after ↔
      ∃ text, msg.args[0]? = some text ∧ ∃ reading,
        (state.Knows (parseIdent text) →
          ∃ condition, msg.args[1]? = some condition ∧ readCondition condition = .ok reading) ∧
        after = state.perform (.hp text reading) := by
  simp only [applyHp, bind_ok, attempt_ok, Message.arg_ok, EStateM.run_get, EStateM.Result.ok.injEq, and_assoc,
    exists_and_left, exists_eq_left, exists_eq_left']
  refine exists_congr fun text => and_congr_right fun _ => ?_
  cases found : state.findPokemon (parseIdent text) with
  | none =>
    have unknown := findPokemon_none.mp found
    have idle (reading : Reading) : state.perform (.hp text reading) = state := perform_unknown unknown (by simp)
    simp only [EStateM.run_pure, EStateM.Result.ok.injEq, true_and, idle]
    constructor
    · exact fun same => ⟨none, fun knows => absurd knows unknown, same.symm⟩
    · intro given
      obtain ⟨_, _, same⟩ := given
      exact same.symm
  | some pkm =>
    have knows := findPokemon_knows found
    simp only [bind_ok, attempt_ok, Message.arg_ok, updateHp_ok]
    constructor
    · intro given
      obtain ⟨condition, _, ⟨argument, rfl⟩, reading, read, same⟩ := given
      rw [findPokemon_modify found] at same
      exact ⟨reading, fun _ => ⟨condition, argument, read⟩, same⟩
    · intro given
      obtain ⟨reading, read, same⟩ := given
      obtain ⟨condition, argument, readable⟩ := read knows
      exact ⟨condition, state, ⟨argument, rfl⟩, reading, readable, by rw [findPokemon_modify found]; exact same⟩

theorem applyFaint_ok {msg : Message} {state after : BattleState} :
    (applyFaint msg).run state = .ok () after ↔
      ∃ text, msg.args[0]? = some text ∧ after = state.perform (.faint text) := by
  simp only [applyFaint, bind_ok, attempt_ok, Message.arg_ok, EStateM.run_get, EStateM.Result.ok.injEq, and_assoc,
    exists_and_left, exists_eq_left, exists_eq_left']
  refine exists_congr fun text => and_congr_right fun _ => ?_
  cases found : state.findPokemon (parseIdent text) with
  | none =>
    have idle : state.perform (.faint text) = state := perform_unknown (findPokemon_none.mp found) (by simp)
    simp only [EStateM.run_pure, EStateM.Result.ok.injEq, true_and, idle, eq_comm]
  | some pkm =>
    simp only [EStateM.run_modify, EStateM.Result.ok.injEq, true_and, findPokemon_modify found]
    exact eq_comm

theorem findIdx?_concat {α : Type} {p : α → Bool} {items : List α} {item : α} (absent : items.findIdx? p = none)
    (found : p item = true) : (items ++ [item]).findIdx? p = some items.length := by
  rw [List.findIdx?_append, absent]
  simp [found]

theorem editPokemon_editPokemon (state : BattleState) (which : Bool) (pkm : Nat) (first next : Pokemon → Pokemon) :
    (state.editPokemon which pkm first).editPokemon which pkm next = state.editPokemon which pkm (next ∘ first) := by
  simp only [editPokemon, editTeam_editTeam]
  apply editTeam_congr
  simp only [Function.comp_apply, List.modify_modify_eq]

/-- The state in which a switch has found or created its Pokemon. -/
def enrolled (state : BattleState) (text : String) : BattleState :=
  state.editTeam (state.ours (parseIdent text)) fun team =>
    Keyed.enroll Pokemon.name (parseIdent text).name (.sighted text) (team.map Pokemon.deactivate)

theorem enrolled_known {state : BattleState} {text : String}
    (known : state.Knows (parseIdent text)) :
    state.editTeam (state.ours (parseIdent text)) (List.map Pokemon.deactivate) = enrolled state text := by
  apply editTeam_congr
  unfold Keyed.enroll
  rw [if_pos]
  simpa [Knows, Function.comp_def] using known

theorem enrolled_unknown {state : BattleState} {text : String}
    (unknown : ¬ state.Knows (parseIdent text)) :
    (state.editTeam (state.ours (parseIdent text)) (List.map Pokemon.deactivate)).editTeam
        (state.ours (parseIdent text)) (fun team => team ++ [.sighted text]) = enrolled state text := by
  rw [editTeam_editTeam]
  apply editTeam_congr
  unfold Keyed.enroll
  rw [if_neg]
  · rfl
  · simpa [Knows, Function.comp_def] using unknown

theorem enrolled_last {state : BattleState} {text : String}
    (unknown : ¬ state.Knows (parseIdent text)) :
    (enrolled state text).findPokemon (parseIdent text) =
      some (((enrolled state text).team (state.ours (parseIdent text))).length - 1) := by
  have absent : (parseIdent text).name ∉
      ((state.team (state.ours (parseIdent text))).map Pokemon.deactivate).map Pokemon.name := by
    simpa [Knows, Function.comp_def] using unknown
  have grown : (enrolled state text).team (state.ours (parseIdent text)) =
      (state.team (state.ours (parseIdent text))).map Pokemon.deactivate ++ [.sighted text] := by
    rw [enrolled, editTeam_team, Keyed.enroll, if_neg absent]
  have same : (enrolled state text).ours (parseIdent text) = state.ours (parseIdent text) := editTeam_ours ..
  rw [findPokemon, same, grown, List.length_append, List.length_singleton, Nat.add_sub_cancel]
  apply findIdx?_concat
  · rw [List.findIdx?_eq_none_iff]
    intro p member
    have : p.name ≠ (parseIdent text).name := fun named => absent (named ▸ List.mem_map_of_mem member)
    simpa using this
  · simp

private theorem modify_run {α : Type} (change : BattleState → BattleState) (next : Handler α) (state : BattleState) :
    (modify change >>= fun _ => next).run state = next.run (change state) := rfl

private theorem get_run {α : Type} (next : BattleState → Handler α) (state : BattleState) :
    (get >>= next).run state = (next state).run state := rfl

/-- The end of `applySwitch`, once the pointer is known. -/
def finishSwitch (msg : Message) (which : Bool) (pkm : Nat) : Handler Unit := do
  modify (editPokemon which pkm fun p => { p with active := true, fainted := false })
  let condition ← attempt (msg.arg 2)
  updateHp which pkm condition

/-- Until then nothing but the first argument can be missing. -/
theorem applySwitch_run {msg : Message} {text : String} (ident : msg.args[0]? = some text) (state : BattleState) :
    ∃ pkm, (enrolled state text).findPokemon (parseIdent text) = some pkm ∧
      (applySwitch msg).run state = (finishSwitch msg (state.ours (parseIdent text)) pkm).run (enrolled state text) := by
  have argument : msg.arg 0 = .ok text := Message.arg_ok.mpr ident
  have cleared : (editTeam (state.ours (parseIdent text))
      (fun team => team.map fun p => { p with active := false }) state) =
      state.editTeam (state.ours (parseIdent text)) (List.map Pokemon.deactivate) := rfl
  have remembers : (state.editTeam (state.ours (parseIdent text)) (List.map Pokemon.deactivate)).Knows (parseIdent text) ↔
      state.Knows (parseIdent text) := by
    simp [Knows, Function.comp_def]
  rw [applySwitch, argument, attempt, pure_bind, get_run, modify_run, get_run, cleared]
  cases found : (state.editTeam (state.ours (parseIdent text)) (List.map Pokemon.deactivate)).findPokemon
      (parseIdent text) with
  | some pkm =>
    have known := remembers.mp (findPokemon_knows found)
    rw [enrolled_known known] at found ⊢
    exact ⟨pkm, found, rfl⟩
  | none =>
    have unknown := remembers.not.mp (findPokemon_none.mp found)
    have created := enrolled_unknown unknown
    simp only [Pokemon.sighted] at created
    rw [modify_run, created, get_run, pure_bind]
    exact ⟨_, enrolled_last unknown, rfl⟩

theorem enrolled_edit {state : BattleState} {text : String} {pkm : Nat}
    (found : (enrolled state text).findPokemon (parseIdent text) = some pkm) (edit : Pokemon → Pokemon) :
    (enrolled state text).editPokemon (state.ours (parseIdent text)) pkm edit =
      state.editTeam (state.ours (parseIdent text)) fun team =>
        Keyed.touch Pokemon.name (parseIdent text).name edit
          (Keyed.enroll Pokemon.name (parseIdent text).name (.sighted text) (team.map Pokemon.deactivate)) := by
  have same : (enrolled state text).ours (parseIdent text) = state.ours (parseIdent text) := editTeam_ours ..
  rw [← same, findPokemon_modify found, same, enrolled, editTeam_editTeam]
  rfl

theorem applySwitch_ok {msg : Message} {state after : BattleState} :
    (applySwitch msg).run state = .ok () after ↔
      ∃ text, msg.args[0]? = some text ∧ ∃ condition, msg.args[2]? = some condition ∧
        ∃ reading, readCondition condition = .ok reading ∧ after = state.perform (.enter text reading) := by
  cases ident : msg.args[0]? with
  | none =>
    rw [applySwitch, bind_ok]
    simp only [attempt_ok, Message.arg_ok, ident]
    simp
  | some text =>
    obtain ⟨pkm, found, run⟩ := applySwitch_run ident state
    rw [run]
    simp only [finishSwitch, bind_ok, attempt_ok, Message.arg_ok, EStateM.run_modify, updateHp_ok, EStateM.Result.ok.injEq,
      Option.some.injEq, and_assoc, exists_and_left, exists_eq_left, exists_eq_left', true_and, exists_const]
    refine exists_congr fun condition => and_congr_right fun _ => exists_congr fun reading => and_congr_right fun _ => ?_
    rw [editPokemon_editPokemon, enrolled_edit found]
    rfl

theorem addTeam_ok {pokemon : List Json} {state after : BattleState} :
    (addTeam pokemon).run state = .ok () after ↔
      ∃ team, pokemon.mapM readPokemon = .ok team ∧ after = { state with yourTeam := state.yourTeam ++ team } := by
  induction pokemon generalizing state with
  | nil => simp [addTeam, pure, Except.pure, EStateM.pure, EStateM.run, eq_comm]
  | cons p rest ih =>
    simp only [addTeam, bind_ok, attempt_ok, EStateM.run_modify, EStateM.Result.ok.injEq, and_assoc,
      exists_and_left, exists_eq_left, exists_eq_left', true_and, exists_const, ih, List.mapM_cons, except_bind_ok]
    constructor
    · intro given
      obtain ⟨pkm, read, team, reads, rfl⟩ := given
      exact ⟨pkm :: team, ⟨pkm, read, team, reads, rfl⟩, by simp⟩
    · intro given
      obtain ⟨whole, ⟨pkm, read, team, reads, built⟩, rfl⟩ := given
      cases built
      exact ⟨pkm, read, team, reads, by simp⟩

theorem addMoves_ok {moves : List Json} {state after : BattleState} :
    (addMoves moves).run state = .ok () after ↔
      ∃ options, moves.mapM readMove = .ok options ∧
        after = { state with availableMoves := state.availableMoves ++ options } := by
  induction moves generalizing state with
  | nil => simp [addMoves, pure, Except.pure, EStateM.pure, EStateM.run, eq_comm]
  | cons m rest ih =>
    simp only [addMoves, bind_ok, attempt_ok, EStateM.run_modify, EStateM.Result.ok.injEq, and_assoc,
      exists_and_left, exists_eq_left, exists_eq_left', true_and, exists_const, ih, List.mapM_cons, except_bind_ok]
    constructor
    · intro given
      obtain ⟨opt, read, options, reads, rfl⟩ := given
      exact ⟨opt :: options, ⟨opt, read, options, reads, rfl⟩, by simp⟩
    · intro given
      obtain ⟨whole, ⟨opt, read, options, reads, built⟩, rfl⟩ := given
      cases built
      exact ⟨opt, read, options, reads, by simp⟩

theorem applySide_ok {j : Json} {state after : BattleState} :
    (applySide j).run state = .ok () after ↔ ∃ side, readSide j = .ok side ∧ after = state.takeSide side := by
  simp only [applySide, bind_ok, attempt_ok, addTeam_ok, readSide, except_bind_ok, EStateM.run_modify,
    EStateM.Result.ok.injEq, and_assoc, exists_and_left, exists_eq_left, exists_eq_left', true_and, exists_const]
  constructor
  · intro given
    obtain ⟨name, ⟨side, found, value, member, text⟩, id, ⟨_, found', value', member', text'⟩, pokemon,
      ⟨_, found'', list⟩, team, reads, rfl⟩ := given
    exact ⟨_, ⟨side, found, value, member, name, text, _, found', value', member', id, text', _, found'', pokemon, list,
      team, reads, rfl⟩, rfl⟩
  · intro given
    obtain ⟨whole, ⟨side, found, value, member, name, text, _, found', value', member', id, text', _, found'', pokemon,
      list, team, reads, built⟩, rfl⟩ := given
    cases built
    exact ⟨name, ⟨side, found, value, member, text⟩, id, ⟨_, found', value', member', text'⟩, pokemon,
      ⟨_, found'', list⟩, team, reads, rfl⟩

/-- The part of `applyRequest` after our side is known. -/
def finishRequest (j : Json) : Handler Unit := do
  modify fun state => { state with availableMoves := [] }
  modify fun state => { state with forceSwitch := some (j.contains "forceSwitch") }
  if j.contains "active" then
    let moves ← attempt (do (← (← j.constMember "active").index 0).constMember "moves")
    addMoves moves.elements

theorem finishRequest_ok {j : Json} {state after : BattleState} :
    (finishRequest j).run state = .ok () after ↔ ∃ moves, readMoves j = .ok moves ∧ after = state.takeMoves j moves := by
  rw [finishRequest, modify_run, modify_run, readMoves]
  split
  · simp only [bind_ok, attempt_ok, addMoves_ok, except_bind_ok, and_assoc, exists_and_left, exists_eq_left]
    constructor
    · intro given
      obtain ⟨moves, ⟨active, found, first, element, member⟩, options, reads, rfl⟩ := given
      exact ⟨options, ⟨active, found, first, element, moves, member, reads⟩, rfl⟩
    · intro given
      obtain ⟨options, ⟨active, found, first, element, moves, member, reads⟩, rfl⟩ := given
      exact ⟨moves, ⟨active, found, first, element, member⟩, options, reads, rfl⟩
  · simp [takeMoves, eq_comm]

/-- What a request does once its payload is parsed. -/
theorem applyRequest_run {parse : String → Option Json} {msg : Message} {payload : String} {j : Json}
    (argument : msg.args[0]? = some payload) (filled : payload ≠ "") (parsed : parse payload = some j)
    (state : BattleState) :
    (applyRequest parse msg).run state =
      (if state.yourSide = "" then applySide j >>= fun _ => finishRequest j else finishRequest j).run state := by
  rw [applyRequest, Message.arg_ok.mpr argument, attempt, pure_bind, if_neg filled, parsed]
  rfl

theorem applyRequest_ok {parse : String → Option Json} {msg : Message} {state after : BattleState} :
    (applyRequest parse msg).run state = .ok () after ↔
      ∃ payload, msg.args[0]? = some payload ∧ (payload = "" ∧ after = state ∨
        payload ≠ "" ∧ ∃ j, parse payload = some j ∧ ∃ moves, readMoves j = .ok moves ∧
          (state.yourSide = "" ∧ (∃ side, readSide j = .ok side ∧ after = (state.takeSide side).takeMoves j moves) ∨
            state.yourSide ≠ "" ∧ after = state.takeMoves j moves)) := by
  cases argument : msg.args[0]? with
  | none =>
    rw [applyRequest, bind_ok]
    simp only [attempt_ok, Message.arg_ok, argument]
    simp
  | some payload =>
    simp only [Option.some.injEq, exists_eq_left']
    by_cases blank : payload = ""
    · rw [applyRequest, Message.arg_ok.mpr argument, attempt, pure_bind, if_pos blank]
      simp only [EStateM.run_pure, EStateM.Result.ok.injEq, blank, true_and, ne_eq, not_true_eq_false, false_and, or_false]
      exact eq_comm
    simp only [blank, false_and, false_or, ne_eq, not_false_eq_true, true_and]
    cases parsed : parse payload with
    | none =>
      rw [applyRequest, Message.arg_ok.mpr argument, attempt, pure_bind, if_neg blank, parsed]
      simp
    | some j =>
      rw [applyRequest_run argument blank parsed]
      simp only [Option.some.injEq, exists_eq_left']
      by_cases unknown : state.yourSide = ""
      · simp only [unknown, if_true, true_and, not_true_eq_false, false_and, or_false]
        rw [bind_ok]
        constructor
        · intro given
          obtain ⟨⟨⟩, middle, first, rest⟩ := given
          obtain ⟨side, read, rfl⟩ := applySide_ok.mp first
          obtain ⟨moves, options, rfl⟩ := finishRequest_ok.mp rest
          exact ⟨moves, options, side, read, rfl⟩
        · intro given
          obtain ⟨moves, options, side, read, rfl⟩ := given
          exact ⟨(), _, applySide_ok.mpr ⟨side, read, rfl⟩, finishRequest_ok.mpr ⟨moves, options, rfl⟩⟩
      · simp only [unknown, if_false, false_and, not_false_eq_true, true_and, false_or]
        exact finishRequest_ok

theorem applyTurn_ok {msg : Message} {state after : BattleState} :
    (applyTurn msg).run state = .ok () after ↔
      ∃ text, msg.args[0]? = some text ∧ ∃ number, stoi text.toList = .ok number ∧
        after = { state with turn := some number } := by
  simp only [applyTurn, bind_ok, attempt_ok, except_bind_ok, Message.arg_ok, and_assoc, exists_and_left, exists_eq_left,
    EStateM.run_modify, EStateM.Result.ok.injEq, true_and]
  constructor
  · rintro ⟨number, ⟨text, argument, read⟩, rfl⟩
    exact ⟨text, argument, number, read, rfl⟩
  · rintro ⟨text, argument, number, read, rfl⟩
    exact ⟨number, ⟨text, argument, read⟩, rfl⟩

section Types
variable {parse : String → Option Json} {msg : Message}

theorem apply_request (type : msg.type = "request") : apply parse msg = applyRequest parse msg := by
  rw [apply, if_pos type]

theorem apply_hp (type : msg.type = "-damage" ∨ msg.type = "-heal") : apply parse msg = applyHp msg := by
  rw [apply, if_neg (by rcases type with type | type <;> simp [type]), if_pos type]

theorem apply_faint (type : msg.type = "faint") : apply parse msg = applyFaint msg := by
  rw [apply, if_neg (by simp [type]), if_neg (by simp [type]), if_pos type]

theorem apply_switch (type : msg.type = "switch" ∨ msg.type = "drag") : apply parse msg = applySwitch msg := by
  rw [apply, if_neg (by rcases type with type | type <;> simp [type]),
    if_neg (by rcases type with type | type <;> simp [type]),
    if_neg (by rcases type with type | type <;> simp [type]), if_pos type]

theorem apply_turn (type : msg.type = "turn") : apply parse msg = applyTurn msg := by
  rw [apply, if_neg (by simp [type]), if_neg (by simp [type]), if_neg (by simp [type]), if_neg (by simp [type]),
    if_pos type]

theorem apply_other (type : msg.type ∉ ["request", "-damage", "-heal", "faint", "switch", "drag", "turn"]) :
    apply parse msg = pure () := by
  simp only [List.mem_cons, List.not_mem_nil, or_false, not_or] at type
  simp [apply, type]

end Types

theorem step_run {parse : String → Option Json} {msg : Message} {state after : BattleState} :
    step parse state msg = some after ↔ (apply parse msg).run state = .ok () after := by
  unfold step
  cases (apply parse msg).run state <;> simp

theorem step_request {parse : String → Option Json} {msg : Message} {j : Json} (request : Requests parse msg j)
    {state after : BattleState} :
    step parse state msg = some after ↔ ∃ moves, readMoves j = .ok moves ∧
      (state.yourSide = "" ∧ (∃ side, readSide j = .ok side ∧ after = (state.takeSide side).takeMoves j moves) ∨
        state.yourSide ≠ "" ∧ after = state.takeMoves j moves) := by
  obtain ⟨type, payload, argument, filled, parsed⟩ := request
  rw [step_run, apply, if_pos type, applyRequest_ok]
  simp [argument, filled, parsed]

/-- Applying a message without failure is one of the changes, and only that. -/
theorem step_iff {parse : String → Option Json} {msg : Message} {state after : BattleState} :
    step parse state msg = some after ↔ Change parse state msg after := by
  rw [step_run]
  constructor
  · intro applied
    unfold apply at applied
    split at applied
    next request =>
      obtain ⟨payload, argument, ⟨rfl, rfl⟩ | ⟨filled, j, parsed, moves, options, rest⟩⟩ := applyRequest_ok.mp applied
      · exact .blank request argument
      · have requests : Requests parse msg j := ⟨request, payload, argument, filled, parsed⟩
        obtain ⟨unknown, side, read, rfl⟩ | ⟨known, rfl⟩ := rest
        · exact .first requests unknown read options
        · exact .later requests known options
    next notRequest =>
    split at applied
    next hp =>
      obtain ⟨text, ident, reading, read, rfl⟩ := applyHp_ok.mp applied
      exact .hp hp ident read
    next notHp =>
    split at applied
    next faint =>
      obtain ⟨text, ident, rfl⟩ := applyFaint_ok.mp applied
      exact .faint faint ident
    next notFaint =>
    split at applied
    next switch =>
      obtain ⟨text, ident, condition, argument, reading, read, rfl⟩ := applySwitch_ok.mp applied
      exact .switch switch ident argument read
    next notSwitch =>
    split at applied
    next turn =>
      obtain ⟨text, argument, number, read, rfl⟩ := applyTurn_ok.mp applied
      exact .turn turn argument read
    next notTurn =>
      cases applied
      exact .other (by simp; tauto)
  · intro change
    cases change with
    | blank type payload =>
      rw [apply_request type]
      exact applyRequest_ok.mpr ⟨_, payload, Or.inl ⟨rfl, rfl⟩⟩
    | first request unknown read options =>
      obtain ⟨type, payload, argument, filled, parsed⟩ := request
      rw [apply_request type]
      exact applyRequest_ok.mpr ⟨_, argument, Or.inr ⟨filled, _, parsed, _, options, Or.inl ⟨unknown, _, read, rfl⟩⟩⟩
    | later request known options =>
      obtain ⟨type, payload, argument, filled, parsed⟩ := request
      rw [apply_request type]
      exact applyRequest_ok.mpr ⟨_, argument, Or.inr ⟨filled, _, parsed, _, options, Or.inr ⟨known, rfl⟩⟩⟩
    | hp type ident read =>
      rw [apply_hp type]
      exact applyHp_ok.mpr ⟨_, ident, _, read, rfl⟩
    | faint type ident =>
      rw [apply_faint type]
      exact applyFaint_ok.mpr ⟨_, ident, rfl⟩
    | switch type ident argument read =>
      rw [apply_switch type]
      exact applySwitch_ok.mpr ⟨_, ident, _, argument, _, read, rfl⟩
    | turn type argument read =>
      rw [apply_turn type]
      exact applyTurn_ok.mpr ⟨_, argument, _, read, rfl⟩
    | other type =>
      rw [apply_other type]
      rfl

/-- A side as a request lists it: its identifier, and of each Pokemon the identifier,
whether it is active and its condition. -/
structure Listing where
  id : String
  team : List (String × Bool × String)
deriving DecidableEq

/-- The listing with every member the client insists on. -/
def Listing.json (listing : Listing) : Json :=
  .object [("side", .object [("id", .string listing.id), ("name", .string "Ash"),
    ("pokemon", .array (listing.team.map fun (ident, active, condition) =>
      .object [("active", .bool active), ("condition", .string condition), ("ident", .string ident),
        ("moves", .array []), ("teraType", .string "Fire")]))])]

def Listing.text (listing : Listing) : String :=
  "\x7b\"side\":\x7b\"id\":\"" ++ listing.id ++ "\",\"name\":\"Ash\",\"pokemon\":[" ++
    ",".intercalate (listing.team.map fun (ident, active, condition) =>
      "\x7b\"active\":" ++ toString active ++ ",\"condition\":\"" ++ condition ++ "\",\"ident\":\"" ++ ident ++
        "\",\"moves\":[],\"teraType\":\"Fire\"\x7d") ++ "]\x7d\x7d"

def Listing.request (listing : Listing) : Message := { type := "request", args := [listing.text] }

/-- A parser that knows the texts of the given listings. -/
def Listing.parse (listings : List Listing) (text : String) : Option Json :=
  (listings.find? fun listing => listing.text = text).map Listing.json

theorem Listing.requests {listings : List Listing} {listing : Listing} (filled : listing.text ≠ "")
    (found : listings.find? (fun other => other.text = listing.text) = some listing) :
    Requests (Listing.parse listings) listing.request listing.json :=
  ⟨rfl, listing.text, rfl, filled, by rw [Listing.parse, found, Option.map_some]⟩

end BattleState
end ShowdownCli
