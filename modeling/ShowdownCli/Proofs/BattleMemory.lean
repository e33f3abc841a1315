import ShowdownCli.Proofs.BattleSides

/-! A battle as what its messages say. Once our side is known, the record of each Pokemon
follows from the messages by itself, whatever is known of the others, and so does each of
the other fields; the teams only arrange these records in the order of their arrival. -/

namespace ShowdownCli
open Library

/-- What an effect on its team makes of the record under a name. -/
def Effect.note (effect : Effect) (name : String) (old : Option Pokemon) : Option Pokemon :=
  if name = effect.subject then effect.record old else old.map effect.bystander

theorem Effect.lookup_on (effect : Effect) (name : String) (team : List Pokemon) :
    Keyed.lookup Pokemon.name name (effect.on team) = effect.note name (Keyed.lookup Pokemon.name name team) := by
  unfold note
  split
  next same =>
    subst same
    exact effect.lookup_subject team
  next other => exact effect.lookup_bystander other team

namespace Message

/-- What a message makes of the team of our side or of the other one. -/
def on (side : String) (which : Bool) (msg : Message) (team : List Pokemon) : List Pokemon :=
  match msg.influence with
  | some effect => if (effect.ident.side == side) = which then effect.on team else team
  | none => team

/-- What a message makes of the record of one Pokemon of our side or of the other one. -/
def note (side : String) (which : Bool) (name : String) (old : Option Pokemon) (msg : Message) : Option Pokemon :=
  match msg.influence with
  | some effect => if (effect.ident.side == side) = which then effect.note name old else old
  | none => old

/-- The number of the turn that a message announces. -/
def turnNumber (msg : Message) : Option Int :=
  if msg.type = "turn" then (msg.args[0]?).bind fun text => (stoi text.toList).toOption else none

/-- The choice that a request offers. -/
def choice (parse : String → Option Json) (msg : Message) : Option (List MoveOption × Bool) :=
  (msg.payload parse).bind fun j => (BattleState.readMoves j).toOption.map fun moves => (moves, j.contains "forceSwitch")

end Message

namespace BattleState
variable {parse : String → Option Json} {start state after : BattleState} {msg : Message} {log : List Message}

/-- A team as the messages of a log leave it. -/
def recalled (start : BattleState) (log : List Message) (which : Bool) : List Pokemon :=
  (Keyed.grown (names (start.team which)) (log.filterMap (Message.joining start.yourSide which))).filterMap fun name =>
    log.foldl (Message.note start.yourSide which name) (Keyed.lookup Pokemon.name name (start.team which))

/-- A battle as the messages of a log leave it, field by field. -/
def remembered (parse : String → Option Json) (start : BattleState) (log : List Message) : BattleState :=
  { start with
    turn := (Log.latest Message.turnNumber log).or start.turn
    availableMoves := ((Log.latest (Message.choice parse) log).map Prod.fst).getD start.availableMoves
    forceSwitch := ((Log.latest (Message.choice parse) log).map Prod.snd).or start.forceSwitch
    yourTeam := start.recalled log true
    opponentTeam := start.recalled log false }

/-- The message acts on a team as the effect does that is read off it. -/
theorem step_on (known : state.yourSide ≠ "") (taken : step parse state msg = some after) (which : Bool) :
    after.team which = msg.on state.yourSide which (state.team which) := by
  rw [Message.on]
  cases effects : msg.influence with
  | none =>
    refine step_bystander known taken fun ident about => ?_
    rw [← Message.influence_about, effects] at about
    cases about
  | some effect =>
    rw [step_influence effects taken, perform_team]
    rfl

/-- The record under each name follows its own notes. -/
theorem step_note (known : state.yourSide ≠ "") (taken : step parse state msg = some after) (which : Bool) (name : String) :
    Keyed.lookup Pokemon.name name (after.team which) =
      msg.note state.yourSide which name (Keyed.lookup Pokemon.name name (state.team which)) := by
  rw [step_on known taken which, Message.on, Message.note]
  cases msg.influence with
  | none => rfl
  | some effect =>
    by_cases here : (effect.ident.side == state.yourSide) = which
    · simp only [if_pos here]
      exact effect.lookup_on name _
    · simp only [if_neg here]

theorem exec_note (known : start.yourSide ≠ "") (reached : Runs.exec (step parse) start log = some state) (which : Bool)
    (name : String) : Keyed.lookup Pokemon.name name (state.team which) =
      log.foldl (Message.note start.yourSide which name) (Keyed.lookup Pokemon.name name (start.team which)) := by
  have both : state.yourSide = start.yourSide ∧ Keyed.lookup Pokemon.name name (state.team which) =
      log.foldl (Message.note start.yourSide which name) (Keyed.lookup Pokemon.name name (start.team which)) := by
    refine Runs.always (fun done state => state.yourSide = start.yourSide ∧
      Keyed.lookup Pokemon.name name (state.team which) =
        done.foldl (Message.note start.yourSide which name) (Keyed.lookup Pokemon.name name (start.team which)))
      ⟨rfl, rfl⟩ ?_ reached
    intro done msg before after prior taken
    obtain ⟨same, noted⟩ := prior
    have here : before.yourSide ≠ "" := same ▸ known
    refine ⟨(step_known here taken).trans same, ?_⟩
    rw [step_note here taken, noted, same, List.foldl_append]
    rfl
  exact both.2

/-- A team is the records of its Pokemon, in the order in which they became known. -/
theorem exec_team (known : start.yourSide ≠ "") (distinct : ∀ which, (names (start.team which)).Nodup)
    (reached : Runs.exec (step parse) start log = some state) (which : Bool) :
    state.team which = start.recalled log which := by
  have roster := (exec_names known reached).2 which
  have unique : (names (state.team which)).Nodup := by
    rw [roster]
    exact Keyed.nodup_grown (distinct which) _
  rw [← Keyed.rebuild unique, recalled, ← roster]
  exact List.filterMap_congr fun name _ => exec_note known reached which name

/-- The fields beside the teams. -/
structure Settings where
  turn : Option Int
  availableMoves : List MoveOption
  forceSwitch : Option Bool
  roomId : String
  yourName : String
  yourSide : String
  opponentName : String

def settings (state : BattleState) : Settings :=
  { turn := state.turn, availableMoves := state.availableMoves, forceSwitch := state.forceSwitch
    roomId := state.roomId, yourName := state.yourName, yourSide := state.yourSide, opponentName := state.opponentName }

theorem perform_settings (state : BattleState) (effect : Effect) : (state.perform effect).settings = state.settings := by
  unfold perform editTeam
  split <;> rfl

theorem settings_ext (same : state.settings = after.settings) (teams : ∀ which, state.team which = after.team which) :
    state = after := by
  have ours := teams true
  have theirs := teams false
  cases state
  cases after
  simp only [settings, Settings.mk.injEq] at same
  simp only [team, if_true, Bool.false_eq_true, if_false] at ours theirs
  simp [same, ours, theirs]

theorem step_settings (known : state.yourSide ≠ "") (taken : step parse state msg = some after) :
    after.settings = { state.settings with
      turn := msg.turnNumber.or state.turn
      availableMoves := ((msg.choice parse).map Prod.fst).getD state.availableMoves
      forceSwitch := ((msg.choice parse).map Prod.snd).or state.forceSwitch } := by
  have silent (turn : msg.type ≠ "turn") (request : ∀ j, ¬ Requests parse msg j) :
      msg.turnNumber = none ∧ msg.choice parse = none := by
    refine ⟨if_neg turn, ?_⟩
    unfold Message.choice
    cases payload : msg.payload parse with
    | none => rfl
    | some j => exact absurd (payload_some.mp payload) (request j)
  have unasked (type : msg.type ≠ "request") : ∀ j, ¬ Requests parse msg j := fun _ request => type request.1
  cases step_iff.mp taken with
  | first _ unknown => exact absurd unknown known
  | @later j moves request _ options =>
    have choice : msg.choice parse = some (moves, j.contains "forceSwitch") := by
      simp [Message.choice, payload_some.mpr request, options, Except.toOption]
    have turn : msg.turnNumber = none := if_neg (by simp [request.1])
    rw [choice, turn]
    rfl
  | blank type argument =>
    obtain ⟨turn, choice⟩ := silent (by simp [type]) (by
      rintro j ⟨_, payload, here, filled, _⟩
      cases argument.symm.trans here
      exact filled rfl)
    rw [turn, choice]
    rfl
  | hp type =>
    obtain ⟨turn, choice⟩ := silent (by rcases type with type | type <;> simp [type])
      (unasked (by rcases type with type | type <;> simp [type]))
    rw [turn, choice, perform_settings]
    rfl
  | faint type =>
    obtain ⟨turn, choice⟩ := silent (by simp [type]) (unasked (by simp [type]))
    rw [turn, choice, perform_settings]
    rfl
  | switch type =>
    obtain ⟨turn, choice⟩ := silent (by rcases type with type | type <;> simp [type])
      (unasked (by rcases type with type | type <;> simp [type]))
    rw [turn, choice, perform_settings]
    rfl
  | @turn text number type argument read =>
    have announced : msg.turnNumber = some number := by simp [Message.turnNumber, type, argument, read, Except.toOption]
    obtain choice : msg.choice parse = none := by simp [Message.choice, Message.payload, type]
    rw [announced, choice]
    rfl
  | other type =>
    simp only [List.mem_cons, List.not_mem_nil, or_false, not_or] at type
    obtain ⟨turn, choice⟩ := silent (by simp [type]) (unasked type.1)
    rw [turn, choice]
    rfl

/-- Once our side is known and no two Pokemon of a team share a name, the whole battle follows
from the messages field by field and Pokemon by Pokemon. -/
theorem recalls (known : start.yourSide ≠ "") (distinct : ∀ which, (names (start.team which)).Nodup)
    (reached : Runs.exec (step parse) start log = some state) : state = remembered parse start log := by
  apply settings_ext
  · have both : state.yourSide = start.yourSide ∧ state.settings = (remembered parse start log).settings := by
      refine Runs.always (fun done state => state.yourSide = start.yourSide ∧
        state.settings = (remembered parse start done).settings) ⟨rfl, rfl⟩ ?_ reached
      intro done msg before after prior taken
      obtain ⟨same, settled⟩ := prior
      have here : before.yourSide ≠ "" := same ▸ known
      refine ⟨(step_known here taken).trans same, ?_⟩
      rw [step_settings here taken, settled]
      have turn := congrArg Settings.turn settled
      have moves := congrArg Settings.availableMoves settled
      have forced := congrArg Settings.forceSwitch settled
      simp only [settings, remembered] at turn moves forced
      simp only [settings, remembered, turn, moves, forced, Log.latest_concat, Option.or_assoc, Option.map_or, Settings.mk.injEq,
        and_true, true_and]
      cases msg.choice parse <;> rfl
    exact both.2
  · intro which
    rw [exec_team known distinct reached which]
    cases which <;> rfl

private def lineup : Listing := ⟨"p1", [("p1: Pikachu", true, "35/35"), ("p1: Eevee", false, "0 fnt")]⟩

private def volley : List Message :=
  [{ type := "switch", args := ["p2a: Hoopa", "Hoopa", "100/100"] },
    { type := "-damage", args := ["p1a: Pikachu", "12/35 par"] },
    { type := "switch", args := ["p2a: Snorlax", "Snorlax", "90/90"] },
    { type := "faint", args := ["p1a: Pikachu"] },
    { type := "turn", args := ["7"] }]

/-- Both sides act after the first request. -/
theorem recalls_volley :
    ∃ start state, Runs.exec (step (Listing.parse [lineup])) {} [lineup.request] = some start ∧
      Runs.exec (step (Listing.parse [lineup])) start volley = some state ∧ state.turn = some 7 ∧
      state = remembered (Listing.parse [lineup]) start volley := by
  have opens : (Runs.exec (step (Listing.parse [lineup])) {} [lineup.request]).map (fun state =>
      (state.yourSide, names (state.team true), names (state.team false))) = some ("p1", ["Pikachu", "Eevee"], []) := by
    decide +kernel
  have runs : (Runs.exec (step (Listing.parse [lineup])) {} ([lineup.request] ++ volley)).map BattleState.turn =
      some (some 7) := by decide +kernel
  obtain ⟨start, reached, facts⟩ := Option.map_eq_some_iff.mp opens
  simp only [Prod.mk.injEq] at facts
  obtain ⟨side, ours, theirs⟩ := facts
  obtain ⟨state, whole, turn⟩ := Option.map_eq_some_iff.mp runs
  rw [Runs.exec_append, reached, Option.bind_some] at whole
  refine ⟨start, state, reached, whole, turn, recalls (by simp [side]) (fun which => ?_) whole⟩
  cases which with
  | true =>
    rw [ours]
    decide
  | false =>
    rw [theirs]
    decide

end BattleState
end ShowdownCli
