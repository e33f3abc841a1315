import ShowdownCli.Proofs.BattleMemory

/-! A battle whose log arrives again, as it does when its room is joined anew. Everything a
message writes is written again by the same message, so a log that makes each Pokemon known
before it says anything else of it leaves the battle as it is when it is replayed. -/

namespace ShowdownCli
open Library

/-- What messages write over in a record. -/
structure Patch where
  hpCurrent : Option (Option Int) := none
  hpMax : Option (Option Int) := none
  active : Option Bool := none
  fainted : Option Bool := none

namespace Patch
variable {first last patch : Patch} {p : Pokemon}

def apply (patch : Patch) (p : Pokemon) : Pokemon :=
  { p with
    hpCurrent := patch.hpCurrent.getD p.hpCurrent
    hpMax := patch.hpMax.getD p.hpMax
    active := patch.active.getD p.active
    fainted := patch.fainted.getD p.fainted }

/-- What both write, the last one over the first. -/
def seq (first last : Patch) : Patch :=
  { hpCurrent := last.hpCurrent.or first.hpCurrent
    hpMax := last.hpMax.or first.hpMax
    active := last.active.or first.active
    fainted := last.fainted.or first.fainted }

def numbers : Reading → Patch
  | none => {}
  | some (current, max) => { hpCurrent := some (some current), hpMax := some (some max) }

theorem apply_seq (first last : Patch) (p : Pokemon) : (seq first last).apply p = last.apply (first.apply p) := by
  simp only [apply, seq, Option.getD_or]

theorem apply_again (patch : Patch) (p : Pokemon) : patch.apply (patch.apply p) = patch.apply p := by
  have twice {α : Type} (written : Option α) (old : α) : written.getD (written.getD old) = written.getD old := by
    cases written <;> rfl
  simp only [apply, twice]

/-- Who is active is written over. -/
theorem apply_active (written : patch.active ≠ none) (active : Option Bool) (p : Pokemon) :
    patch.apply (apply { active } p) = patch.apply p := by
  obtain ⟨last, same⟩ := Option.ne_none_iff_exists'.mp written
  simp [apply, same]

theorem apply_numbers (reading : Reading) (p : Pokemon) : (numbers reading).apply p = p.read reading := by
  cases reading with
  | none => rfl
  | some pair => rfl

end Patch

/-- What an effect on its team writes in the record under a name. -/
def Effect.patch (effect : Effect) (name : String) : Patch :=
  match effect with
  | .hp _ reading => if name = effect.subject then .numbers reading else {}
  | .faint _ =>
    if name = effect.subject then { hpCurrent := some (some 0), active := some false, fainted := some true } else {}
  | .enter _ reading =>
    if name = effect.subject then .seq { active := some true, fainted := some false } (.numbers reading)
    else { active := some false }

theorem Effect.note_known (effect : Effect) (name : String) (p : Pokemon) :
    effect.note name (some p) = some ((effect.patch name).apply p) := by
  unfold note patch
  cases effect with
  | hp text reading =>
    simp only
    split
    next => exact congrArg some (Patch.apply_numbers reading p).symm
    next => rfl
  | faint text =>
    simp only
    split
    next => rfl
    next => rfl
  | enter text reading =>
    simp only
    split
    next =>
      rw [Patch.apply_seq, Patch.apply_numbers]
      rfl
    next => rfl

namespace Message
variable {msg : Message} {log : List Message} {side name : String} {which : Bool}

def patch (side : String) (which : Bool) (name : String) (msg : Message) : Patch :=
  match msg.influence with
  | some effect => if (effect.ident.side == side) = which then effect.patch name else {}
  | none => {}

/-- What a log writes, each message over those before it. -/
def patches (side : String) (which : Bool) (name : String) : List Message → Patch
  | [] => {}
  | msg :: rest => (msg.patch side which name).seq (patches side which name rest)

theorem note_known (msg : Message) (p : Pokemon) :
    note side which name (some p) msg = some ((msg.patch side which name).apply p) := by
  unfold note patch
  cases msg.influence with
  | none => rfl
  | some effect =>
    simp only
    split
    next => exact effect.note_known name p
    next => rfl

theorem notes_known (log : List Message) (p : Pokemon) :
    log.foldl (note side which name) (some p) = some ((patches side which name log).apply p) := by
  induction log generalizing p with
  | nil => rfl
  | cons msg rest ih => rw [List.foldl_cons, note_known, ih, patches, Patch.apply_seq]

theorem notes_again {log : List Message} {old : Option Pokemon} {fresh : Pokemon}
    (left : old = some ((patches side which name log).apply fresh)) : log.foldl (note side which name) old = old := by
  rw [left, notes_known, Patch.apply_again]

/-- A message about an unknown Pokemon is passed over, or it brings it in. -/
theorem note_unknown (side : String) (which : Bool) (name : String) (msg : Message) :
    note side which name none msg = none ∨ ∃ fresh,
      note side which name none msg = some ((msg.patch side which name).apply fresh) ∧
      (msg.patch side which name).active ≠ none := by
  unfold note patch
  cases msg.influence with
  | none => exact Or.inl rfl
  | some effect =>
    simp only
    split
    next =>
      unfold Effect.note
      split
      next own =>
        cases effect with
        | hp | faint => exact Or.inl rfl
        | enter text reading =>
          refine Or.inr ⟨.sighted text, ?_, ?_⟩
          · rw [Effect.patch, if_pos own, Patch.apply_seq, Patch.apply_numbers]
            rfl
          · rw [Effect.patch, if_pos own]
            cases reading <;> simp [Patch.seq, Patch.numbers]
      next => exact Or.inl rfl
    next => exact Or.inl rfl

theorem patches_active {p : Pokemon} (entered : log.foldl (note side which name) none = some p) :
    (patches side which name log).active ≠ none := by
  induction log with
  | nil => cases entered
  | cons msg rest ih =>
    rw [List.foldl_cons] at entered
    rcases note_unknown side which name msg with passed | ⟨fresh, brought, active⟩
    · rw [passed] at entered
      simp [patches, Patch.seq, ih entered]
    · simp [patches, Patch.seq, active]

end Message

namespace BattleState
variable {parse : String → Option Json} {start state after : BattleState} {msg : Message} {log : List Message}

/-- A Pokemon is known before a message says that it is hurt, healed or fainted. -/
def Introduced (state : BattleState) (msg : Message) : Prop :=
  ∀ effect ∈ msg.influence, effect.entrant = none → effect.ident.name ∈ names (state.team (state.ours effect.ident))

instance (state : BattleState) (msg : Message) : Decidable (Introduced state msg) :=
  inferInstanceAs (Decidable (∀ effect ∈ msg.influence,
    effect.entrant = none → effect.ident.name ∈ names (state.team (state.ours effect.ident))))

/-- What an introduced message that passes an unknown Pokemon over may write of it. -/
theorem introduced_patch (introduced : Introduced state msg) {which : Bool} {name : String}
    (unknown : Keyed.lookup Pokemon.name name (state.team which) = none)
    (passed : msg.note state.yourSide which name none = none) :
    ∃ active, msg.patch state.yourSide which name = { active } := by
  unfold Message.patch
  unfold Message.note at passed
  cases influence : msg.influence with
  | none => exact ⟨none, rfl⟩
  | some effect =>
    simp only [influence] at passed
    simp only
    split
    next here =>
      have told : name = effect.subject → effect.entrant ≠ none := by
        rintro rfl silent
        have known := introduced effect influence silent
        rw [ours, here] at known
        exact Keyed.lookup_none.mp unknown known
      rw [if_pos here, Effect.note] at passed
      unfold Effect.patch
      cases effect with
      | hp text reading =>
        simp only
        split
        next own => exact absurd rfl (told own)
        next => exact ⟨none, rfl⟩
      | faint text =>
        simp only
        split
        next own => exact absurd rfl (told own)
        next => exact ⟨none, rfl⟩
      | enter text reading =>
        simp only
        split
        next own =>
          rw [if_pos own] at passed
          cases passed
        next => exact ⟨some false, rfl⟩
    next => exact ⟨none, rfl⟩

/-- Noting the log again leaves each record as the log has left it. -/
theorem replayed_record (known : start.yourSide ≠ "") (introduced : Runs.Guarded (step parse) Introduced start log)
    (reached : Runs.exec (step parse) start log = some after) (which : Bool) (name : String) :
    log.foldl (Message.note start.yourSide which name) (Keyed.lookup Pokemon.name name (after.team which)) =
      Keyed.lookup Pokemon.name name (after.team which) := by
  induction log generalizing start with
  | nil => rfl
  | cons msg rest ih =>
    have noted := exec_note known reached which name
    obtain ⟨middle, taken, later⟩ := Option.bind_eq_some_iff.mp reached
    have side := step_known known taken
    cases before : Keyed.lookup Pokemon.name name (start.team which) with
    | some p =>
      rw [before, Message.notes_known] at noted
      exact Message.notes_again noted
    | none =>
      rw [before, List.foldl_cons] at noted
      rcases Message.note_unknown start.yourSide which name msg with passed | ⟨fresh, brought, _⟩
      · have again := ih (side ▸ known) (introduced.later taken) later
        rw [side] at again
        rw [passed] at noted
        cases left : Keyed.lookup Pokemon.name name (after.team which) with
        | none => rw [List.foldl_cons, passed, ← noted, left]
        | some p =>
          rw [left] at again noted
          obtain ⟨active, writes⟩ := introduced_patch introduced.first before passed
          have entered := Message.patches_active noted.symm
          rw [List.foldl_cons, Message.note_known, writes, Message.notes_known, Patch.apply_active entered,
            ← Message.notes_known, again]
      · rw [brought, Message.notes_known, ← Patch.apply_seq] at noted
        exact Message.notes_again noted

/-- What could be applied once can be applied again, whatever is known by then. -/
theorem step_again {other : BattleState} (known : state.yourSide ≠ "") (introduced : Introduced state msg)
    (taken : step parse state msg = some after) (same : other.yourSide = state.yourSide) :
    ∃ next, step parse other msg = some next := by
  have applied {next : BattleState} (change : Change parse other msg next) :
      ∃ next, step parse other msg = some next := ⟨next, step_iff.mpr change⟩
  cases step_iff.mp taken with
  | first _ unknown => exact absurd unknown known
  | blank type argument => exact applied (.blank type argument)
  | later request _ options => exact applied (.later request (same ▸ known) options)
  | @hp text reading type ident read =>
    have hurt : Effect.hp text (msg.reading 1) ∈ msg.influence := Option.mem_def.mpr (influence_hp type ident)
    have knows := introduced _ hurt rfl
    rw [Effect.ident_hp] at knows
    exact applied (.hp type ident fun _ => read knows)
  | faint type ident => exact applied (.faint type ident)
  | switch type ident argument read => exact applied (.switch type ident argument read)
  | turn type argument read => exact applied (.turn type argument read)
  | other type => exact applied (.other type)

theorem exec_again {other : BattleState} (known : start.yourSide ≠ "")
    (introduced : Runs.Guarded (step parse) Introduced start log)
    (reached : Runs.exec (step parse) start log = some after) (same : other.yourSide = start.yourSide) :
    ∃ again, Runs.exec (step parse) other log = some again := by
  induction log generalizing start other with
  | nil => exact ⟨other, rfl⟩
  | cons msg rest ih =>
    obtain ⟨middle, taken, later⟩ := Option.bind_eq_some_iff.mp reached
    obtain ⟨next, stepped⟩ := step_again known introduced.first taken same
    have side := step_known known taken
    have sides : next.yourSide = middle.yourSide := by rw [step_known (same ▸ known) stepped, same, side]
    obtain ⟨again, run⟩ := ih (side ▸ known) (introduced.later taken) later sides
    exact ⟨again, by rw [Runs.exec_cons, stepped, Option.bind_some, run]⟩

/-- Replaying a log that has been applied changes nothing, if it makes each Pokemon known
before it says anything else of it. -/
theorem replays (known : start.yourSide ≠ "") (distinct : ∀ which, (names (start.team which)).Nodup)
    (introduced : Runs.Guarded (step parse) Introduced start log)
    (reached : Runs.exec (step parse) start log = some after) : Runs.exec (step parse) after log = some after := by
  obtain ⟨side, roster⟩ := exec_names known reached
  have knows : after.yourSide ≠ "" := side ▸ known
  have unique (which : Bool) : (names (after.team which)).Nodup := by
    rw [roster which]
    exact Keyed.nodup_grown (distinct which) _
  obtain ⟨again, run⟩ := exec_again known introduced reached side
  have joined (which : Bool) : Keyed.grown (names (after.team which))
      (log.filterMap (Message.joining start.yourSide which)) = names (after.team which) := by
    apply Keyed.grown_known
    intro name joins
    rw [roster which]
    exact Keyed.mem_grown.mpr (Or.inr joins)
  rw [run, recalls knows unique run]
  congr 1
  apply settings_ext
  · have settled := congrArg settings (recalls known distinct reached)
    have turn := congrArg Settings.turn settled
    have moves := congrArg Settings.availableMoves settled
    have forced := congrArg Settings.forceSwitch settled
    simp only [settings, remembered] at turn moves forced
    simp only [settings, remembered, turn, moves, forced]
    cases Log.latest Message.turnNumber log <;> cases Log.latest (Message.choice parse) log <;> rfl
  · intro which
    have team : (remembered parse after log).team which = after.recalled log which := by cases which <;> rfl
    rw [team, recalled, side, joined which]
    refine (List.filterMap_congr fun name _ => ?_).trans (Keyed.rebuild (unique which))
    exact replayed_record known introduced reached which name

private def starters : Listing := ⟨"p1", [("p1: Pikachu", true, "35/35"), ("p1: Eevee", false, "55/55")]⟩

/-- Each Pokemon of the other side comes in before it is hurt, and a request comes between. -/
private def rejoined : List Message :=
  [{ type := "switch", args := ["p2a: Hoopa", "Hoopa", "100/100"] },
    { type := "-damage", args := ["p2a: Hoopa", "40/100"] },
    { type := "faint", args := ["p1a: Pikachu"] },
    starters.request,
    { type := "drag", args := ["p2a: Snorlax", "Snorlax", "90/90"] },
    { type := "turn", args := ["3"] }]

theorem replays_rejoined :
    ∃ start after, Runs.exec (step (Listing.parse [starters])) {} [starters.request] = some start ∧
      Runs.exec (step (Listing.parse [starters])) start rejoined = some after ∧ after.turn = some 3 ∧
      Runs.exec (step (Listing.parse [starters])) after rejoined = some after := by
  have opens : (Runs.exec (step (Listing.parse [starters])) {} [starters.request]).map (fun state =>
      (state.yourSide, names (state.team true), names (state.team false))) = some ("p1", ["Pikachu", "Eevee"], []) := by
    decide +kernel
  have runs : (Runs.exec (step (Listing.parse [starters])) {} (starters.request :: rejoined)).map BattleState.turn =
      some (some 3) := by decide +kernel
  have introduced : Runs.Guarded (step (Listing.parse [starters])) Introduced {} (starters.request :: rejoined) := by
    decide +kernel
  obtain ⟨start, reached, facts⟩ := Option.map_eq_some_iff.mp opens
  simp only [Prod.mk.injEq] at facts
  obtain ⟨side, ours, theirs⟩ := facts
  obtain ⟨after, whole, turn⟩ := Option.map_eq_some_iff.mp runs
  have begun := reached
  rw [Runs.exec_cons, Option.bind_eq_some_iff] at begun
  obtain ⟨first, taken, alone⟩ := begun
  rw [Runs.exec_nil, Option.some.injEq] at alone
  subst alone
  rw [Runs.exec_cons, taken, Option.bind_some] at whole
  refine ⟨first, after, reached, whole, turn, replays (by simp [side]) (fun which => ?_) (introduced.later taken) whole⟩
  cases which with
  | true =>
    rw [ours]
    decide
  | false =>
    rw [theirs]
    decide

end BattleState
end ShowdownCli
