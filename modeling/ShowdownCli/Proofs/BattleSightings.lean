import ShowdownCli.Library.Log
import ShowdownCli.Proofs.BattleTeams

/-! A team that starts empty, described by the log of effects on it. Each aspect of
a record is what the log last reported on it since the name was first switched in. -/

namespace ShowdownCli.Effect
open Library

/-- The team that a log of effects leaves. -/
def roster (log : List Effect) : List Pokemon := log.foldl (fun team effect => effect.on team) []

theorem roster_concat (log : List Effect) (effect : Effect) : roster (log ++ [effect]) = effect.on (roster log) := by
  simp [roster]

theorem names_roster (log : List Effect) : names (roster log) = (log.filterMap entrant).eraseDups := by
  induction log using List.reverseRecOn with
  | nil => rfl
  | append_singleton log effect ih =>
    rw [roster_concat, names_on, ih, ← Keyed.grown_empty, Keyed.grown_grown, Keyed.grown_empty, Log.filterMap_concat]

theorem distinct_roster (log : List Effect) : (names (roster log)).Nodup := by
  rw [names_roster, ← Keyed.grown_empty]
  exact Keyed.nodup_grown List.nodup_nil _

def enters (name : String) (effect : Effect) : Bool := effect.entrant = some name

/-- What an effect reports on the name: its HP, its full HP, whether it has fainted
and whether it is the one on the field. -/
def current (name : String) : Effect → Option Int
  | .hp text reading | .enter text reading => if (parseIdent text).name = name then reading.map Prod.fst else none
  | .faint text => if (parseIdent text).name = name then some 0 else none

def full (name : String) : Effect → Option Int
  | .hp text reading | .enter text reading => if (parseIdent text).name = name then reading.map Prod.snd else none
  | .faint _ => none

def fate (name : String) : Effect → Option Bool
  | .hp _ _ => none
  | .faint text => if (parseIdent text).name = name then some true else none
  | .enter text _ => if (parseIdent text).name = name then some false else none

def field (name : String) : Effect → Option Bool
  | .hp _ _ => none
  | .faint text => if (parseIdent text).name = name then some false else none
  | .enter text _ => some ((parseIdent text).name = name)

/-- A record says what the log reported last. -/
structure Described (name : String) (log : List Effect) (p : Pokemon) : Prop where
  origin : log.head?.map text = some p.ident
  current : p.hpCurrent = Log.latest (current name) log
  full : p.hpMax = Log.latest (full name) log
  fainted : Log.latest (fate name) log = some p.fainted
  active : Log.latest (field name) log = some p.active

variable {name : String} {log : List Effect} {p : Pokemon}

theorem Described.begun (described : Described name log p) : log ≠ [] := by
  intro same
  subst same
  cases described.origin

theorem head?_concat {α : Type} {items : List α} {item : α} (begun : items ≠ []) :
    (items ++ [item]).head? = items.head? := by
  cases items with
  | nil => exact absurd rfl begun
  | cons first rest => rfl

theorem read_hpCurrent (reading : Reading) (p : Pokemon) :
    (p.read reading).hpCurrent = (reading.map Prod.fst).or p.hpCurrent := by
  cases reading <;> rfl

theorem read_hpMax (reading : Reading) (p : Pokemon) :
    (p.read reading).hpMax = (reading.map Prod.snd).or p.hpMax := by
  cases reading <;> rfl

/-- A new report on the subject is what its record says next. -/
theorem Described.subject {effect : Effect} (described : Described name log p) (same : effect.subject = name) :
    ∃ q, effect.record (some p) = some q ∧ Described name (log ++ [effect]) q := by
  subst same
  cases effect with
  | hp text reading =>
    refine ⟨_, rfl, ?_, ?_, ?_, ?_, ?_⟩
    · rw [head?_concat described.begun, described.origin, Pokemon.read_ident]
    · rw [Log.latest_concat, ← described.current, read_hpCurrent]
      simp [Effect.current, Effect.subject]
    · rw [Log.latest_concat, ← described.full, read_hpMax]
      simp [Effect.full, Effect.subject]
    · rw [Log.latest_concat, described.fainted, Pokemon.read_fainted]
      rfl
    · rw [Log.latest_concat, described.active, Pokemon.read_active]
      rfl
  | faint text =>
    refine ⟨_, rfl, ?_, ?_, ?_, ?_, ?_⟩
    · rw [head?_concat described.begun, described.origin]
      rfl
    · rw [Log.latest_concat]
      simp [Effect.current, Effect.subject, Pokemon.faint]
    · rw [Log.latest_concat, ← described.full]
      rfl
    · rw [Log.latest_concat]
      simp [Effect.fate, Effect.subject, Pokemon.faint]
    · rw [Log.latest_concat]
      simp [Effect.field, Effect.subject, Pokemon.faint]
  | enter text reading =>
    refine ⟨_, rfl, ?_, ?_, ?_, ?_, ?_⟩
    · rw [head?_concat described.begun, described.origin, Pokemon.read_ident]
      rfl
    · rw [Log.latest_concat, ← described.current, read_hpCurrent]
      simp [Effect.current, Effect.subject, Pokemon.enter, Pokemon.deactivate]
    · rw [Log.latest_concat, ← described.full, read_hpMax]
      simp [Effect.full, Effect.subject, Pokemon.enter, Pokemon.deactivate]
    · rw [Log.latest_concat, Pokemon.read_fainted]
      simp [Effect.fate, Effect.subject, Pokemon.enter]
    · rw [Log.latest_concat, Pokemon.read_active]
      simp [Effect.field, Effect.subject, Pokemon.enter]

section Other
variable {effect : Effect} (apart : effect.subject ≠ name)
include apart

theorem current_other : current name effect = none := by
  cases effect <;> exact if_neg apart

theorem full_other : full name effect = none := by
  cases effect <;> first | rfl | exact if_neg apart

theorem fate_other : fate name effect = none := by
  cases effect <;> first | rfl | exact if_neg apart

/-- A report on another name can only take the Pokemon from the field. -/
theorem Described.other (described : Described name log p) : Described name (log ++ [effect]) (effect.bystander p) := by
  refine ⟨?_, ?_, ?_, ?_, ?_⟩
  · rw [head?_concat described.begun, described.origin, bystander_ident]
  · rw [Log.latest_concat, current_other apart, Option.none_or, ← described.current]
    cases effect <;> rfl
  · rw [Log.latest_concat, full_other apart, Option.none_or, ← described.full]
    cases effect <;> rfl
  · rw [Log.latest_concat, fate_other apart, Option.none_or, described.fainted]
    cases effect <;> rfl
  · rw [Log.latest_concat, described.active]
    cases effect with
    | hp => rfl
    | faint text =>
      have apart : (parseIdent text).name ≠ name := apart
      simp [field, apart, bystander]
    | enter text reading =>
      have apart : (parseIdent text).name ≠ name := apart
      simp [field, apart, bystander, Pokemon.deactivate]

end Other

/-- The switch that first brings a Pokemon in says everything about it. -/
theorem described_first {effect : Effect} (entering : enters name effect = true) :
    ∃ q, effect.record none = some q ∧ Described name [effect] q := by
  cases effect with
  | hp | faint => simp [enters, entrant] at entering
  | enter text reading =>
    have same : (parseIdent text).name = name := by simpa [enters, entrant] using entering
    refine ⟨_, rfl, ?_, ?_, ?_, ?_, ?_⟩
    · rw [Pokemon.read_ident]
      rfl
    · rw [read_hpCurrent]
      simp [Log.latest, Effect.current, same, Pokemon.enter, Pokemon.sighted]
    · rw [read_hpMax]
      simp [Log.latest, Effect.full, same, Pokemon.enter, Pokemon.sighted]
    · rw [Pokemon.read_fainted]
      simp [Log.latest, Effect.fate, same, Pokemon.enter]
    · rw [Pokemon.read_active]
      simp [Log.latest, Effect.field, same, Pokemon.enter]

/-- Every record of the team is described by the log since its name was first
switched in, and only such names have one. -/
theorem roster_described (name : String) (log : List Effect) :
    (Log.since (enters name) log = [] ∧ Keyed.lookup Pokemon.name name (roster log) = none) ∨
      ∃ p, Keyed.lookup Pokemon.name name (roster log) = some p ∧ Described name (Log.since (enters name) log) p := by
  induction log using List.reverseRecOn with
  | nil => exact Or.inl ⟨rfl, rfl⟩
  | append_singleton log effect ih =>
    have known : log.any (enters name) = true ↔ Log.since (enters name) log ≠ [] := by
      rw [ne_eq, Log.since_nil]
      simp
    rw [Log.since_concat, roster_concat]
    rcases ih with ⟨nothing, missing⟩ | ⟨p, found, described⟩
    · rw [if_neg fun present => known.mp present nothing]
      by_cases same : effect.subject = name
      · subst same
        rw [lookup_subject, missing]
        by_cases entering : enters effect.subject effect = true
        · rw [if_pos entering]
          exact Or.inr (described_first entering)
        · rw [if_neg entering]
          refine Or.inl ⟨rfl, ?_⟩
          cases effect with
          | hp | faint => rfl
          | enter text reading => exact absurd (by simp [enters, entrant, subject]) entering
      · rw [lookup_bystander effect (Ne.symm same), missing, if_neg]
        · exact Or.inl ⟨rfl, rfl⟩
        · cases effect <;> simp_all [enters, entrant, subject]
    · rw [if_pos (known.mpr described.begun)]
      refine Or.inr ?_
      by_cases same : effect.subject = name
      · obtain ⟨q, recorded, next⟩ := described.subject same
        refine ⟨q, ?_, next⟩
        rw [← same, lookup_subject, same, found, recorded]
      · exact ⟨_, by rw [lookup_bystander effect (Ne.symm same), found]; rfl, described.other same⟩

end ShowdownCli.Effect
