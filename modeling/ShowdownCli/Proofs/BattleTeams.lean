import ShowdownCli.Proofs.BattleChanges

/-! What an effect does to the team it acts on, aspect by aspect: the names in
order, the record under each name, and which Pokemon is active. -/

namespace ShowdownCli
open Library

abbrev names (team : List Pokemon) : List String := team.map Pokemon.name

namespace Effect

/-- The name the effect is about. -/
def subject (effect : Effect) : String := effect.ident.name

/-- The name a switch or drag makes known. -/
def entrant : Effect → Option String
  | .enter text _ => some (parseIdent text).name
  | _ => none

/-- The record under the subject's name, where there was one or none before. -/
def record : Effect → Option Pokemon → Option Pokemon
  | .hp _ reading, old => old.map (Pokemon.read reading)
  | .faint _, old => old.map Pokemon.faint
  | .enter text reading, old => some (((old.map Pokemon.deactivate).getD (.sighted text)).enter.read reading)

/-- The record under any other name. -/
def bystander : Effect → Pokemon → Pokemon
  | .enter _ _, p => p.deactivate
  | _, p => p

@[simp] theorem bystander_ident (effect : Effect) (p : Pokemon) : (effect.bystander p).ident = p.ident := by
  cases effect <;> rfl

theorem names_on (effect : Effect) (team : List Pokemon) :
    names (effect.on team) = Keyed.grown (names team) effect.entrant.toList := by
  cases effect with
  | hp text reading => simpa [on, entrant] using Keyed.touch_map (Pokemon.read_name reading) team
  | faint text => simpa [on, entrant] using Keyed.touch_map Pokemon.faint_name team
  | enter text reading =>
    have kept : ∀ p : Pokemon, (p.enter.read reading).name = p.name := by simp
    have cleared : names (team.map Pokemon.deactivate) = names team := by simp [names, Function.comp_def]
    simp only [on, names, entrant, Option.toList_some]
    rw [Keyed.touch_map kept, Keyed.enroll_keys (Pokemon.sighted_name text)]
    simp only [names] at cleared
    rw [cleared, ← List.nil_append [(parseIdent text).name], Keyed.grown_concat, Keyed.grown_nil]
    rfl

theorem lookup_subject (effect : Effect) (team : List Pokemon) :
    Keyed.lookup Pokemon.name effect.subject (effect.on team) =
      effect.record (Keyed.lookup Pokemon.name effect.subject team) := by
  cases effect with
  | hp text reading => exact Keyed.lookup_touch_same (Pokemon.read_name reading) team
  | faint text => exact Keyed.lookup_touch_same Pokemon.faint_name team
  | enter text reading =>
    have kept : ∀ p : Pokemon, (p.enter.read reading).name = p.name := by simp
    show Keyed.lookup Pokemon.name (parseIdent text).name (Keyed.touch _ _ _ _) = _
    rw [Keyed.lookup_touch_same kept, Keyed.lookup_enroll_same (Pokemon.sighted_name text),
      Keyed.lookup_map Pokemon.deactivate_name]
    rfl

theorem lookup_bystander (effect : Effect) {name : String} (apart : name ≠ effect.subject) (team : List Pokemon) :
    Keyed.lookup Pokemon.name name (effect.on team) = (Keyed.lookup Pokemon.name name team).map effect.bystander := by
  cases effect with
  | hp text reading =>
    rw [show (Effect.hp text reading).bystander = id from rfl, Option.map_id]
    exact Keyed.lookup_touch_other (Pokemon.read_name reading) apart team
  | faint text =>
    rw [show (Effect.faint text).bystander = id from rfl, Option.map_id]
    exact Keyed.lookup_touch_other Pokemon.faint_name apart team
  | enter text reading =>
    have kept : ∀ p : Pokemon, (p.enter.read reading).name = p.name := by simp
    have other : name ≠ (parseIdent text).name := apart
    show Keyed.lookup Pokemon.name name (Keyed.touch _ _ _ _) = _
    rw [Keyed.lookup_touch_other kept other, Keyed.lookup_enroll_other (Pokemon.sighted_name text) apart,
      Keyed.lookup_map Pokemon.deactivate_name]
    rfl

/-- Each record afterwards is the subject's or that of an unchanged place. -/
theorem mem_on {effect : Effect} {team : List Pokemon} {p : Pokemon} (member : p ∈ effect.on team) :
    (∃ old ∈ team, p = effect.bystander old) ∨
      effect.record (Keyed.lookup Pokemon.name effect.subject team) = some p := by
  cases effect with
  | hp text reading =>
    rcases Keyed.mem_touch (Pokemon.read_name reading) member with before | ⟨_, old, found, rfl⟩
    · exact Or.inl ⟨p, before, rfl⟩
    · exact Or.inr (congrArg (Option.map _) found)
  | faint text =>
    rcases Keyed.mem_touch Pokemon.faint_name member with before | ⟨_, old, found, rfl⟩
    · exact Or.inl ⟨p, before, rfl⟩
    · exact Or.inr (congrArg (Option.map _) found)
  | enter text reading =>
    have kept : ∀ p : Pokemon, (p.enter.read reading).name = p.name := by simp
    simp only [on, Keyed.touch_enroll (Pokemon.sighted_name text)] at member
    show _ ∨ some _ = _
    rw [← Keyed.lookup_map Pokemon.deactivate_name]
    split at member
    · rcases Keyed.mem_touch kept member with before | ⟨_, old, found, rfl⟩
      · obtain ⟨old, present, rfl⟩ := List.mem_map.mp before
        exact Or.inl ⟨old, present, rfl⟩
      · exact Or.inr (by rw [subject, ident, Effect.text, found]; rfl)
    next absent =>
      rcases List.mem_append.mp member with before | last
      · obtain ⟨old, present, rfl⟩ := List.mem_map.mp before
        exact Or.inl ⟨old, present, rfl⟩
      · rw [subject, ident, Effect.text, Keyed.lookup_none.mpr absent]
        exact Or.inr (congrArg some (List.mem_singleton.mp last).symm)

end Effect
end ShowdownCli
