import ShowdownCli.Proofs.BattleSides

/-! Messages about the two sides. A message about a Pokemon reads and writes only the
team that its identifier selects, so messages about different teams may trade places. -/

namespace ShowdownCli.BattleState
open Library

variable {parse : String → Option Json} {state left right : BattleState} {msg first second : Message}
  {ident mine theirs : Ident}

/-- Whether a message about a Pokemon fails depends on nothing but whether its team has the
name; if it is applied, it has one effect wherever that team has no more names. -/
theorem step_about (about : msg.about = some ident) (taken : step parse state msg = some left) :
    ∃ effect : Effect, effect.ident = ident ∧ left = state.perform effect ∧
      ∀ other : BattleState, (other.Knows ident → state.Knows ident) →
        step parse other msg = some (other.perform effect) := by
  unfold Message.about at about
  split at about
  next type =>
    obtain ⟨text, named, rfl⟩ := Option.map_eq_some_iff.mp about
    cases step_iff.mp taken with
    | hp kind argument read =>
      cases named.symm.trans argument
      refine ⟨_, ?_, rfl, fun other knows => step_iff.mpr (.hp kind argument fun known => read (knows known))⟩
      rfl
    | faint kind argument =>
      cases named.symm.trans argument
      refine ⟨_, ?_, rfl, fun other _ => step_iff.mpr (.faint kind argument)⟩
      rfl
    | switch kind argument condition read =>
      cases named.symm.trans argument
      refine ⟨_, ?_, rfl, fun other _ => step_iff.mpr (.switch kind argument condition read)⟩
      rfl
    | blank kind | turn kind => simp [kind] at type
    | first request | later request => simp [request.1] at type
    | other kind =>
      simp only [List.mem_cons, List.not_mem_nil, or_false, not_or] at type kind
      tauto
  next => cases about

theorem perform_ours {effect : Effect} (ours : state.ours effect.ident = true) :
    state.perform effect = { state with yourTeam := effect.on state.yourTeam } := by
  rw [perform, ours]
  rfl

theorem perform_theirs {effect : Effect} (theirs : state.ours effect.ident = false) :
    state.perform effect = { state with opponentTeam := effect.on state.opponentTeam } := by
  rw [perform, theirs]
  rfl

/-- Edits of one team do not change what the other one knows. -/
theorem perform_knows {effect : Effect} (apart : state.ours ident ≠ state.ours effect.ident) :
    (state.perform effect).Knows ident ↔ state.Knows ident := by
  have side : (state.perform effect).ours ident = state.ours ident := editTeam_ours ..
  rw [Knows, Knows, side, perform, editTeam_other _ _ _ apart]

/-- Two messages about different sides, both of which can be applied, can be applied one after
the other in both orders, with the same result. The one about our side changes nothing but our
team, and the other one nothing but the opponent's. -/
theorem sides_independent (ours : first.about = some mine) (own : mine.side = state.yourSide)
    (others : second.about = some theirs) (foreign : theirs.side ≠ state.yourSide)
    (one : step parse state first = some left) (two : step parse state second = some right) :
    (∃ both, step parse left second = some both ∧ step parse right first = some both) ∧
      left = { state with yourTeam := left.yourTeam } ∧ right = { state with opponentTeam := right.opponentTeam } := by
  obtain ⟨effect, rfl, rfl, again⟩ := step_about ours one
  obtain ⟨effect', rfl, rfl, again'⟩ := step_about others two
  have yours : state.ours effect.ident = true := by simpa [BattleState.ours] using own
  have opponents : state.ours effect'.ident = false := by simpa [BattleState.ours] using foreign
  have after := again' (state.perform effect) (perform_knows (by simp [yours, opponents])).mp
  have after' := again (state.perform effect') (perform_knows (by simp [yours, opponents])).mp
  refine ⟨⟨_, after, ?_⟩, ?_, ?_⟩
  · have yours' : (state.perform effect').ours effect.ident = true := (editTeam_ours ..).trans yours
    have opponents' : (state.perform effect).ours effect'.ident = false := (editTeam_ours ..).trans opponents
    rw [after', perform_ours yours', perform_theirs opponents', perform_ours yours, perform_theirs opponents]
  · rw [perform_ours yours]
  · rw [perform_theirs opponents]

private def hoopas : BattleState :=
  { yourSide := "p1", yourTeam := [.sighted "p1a: Hoopa"], opponentTeam := [.sighted "p2a: Hoopa"] }

private def hoopaFalls : Message := { type := "faint", args := ["p1a: Hoopa"] }

private def hoopaEnters : Message := { type := "drag", args := ["p2b: Hoopa", "Hoopa", "100/100"] }

/-- Both sides have a Pokemon of the same name. -/
theorem sides_independent_hoopa :
    ∃ left right, step (fun _ => none) hoopas hoopaFalls = some left ∧ step (fun _ => none) hoopas hoopaEnters = some right ∧
      (∃ both, step (fun _ => none) left hoopaEnters = some both ∧ step (fun _ => none) right hoopaFalls = some both) ∧
      left = { hoopas with yourTeam := left.yourTeam } ∧ right = { hoopas with opponentTeam := right.opponentTeam } := by
  have falls : (step (fun _ => none) hoopas hoopaFalls).isSome := by decide +kernel
  have enters : (step (fun _ => none) hoopas hoopaEnters).isSome := by decide +kernel
  obtain ⟨left, one⟩ := Option.isSome_iff_exists.mp falls
  obtain ⟨right, two⟩ := Option.isSome_iff_exists.mp enters
  have ours : hoopaFalls.about = some { side := "p1", slot := 'a', name := "Hoopa" } := by decide +kernel
  have others : hoopaEnters.about = some { side := "p2", slot := 'b', name := "Hoopa" } := by decide +kernel
  exact ⟨left, right, one, two, sides_independent ours rfl others (by decide) one two⟩

end ShowdownCli.BattleState
