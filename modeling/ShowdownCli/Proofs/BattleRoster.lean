import ShowdownCli.Proofs.BattleSides

/-! The opponent's roster. After the request that fixes our side, it grows by
exactly the Pokemon that are switched or dragged in on the other side. -/

namespace ShowdownCli.BattleState
open Library

variable {parse : String → Option Json} {side : String} {log : List Message} {state after : BattleState}
  {msg : Message}

/-- Before any switch and any request nothing is known of either side. -/
theorem step_blank (silent : msg.entering = none) (noRequest : ∀ j, ¬ Requests parse msg j)
    (taken : step parse state msg = some after) (unknown : state.yourSide = "") (empty : state.opponentTeam = []) :
    after.yourSide = "" ∧ after.opponentTeam = [] := by
  have idle {effect : Effect} (nothing : effect.on [] = []) :
      (state.perform effect).yourSide = "" ∧ (state.perform effect).opponentTeam = [] := by
    refine ⟨by rw [perform_yourSide, unknown], ?_⟩
    have team := perform_team state effect false
    simp only [BattleState.team, Bool.false_eq_true, if_false, empty, nothing, ite_self] at team
    exact team
  cases step_iff.mp taken with
  | first request | later request => exact absurd request (noRequest _)
  | hp | faint => exact idle rfl
  | switch type ident => rcases type with type | type <;> simp [Message.entering, type, ident] at silent
  | blank | turn | other => exact ⟨unknown, empty⟩

/-- The opponent's team as the messages after our first request describe it. -/
structure Roster (side : String) (log : List Message) (state : BattleState) : Prop where
  known : state.yourSide = side
  names : names state.opponentTeam = (log.filterMap (Message.joining side false)).eraseDups
  apart : ∀ p ∈ state.opponentTeam, (parseIdent p.ident).side ≠ side

/-- An effect on the opponent's team records identifiers of that side only. -/
theorem apart_on {effect : Effect} (theirs : effect.ident.side ≠ side) {team : List Pokemon}
    (apart : ∀ p ∈ team, (parseIdent p.ident).side ≠ side) : ∀ p ∈ effect.on team, (parseIdent p.ident).side ≠ side := by
  intro p member
  rcases Effect.mem_on member with ⟨old, present, rfl⟩ | recorded
  · simpa using apart old present
  · cases found : Keyed.lookup Pokemon.name effect.subject team with
    | none =>
      rw [found] at recorded
      cases effect <;> cases recorded
      simpa [Pokemon.enter, Pokemon.sighted] using theirs
    | some old =>
      rw [found] at recorded
      have kept := apart old (Keyed.lookup_mem found)
      cases effect <;> cases recorded <;> simpa [Pokemon.enter, Pokemon.deactivate, Pokemon.faint] using kept

theorem step_apart (known : state.yourSide ≠ "") (taken : step parse state msg = some after)
    (apart : ∀ p ∈ state.opponentTeam, (parseIdent p.ident).side ≠ state.yourSide) :
    ∀ p ∈ after.opponentTeam, (parseIdent p.ident).side ≠ state.yourSide := by
  have performed (effect : Effect) :
      ∀ p ∈ (state.perform effect).opponentTeam, (parseIdent p.ident).side ≠ state.yourSide := by
    have team := perform_team state effect false
    simp only [BattleState.team, Bool.false_eq_true, if_false] at team
    rw [team]
    split
    next theirs => exact apart_on (by simpa [ours] using theirs) apart
    · exact apart
  cases step_iff.mp taken with
  | first _ unknown => exact absurd unknown known
  | hp | faint | switch => exact performed _
  | blank | later | turn | other => exact apart

theorem Roster.step (nonempty : side ≠ "") (roster : Roster side log state)
    (taken : BattleState.step parse state msg = some after) : Roster side (log ++ [msg]) after := by
  obtain ⟨rfl, named, apart⟩ := roster
  refine ⟨step_known nonempty taken, ?_, step_apart nonempty taken apart⟩
  have grown := step_names nonempty taken false
  simp only [team, Bool.false_eq_true, if_false] at grown
  rw [grown, named, ← Keyed.grown_empty, Keyed.grown_grown, Keyed.grown_empty, Log.filterMap_concat]

/-- The first request leaves nothing in the opponent's team. -/
theorem Roster.initial (fixes : fixing parse msg = some side) (unknown : state.yourSide = "")
    (empty : state.opponentTeam = []) (taken : BattleState.step parse state msg = some after) :
    Roster side [] after := by
  obtain ⟨_, read, _, _, _, rfl, rfl⟩ := step_fixing fixes unknown taken
  exact ⟨rfl, by simp [takeMoves, takeSide, empty], by simp [takeMoves, takeSide, empty]⟩

/-- The roster of a battle in which nobody was brought in before the request that
fixes our side. -/
theorem opponent_roster {before after : List Message} {request : Message}
    (opening : ∀ msg ∈ before, msg.entering = none ∧ ∀ j, ¬ Requests parse msg j)
    (fixes : fixing parse request = some side)
    (reached : Runs.exec (step parse) {} (before ++ request :: after) = some state) :
    (names state.opponentTeam).Nodup ∧
      names state.opponentTeam = (after.filterMap (Message.joining side false)).eraseDups ∧
      (∀ p ∈ state.opponentTeam, (parseIdent p.ident).side ≠ side) ∧
      ∀ msg next, step parse state msg = some next → (∀ ident, msg.about = some ident → ident.side = side) →
        next.opponentTeam = state.opponentTeam := by
  have nonempty := (fixing_some.mp fixes).1
  rw [Runs.exec_append] at reached
  obtain ⟨blank, opened, rest⟩ := Option.bind_eq_some_iff.mp reached
  rw [Runs.exec_cons] at rest
  obtain ⟨middle, fixed, rest⟩ := Option.bind_eq_some_iff.mp rest
  have unknown : blank.yourSide = "" ∧ blank.opponentTeam = [] := by
    refine Runs.always (fun done state => done <+: before → state.yourSide = "" ∧ state.opponentTeam = []) ?_ ?_
      opened (List.prefix_refl _)
    · exact fun _ => ⟨rfl, rfl⟩
    · intro done msg state next prior taken inside
      have prior := prior ((List.prefix_append ..).trans inside)
      have quiet := opening msg (inside.subset (by simp))
      exact step_blank quiet.1 quiet.2 taken prior.1 prior.2
  have roster : Roster side after state :=
    Runs.always (Roster side) (Roster.initial fixes unknown.1 unknown.2 fixed)
      (fun _ _ _ _ prior taken => prior.step nonempty taken) rest
  have distinct : (names state.opponentTeam).Nodup := by
    rw [roster.names, ← Keyed.grown_empty]
    exact Keyed.nodup_grown List.nodup_nil _
  refine ⟨distinct, roster.names, roster.apart, ?_⟩
  intro msg next taken own
  have untouched : next.team false = state.team false :=
    step_bystander (roster.known ▸ nonempty) taken fun ident about => by simp [ours, own ident about, roster.known]
  simpa [team] using untouched

private def returning : List Message :=
  [{ type := "switch", args := ["p2a: Hoopa", "Hoopa", "100/100"] },
    { type := "switch", args := ["p1a: Pikachu", "Pikachu", "35/35"] },
    { type := "drag", args := ["p2a: Snorlax", "Snorlax", "80/100 slp"] },
    { type := "switch", args := ["p2a: Hoopa", "Hoopa", "90/100"] }]

/-- Both sides bring Pokemon in, one of them twice, after a blank request. -/
theorem opponent_roster_returning :
    ∃ state, Runs.exec (step (Listing.parse [⟨"p1", []⟩])) {}
        ([{ type := "request", args := [""] }] ++ Listing.request ⟨"p1", []⟩ :: returning) = some state ∧
      names state.opponentTeam = ["Hoopa", "Snorlax"] ∧ ∀ p ∈ state.opponentTeam, (parseIdent p.ident).side ≠ "p1" := by
  have run : (Runs.exec (step (Listing.parse [⟨"p1", []⟩])) {}
      ([{ type := "request", args := [""] }] ++ Listing.request ⟨"p1", []⟩ :: returning)).isSome := by decide +kernel
  obtain ⟨state, reached⟩ := Option.isSome_iff_exists.mp run
  have opening : ∀ msg ∈ [({ type := "request", args := [""] } : Message)],
      msg.entering = none ∧ ∀ j, ¬ Requests (Listing.parse [⟨"p1", []⟩]) msg j := by
    intro msg member
    rw [List.mem_singleton.mp member]
    refine ⟨rfl, ?_⟩
    rintro j ⟨_, payload, argument, filled, _⟩
    cases argument
    exact filled rfl
  have fixes : fixing (Listing.parse [⟨"p1", []⟩]) (Listing.request ⟨"p1", []⟩) = some "p1" := by decide +kernel
  have roster := opponent_roster opening fixes reached
  exact ⟨state, reached, roster.2.1, roster.2.2.1⟩

end ShowdownCli.BattleState
