import ShowdownCli.Proofs.BattleSides

/-! Which Pokemon are active. A switch clears the flag of a whole team before it
sets one; every other message can only clear it. -/

namespace ShowdownCli
open Library

/-- At most one Pokemon is active. -/
def Single (team : List Pokemon) : Prop := team.countP Pokemon.active ≤ 1

namespace Effect

/-- After a switch the Pokemon found under its name is the only active one. -/
theorem enter_active (text : String) (reading : Reading) (team : List Pokemon) :
    ∃ p, ((Effect.enter text reading).on team).filter Pokemon.active = [p] ∧
      Keyed.lookup Pokemon.name (parseIdent text).name ((Effect.enter text reading).on team) = some p := by
  have enrolled := Keyed.enroll_mem (Pokemon.sighted_name text) (team.map Pokemon.deactivate)
  have inactive : ∀ p ∈ Keyed.enroll Pokemon.name (parseIdent text).name (.sighted text) (team.map Pokemon.deactivate),
      p.active = false := by
    intro p member
    unfold Keyed.enroll at member
    split at member
    · obtain ⟨old, _, rfl⟩ := List.mem_map.mp member
      rfl
    · rcases List.mem_append.mp member with member | last
      · obtain ⟨old, _, rfl⟩ := List.mem_map.mp member
        rfl
      · rw [List.mem_singleton.mp last]
        rfl
  obtain ⟨first, item, rest, whole, absent, named, touched⟩ :=
    Keyed.touch_split (fun p : Pokemon => p.enter.read reading) enrolled
  rw [whole] at inactive
  have before : first.filter Pokemon.active = [] :=
    List.filter_eq_nil_iff.mpr fun p member => by simp [inactive p (by simp [member])]
  have after : rest.filter Pokemon.active = [] :=
    List.filter_eq_nil_iff.mpr fun p member => by simp [inactive p (by simp [member])]
  refine ⟨item.enter.read reading, ?_, ?_⟩
  · rw [on, touched, List.filter_append, before, List.filter_cons_of_pos (by simp [Pokemon.enter]), after]
    rfl
  · rw [on, touched, Keyed.lookup, List.find?_append, ← Keyed.lookup, Keyed.lookup_none.mpr absent]
    simp [named]

theorem single_on (effect : Effect) {team : List Pokemon} (single : Single team) : Single (effect.on team) := by
  cases effect with
  | hp text reading =>
    have same : (on (.hp text reading) team).map Pokemon.active = team.map Pokemon.active :=
      Keyed.touch_map (Pokemon.read_active reading) team
    have counts := congrArg (List.countP id) same
    simp only [List.countP_map] at counts
    exact counts.trans_le single
  | faint text =>
    by_cases known : (parseIdent text).name ∈ team.map Pokemon.name
    · obtain ⟨first, item, rest, rfl, _, _, touched⟩ := Keyed.touch_split Pokemon.faint known
      rw [on, touched]
      unfold Single at single ⊢
      rw [List.countP_append, List.countP_cons_of_neg (by simp [Pokemon.faint])]
      rw [List.countP_append, List.countP_cons] at single
      omega
    · rwa [on, Keyed.touch_absent known]
  | enter text reading =>
    obtain ⟨p, alone, _⟩ := enter_active text reading team
    rw [Single, List.countP_eq_length_filter, alone]
    rfl

end Effect

namespace BattleState

/-- Whether a request marks a Pokemon as active. -/
def marksActive (p : Json) : Bool :=
  match p.constMember "active" with
  | .ok (.bool active) => active
  | _ => false

/-- How many of its Pokemon a request marks as active. -/
def marked (j : Json) : Nat :=
  match requestPokemon j with
  | .ok listed => listed.countP marksActive
  | .error _ => 0

theorem marked_read {j : Json} {side : Side} (read : readSide j = .ok side) :
    side.pokemon.countP Pokemon.active = marked j := by
  obtain ⟨listed, found, reads⟩ := readSide_pokemon read
  rw [marked, found]
  show _ = listed.countP marksActive
  clear found read
  generalize side.pokemon = team at reads ⊢
  induction reads with
  | nil => rfl
  | cons first _ ih => rw [List.countP_cons, List.countP_cons, ih, marksActive, (readPokemon_ok first).2.1]

variable {parse : String → Option Json}

def SingleActive (state : BattleState) : Prop := Single state.yourTeam ∧ Single state.opponentTeam

theorem SingleActive.perform {state : BattleState} (single : state.SingleActive) (effect : Effect) :
    (state.perform effect).SingleActive := by
  unfold BattleState.perform editTeam
  split
  · exact ⟨effect.single_on single.1, single.2⟩
  · exact ⟨single.1, effect.single_on single.2⟩

theorem SingleActive.step {state after : BattleState} (single : state.SingleActive) {msg : Message}
    (lawful : ∀ j, Requests parse msg j → marked j ≤ 1) (taken : step parse state msg = some after) :
    after.SingleActive := by
  cases step_iff.mp taken with
  | first request _ read =>
    refine ⟨(marked_read read).trans_le (lawful _ request), ?_⟩
    exact (List.Sublist.countP_le List.filter_sublist).trans single.2
  | hp | faint | switch => exact single.perform _
  | blank | later | turn | other => exact single

/-- In every state each team has one active Pokemon at most; a switch or drag makes
it the one it names; and the one of our team is the one the client takes for it. -/
theorem single_active {log : List Message} {state : BattleState}
    (lawful : ∀ msg ∈ log, ∀ j, Requests parse msg j → marked j ≤ 1)
    (reached : Runs.exec (step parse) {} log = some state) :
    state.SingleActive ∧
      (∀ msg text after, msg.type = "switch" ∨ msg.type = "drag" → msg.args[0]? = some text →
        step parse state msg = some after →
        ∃ p, (after.team (after.ours (parseIdent text))).filter Pokemon.active = [p] ∧
          (after.team (after.ours (parseIdent text))).find? (fun q => q.name = (parseIdent text).name) = some p) ∧
      ∀ p ∈ state.yourTeam, p.active → state.activePokemon = .ok p := by
  have single : state.SingleActive := by
    refine Runs.always (fun done state => done <+: log → state.SingleActive) ?_ ?_ reached (List.prefix_refl _)
    · exact fun _ => ⟨by simp [Single], by simp [Single]⟩
    · intro done msg before after prior taken inside
      exact (prior ((List.prefix_append ..).trans inside)).step (lawful msg (inside.subset (by simp))) taken
  refine ⟨single, ?_, ?_⟩
  · intro msg text after type argument taken
    cases step_iff.mp taken with
    | switch _ ident =>
      cases argument.symm.trans ident
      simp only [perform, Effect.ident_enter, editTeam_ours, editTeam_team]
      exact Effect.enter_active ..
    | first request | later request => rcases type with type | type <;> simp [request.1] at type
    | blank other | hp other | faint other | turn other | other other =>
      rcases type with type | type <;> simp [type] at other
  · intro p member active
    have among : p ∈ state.yourTeam.filter Pokemon.active := List.mem_filter.mpr ⟨member, active⟩
    have alone : state.yourTeam.filter Pokemon.active = [p] := by
      have short := single.1
      rw [Single, List.countP_eq_length_filter] at short
      obtain ⟨q, only⟩ := List.length_eq_one_iff.mp (le_antisymm short (List.length_pos_of_mem among))
      rw [only] at among ⊢
      rw [List.mem_singleton.mp among]
    have found : state.yourTeam.find? (fun p => p.active) = some p := by
      rw [← List.head?_filter, alone]
      rfl
    rw [activePokemon, found]

private def lead : Listing := ⟨"p1", [("p1: Pikachu", true, "35/35"), ("p1: Eevee", false, "0 fnt")]⟩

private def sendingOut : List Message :=
  [{ type := "switch", args := ["p1a: Pikachu", "Pikachu", "35/35"] },
    { type := "switch", args := ["p2a: Hoopa", "Hoopa", "100/100"] }, lead.request,
    { type := "drag", args := ["p2a: Snorlax", "Snorlax", "80/100 slp"] },
    { type := "faint", args := ["p2a: Snorlax"] }]

private def comeback : Message := { type := "drag", args := ["p2a: Hoopa", "Hoopa", "64/100"] }

/-- Both leads are sent out before the request, and one of them is replaced and comes back. -/
theorem single_active_lead :
    ∃ state after p, Runs.exec (step (Listing.parse [lead])) {} sendingOut = some state ∧
      step (Listing.parse [lead]) state comeback = some after ∧
      (after.team (after.ours (parseIdent "p2a: Hoopa"))).filter Pokemon.active = [p] ∧
      (after.team (after.ours (parseIdent "p2a: Hoopa"))).find? (fun q => q.name = (parseIdent "p2a: Hoopa").name) = some p ∧
      state.SingleActive ∧ ∀ p ∈ state.yourTeam, p.active → state.activePokemon = .ok p := by
  have run : (Runs.exec (step (Listing.parse [lead])) {} (sendingOut ++ [comeback])).isSome := by decide +kernel
  obtain ⟨after, reached⟩ := Option.isSome_iff_exists.mp run
  obtain ⟨state, reached, taken⟩ := Runs.exec_concat_some reached
  have lawful (j : Json) (payload : String) (parsed : Listing.parse [lead] payload = some j) : marked j ≤ 1 := by
    simp only [Listing.parse, List.find?_cons, List.find?_nil] at parsed
    split at parsed
    · cases parsed
      decide
    · cases parsed
  have requests : ∀ msg ∈ sendingOut, ∀ j, Requests (Listing.parse [lead]) msg j → marked j ≤ 1 := by
    intro msg member j request
    obtain ⟨_, payload, _, _, parsed⟩ := request
    exact lawful j payload parsed
  obtain ⟨single, entered, ours⟩ := single_active requests reached
  obtain ⟨p, alone, named⟩ := entered comeback "p2a: Hoopa" after (.inr rfl) rfl taken
  exact ⟨state, after, p, reached, taken, alone, named, single, ours⟩

end BattleState
end ShowdownCli
