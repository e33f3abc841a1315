import ShowdownCli.Proofs.BattleHp
import ShowdownCli.Layers

/-! The HP that the screen of a battle shows. A record is created without numbers, and only
a condition that has them assigns both. -/

namespace ShowdownCli
open Library

/-- A condition whose current HP is at most the full one, or that of a fainted Pokemon. -/
def BoundedCondition (condition : String) : Prop :=
  condition = "0 fnt" ∨ ∃ current full status : List Char,
    condition.toList = current ++ '/' :: full ++ status ∧
      (current ≠ [] ∧ ∀ digit ∈ current, digit.isDigit) ∧ (full ≠ [] ∧ ∀ digit ∈ full, digit.isDigit) ∧
      decimal current ≤ decimal full ∧ (status = [] ∨ ∃ word, status = ' ' :: word)

/-- Both numbers are assigned, and in range. -/
def Pokemon.Shown (p : Pokemon) : Prop :=
  ∃ current max, p.hpCurrent = some current ∧ p.hpMax = some max ∧ 0 ≤ current ∧ current ≤ max

/-- The numbers of a bounded condition are in range, and only that of a fainted Pokemon has none. -/
theorem bounded_cases {condition : String} (bounded : BoundedCondition condition) {reading : Reading}
    (read : BattleState.readCondition condition = .ok reading) : condition = "0 fnt" ∧ reading = none ∨
      condition ≠ "0 fnt" ∧ ∃ current max, reading = some (current, max) ∧ 0 ≤ current ∧ current ≤ max := by
  by_cases fallen : condition = "0 fnt"
  · subst fallen
    cases fainted_unread.symm.trans read
    exact Or.inl ⟨rfl, rfl⟩
  · obtain ⟨current, full, status, text, first, second, less, ending⟩ := bounded.resolve_left fallen
    refine Or.inr ⟨fallen, _, _, numbers_read text first second ending read, ?_, ?_⟩
    · omega
    · omega

namespace Pokemon
variable {p : Pokemon} {reading : Reading}

theorem Shown.read (shown : p.Shown)
    (sound : ∀ current max, reading = some (current, max) → 0 ≤ current ∧ current ≤ max) :
    (p.read reading).Shown := by
  cases reading with
  | none => exact shown
  | some numbers =>
    obtain ⟨low, high⟩ := sound _ _ rfl
    exact ⟨_, _, rfl, rfl, low, high⟩

theorem Shown.faint (shown : p.Shown) : p.faint.Shown := by
  obtain ⟨current, max, _, known, low, high⟩ := shown
  exact ⟨0, max, rfl, known, Int.le_refl 0, Int.le_trans low high⟩

end Pokemon

namespace BattleState

/-- Every Pokemon of both teams has its numbers. -/
def Ranged (state : BattleState) : Prop := ∀ which, ∀ p ∈ state.team which, p.Shown

/-- Every condition in a message. -/
def Bounded (parse : String → Option Json) (msg : Message) : Prop :=
  (∀ ident condition, msg.report = some (ident, condition) → BoundedCondition condition) ∧
  ∀ j conditions, Requests parse msg j → requestConditions j = .ok conditions →
    ∀ condition ∈ conditions, BoundedCondition condition

/-- No record is created for a Pokemon that has fainted: the request that fixes our team lists none,
and who is switched in as fainted is known. -/
structure Fills (parse : String → Option Json) (state : BattleState) (msg : Message) : Prop where
  listed : state.yourSide = "" → ∀ j conditions, Requests parse msg j → requestConditions j = .ok conditions →
    "0 fnt" ∉ conditions
  entered : msg.type ∈ ["switch", "drag"] → ∀ ident, msg.report = some (ident, "0 fnt") → state.Knows ident

variable {parse : String → Option Json} {state after : BattleState} {msg : Message} {log : List Message}

theorem Ranged.perform_iff (ranged : state.Ranged) (effect : Effect) : (state.perform effect).Ranged ↔
    ∀ p, effect.record (state.found effect.ident) = some p → p.Shown := by
  constructor
  · intro shown p recorded
    refine shown (state.ours effect.ident) p ?_
    rw [perform_team, if_pos rfl]
    exact Keyed.lookup_mem ((effect.lookup_subject _).trans recorded)
  · intro subject which p member
    rw [perform_team] at member
    split at member
    next same =>
      subst same
      rcases Effect.mem_on member with ⟨old, before, rfl⟩ | recorded
      · have shown := ranged _ old before
        cases effect <;> exact shown
      · exact subject p recorded
    next => exact ranged which p member

theorem fills_silent (request : msg.type ≠ "request") (enters : msg.type ∉ ["switch", "drag"]) : Fills parse state msg :=
  ⟨fun _ _ _ requests => absurd requests.1 request, fun entering => absurd entering enters⟩

/-- A team is in range exactly when nobody on it has fainted. -/
theorem ranged_side {j : Json} {side : Side} {conditions : List String} (read : readSide j = .ok side)
    (texts : requestConditions j = .ok conditions) (bounded : ∀ condition ∈ conditions, BoundedCondition condition) :
    (∀ p ∈ side.pokemon, p.Shown) ↔ "0 fnt" ∉ conditions := by
  have related := requestConditions_read read texts
  constructor
  · intro shown fallen
    obtain ⟨i, text⟩ := List.mem_iff_getElem?.mp fallen
    obtain ⟨p, here, _, reading, readable, current, _⟩ := forall₂_getElem? related text
    cases fainted_unread.symm.trans readable
    obtain ⟨_, _, known, _⟩ := shown p (List.mem_of_getElem? here)
    cases current.symm.trans known
  · intro standing p member
    obtain ⟨i, here⟩ := List.mem_iff_getElem?.mp member
    obtain ⟨condition, text, _, reading, readable, current, max⟩ := forall₂_getElem? related.flip here
    have inside := List.mem_of_getElem? text
    rcases bounded_cases (bounded condition inside) readable with ⟨rfl, _⟩ | ⟨_, low, high, rfl, range⟩
    · exact absurd inside standing
    · exact ⟨low, high, current, max, range⟩

theorem ranged_first {j : Json} {side : Side} {moves : List MoveOption} (ranged : state.Ranged)
    (bounded : Bounded parse msg) (requests : Requests parse msg j) (unknown : state.yourSide = "")
    (read : readSide j = .ok side) : ((state.takeSide side).takeMoves j moves).Ranged ↔ Fills parse state msg := by
  obtain ⟨conditions, texts⟩ := requestConditions_total read
  have team := ranged_side read texts (bounded.2 j conditions requests texts)
  have fills : Fills parse state msg ↔ "0 fnt" ∉ conditions := by
    constructor
    · intro fills
      exact fills.listed unknown j conditions requests texts
    · intro standing
      refine ⟨?_, fun entering => absurd entering (by simp [requests.1])⟩
      intro _ j' conditions' requests' texts'
      cases (payload_some.mpr requests).symm.trans (payload_some.mpr requests')
      cases texts.symm.trans texts'
      exact standing
  rw [fills, ← team]
  constructor
  · intro shown p member
    exact shown true p member
  · intro shown which p member
    cases which with
    | true => exact shown p member
    | false => exact ranged false p (List.mem_of_mem_filter member)

theorem ranged_hp {text : String} {reading : Reading} (ranged : state.Ranged) (bounded : Bounded parse msg)
    (type : msg.type = "-damage" ∨ msg.type = "-heal") (ident : msg.args[0]? = some text)
    (read : state.Knows (parseIdent text) →
      ∃ condition, msg.args[1]? = some condition ∧ readCondition condition = .ok reading) :
    (state.perform (.hp text reading)).Ranged := by
  refine (ranged.perform_iff _).mpr fun p recorded => ?_
  obtain ⟨old, found, rfl⟩ := Option.map_eq_some_iff.mp recorded
  obtain ⟨condition, argument, readable⟩ := read (knows_found.mpr ⟨_, found⟩)
  have report : msg.report = some (parseIdent text, condition) := by
    rcases type with type | type <;> simp [Message.report, type, ident, argument]
  refine (ranged _ old (Keyed.lookup_mem found)).read fun current max numbers => ?_
  rcases bounded_cases (bounded.1 _ _ report) readable with ⟨_, none⟩ | ⟨_, low, high, some, range⟩
  · cases none.symm.trans numbers
  · cases some.symm.trans numbers
    exact range

theorem ranged_switch {text condition : String} {reading : Reading} (ranged : state.Ranged) (bounded : Bounded parse msg)
    (type : msg.type = "switch" ∨ msg.type = "drag") (ident : msg.args[0]? = some text)
    (argument : msg.args[2]? = some condition) (readable : readCondition condition = .ok reading) :
    (state.perform (.enter text reading)).Ranged ↔ Fills parse state msg := by
  have report : msg.report = some (parseIdent text, condition) := by
    rcases type with type | type <;> simp [Message.report, type, ident, argument]
  have fills : Fills parse state msg ↔ (condition = "0 fnt" → state.Knows (parseIdent text)) := by
    constructor
    · rintro fills rfl
      exact fills.entered (by simpa using type) _ report
    · intro known
      refine ⟨fun _ _ _ requests => ?_, fun _ other report' => ?_⟩
      · simp [requests.1] at type
      · cases report.symm.trans report'
        exact known rfl
  rw [ranged.perform_iff, fills]
  simp only [Effect.ident_enter, Effect.record, Option.some.injEq, forall_eq']
  rcases bounded_cases (bounded.1 _ _ report) readable with ⟨rfl, rfl⟩ | ⟨other, low, high, rfl, range⟩
  · cases resolved : state.found (parseIdent text) with
    | none =>
      have unknown : ¬ state.Knows (parseIdent text) := Keyed.lookup_none.mp resolved
      refine iff_of_false ?_ fun known => unknown (known rfl)
      rintro ⟨_, _, assigned, _⟩
      cases assigned
    | some old =>
      refine iff_of_true ?_ fun _ => knows_found.mpr ⟨_, resolved⟩
      exact ranged _ old (Keyed.lookup_mem resolved)
  · exact iff_of_true ⟨low, high, rfl, rfl, range⟩ fun same => absurd same other

/-- The numbers stay in range exactly when no record is created without them. -/
theorem ranged_step (ranged : state.Ranged) (bounded : Bounded parse msg) (taken : step parse state msg = some after) :
    after.Ranged ↔ Fills parse state msg := by
  cases step_iff.mp taken with
  | first requests unknown read => exact ranged_first ranged bounded requests unknown read
  | switch type ident argument read => exact ranged_switch ranged bounded type ident argument read
  | hp type ident read =>
    refine iff_of_true (ranged_hp ranged bounded type ident read) (fills_silent ?_ ?_) <;>
      rcases type with type | type <;> simp [type]
  | faint type ident =>
    refine iff_of_true ((ranged.perform_iff _).mpr ?_) (fills_silent (by simp [type]) (by simp [type]))
    intro p recorded
    obtain ⟨old, found, rfl⟩ := Option.map_eq_some_iff.mp recorded
    exact (ranged _ old (Keyed.lookup_mem found)).faint
  | blank type payload =>
    refine iff_of_true ranged ⟨?_, fun entering => absurd entering (by simp [type])⟩
    rintro _ j conditions ⟨_, _, argument, filled, _⟩
    cases payload.symm.trans argument
    exact absurd rfl filled
  | later requests known =>
    refine iff_of_true (fun which p member => ?_) ⟨fun unknown => absurd unknown known, fun entering => ?_⟩
    · exact ranged which p (by cases which <;> exact member)
    · exact absurd entering (by simp [requests.1])
  | turn type =>
    refine iff_of_true (fun which p member => ?_) (fills_silent (by simp [type]) (by simp [type]))
    exact ranged which p (by cases which <;> exact member)
  | other type =>
    simp only [List.mem_cons, List.not_mem_nil, or_false, not_or] at type
    exact iff_of_true ranged (fills_silent (by simp [type]) (by simp [type]))

end BattleState

namespace BattleLayer
variable {p : Pokemon}

theorem renderPokemon_shown (shown : p.Shown) (index : Nat) : Succeeds (renderPokemon index p) := by
  obtain ⟨current, max, first, second, _⟩ := shown
  unfold renderPokemon
  rw [first, second]
  exact succeeds_bind.mpr ⟨_, rfl, succeeds_bind.mpr ⟨_, rfl, succeeds_ok _⟩⟩

theorem renderOpponent_shown (shown : p.Shown) (index : Nat) : Succeeds (renderOpponent index p) := by
  obtain ⟨line, printed⟩ := renderPokemon_shown shown index
  exact succeeds_bind.mpr ⟨line, printed, succeeds_ok _⟩

theorem renderOurs_shown {state : BattleState} (member : p ∈ state.yourTeam) (shown : p.Shown) (index : Nat) :
    Succeeds (renderOurs state index p) := by
  obtain ⟨line, printed⟩ := renderPokemon_shown shown index
  refine succeeds_bind.mpr ⟨line, printed, ?_⟩
  split
  next =>
    have active : Succeeds state.activePokemon := by
      unfold BattleState.activePokemon
      split
      next => exact succeeds_ok _
      next =>
        cases team : state.yourTeam with
        | nil => simp [team] at member
        | cons first rest => exact succeeds_ok first
    obtain ⟨pkm, found⟩ := active
    exact succeeds_bind.mpr ⟨pkm, found, succeeds_ok _⟩
  next => exact succeeds_bind.mpr ⟨_, rfl, succeeds_ok _⟩

/-- A battle whose numbers are in range can be printed. -/
theorem onRender_shown {battle : BattleLayer} (ranged : battle.state.Ranged) : Succeeds battle.onRender := by
  have opponents : Succeeds (battle.state.opponentTeam.zipIdx.mapM fun item => renderOpponent item.2 item.1) := by
    refine succeeds_mapM.mpr fun item member => renderOpponent_shown (ranged false item.1 ?_) _
    exact List.fst_mem_of_mem_zipIdx member
  have ours : Succeeds (battle.state.yourTeam.zipIdx.mapM fun item => renderOurs battle.state item.2 item.1) := by
    refine succeeds_mapM.mpr fun item member => ?_
    have inside := List.fst_mem_of_mem_zipIdx member
    exact renderOurs_shown inside (ranged true item.1 inside) _
  obtain ⟨theirs, printed⟩ := opponents
  obtain ⟨lines, printed'⟩ := ours
  exact succeeds_bind.mpr ⟨theirs, printed, succeeds_bind.mpr ⟨lines, printed', succeeds_ok _⟩⟩

end BattleLayer

namespace BattleState
variable {parse : String → Option Json} {log : List Message} {final : BattleState}

/-- Every state that the messages lead to has its numbers in range, and a battle can print it. -/
def Displays (parse : String → Option Json) (done : List Message) : Prop :=
  ∀ state, Runs.exec (step parse) {} done = some state →
    state.Ranged ∧ ∀ battle : BattleLayer, battle.state = state → Succeeds battle.onRender

theorem displays_iff {done : List Message} {state : BattleState} (reached : Runs.exec (step parse) {} done = some state) :
    Displays parse done ↔ state.Ranged := by
  constructor
  · intro displays
    exact (displays state reached).1
  · intro ranged other reached'
    cases reached.symm.trans reached'
    refine ⟨ranged, ?_⟩
    rintro battle rfl
    exact BattleLayer.onRender_shown ranged

/-- In a battle whose conditions are all in range, what is shown is in range throughout exactly when
no Pokemon is first recorded as fainted. -/
theorem displays_all_iff (bounded : ∀ msg ∈ log, Bounded parse msg)
    (reached : Runs.exec (step parse) {} log = some final) :
    (∀ done, done <+: log → Displays parse done) ↔ Runs.Guarded (step parse) (Fills parse) {} log := by
  have initial : Displays parse [] := by
    refine (displays_iff rfl).mpr ?_
    intro which p member
    cases which <;> cases member
  apply Runs.prefixes_iff log initial
  intro done msg inside earlier
  obtain ⟨after, extended⟩ := Runs.exec_earlier inside reached
  obtain ⟨before, middle, taken⟩ := Runs.exec_concat_some extended
  have ranged := (displays_iff middle).mp (earlier done (List.prefix_refl _))
  rw [displays_iff extended, ranged_step ranged (bounded msg (inside.subset (by simp))) taken]
  constructor
  · intro fills state same
    cases middle.symm.trans same
    exact fills
  · intro fills
    exact fills before middle

theorem bounded_request {msg : Message} {j : Json} {conditions : List String} (requests : Requests parse msg j)
    (texts : requestConditions j = .ok conditions) (each : ∀ condition ∈ conditions, BoundedCondition condition) :
    Bounded parse msg := by
  refine ⟨?_, ?_⟩
  · intro ident condition report
    simp [Message.report, requests.1] at report
  · intro j' conditions' requests' texts'
    cases (payload_some.mpr requests).symm.trans (payload_some.mpr requests')
    cases texts.symm.trans texts'
    exact each

theorem bounded_report {msg : Message} {ident : Ident} {condition : String} (other : msg.type ≠ "request")
    (report : msg.report = some (ident, condition)) (bounded : BoundedCondition condition) : Bounded parse msg := by
  refine ⟨?_, fun _ _ requests => absurd requests.1 other⟩
  intro ident' condition' report'
  cases report.symm.trans report'
  exact bounded

private def rested : Listing := ⟨"p1", [("p1: Pikachu", true, "35/35")]⟩

private def bout : List Message :=
  [rested.request, { type := "switch", args := ["p2a: Hoopa", "Hoopa", "90/100 par"] },
    { type := "-damage", args := ["p2a: Hoopa", "0 fnt"] }]

private theorem rested_bounded : BoundedCondition "35/35" :=
  Or.inr ⟨['3', '5'], ['3', '5'], [], rfl, ⟨by simp, List.all_eq_true.mp rfl⟩, ⟨by simp, List.all_eq_true.mp rfl⟩,
    by decide, Or.inl rfl⟩

private theorem bout_bounded : ∀ msg ∈ bout, Bounded (Listing.parse [rested]) msg := by
  have hurt : BoundedCondition "90/100 par" := Or.inr ⟨['9', '0'], ['1', '0', '0'], [' ', 'p', 'a', 'r'], rfl,
    ⟨by simp, List.all_eq_true.mp rfl⟩, ⟨by simp, List.all_eq_true.mp rfl⟩, by decide, Or.inr ⟨_, rfl⟩⟩
  intro msg member
  simp only [bout, List.mem_cons, List.not_mem_nil, or_false] at member
  rcases member with rfl | rfl | rfl
  · exact bounded_request (Listing.requests (by decide +kernel) (by decide +kernel)) rfl (by simpa using rested_bounded)
  · exact bounded_report (by simp) rfl hurt
  · exact bounded_report (by simp) rfl (Or.inl rfl)

theorem displays_all_iff_bout :
    ∃ final, Runs.exec (step (Listing.parse [rested])) {} bout = some final ∧
      ((∀ done, done <+: bout → Displays (Listing.parse [rested]) done) ↔
        Runs.Guarded (step (Listing.parse [rested])) (Fills (Listing.parse [rested])) {} bout) := by
  have run : (Runs.exec (step (Listing.parse [rested])) {} bout).isSome := by decide +kernel
  obtain ⟨final, reached⟩ := Option.isSome_iff_exists.mp run
  exact ⟨final, reached, displays_all_iff bout_bounded reached⟩

private def weary : Listing := ⟨"p1", [("p1: Pikachu", true, "35/35"), ("p1: Raichu", false, "0 fnt")]⟩

/-- One that has fainted before the first request is listed without numbers, and printed all the same. -/
theorem fainted_unassigned :
    (∃ state, Runs.exec (step (Listing.parse [weary])) {} [weary.request] = some state ∧
      ¬ Succeeds (BattleLayer.onRender { state })) ∧
    (∀ msg ∈ [weary.request], Bounded (Listing.parse [weary]) msg) ∧
    ¬ ∀ done, done <+: [weary.request] → Displays (Listing.parse [weary]) done := by
  have shown : (Runs.exec (step (Listing.parse [weary])) {} [weary.request]).map
      (fun state => (BattleLayer.onRender { state }).toOption) = some none := by decide +kernel
  obtain ⟨state, reached, faults⟩ := Option.map_eq_some_iff.mp shown
  have unprinted : ¬ Succeeds (BattleLayer.onRender { state }) := by
    rintro ⟨text, printed⟩
    cases faults.symm.trans (toOption_some.mpr printed)
  refine ⟨⟨state, reached, unprinted⟩, ?_, ?_⟩
  · intro msg member
    rw [List.mem_singleton.mp member]
    refine bounded_request (Listing.requests (by decide +kernel) (by decide +kernel)) rfl ?_
    simpa using ⟨rested_bounded, Or.inl rfl⟩
  · intro displays
    exact unprinted ((displays _ (List.prefix_refl _) state reached).2 { state } rfl)

end BattleState
end ShowdownCli
