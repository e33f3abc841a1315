import ShowdownCli.Proofs.BattleSides

/-! Fainted Pokemon. A fainted Pokemon should have no HP and not be active, and one
that a request lists as fainted should be known as such. The handlers keep this
except where a later message revives a Pokemon without clearing the flag, and
where the first request sets the flag to false for everyone. -/

namespace ShowdownCli.BattleState
open Library

variable {parse : String → Option Json} {state after : BattleState} {msg : Message}

/-- A message that brings a Pokemon back with some HP. -/
def Revives (side name : String) (msg : Message) : Prop :=
  msg.type ∈ ["switch", "drag", "-heal"] ∧
    ∃ ident condition, msg.report = some (ident, condition) ∧ ident.side = side ∧ ident.name = name ∧
      0 < currentHp condition

def Down (p : Pokemon) : Prop := p.fainted = true → p.hpCurrent = some 0 ∧ p.active = false

def AllDown (state : BattleState) : Prop := ∀ which, ∀ p ∈ state.team which, Down p

/-- What the flags should say after a log. A request that comes while our side is unknown
builds our team, and what it lists as fainted should be so from then on. -/
structure FaintedRight (parse : String → Option Json) (log : List Message) (state : BattleState) : Prop where
  down : state.AllDown
  listed : ∀ before request rest side j (conditions : List String) (i : Nat), log = before ++ request :: rest →
    opened parse before = [] → Requests parse request j → sideId j = .ok side → requestConditions j = .ok conditions →
      conditions[i]? = some "0 fnt" →
        ∃ p : Pokemon, state.yourTeam[i]? = some p ∧ ((∀ msg ∈ rest, ¬ Revives side p.name msg) → p.fainted = true)

/-- A message that does not go against the flags: HP for a fainted Pokemon is none,
and a request that builds our team lists no fainted Pokemon. -/
structure Careful (parse : String → Option Json) (state : BattleState) (msg : Message) : Prop where
  hp : msg.type = "-damage" ∨ msg.type = "-heal" → ∀ ident condition current max p,
    msg.report = some (ident, condition) → readCondition condition = .ok (some (current, max)) →
      state.found ident = some p → p.fainted = true → current = 0
  first : state.yourSide = "" → ∀ j conditions, Requests parse msg j → requestConditions j = .ok conditions →
    "0 fnt" ∉ conditions

theorem takeSide_down {j : Json} {side : Side} (read : readSide j = .ok side) (down : state.AllDown) :
    (state.takeSide side).AllDown := by
  intro which p member
  cases which with
  | true =>
    obtain ⟨listed, _, reads⟩ := readSide_pokemon read
    obtain ⟨i, inside⟩ := List.mem_iff_getElem?.mp member
    obtain ⟨source, _, read⟩ := forall₂_getElem? reads.flip inside
    intro fainted
    cases fainted.symm.trans (readPokemon_ok read).2.2.1
  | false => exact down false p (List.mem_of_mem_filter member)

theorem perform_down (down : state.AllDown) (effect : Effect)
    (subject : ∀ p, effect.record (state.found effect.ident) = some p → Down p) : (state.perform effect).AllDown := by
  intro which p member
  rw [perform_team] at member
  split at member
  next same =>
    rcases Effect.mem_on member with ⟨old, present, rfl⟩ | recorded
    · have before := down which old present
      cases effect with
      | hp | faint => exact before
      | enter => exact fun fainted => ⟨(before fainted).1, rfl⟩
    · subst same
      exact subject p recorded
  · exact down which p member

theorem step_down (down : state.AllDown) (careful : Careful parse state msg)
    (taken : step parse state msg = some after) : after.AllDown := by
  cases step_iff.mp taken with
  | first _ _ read => exact takeSide_down read down
  | @hp text reading type ident read =>
    refine perform_down down _ fun p recorded => ?_
    obtain ⟨old, known, rfl⟩ := Option.map_eq_some_iff.mp recorded
    have before := down _ old (Keyed.lookup_mem known)
    cases reading with
    | none => exact before
    | some numbers =>
      obtain ⟨current, max⟩ := numbers
      obtain ⟨condition, argument, readable⟩ := read (knows_found.mpr ⟨_, known⟩)
      have report : msg.report = some (parseIdent text, condition) := by
        rcases type with type | type <;> simp [Message.report, type, ident, argument]
      intro fainted
      have nothing := careful.hp type _ _ _ _ old report readable known fainted
      exact ⟨congrArg some nothing, (before fainted).2⟩
  | faint =>
    refine perform_down down _ fun p recorded => ?_
    obtain ⟨old, known, rfl⟩ := Option.map_eq_some_iff.mp recorded
    exact fun _ => ⟨rfl, rfl⟩
  | switch =>
    refine perform_down down _ fun p recorded => ?_
    simp only [Effect.record, Option.some.injEq] at recorded
    subst recorded
    intro fainted
    simp [Pokemon.enter] at fainted
  | blank | later | turn | other => exact down

/-- HP for a fainted Pokemon is recorded, and the Pokemon stays fainted. -/
theorem hp_careful (down : after.AllDown) (taken : step parse state msg = some after)
    (type : msg.type = "-damage" ∨ msg.type = "-heal") {ident : Ident} {condition : String} {current max : Int}
    {p : Pokemon} (report : msg.report = some (ident, condition))
    (readable : readCondition condition = .ok (some (current, max))) (known : state.found ident = some p)
    (fainted : p.fainted = true) : current = 0 := by
  have listed : msg.type ∈ ["-damage", "-heal"] := by simpa using type
  simp only [Message.report, if_pos listed, Option.bind_eq_bind, Option.bind_eq_some_iff, Option.pure_def,
    Option.some.injEq, Prod.mk.injEq] at report
  obtain ⟨text, argument, _, argument', rfl, rfl⟩ := report
  have performed : after = state.perform (.hp text (some (current, max))) := by
    cases step_iff.mp taken with
    | hp _ ident read =>
      cases argument.symm.trans ident
      obtain ⟨_, argument'', readable'⟩ := read (knows_found.mpr ⟨_, known⟩)
      cases argument'.symm.trans argument''
      cases readable.symm.trans readable'
      rfl
    | first request | later request => rcases type with type | type <;> simp [request.1] at type
    | blank other | faint other | turn other => rcases type with type | type <;> simp [type] at other
    | switch other | other other => rcases type with type | type <;> simp [type] at other
  have recorded : (after.found (parseIdent text)) = some (p.read (some (current, max))) := by
    rw [found, performed, perform_team]
    simp only [Effect.ident_hp, ours, perform_yourSide, if_true]
    rw [show (parseIdent text).name = (Effect.hp text (some (current, max))).subject from rfl, Effect.lookup_subject]
    exact congrArg (Option.map _) known
  have both := down _ _ (Keyed.lookup_mem recorded) (by simpa using fainted)
  exact Option.some.inj both.1

/-- Right after a request that builds our team nobody in it has fainted. -/
theorem first_careful (right : FaintedRight parse (done ++ [msg]) after) (unopened : opened parse done = [])
    (reached : Runs.exec (step parse) {} done = some state) (taken : step parse state msg = some after)
    {j : Json} {conditions : List String} (request : Requests parse msg j)
    (listed : requestConditions j = .ok conditions) : "0 fnt" ∉ conditions := by
  intro member
  obtain ⟨i, inside⟩ := List.mem_iff_getElem?.mp member
  obtain ⟨moves, _, ⟨_, read, done', rfl⟩ | ⟨known, _⟩⟩ := (step_request request).mp taken
  · obtain ⟨p, present, fainted⟩ :=
      right.listed done msg [] read.id j conditions i rfl unopened request (readSide_id done') listed inside
    obtain ⟨q, present', standing, _⟩ := forall₂_getElem? (requestConditions_read done' listed) inside
    simp only [takeMoves, takeSide] at present
    cases present.symm.trans present'
    cases (fainted (by simp)).symm.trans standing
  · exact known (exec_unopened unopened reached)

/-- The flags are right throughout a run exactly when no message goes against them. -/
theorem fainted_iff {log : List Message} {final : BattleState}
    (reached : Runs.exec (step parse) {} log = some final) :
    (∀ done state, done <+: log → Runs.exec (step parse) {} done = some state → FaintedRight parse done state) ↔
      Runs.Guarded (step parse) (Careful parse) {} log := by
  constructor
  · intro right done msg inside state before
    obtain ⟨after, extended⟩ := Runs.exec_earlier inside reached
    obtain ⟨_, before', taken⟩ := Runs.exec_concat_some extended
    cases before.symm.trans before'
    have right := right _ _ inside extended
    refine ⟨?_, ?_⟩
    · intro type ident condition current max p report readable known fainted
      exact hp_careful right.down taken type report readable known fainted
    · intro unknown j conditions request listed
      exact first_careful right ((exec_known before).mp unknown) before taken request listed
  · intro guarded done state inside middle
    refine ⟨?_, ?_⟩
    · refine Runs.history (Careful parse) (fun _ => AllDown) ?_ ?_ (guarded.earlier inside) middle
      · intro which p member
        cases which <;> cases member
      · exact fun _ _ _ _ down careful taken => step_down down careful taken
    · intro before request rest side j conditions i whole unopened requests _ listed fainted
      have earlier : before ++ [request] <+: log := (whole ▸ ⟨rest, by simp⟩ : before ++ [request] <+: done).trans inside
      obtain ⟨blank, first⟩ := Runs.exec_earlier ((List.prefix_append ..).trans earlier) reached
      have careful := guarded before request earlier blank first
      exact absurd (List.mem_of_getElem? fainted)
        (careful.first (exec_unopened unopened first) j conditions requests listed)

private def standing : Listing := ⟨"p1", [("p1: Pikachu", true, "35/35")]⟩

private def downed : Listing := ⟨"p1", [("p1: Pikachu", false, "0 fnt")]⟩

private def knockout : List Message :=
  [standing.request, { type := "switch", args := ["p2a: Hoopa", "Hoopa", "100/100"] },
    { type := "-damage", args := ["p2a: Hoopa", "0 fnt"] }, { type := "faint", args := ["p2a: Hoopa"] }]

theorem fainted_iff_knockout :
    ∃ final, Runs.exec (step (Listing.parse [standing])) {} knockout = some final ∧
      ((∀ done state, done <+: knockout → Runs.exec (step (Listing.parse [standing])) {} done = some state →
          FaintedRight (Listing.parse [standing]) done state) ↔
        Runs.Guarded (step (Listing.parse [standing])) (Careful (Listing.parse [standing])) {} knockout) := by
  have run : (Runs.exec (step (Listing.parse [standing])) {} knockout).isSome := by decide +kernel
  obtain ⟨final, reached⟩ := Option.isSome_iff_exists.mp run
  exact ⟨final, reached, fainted_iff reached⟩

private def revival : List Message :=
  [standing.request, { type := "faint", args := ["p1a: Pikachu"] },
    { type := "-heal", args := ["p1a: Pikachu", "17/35"] }]

/-- A revived Pokemon keeps the flag, and one that is down from the start never gets it. -/
theorem revived_still_fainted :
    (∃ state, Runs.exec (step (Listing.parse [standing])) {} revival = some state ∧
      ¬ FaintedRight (Listing.parse [standing]) revival state) ∧
    ∃ state, Runs.exec (step (Listing.parse [downed])) {} [downed.request] = some state ∧
      ¬ FaintedRight (Listing.parse [downed]) [downed.request] state := by
  refine ⟨?_, ?_⟩
  · have shown : (Runs.exec (step (Listing.parse [standing])) {} revival).map
        (fun state => state.yourTeam.map fun p => (p.fainted, p.hpCurrent)) = some [(true, some 17)] := by
      decide +kernel
    obtain ⟨state, reached, team⟩ := Option.map_eq_some_iff.mp shown
    refine ⟨state, reached, fun right => ?_⟩
    obtain ⟨p, alone, kept⟩ := List.map_eq_singleton_iff.mp team
    obtain ⟨flag, hp⟩ := Prod.mk.inj kept
    have down := right.down true p (by simp [BattleState.team, alone])
    cases hp.symm.trans (down flag).1
  · have shown : (Runs.exec (step (Listing.parse [downed])) {} [downed.request]).map
        (fun state => state.yourTeam.map Pokemon.fainted) = some [false] := by decide +kernel
    obtain ⟨state, reached, team⟩ := Option.map_eq_some_iff.mp shown
    refine ⟨state, reached, fun right => ?_⟩
    obtain ⟨p, alone, flag⟩ := List.map_eq_singleton_iff.mp team
    obtain ⟨q, first, fainted⟩ := right.listed [] downed.request [] "p1" downed.json ["0 fnt"] 0 rfl rfl
      (Listing.requests (by decide +kernel) (by decide +kernel)) rfl rfl rfl
    rw [alone] at first
    cases first
    cases flag.symm.trans (fainted (by simp))

end ShowdownCli.BattleState
