import ShowdownCli.Proofs.BattleSides
import ShowdownCli.Proofs.BattleShapes

/-! Tracked HP against the reports of a log. Every handler stores the numbers of a
condition; a condition without numbers stores nothing, also when it reports that
the Pokemon has none left. -/

namespace ShowdownCli
open Library

/-- The two forms of a condition: the current and the full HP with a status that
may follow, or a Pokemon that has fainted. -/
def FormedCondition (condition : String) : Prop :=
  condition = "0 fnt" ∨ ∃ current full status : List Char,
    condition.toList = current ++ '/' :: full ++ status ∧
      (current ≠ [] ∧ ∀ digit ∈ current, digit.isDigit) ∧ (full ≠ [] ∧ ∀ digit ∈ full, digit.isDigit) ∧
      (status = [] ∨ ∃ word, status = ' ' :: word)

theorem slash_here {current : List Char} (each : ∀ digit ∈ current, digit.isDigit) (rest : List Char) :
    (current ++ '/' :: rest).idxOf? '/' = some current.length :=
  Library.Search.idxOf?_first (fun member => (digit_plain (each _ member)).2.2.2 rfl) rest

theorem fainted_unread : BattleState.readCondition "0 fnt" = .ok none := rfl

/-- A condition that has numbers is read as both of them. -/
theorem numbers_read {condition : String} {current full status : List Char}
    (text : condition.toList = current ++ '/' :: full ++ status) (first : current ≠ [] ∧ ∀ digit ∈ current, digit.isDigit)
    (second : full ≠ [] ∧ ∀ digit ∈ full, digit.isDigit) (ending : status = [] ∨ ∃ word, status = ' ' :: word)
    {reading : Reading} (read : BattleState.readCondition condition = .ok reading) :
    reading = some ((decimal current : Int), (decimal full : Int)) := by
  rw [List.append_assoc, List.cons_append] at text
  have ends : ∀ c ∈ status.head?, c.isDigit = false := by
    rcases ending with rfl | ⟨word, rfl⟩ <;> simp
  have behind : (current ++ '/' :: (full ++ status)).drop (current.length + 1) = full ++ status := by
    simp
  simp only [BattleState.readCondition, text, slash_here first.2, List.take_left, behind, except_bind_ok] at read
  obtain ⟨value, low, max, high, built⟩ := read
  cases built
  rw [stoi_digits first.1 first.2 low, stoi_leading second.1 second.2 ends high]

/-- The numbers of a condition that has them start with its current HP. -/
theorem formed_read {condition : String} (formed : FormedCondition condition) (other : condition ≠ "0 fnt")
    {reading : Reading} (read : BattleState.readCondition condition = .ok reading) :
    ∃ max, reading = some ((currentHp condition : Int), max) := by
  obtain same | ⟨current, full, status, text, first, second, ending⟩ := formed
  · exact absurd same other
  · have hp : currentHp condition = decimal current := by
      rw [currentHp, text, List.append_assoc, List.takeWhile_append_of_pos first.2, List.cons_append,
        List.takeWhile_cons_of_neg (by decide), List.append_nil]
    exact ⟨_, by rw [hp, numbers_read text first second ending read]⟩

namespace Message

/-- The HP a message reports, and for whom. Fainting leaves none. -/
def tells (msg : Message) : Option (Ident × Int) :=
  if msg.type = "faint" then do return (parseIdent (← msg.args[0]?), 0)
  else msg.report.map fun (ident, condition) => (ident, (currentHp condition : Int))

/-- The HP a message reports for a name of our side or of the other one. -/
def hp (side : String) (ours : Bool) (name : String) (msg : Message) : Option Int :=
  (msg.tells.filter fun (ident, _) => (ident.side == side) == ours && ident.name == name).map Prod.snd

end Message

/-- A condition that has no numbers is that of a fainted Pokemon. -/
theorem formed_cases {condition : String} (formed : FormedCondition condition) {reading : Reading}
    (read : BattleState.readCondition condition = .ok reading) : condition = "0 fnt" ∧ reading = none ∨
      condition ≠ "0 fnt" ∧ ∃ max, reading = some ((currentHp condition : Int), max) := by
  by_cases fallen : condition = "0 fnt"
  · subst fallen
    cases fainted_unread.symm.trans read
    exact Or.inl ⟨rfl, rfl⟩
  · exact Or.inr ⟨fallen, formed_read formed fallen read⟩

namespace BattleState

/-- The names and HP a request lists. -/
def requestHp (j : Json) : Except Fault (List (String × Int)) := do
  return (← requestNames j).zip ((← requestConditions j).map fun condition => (currentHp condition : Int))

/-- The last HP reported after a request and the messages that followed it. -/
def lastHp (side : String) (first : List (String × Int)) (log : List Message) (ours : Bool) (name : String) :
    Option Int :=
  (Log.latest (Message.hp side ours name) log).or (if ours then (Keyed.lookup Prod.fst name first).map Prod.snd else none)

def Tracked (side : String) (first : List (String × Int)) (log : List Message) (state : BattleState) : Prop :=
  ∀ which, ∀ p ∈ state.team which, ∀ hp, lastHp side first log which p.name = some hp → p.hpCurrent = some hp

/-- A report that a Pokemon has fainted finds it recorded without HP. One that is
switched in has to be known for that. -/
def Confirms (state : BattleState) (msg : Message) : Prop :=
  ∀ ident, msg.report = some (ident, "0 fnt") →
    match state.found ident with
    | some p => p.hpCurrent = some 0
    | none => msg.type ∉ ["switch", "drag"]

variable {parse : String → Option Json} {side : String} {first : List (String × Int)} {log : List Message}
  {state after : BattleState} {msg : Message}

theorem hp_told {ident : Ident} {hp : Int} (told : msg.tells = some (ident, hp)) (ours : Bool) (name : String) :
    msg.hp side ours name = if (ident.side == side) = ours ∧ ident.name = name then some hp else none := by
  rw [Message.hp, told, Option.filter_some]
  by_cases same : (ident.side == side) = ours ∧ ident.name = name
  · rw [if_pos same]
    simp [same.1, same.2]
  · rw [if_neg same, if_neg (by simpa using same)]
    rfl

theorem lastHp_concat (ours : Bool) (name : String) :
    lastHp side first (log ++ [msg]) ours name = (msg.hp side ours name).or (lastHp side first log ours name) := by
  rw [lastHp, Log.latest_concat, Option.or_assoc, lastHp]

theorem lastHp_silent (silent : msg.tells = none) (ours : Bool) (name : String) :
    lastHp side first (log ++ [msg]) ours name = lastHp side first log ours name := by
  rw [lastHp_concat, Message.hp, silent]
  rfl

/-- With distinct names in each team the records are those that are found. -/
theorem tracked_found (distinct : ∀ which, (names (state.team which)).Nodup) :
    Tracked side first log state ↔ ∀ which name p, Keyed.lookup Pokemon.name name (state.team which) = some p →
      ∀ hp, lastHp side first log which name = some hp → p.hpCurrent = some hp := by
  constructor
  · intro tracked which name p found hp last
    exact tracked which p (Keyed.lookup_mem found) hp (by rwa [Keyed.lookup_key found])
  · intro tracked which p member hp last
    exact tracked which p.name p (Keyed.lookup_self (distinct which) member) hp last

theorem bystander_hp (effect : Effect) (p : Pokemon) : (effect.bystander p).hpCurrent = p.hpCurrent := by
  cases effect <;> rfl

theorem perform_distinct (distinct : ∀ which, (names (state.team which)).Nodup) (effect : Effect) (which : Bool) :
    (names ((state.perform effect).team which)).Nodup := by
  rw [perform_names]
  exact Keyed.nodup_grown (distinct which) _

/-- A report is tracked by an effect when it is what the effect leaves recorded. -/
theorem tracked_perform (known : state.yourSide = side) (distinct : ∀ which, (names (state.team which)).Nodup)
    (tracked : Tracked side first log state) {effect : Effect} {hp : Int}
    (told : msg.tells = some (effect.ident, hp)) :
    Tracked side first (log ++ [msg]) (state.perform effect) ↔
      ∀ p, effect.record (state.found effect.ident) = some p → p.hpCurrent = some hp := by
  rw [tracked_found (perform_distinct distinct effect)]
  rw [tracked_found distinct] at tracked
  have here : ((effect.ident.side == side) = state.ours effect.ident) := by rw [ours, known]
  constructor
  · intro tracked' p recorded
    refine tracked' (state.ours effect.ident) effect.ident.name p ?_ hp ?_
    · rw [perform_team, if_pos rfl]
      exact (effect.lookup_subject _).trans recorded
    · rw [lastHp_concat, hp_told told, if_pos ⟨here, rfl⟩]
      rfl
  · intro subject which name p found hp' last
    rw [lastHp_concat, hp_told told] at last
    rw [perform_team] at found
    by_cases same : state.ours effect.ident = which
    · subst same
      rw [if_pos rfl] at found
      by_cases named : effect.ident.name = name
      · subst named
        rw [if_pos ⟨here, rfl⟩] at last
        cases last
        exact subject p ((effect.lookup_subject _).symm.trans found)
      · rw [if_neg fun both => named both.2] at last
        rw [effect.lookup_bystander (Ne.symm named)] at found
        obtain ⟨old, before, rfl⟩ := Option.map_eq_some_iff.mp found
        rw [bystander_hp]
        exact tracked _ name old before hp' last
    · rw [if_neg same] at found
      rw [here, if_neg fun both => same both.1] at last
      exact tracked which name p found hp' last

theorem tells_report {ident : Ident} {condition : String} (other : msg.type ≠ "faint")
    (report : msg.report = some (ident, condition)) : msg.tells = some (ident, (currentHp condition : Int)) := by
  rw [Message.tells, if_neg other, report, Option.map_some]

theorem confirms_report {ident : Ident} {condition : String} (report : msg.report = some (ident, condition)) :
    Confirms state msg ↔ (condition = "0 fnt" →
      match state.found ident with
      | some p => p.hpCurrent = some 0
      | none => msg.type ∉ ["switch", "drag"]) := by
  constructor
  · rintro confirms rfl
    exact confirms ident report
  · intro confirms other report'
    cases report.symm.trans report'
    exact confirms rfl

/-- A message that tells nothing about HP, and changes nothing about it. -/
theorem tracked_silent (tracked : Tracked side first log state) (silent : msg.report = none) (faint : msg.type ≠ "faint")
    (same : ∀ which, after.team which = state.team which) :
    Tracked side first (log ++ [msg]) after ↔ Confirms state msg := by
  have untold : msg.tells = none := by rw [Message.tells, if_neg faint, silent, Option.map_none]
  constructor
  · intro _ ident report
    cases silent.symm.trans report
  · intro _ which p member hp last
    rw [lastHp_silent untold] at last
    exact tracked which p (same which ▸ member) hp last

theorem tracked_hp {text : String} {reading : Reading} (known : state.yourSide = side)
    (distinct : ∀ which, (names (state.team which)).Nodup) (tracked : Tracked side first log state)
    (formed : ∀ ident condition, msg.report = some (ident, condition) → FormedCondition condition)
    (type : msg.type = "-damage" ∨ msg.type = "-heal") (ident : msg.args[0]? = some text)
    (read : state.Knows (parseIdent text) →
      ∃ condition, msg.args[1]? = some condition ∧ readCondition condition = .ok reading) :
    Tracked side first (log ++ [msg]) (state.perform (.hp text reading)) ↔ Confirms state msg := by
  have listed : msg.type ∈ ["-damage", "-heal"] := by simpa using type
  have faint : msg.type ≠ "faint" := by rcases type with type | type <;> simp [type]
  cases argument : msg.args[1]? with
  | none =>
    have unknown : ¬ state.Knows (parseIdent text) := fun knows => by
      obtain ⟨_, argument', _⟩ := read knows
      cases argument.symm.trans argument'
    have idle : state.perform (.hp text reading) = state := perform_unknown unknown (by simp)
    exact tracked_silent tracked (by simp [Message.report, listed, ident, argument]) faint fun which => by rw [idle]
  | some condition =>
    have report : msg.report = some (parseIdent text, condition) := by simp [Message.report, listed, ident, argument]
    have told : msg.tells = some ((Effect.hp text reading).ident, (currentHp condition : Int)) :=
      tells_report faint report
    rw [tracked_perform known distinct tracked told, confirms_report report]
    simp only [Effect.ident_hp]
    cases resolved : state.found (parseIdent text) with
    | none =>
      refine iff_of_true (fun p recorded => by cases recorded) fun _ member => ?_
      rcases type with type | type <;> simp [type] at member
    | some old =>
      obtain ⟨_, argument', readable⟩ := read (knows_found.mpr ⟨_, resolved⟩)
      cases argument.symm.trans argument'
      simp only [Effect.record, Option.map_some, Option.some.injEq, forall_eq']
      rcases formed_cases (formed _ _ report) readable with ⟨rfl, rfl⟩ | ⟨other, max, rfl⟩
      · exact ⟨fun hp _ => hp, fun hp => hp rfl⟩
      · exact iff_of_true rfl fun same => absurd same other

theorem tracked_switch {text condition : String} {reading : Reading} (known : state.yourSide = side)
    (distinct : ∀ which, (names (state.team which)).Nodup) (tracked : Tracked side first log state)
    (formed : ∀ ident condition, msg.report = some (ident, condition) → FormedCondition condition)
    (type : msg.type = "switch" ∨ msg.type = "drag") (ident : msg.args[0]? = some text)
    (argument : msg.args[2]? = some condition) (read : readCondition condition = .ok reading) :
    Tracked side first (log ++ [msg]) (state.perform (.enter text reading)) ↔ Confirms state msg := by
  have listed : msg.type ∈ ["switch", "drag"] := by simpa using type
  have report : msg.report = some (parseIdent text, condition) := by
    rcases type with type | type <;> simp [Message.report, type, ident, argument]
  have faint : msg.type ≠ "faint" := by rcases type with type | type <;> simp [type]
  have told : msg.tells = some ((Effect.enter text reading).ident, (currentHp condition : Int)) :=
    tells_report faint report
  rw [tracked_perform known distinct tracked told, confirms_report report]
  simp only [Effect.ident_enter, Effect.record, Option.some.injEq, forall_eq']
  rcases formed_cases (formed _ _ report) read with ⟨rfl, rfl⟩ | ⟨other, max, rfl⟩
  · cases state.found (parseIdent text) with
    | none => exact ⟨fun hp => (Option.some_ne_none _ hp.symm).elim, fun confirms => absurd listed (confirms rfl)⟩
    | some old => exact ⟨fun hp _ => hp, fun hp => hp rfl⟩
  · exact iff_of_true rfl fun same => absurd same other

/-- What a message reports is tracked exactly when it confirms what it does not store. -/
theorem tracked_step (nonempty : side ≠ "") (known : state.yourSide = side)
    (distinct : ∀ which, (names (state.team which)).Nodup) (tracked : Tracked side first log state)
    (formed : ∀ ident condition, msg.report = some (ident, condition) → FormedCondition condition)
    (taken : step parse state msg = some after) :
    Tracked side first (log ++ [msg]) after ↔ Confirms state msg := by
  cases step_iff.mp taken with
  | first _ unknown => exact absurd (known.symm.trans unknown) nonempty
  | hp type ident read => exact tracked_hp known distinct tracked formed type ident read
  | @faint text type ident =>
    have told : msg.tells = some ((Effect.faint text).ident, 0) := by simp [Message.tells, type, ident]
    rw [tracked_perform known distinct tracked told]
    refine iff_of_true (fun p recorded => ?_) fun ident report => ?_
    · obtain ⟨old, _, rfl⟩ := Option.map_eq_some_iff.mp recorded
      rfl
    · simp [Message.report, type] at report
  | switch type ident argument read => exact tracked_switch known distinct tracked formed type ident argument read
  | blank type => exact tracked_silent tracked (by simp [Message.report, type]) (by simp [type]) fun _ => rfl
  | later request =>
    refine tracked_silent tracked (by simp [Message.report, request.1]) (by simp [request.1]) fun which => ?_
    cases which <;> rfl
  | turn type =>
    refine tracked_silent tracked (by simp [Message.report, type]) (by simp [type]) fun which => ?_
    cases which <;> rfl
  | other type =>
    simp only [List.mem_cons, List.not_mem_nil, or_false, not_or] at type
    exact tracked_silent tracked (by simp [Message.report, type]) (by simp [type]) fun _ => rfl

/-- From a state that tracks the reports on, confirmed reports keep it so. -/
theorem tracked_run {start : BattleState} (nonempty : side ≠ "") (known : start.yourSide = side)
    (distinct : ∀ which, (names (start.team which)).Nodup) (begins : Tracked side first [] start)
    (formed : ∀ msg ∈ log, ∀ ident condition, msg.report = some (ident, condition) → FormedCondition condition)
    (confirms : Runs.Guarded (step parse) Confirms start log)
    (reached : Runs.exec (step parse) start log = some state) : Tracked side first log state := by
  have tracked : log <+: log → state.yourSide = side ∧ (∀ which, (names (state.team which)).Nodup) ∧
      Tracked side first log state := by
    refine Runs.history Confirms (fun done state => done <+: log → state.yourSide = side ∧
      (∀ which, (names (state.team which)).Nodup) ∧ Tracked side first done state)
      (fun _ => ⟨known, distinct, begins⟩) ?_ confirms reached
    intro done msg before after prior confirmed taken inside
    obtain ⟨known, distinct, tracked⟩ := prior ((List.prefix_append ..).trans inside)
    refine ⟨(step_known (known ▸ nonempty) taken).trans known, fun which => ?_, ?_⟩
    · rw [step_names (known ▸ nonempty) taken]
      exact Keyed.nodup_grown (distinct which) _
    · exact (tracked_step nonempty known distinct tracked (formed msg (inside.subset (by simp))) taken).mpr confirmed
  exact (tracked (List.prefix_refl _)).2.2

section First
variable {j : Json} {read : Side} {conditions : List String}

theorem requestHp_names (done : readSide j = .ok read) (listed : requestHp j = .ok first) :
    first.map Prod.fst = names read.pokemon := by
  simp only [requestHp, except_bind_ok, requestNames_read done, Except.ok.injEq, exists_eq_left'] at listed
  obtain ⟨conditions, texts, built⟩ := listed
  cases built
  exact List.map_fst_zip (by simp [(requestConditions_read done texts).length_eq])

/-- What a request lists at a place is what it reports under the name there. -/
theorem requestHp_read (done : readSide j = .ok read) (listed : requestHp j = .ok first)
    (distinct : (first.map Prod.fst).Nodup) (texts : requestConditions j = .ok conditions)
    {i : Nat} {condition : String} {p : Pokemon} (text : conditions[i]? = some condition)
    (here : read.pokemon[i]? = some p) :
    (Keyed.lookup Prod.fst p.name first).map Prod.snd = some (currentHp condition : Int) := by
  simp only [requestHp, except_bind_ok, requestNames_read done, texts, Except.ok.injEq, exists_eq_left'] at listed
  cases listed
  have paired : ((names read.pokemon).zip (conditions.map fun condition => (currentHp condition : Int)))[i]? =
      some (p.name, (currentHp condition : Int)) :=
    List.getElem?_zip_eq_some.mpr ⟨by simp [names, here], by simp [text]⟩
  exact congrArg (Option.map Prod.snd) (Keyed.lookup_self distinct (List.mem_of_getElem? paired))

/-- The first request is tracked exactly when nobody in it has fainted. -/
theorem tracked_first {moves : List MoveOption} {blank : BattleState} (done : readSide j = .ok read)
    (listed : requestHp j = .ok first) (distinct : (first.map Prod.fst).Nodup)
    (texts : requestConditions j = .ok conditions)
    (formed : ∀ condition ∈ conditions, FormedCondition condition) (empty : blank.opponentTeam = []) :
    Tracked read.id first [] ((blank.takeSide read).takeMoves j moves) ↔ "0 fnt" ∉ conditions := by
  have related := requestConditions_read done texts
  constructor
  · intro tracked fallen
    obtain ⟨i, text⟩ := List.mem_iff_getElem?.mp fallen
    obtain ⟨p, here, _, reading, readable, current, _⟩ := forall₂_getElem? related text
    cases fainted_unread.symm.trans readable
    have last : lastHp read.id first [] true p.name = some (currentHp "0 fnt" : Int) :=
      requestHp_read done listed distinct texts text here
    cases current.symm.trans (tracked true p (List.mem_of_getElem? here) _ last)
  · intro standing which p member hp last
    cases which with
    | true =>
      obtain ⟨i, here⟩ := List.mem_iff_getElem?.mp member
      obtain ⟨condition, text, _, reading, readable, current, _⟩ := forall₂_getElem? related.flip here
      have inside := List.mem_of_getElem? text
      obtain ⟨max, rfl⟩ := formed_read (formed condition inside) (fun fallen => standing (fallen ▸ inside)) readable
      have reported := requestHp_read done listed distinct texts text here
      rw [current]
      exact reported.symm.trans last
    | false => simp [team, takeMoves, takeSide, empty] at member

end First

/-- Each Pokemon's HP is the last reported one throughout a run exactly when nobody has
fainted in the first request and later reports of fainting only confirm what is recorded. -/
theorem tracked_iff {request : Message} {rest : List Message} {j : Json} {conditions : List String}
    {final : BattleState} (fixes : fixing parse request = some side) (requests : Requests parse request j)
    (listed : requestHp j = .ok first) (texts : requestConditions j = .ok conditions)
    (distinct : (first.map Prod.fst).Nodup) (formedFirst : ∀ condition ∈ conditions, FormedCondition condition)
    (formed : ∀ msg ∈ rest, ∀ ident condition, msg.report = some (ident, condition) → FormedCondition condition)
    (reached : Runs.exec (step parse) {} (request :: rest) = some final) :
    (∀ done state, done <+: rest → Runs.exec (step parse) {} (request :: done) = some state →
        Tracked side first done state) ↔
      "0 fnt" ∉ conditions ∧ ∀ done msg, done ++ [msg] <+: rest → ∀ state,
        Runs.exec (step parse) {} (request :: done) = some state → Confirms state msg := by
  have nonempty := (fixing_some.mp fixes).1
  obtain ⟨start, fixed, later⟩ := Option.bind_eq_some_iff.mp reached
  simp only [Runs.exec_cons, fixed, Option.bind_some]
  obtain ⟨j', read, moves, requests', done', rfl, rfl⟩ := step_fixing fixes rfl fixed
  cases (payload_some.mpr requests).symm.trans (payload_some.mpr requests')
  have teams : ∀ which, (names ((({} : BattleState).takeSide read).takeMoves j moves |>.team which)).Nodup
    | true => requestHp_names done' listed ▸ distinct
    | false => List.nodup_nil
  have shape (done : List Message) (state : BattleState)
      (middle : Runs.exec (step parse) ((({} : BattleState).takeSide read).takeMoves j moves) done = some state) :
      state.yourSide = read.id ∧ ∀ which, (names (state.team which)).Nodup := by
    obtain ⟨known, grown⟩ := exec_names nonempty middle
    exact ⟨known, fun which => by rw [grown which]; exact Keyed.nodup_grown (teams which) _⟩
  have begins : Tracked read.id first [] ((({} : BattleState).takeSide read).takeMoves j moves) ↔ "0 fnt" ∉ conditions :=
    tracked_first done' listed distinct texts formedFirst rfl
  constructor
  · intro right
    refine ⟨begins.mp (right [] _ List.nil_prefix rfl), ?_⟩
    intro done msg inside state before
    obtain ⟨after, extended⟩ := Runs.exec_earlier inside later
    obtain ⟨_, before', taken⟩ := Runs.exec_concat_some extended
    cases before.symm.trans before'
    obtain ⟨known, distinct⟩ := shape done state before
    have prior := right done state ((List.prefix_append ..).trans inside) before
    exact (tracked_step nonempty known distinct prior (formed msg (inside.subset (by simp))) taken).mp
      (right _ after inside extended)
  · rintro ⟨standing, confirms⟩ done state inside middle
    have guarded : Runs.Guarded (step parse) Confirms _ rest := confirms
    exact tracked_run nonempty rfl teams (begins.mpr standing) (fun msg member => formed msg (inside.subset member))
      (guarded.earlier inside) middle

private def healthy : Listing := ⟨"p1", [("p1: Pikachu", true, "35/35")]⟩

private def exchange : List Message :=
  [{ type := "switch", args := ["p2a: Hoopa", "Hoopa", "100/100"] },
    { type := "-damage", args := ["p1a: Pikachu", "17/35 par"] }, { type := "faint", args := ["p2a: Hoopa"] },
    { type := "-damage", args := ["p2a: Hoopa", "0 fnt"] }]

private theorem exchange_formed : ∀ msg ∈ exchange, ∀ ident condition,
    msg.report = some (ident, condition) → FormedCondition condition := by
  intro msg member ident condition report
  simp only [exchange, List.mem_cons, List.not_mem_nil, or_false] at member
  rcases member with rfl | rfl | rfl | rfl <;> cases report
  · exact Or.inr ⟨['1', '0', '0'], ['1', '0', '0'], [], rfl, ⟨by simp, List.all_eq_true.mp rfl⟩,
      ⟨by simp, List.all_eq_true.mp rfl⟩, Or.inl rfl⟩
  · exact Or.inr ⟨['1', '7'], ['3', '5'], [' ', 'p', 'a', 'r'], rfl, ⟨by simp, List.all_eq_true.mp rfl⟩,
      ⟨by simp, List.all_eq_true.mp rfl⟩, Or.inr ⟨_, rfl⟩⟩
  · exact Or.inl rfl

theorem tracked_iff_exchange :
    ∃ final, Runs.exec (step (Listing.parse [healthy])) {} (healthy.request :: exchange) = some final ∧
      ((∀ done state, done <+: exchange →
          Runs.exec (step (Listing.parse [healthy])) {} (healthy.request :: done) = some state →
          Tracked "p1" [("Pikachu", 35)] done state) ↔
        "0 fnt" ∉ ["35/35"] ∧ ∀ done msg, done ++ [msg] <+: exchange → ∀ state,
          Runs.exec (step (Listing.parse [healthy])) {} (healthy.request :: done) = some state → Confirms state msg) := by
  have run : (Runs.exec (step (Listing.parse [healthy])) {} (healthy.request :: exchange)).isSome := by decide +kernel
  obtain ⟨final, reached⟩ := Option.isSome_iff_exists.mp run
  have fixes : fixing (Listing.parse [healthy]) healthy.request = some "p1" := by decide +kernel
  have formed : ∀ condition ∈ ["35/35"], FormedCondition condition := by
    intro condition member
    rw [List.mem_singleton.mp member]
    exact Or.inr ⟨['3', '5'], ['3', '5'], [], rfl, ⟨by simp, List.all_eq_true.mp rfl⟩,
      ⟨by simp, List.all_eq_true.mp rfl⟩, Or.inl rfl⟩
  have requests : Requests (Listing.parse [healthy]) healthy.request healthy.json :=
    Listing.requests (by decide +kernel) (by decide +kernel)
  exact ⟨final, reached, tracked_iff fixes requests rfl rfl (by decide) formed exchange_formed reached⟩

private def fainting : List Message :=
  [{ type := "switch", args := ["p2a: Hoopa", "Hoopa", "100/100"] },
    { type := "-damage", args := ["p2a: Hoopa", "0 fnt"] }]

/-- The message before a faint reports no HP, which nothing stores. -/
theorem fainting_untracked :
    ∃ state, Runs.exec (step (Listing.parse [healthy])) {} (healthy.request :: fainting) = some state ∧
      ¬ Tracked "p1" [("Pikachu", 35)] fainting state := by
  have shown : (Runs.exec (step (Listing.parse [healthy])) {} (healthy.request :: fainting)).map
      (fun state => state.opponentTeam.map fun p => (p.name, p.hpCurrent)) = some [("Hoopa", some 100)] := by
    decide +kernel
  obtain ⟨state, reached, team⟩ := Option.map_eq_some_iff.mp shown
  refine ⟨state, reached, fun tracked => ?_⟩
  obtain ⟨p, alone, kept⟩ := List.map_eq_singleton_iff.mp team
  obtain ⟨named, hp⟩ := Prod.mk.inj kept
  have last : lastHp "p1" [("Pikachu", 35)] fainting false p.name = some 0 := by
    rw [named]
    decide +kernel
  cases hp.symm.trans (tracked false p (by simp [BattleState.team, alone]) 0 last)

end BattleState
end ShowdownCli
