import ShowdownCli.Proofs.BattleShapes
import ShowdownCli.Proofs.BattleSides
import ShowdownCli.Proofs.BattleSightings

/-! Where the first request stands among the messages of a battle. Before it both
sides' Pokemon share one team, and the request removes those it takes for ours. What
stays is the opponent's team only where our messages left no trace in it. -/

namespace ShowdownCli
open Library

/-- What the client shows of an opponent's Pokemon. -/
def Pokemon.shown (p : Pokemon) : String × Bool × Bool × Option Int × Option Int :=
  (p.name, p.active, p.fainted, p.hpCurrent, p.hpMax)

namespace Effect
variable {side : String} {log : List Effect}

def theirs (side : String) (effect : Effect) : Bool := effect.ident.side ≠ side

/-- Whether the first switch to a name in the log is the other side's. -/
def leads (side : String) (log : List Effect) (name : String) : Bool :=
  (Log.since (enters name) log).head?.any (theirs side)

/-- The names the other side switches in. -/
def seen (side : String) (log : List Effect) : List String := (log.filter (theirs side)).filterMap entrant

/-- What the log says of a name since it was first switched in. -/
def said {β : Type} (report : String → Effect → Option β) (name : String) (log : List Effect) : Option β :=
  Log.latest (report name) (Log.since (enters name) log)

/-- Our messages leave no trace in what the log says of a name of the other side:
the first switch to it is theirs, and the last report of every kind is the same
without our messages. -/
structure Untouched (side : String) (log : List Effect) (name : String) : Prop where
  first : leads side log name = true
  current : said current name log = said current name (log.filter (theirs side))
  full : said full name log = said full name (log.filter (theirs side))
  fate : said fate name log = said fate name (log.filter (theirs side))
  field : said field name log = said field name (log.filter (theirs side))

def Undisturbed (side : String) (log : List Effect) : Prop := ∀ name ∈ seen side log, Untouched side log name

theorem leads_concat (log : List Effect) (effect : Effect) (name : String) :
    leads side (log ++ [effect]) name =
      if log.any (enters name) then leads side log name else enters name effect && theirs side effect := by
  unfold leads
  rw [Log.since_concat]
  split
  next known =>
    rw [head?_concat]
    intro nothing
    have silent := Log.since_nil.mp nothing
    obtain ⟨entry, member, entering⟩ := List.any_eq_true.mp known
    cases entering.symm.trans (silent entry member)
  · split
    next entering => simp [entering]
    next silent => simp [silent]

theorem leads_seen {name : String} (leading : leads side log name = true) : name ∈ seen side log := by
  cases begins : Log.since (enters name) log with
  | nil => simp [leads, begins] at leading
  | cons first rest =>
    obtain ⟨before, rfl, _, entering⟩ := Log.since_split begins
    have theirs : theirs side first = true := by simpa [leads, begins] using leading
    have named : first.entrant = some name := by simpa [enters] using entering
    exact List.mem_filterMap.mpr ⟨first, by simp [theirs], named⟩

theorem any_enters {name : String} : log.any (enters name) = true ↔ name ∈ log.filterMap entrant := by
  simp [enters]

theorem leads_entered {name : String} (leading : leads side log name = true) : name ∈ log.filterMap entrant := by
  obtain ⟨effect, member, named⟩ := List.mem_filterMap.mp (leads_seen leading)
  exact List.mem_filterMap.mpr ⟨effect, List.mem_of_mem_filter member, named⟩

/-- A name that is new to the log leads exactly when the effect is the other side's. -/
theorem leads_new {effect : Effect} {name : String} (entrant : effect.entrant = some name)
    (new : name ∉ log.filterMap Effect.entrant) : leads side (log ++ [effect]) name = theirs side effect := by
  rw [leads_concat, if_neg (mt any_enters.mp new)]
  simp [enters, entrant]

theorem leads_old {effect : Effect} {name : String} (old : effect.entrant = some name → name ∈ log.filterMap entrant) :
    leads side (log ++ [effect]) name = leads side log name := by
  rw [leads_concat]
  split
  · rfl
  next unknown =>
    have silent : enters name effect = false := by
      by_contra entering
      exact unknown (any_enters.mpr (old (by simpa [enters] using entering)))
    rw [silent, Bool.false_and]
    by_contra leading
    exact unknown (any_enters.mpr (leads_entered (by simpa using Ne.symm leading)))

theorem seen_concat (log : List Effect) (effect : Effect) :
    seen side (log ++ [effect]) = seen side log ++ if theirs side effect then effect.entrant.toList else [] := by
  rw [seen, List.filter_append, List.filterMap_append, seen]
  by_cases theirs : theirs side effect = true
  · simpa [theirs] using Log.filterMap_concat entrant [] effect
  · simp [theirs]

theorem seen_entered {name : String} (member : name ∈ seen side log) : name ∈ log.filterMap entrant := by
  obtain ⟨effect, inside, named⟩ := List.mem_filterMap.mp member
  exact List.mem_filterMap.mpr ⟨effect, List.mem_of_mem_filter inside, named⟩

/-- The names that lead come in the same order with and without our messages. -/
theorem leads_order (side : String) (log : List Effect) :
    (log.filterMap entrant).eraseDups.filter (leads side log) = (seen side log).eraseDups.filter (leads side log) := by
  induction log using List.reverseRecOn with
  | nil => rfl
  | append_singleton log effect ih =>
    rw [seen_concat, Log.filterMap_concat]
    cases entering : effect.entrant with
    | none =>
      have same : leads side (log ++ [effect]) = leads side log := funext fun name => leads_old (by simp [entering])
      simpa [same] using ih
    | some name =>
      by_cases old : name ∈ log.filterMap entrant
      · have same : leads side (log ++ [effect]) = leads side log :=
          funext fun other => leads_old fun named => by rwa [← Option.some.inj (entering.symm.trans named)]
        rw [same, Option.toList_some, Keyed.eraseDups_concat, if_pos old]
        split
        · rw [Keyed.eraseDups_concat]
          split
          · exact ih
          next unseen =>
            have trailing : leads side log name = false := by
              by_contra leading
              exact unseen (leads_seen (by simpa using leading))
            rw [List.filter_append, ih]
            simp [trailing]
        · rw [List.append_nil, ih]
      · have unseen : name ∉ seen side log := fun member => old (seen_entered member)
        have kept (names : List String) (inside : ∀ other ∈ names, other ∈ log.filterMap entrant) :
            names.filter (leads side (log ++ [effect])) = names.filter (leads side log) :=
          List.filter_congr fun other member => leads_old fun _ => inside other member
        have before := kept _ fun other member => List.mem_eraseDups.mp member
        have shown := kept (seen side log).eraseDups fun other member => seen_entered (List.mem_eraseDups.mp member)
        rw [Option.toList_some, Keyed.eraseDups_concat, if_neg old, List.filter_append, before, ih]
        split
        next theirs =>
          rw [Keyed.eraseDups_concat, if_neg unseen, List.filter_append, shown]
        next ours =>
          rw [List.append_nil, shown]
          simp [leads_new entering old, ours]

/-- A team without the Pokemon whose identifiers name our side. -/
def without (side : String) (team : List Pokemon) : List Pokemon :=
  team.filter fun p => (parseIdent p.ident).side ≠ side

theorem member_described {p : Pokemon} (member : p ∈ roster log) :
    Described p.name (Log.since (enters p.name) log) p := by
  have found := Keyed.lookup_self (distinct_roster log) member
  rcases roster_described p.name log with ⟨_, missing⟩ | ⟨q, found', described⟩
  · cases found.symm.trans missing
  · cases found.symm.trans found'
    exact described

/-- A Pokemon's identifier is that of the message that first brought it in. -/
theorem roster_leads {p : Pokemon} (member : p ∈ roster log) :
    decide ((parseIdent p.ident).side ≠ side) = leads side log p.name := by
  obtain ⟨first, begins, text⟩ := Option.map_eq_some_iff.mp (member_described member).origin
  rw [leads, begins, Option.any_some, theirs, ident, text]

theorem names_without (side : String) (log : List Effect) :
    names (without side (roster log)) = (log.filterMap entrant).eraseDups.filter (leads side log) := by
  rw [← names_roster, names, without, List.filter_map]
  congr 1
  exact List.filter_congr fun p member => roster_leads member

theorem names_theirs (side : String) (log : List Effect) :
    names (roster (log.filter (theirs side))) = (seen side log).eraseDups := names_roster _

theorem shown_same {first second : List Effect} {p q : Pokemon} (left : p ∈ roster first) (right : q ∈ roster second)
    (named : q.name = p.name) :
    q.shown = p.shown ↔ said current p.name first = said current p.name second ∧
      said full p.name first = said full p.name second ∧ said fate p.name first = said fate p.name second ∧
      said field p.name first = said field p.name second := by
  have left := member_described left
  have right := member_described right
  rw [named] at right
  simp only [said]
  rw [← left.current, ← left.full, left.fainted, left.active, ← right.current, ← right.full, right.fainted,
    right.active]
  simp only [Pokemon.shown, named, Prod.mk.injEq, Option.some.injEq, true_and]
  constructor
  · intro given
    obtain ⟨active, fainted, current, full⟩ := given
    exact ⟨current.symm, full.symm, fainted.symm, active.symm⟩
  · intro given
    obtain ⟨current, full, fainted, active⟩ := given
    exact ⟨active.symm, fainted.symm, current.symm, full.symm⟩

theorem shown_names (team : List Pokemon) : (team.map Pokemon.shown).map Prod.fst = names team := by
  simp [names, Pokemon.shown, Function.comp_def]

theorem mem_without {p : Pokemon} (member : p ∈ without side (roster log)) : p ∈ roster log :=
  List.mem_of_mem_filter member

/-- Removing our Pokemon leaves what the other side's messages alone make of the
team exactly when ours left no trace. -/
theorem without_iff (side : String) (log : List Effect) :
    (without side (roster log)).map Pokemon.shown = (roster (log.filter (theirs side))).map Pokemon.shown ↔
      Undisturbed side log := by
  constructor
  · intro same
    have keys : names (without side (roster log)) = names (roster (log.filter (theirs side))) := by
      rw [← shown_names, ← shown_names, same]
    have present {name : String} (member : name ∈ seen side log) : name ∈ names (without side (roster log)) := by
      rw [keys, names_theirs]
      exact List.mem_eraseDups.mpr member
    intro name member
    have first := (List.mem_filter.mp (names_without side log ▸ present member)).2
    obtain ⟨p, kept, rfl⟩ := List.mem_map.mp (present member)
    obtain ⟨q, inside, shown⟩ := List.mem_map.mp (same ▸ List.mem_map_of_mem kept)
    obtain ⟨current, full, fate, field⟩ := (shown_same (mem_without kept) inside (congrArg Prod.fst shown)).mp shown
    exact ⟨first, current, full, fate, field⟩
  · intro undisturbed
    have keys : names (without side (roster log)) = names (roster (log.filter (theirs side))) := by
      rw [names_without, leads_order, names_theirs, List.filter_eq_self]
      exact fun name member => (undisturbed name (List.mem_eraseDups.mp member)).first
    have distinct : (names (without side (roster log))).Nodup := by
      rw [keys]
      exact distinct_roster _
    refine Keyed.ext (by rwa [shown_names]) (by rw [shown_names, shown_names, keys]) fun name member => ?_
    rw [shown_names] at member
    have viewed (team : List Pokemon) : Keyed.lookup Prod.fst name (team.map Pokemon.shown) =
        (Keyed.lookup Pokemon.name name team).map Pokemon.shown := Keyed.lookup_map (fun _ => rfl) name team
    rw [viewed, viewed]
    obtain ⟨p, kept, rfl⟩ := List.mem_map.mp member
    obtain ⟨q, inside, named⟩ := List.mem_map.mp (keys ▸ member)
    have untouched := undisturbed p.name (List.mem_eraseDups.mp (names_theirs side log ▸ keys ▸ member))
    have left := Keyed.lookup_self distinct kept
    have right := Keyed.lookup_self (distinct_roster _) inside
    rw [named] at right
    rw [left, right, Option.map_some, Option.map_some, Option.some.injEq, eq_comm]
    exact (shown_same (mem_without kept) inside named).mpr
      ⟨untouched.current, untouched.full, untouched.fate, untouched.field⟩

end Effect

namespace BattleState
open Effect
variable {parse : String → Option Json}

/-! ## The messages of a battle -/

section Applied
variable {state start after : BattleState} {msg : Message} {ident : Ident}

theorem exec_effects {log : List Message} (formed : ∀ msg ∈ log, ∃ ident, msg.about = some ident)
    (reached : Runs.exec (step parse) start log = some after) :
    after = (log.filterMap Message.influence).foldl perform start := by
  induction log generalizing start with
  | nil =>
    cases reached
    rfl
  | cons msg rest ih =>
    obtain ⟨middle, taken, later⟩ := Option.bind_eq_some_iff.mp reached
    obtain ⟨ident, about⟩ := formed msg List.mem_cons_self
    rw [← Message.influence_about] at about
    obtain ⟨effect, made, _⟩ := Option.map_eq_some_iff.mp about
    cases step_influence made taken
    rw [List.filterMap_cons_some made, List.foldl_cons]
    exact ih (fun other member => formed other (List.mem_cons_of_mem _ member)) later

/-- Of a log of effects each team sees those that are about it. -/
theorem foldl_perform (log : List Effect) (start : BattleState) :
    (log.foldl perform start).yourSide = start.yourSide ∧ ∀ which,
      (log.foldl perform start).team which =
        (log.filter fun effect => start.ours effect.ident = which).foldl (fun team effect => effect.on team)
          (start.team which) := by
  induction log generalizing start with
  | nil => exact ⟨rfl, fun _ => rfl⟩
  | cons effect rest ih =>
    obtain ⟨side, teams⟩ := ih (start.perform effect)
    rw [perform_yourSide] at side
    refine ⟨side, fun which => ?_⟩
    have same : (start.perform effect).ours = start.ours := funext fun ident => by simp [ours]
    rw [List.foldl_cons, teams, perform_team, same]
    by_cases about : start.ours effect.ident = which
    · rw [if_pos about, List.filter_cons_of_pos (by simpa using about), List.foldl_cons]
    · rw [if_neg about, List.filter_cons_of_neg (by simpa using about)]

theorem foldl_names (log : List Effect) (team : List Pokemon) :
    names (log.foldl (fun team effect => effect.on team) team) = Keyed.grown (names team) (log.filterMap entrant) := by
  induction log generalizing team with
  | nil => exact (Keyed.grown_nil _).symm
  | cons effect rest ih =>
    rw [List.foldl_cons, ih, names_on, Keyed.grown_grown]
    cases entering : effect.entrant <;> simp [entering]

end Applied

/-! ## Where the request stands -/

/-- In one of the two orders the Pokemon is known when the message comes: a switch or a drag
of its name came first, or it is of the request's own team. -/
def Met (side : Side) (done : List Message) (ident : Ident) : Prop :=
  ident.name ∈ (done.filterMap Message.entering).map Ident.name ∨ ident.side = side.id ∧ ident.name ∈ names side.pokemon

/-- The condition that the message has to have in one of the two orders can be read. -/
structure Legible (side : Side) (done : List Message) (msg : Message) : Prop where
  switch : msg.type = "switch" ∨ msg.type = "drag" → ∃ condition, msg.args[2]? = some condition ∧ Json.Readable condition
  hp : msg.type = "-damage" ∨ msg.type = "-heal" → ∀ ident, msg.about = some ident → Met side done ident →
    ∃ condition, msg.args[1]? = some condition ∧ Json.Readable condition

theorem applicable_about {state : BattleState} {msg : Message} {ident : Ident} (about : msg.about = some ident) :
    Applicable parse state msg ↔
      (msg.type = "switch" ∨ msg.type = "drag" → ∃ condition, msg.args[2]? = some condition ∧ Json.Readable condition) ∧
        (msg.type = "-damage" ∨ msg.type = "-heal" → state.Knows ident →
          ∃ condition, msg.args[1]? = some condition ∧ Json.Readable condition) := by
  unfold Message.about at about
  split at about
  next type =>
    obtain ⟨text, argument, rfl⟩ := Option.map_eq_some_iff.mp about
    constructor
    · intro applicable
      refine ⟨applicable.switch, fun hp knows => ?_⟩
      obtain ⟨other, here, readable⟩ := applicable.hp hp
      cases argument.symm.trans here
      exact readable knows
    · intro given
      obtain ⟨switch, hp⟩ := given
      simp only [List.mem_cons, List.not_mem_nil, or_false] at type
      refine ⟨fun request => ?_, fun reports => ⟨text, argument, hp reports⟩, fun _ none => ?_, switch, fun turn => ?_⟩
      · simp [request] at type
      · simp [none] at argument
      · simp [turn] at type
  next => cases about

/-- Messages about Pokemon are all applied if each can be after the effects of those before. -/
theorem finishes {log : List Message} (formed : ∀ msg ∈ log, ∃ ident, msg.about = some ident) (start : BattleState) :
    (∃ after, Runs.exec (step parse) start log = some after) ↔ ∀ done msg, done ++ [msg] <+: log →
      Applicable parse ((done.filterMap Message.influence).foldl perform start) msg := by
  have before {done : List Message} (inside : done <+: log) : ∀ msg ∈ done, ∃ ident, msg.about = some ident :=
    fun msg member => formed msg (inside.subset member)
  have steps : (∃ after, Runs.exec (step parse) start log = some after) ↔
      Runs.Guarded (step parse) (Applicable parse) start log :=
    Runs.finishes_iff (fun _ => True) trivial (fun _ _ _ _ _ => trivial) fun _ _ _ => step_succeeds
  constructor
  · intro run done msg inside
    obtain ⟨after, reached⟩ := run
    have earlier : done <+: log := (List.prefix_append ..).trans inside
    obtain ⟨middle, first⟩ := Runs.exec_earlier earlier reached
    have applicable := steps.mp ⟨after, reached⟩ done msg inside middle first
    rwa [exec_effects (before earlier) first] at applicable
  · intro applicable
    refine steps.mpr fun done msg inside middle first => ?_
    rw [exec_effects (before ((List.prefix_append ..).trans inside)) first]
    exact applicable done msg inside

section Orders
variable {done : List Message} {j : Json} {side : Side} {moves : List MoveOption} {ident : Ident}

/-- What the request makes of a battle that nothing is known of. -/
def opening (side : Side) (j : Json) (moves : List MoveOption) : BattleState :=
  (({} : BattleState).takeSide side).takeMoves j moves

theorem effects_about (formed : ∀ msg ∈ done, ∃ ident, msg.about = some ident ∧ ident.side ≠ "") :
    (∀ effect ∈ done.filterMap Message.influence, effect.ident.side ≠ "") ∧
      (done.filterMap Message.influence).filterMap entrant = (done.filterMap Message.entering).map Ident.name := by
  induction done with
  | nil => simp
  | cons msg rest ih =>
    obtain ⟨apart, entrants⟩ := ih fun other member => formed other (List.mem_cons_of_mem _ member)
    obtain ⟨ident, about, named⟩ := formed msg List.mem_cons_self
    rw [← Message.influence_about] at about
    obtain ⟨effect, made, same⟩ := Option.map_eq_some_iff.mp about
    have enters : effect.entrant = msg.entering.map Ident.name := by rw [← Message.influence_entering, made, Option.bind_some]
    rw [List.filterMap_cons_some made]
    refine ⟨List.forall_mem_cons.mpr ⟨same ▸ named, apart⟩, ?_⟩
    rw [List.filterMap_cons, enters, entrants, List.filterMap_cons]
    cases msg.entering <;> rfl

/-- A Pokemon is known if it was at the start or a message about its side has brought it in. -/
theorem knows_effects (log : List Effect) (start : BattleState) : (log.foldl perform start).Knows ident ↔
    start.Knows ident ∨
      ident.name ∈ (log.filter fun effect => start.ours effect.ident = start.ours ident).filterMap entrant := by
  obtain ⟨same, teams⟩ := foldl_perform log start
  have ours : (log.foldl perform start).ours ident = start.ours ident := by rw [BattleState.ours, BattleState.ours, same]
  have grown := foldl_names (log.filter fun effect => start.ours effect.ident = start.ours ident)
    (start.team (start.ours ident))
  unfold Knows
  rw [ours, teams, show ∀ team : List Pokemon, team.map Pokemon.name = names team from fun _ => rfl, grown]
  exact Keyed.mem_grown

/-- The Pokemon is known in one of the two orders. -/
theorem met_iff (formed : ∀ msg ∈ done, ∃ ident, msg.about = some ident ∧ ident.side ≠ "") (apart : ident.side ≠ "") :
    Met side done ident ↔ ((done.filterMap Message.influence).foldl perform {}).Knows ident ∨
      ((done.filterMap Message.influence).foldl perform (opening side j moves)).Knows ident := by
  obtain ⟨sides, entrants⟩ := effects_about formed
  have all : (done.filterMap Message.influence).filter
      (fun effect => ({} : BattleState).ours effect.ident = ({} : BattleState).ours ident) =
        done.filterMap Message.influence := by
    refine List.filter_eq_self.mpr fun effect member => ?_
    have other := sides effect member
    simp [ours, apart, other]
  have part : ((done.filterMap Message.influence).filter
      fun effect => (opening side j moves).ours effect.ident = (opening side j moves).ours ident).filterMap entrant ⊆
        (done.filterMap Message.entering).map Ident.name := by
    rw [← entrants]
    exact List.filterMap_subset _ (List.filter_subset_self _)
  have fresh : ¬ ({} : BattleState).Knows ident := by
    unfold Knows team
    split <;> simp
  have own : (opening side j moves).Knows ident ↔ ident.side = side.id ∧ ident.name ∈ names side.pokemon := by
    unfold Knows team ours opening
    by_cases same : ident.side = side.id <;> simp [takeMoves, takeSide, same]
  rw [knows_effects, knows_effects, all, entrants, own, or_iff_right fresh, Met]
  constructor
  · rintro (entered | listed)
    · exact .inl entered
    · exact .inr (.inl listed)
  · rintro (entered | listed | entered)
    · exact .inl entered
    · exact .inr listed
    · exact .inl (part entered)

/-- Once the effects are known, the orders differ by the traces that our messages leave. -/
theorem opponents_iff {log : List Effect} (apart : ∀ effect ∈ log, effect.ident.side ≠ "") :
    (((log.foldl perform {}).takeSide side).takeMoves j moves).opponentTeam.map Pokemon.shown =
        (log.foldl perform (opening side j moves)).opponentTeam.map Pokemon.shown ↔ Undisturbed side.id log := by
  obtain ⟨_, late⟩ := foldl_perform log {}
  obtain ⟨_, early⟩ := foldl_perform log (opening side j moves)
  have mixed : (log.foldl perform {}).opponentTeam = roster log := by
    have team := late false
    rw [List.filter_eq_self.mpr fun effect member => by simp [ours, apart effect member]] at team
    exact team
  have alone : (log.foldl perform (opening side j moves)).opponentTeam = roster (log.filter (theirs side.id)) := by
    have team := early false
    rw [List.filter_congr (q := theirs side.id) fun effect _ => by simp [ours, theirs, opening, takeMoves, takeSide]] at team
    exact team
  rw [alone, ← without_iff, takeMoves, takeSide, mixed]
  rfl

end Orders

/-- A request before or after the messages of a battle leaves the same opponent's team exactly
when each message can be applied in both orders, and our messages leave no trace in what is
said of the other side. -/
theorem position_iff {log : List Message} {request : Message} {j : Json} {side : Side} {moves : List MoveOption}
    (formed : ∀ msg ∈ log, ∃ ident, msg.about = some ident ∧ ident.side ≠ "")
    (requests : Requests parse request j) (read : readSide j = .ok side) (options : readMoves j = .ok moves) :
    (∃ late early, Runs.exec (step parse) {} (log ++ [request]) = some late ∧
      Runs.exec (step parse) {} (request :: log) = some early ∧
      late.opponentTeam.map Pokemon.shown = early.opponentTeam.map Pokemon.shown) ↔
        (∀ done msg, done ++ [msg] <+: log → Legible side done msg) ∧
          Undisturbed side.id (log.filterMap Message.influence) := by
  have about : ∀ msg ∈ log, ∃ ident, msg.about = some ident := fun msg member => (formed msg member).imp fun _ => And.left
  obtain ⟨apart, _⟩ := effects_about formed
  have first : step parse {} request = some (opening side j moves) :=
    (step_request requests).mpr ⟨moves, options, Or.inl ⟨rfl, side, read, rfl⟩⟩
  have last : step parse ((log.filterMap Message.influence).foldl perform {}) request =
      some ((((log.filterMap Message.influence).foldl perform {}).takeSide side).takeMoves j moves) :=
    (step_request requests).mpr ⟨moves, options, Or.inl ⟨(foldl_perform _ {}).1, side, read, rfl⟩⟩
  have legible {done : List Message} {msg : Message} (inside : done ++ [msg] <+: log) : Legible side done msg ↔
      Applicable parse ((done.filterMap Message.influence).foldl perform {}) msg ∧
        Applicable parse ((done.filterMap Message.influence).foldl perform (opening side j moves)) msg := by
    obtain ⟨ident, here, named⟩ := formed msg (inside.subset (by simp))
    have met := @met_iff done j side moves ident (fun other member => formed other (inside.subset (by simp [member]))) named
    rw [applicable_about here, applicable_about here]
    constructor
    · intro given
      obtain ⟨switch, hp⟩ := given
      exact ⟨⟨switch, fun type knows => hp type ident here (met.mpr (.inl knows))⟩,
        switch, fun type knows => hp type ident here (met.mpr (.inr knows))⟩
    · intro given
      obtain ⟨⟨switch, late⟩, _, early⟩ := given
      refine ⟨switch, fun type other same known => ?_⟩
      cases here.symm.trans same
      exact (met.mp known).elim (late type) (early type)
  constructor
  · intro given
    obtain ⟨late, early, reached, reached', same⟩ := given
    obtain ⟨middle, run, final⟩ := Runs.exec_concat_some reached
    rw [Runs.exec_cons, first, Option.bind_some] at reached'
    refine ⟨fun done msg inside => (legible inside).mpr ⟨?_, ?_⟩, ?_⟩
    · exact (finishes about {}).mp ⟨middle, run⟩ done msg inside
    · exact (finishes about _).mp ⟨early, reached'⟩ done msg inside
    · rw [exec_effects about run, last] at final
      cases final
      rw [exec_effects about reached'] at same
      exact (opponents_iff apart).mp same
  · intro given
    obtain ⟨each, undisturbed⟩ := given
    obtain ⟨middle, run⟩ := (finishes about {}).mpr fun done msg inside => ((legible inside).mp (each done msg inside)).1
    obtain ⟨early, run'⟩ := (finishes about (opening side j moves)).mpr
      fun done msg inside => ((legible inside).mp (each done msg inside)).2
    have effects := exec_effects about run
    have effects' := exec_effects about run'
    subst effects effects'
    exact ⟨_, _, by rw [Runs.exec_concat, run, Option.bind_some, last], by rw [Runs.exec_cons, first, Option.bind_some, run'],
      (opponents_iff apart).mpr undisturbed⟩

private def ash : Listing := ⟨"p1", [("p1: Pikachu", true, "35/35")]⟩

private def ashSide : Side where
  name := "Ash"
  id := "p1"
  pokemon := [{ name := "Pikachu", ident := "p1: Pikachu", hpCurrent := some 35, hpMax := some 35, active := true,
                fainted := false, teraType := "Fire" }]

private def leads : List Message :=
  [{ type := "switch", args := ["p2a: Hoopa", "Hoopa", "100/100"] },
    { type := "switch", args := ["p1a: Pikachu", "Pikachu", "35/35"] }]

/-- When our lead comes in second, the opponent's is taken from the field for it. -/
theorem leads_disturbed :
    ∃ late early, Runs.exec (step (Listing.parse [ash])) {} (leads ++ [ash.request]) = some late ∧
      Runs.exec (step (Listing.parse [ash])) {} (ash.request :: leads) = some early ∧
      late.opponentTeam.map Pokemon.shown ≠ early.opponentTeam.map Pokemon.shown := by
  have late : (Runs.exec (step (Listing.parse [ash])) {} (leads ++ [ash.request])).map
      (fun state => state.opponentTeam.map Pokemon.active) = some [false] := by decide +kernel
  have early : (Runs.exec (step (Listing.parse [ash])) {} (ash.request :: leads)).map
      (fun state => state.opponentTeam.map Pokemon.active) = some [true] := by decide +kernel
  obtain ⟨late, reached, out⟩ := Option.map_eq_some_iff.mp late
  obtain ⟨early, reached', on⟩ := Option.map_eq_some_iff.mp early
  refine ⟨late, early, reached, reached', fun same => ?_⟩
  have active := congrArg (List.map fun shown => shown.2.1) same
  simp only [List.map_map] at active
  cases out.symm.trans (active.trans on)

theorem position_iff_leads :
    (∃ late early, Runs.exec (step (Listing.parse [ash])) {} (leads.reverse ++ [ash.request]) = some late ∧
      Runs.exec (step (Listing.parse [ash])) {} (ash.request :: leads.reverse) = some early ∧
      late.opponentTeam.map Pokemon.shown = early.opponentTeam.map Pokemon.shown) ↔
        (∀ done msg, done ++ [msg] <+: leads.reverse → Legible ashSide done msg) ∧
          Undisturbed "p1" (leads.reverse.filterMap Message.influence) := by
  have requests : Requests (Listing.parse [ash]) ash.request ash.json :=
    Listing.requests (by decide +kernel) (by decide +kernel)
  refine position_iff ?_ requests rfl rfl
  intro msg member
  simp only [leads, List.reverse_cons, List.reverse_nil, List.nil_append, List.cons_append, List.mem_cons,
    List.not_mem_nil, or_false] at member
  rcases member with rfl | rfl
  · exact ⟨{ slot := 'a', side := "p1", name := "Pikachu" }, by decide, by decide⟩
  · exact ⟨{ slot := 'a', side := "p2", name := "Hoopa" }, by decide, by decide⟩

end BattleState
end ShowdownCli
