import ShowdownCli.Proofs.BattleSides

/-! The numbers a player switches by. They are positions in `yourTeam`, and the
server reads them as positions in the team its latest request lists. The client
keeps the order of the first request, so the two need not agree later on. -/

namespace ShowdownCli.BattleState
open Library

variable {parse : String → Option Json}

/-- A well-formed request that lists our Pokemon under the given names. It names a side,
which may be the empty one. -/
def Lists (parse : String → Option Json) (msg : Message) (list : List String) : Prop :=
  ∃ j, Requests parse msg j ∧ Succeeds (sideId j) ∧ requestNames j = .ok list

/-- The order of our team that a log establishes: the names of the request that
fixed our side, then the names that joined it since. -/
def slots (parse : String → Option Json) (log : List Message) : Option (List String) :=
  match opened parse log with
  | [] => none
  | request :: rest => do
    let side ← fixing parse request
    let first ← (requestNames (← request.payload parse)).toOption
    return Keyed.grown first (rest.filterMap (Message.joining side true))

theorem exec_slots {log : List Message} {state : BattleState}
    (reached : Runs.exec (step parse) {} log = some state) (known : opened parse log ≠ []) :
    slots parse log = some (names state.yourTeam) := by
  cases begins : opened parse log with
  | nil => exact absurd begins known
  | cons request rest =>
    obtain ⟨side, _, blank, middle, fixes, _, _, unknown, fixed, later⟩ := exec_opened begins reached
    obtain ⟨j, read, moves, request', done, rfl, rfl⟩ := step_fixing fixes unknown fixed
    have nonempty := (fixing_some.mp fixes).1
    have tracked := (exec_names nonempty later).2 true
    simp only [team, takeMoves, takeSide, if_true] at tracked
    simp [slots, begins, fixes, payload_some.mpr request', requestNames_read done, tracked]
    rfl

theorem joining_request {msg : Message} (type : msg.type = "request") (side : String) (ours : Bool) :
    msg.joining side ours = none := by
  simp [Message.joining, Message.entering, type]

theorem opened_concat {done : List Message} (known : opened parse done ≠ []) (msg : Message) :
    opened parse (done ++ [msg]) = opened parse done ++ [msg] := by
  have started : done.any (fun msg => (fixing parse msg).isSome) = true := by
    by_contra none
    exact known (Log.since_nil.mpr fun msg member => by simpa using fun fixes => none (List.any_eq_true.mpr ⟨msg, member, fixes⟩))
  rw [opened, Log.since_concat, if_pos started, opened]

/-- A request adds nothing to an order that is established already. -/
theorem slots_request {done : List Message} {request : Message} (type : request.type = "request")
    (known : opened parse done ≠ []) : slots parse (done ++ [request]) = slots parse done := by
  unfold slots
  rw [opened_concat known]
  cases begins : opened parse done with
  | nil => exact absurd begins known
  | cons first rest =>
    simp only [List.cons_append]
    refine congrArg _ (funext fun side => ?_)
    rw [Log.filterMap_concat, joining_request type]
    simp

/-- What a request makes of our team is its list, if it agrees with the order
established before it. -/
theorem slots_agree {done : List Message} {request : Message} {list : List String} {state : BattleState}
    (lists : Lists parse request list) (reached : Runs.exec (step parse) {} (done ++ [request]) = some state) :
    names state.yourTeam = list ↔ ∀ shown, slots parse done = some shown → shown = list := by
  obtain ⟨j, requests, _, listed⟩ := lists
  by_cases known : opened parse done = []
  · obtain ⟨blank, before, fixed⟩ := Runs.exec_concat_some reached
    obtain ⟨moves, _, ⟨_, read, done', rfl⟩ | ⟨named, _⟩⟩ := (step_request requests).mp fixed
    · have same : names read.pokemon = list := Except.ok.inj ((requestNames_read done').symm.trans listed)
      exact iff_of_true same fun shown established => by simp [slots, known] at established
    · exact absurd (exec_unopened known before) named
  · have present : opened parse (done ++ [request]) ≠ [] := by
      rw [opened_concat known]
      simp
    rw [← slots_request requests.1 known, exec_slots reached present]
    simp

/-- The slots shown are the server's after every request of a run exactly when every
request lists the team in the order that the messages before it established. -/
theorem slots_iff {log : List Message} {final : BattleState}
    (reached : Runs.exec (step parse) {} log = some final) :
    (∀ done request list state, done ++ [request] <+: log → Lists parse request list →
        Runs.exec (step parse) {} (done ++ [request]) = some state → names state.yourTeam = list) ↔
      ∀ done request list, done ++ [request] <+: log → Lists parse request list →
        ∀ shown, slots parse done = some shown → shown = list := by
  constructor
  · intro agrees done request list inside lists
    obtain ⟨state, middle⟩ := Runs.exec_earlier inside reached
    exact (slots_agree lists middle).mp (agrees done request list state inside lists middle)
  · intro ordered done request list state inside lists middle
    exact (slots_agree lists middle).mpr (ordered done request list inside lists)

private def order : Listing := ⟨"p1", [("p1: Pikachu", true, "35/35"), ("p1: Eevee", false, "50/50")]⟩

private def switched : Listing := ⟨"p1", [("p1: Eevee", true, "50/50"), ("p1: Pikachu", false, "20/35")]⟩

/-- Two requests with a switch to our second Pokemon between them. -/
private def switching (later : Listing) : List Message :=
  [order.request, { type := "switch", args := ["p1a: Eevee", "Eevee", "50/50"] }, later.request]

theorem slots_iff_repeated :
    ∃ final, Runs.exec (step (Listing.parse [order])) {} (switching order) = some final ∧
      ((∀ done request list state, done ++ [request] <+: switching order →
          Lists (Listing.parse [order]) request list →
          Runs.exec (step (Listing.parse [order])) {} (done ++ [request]) = some state → names state.yourTeam = list) ↔
        ∀ done request list, done ++ [request] <+: switching order →
          Lists (Listing.parse [order]) request list →
          ∀ shown, slots (Listing.parse [order]) done = some shown → shown = list) := by
  have run : (Runs.exec (step (Listing.parse [order])) {} (switching order)).isSome := by decide +kernel
  obtain ⟨final, reached⟩ := Option.isSome_iff_exists.mp run
  exact ⟨final, reached, slots_iff reached⟩

/-- The request after a switch lists the new lead first. -/
theorem switched_slots_differ :
    Lists (Listing.parse [order, switched]) switched.request ["Eevee", "Pikachu"] ∧
      ∃ state, Runs.exec (step (Listing.parse [order, switched])) {} (switching switched) = some state ∧
        names state.yourTeam ≠ ["Eevee", "Pikachu"] := by
  refine ⟨⟨switched.json, Listing.requests (by decide +kernel) (by decide +kernel), ⟨"p1", rfl⟩, rfl⟩, ?_⟩
  · have shown : (Runs.exec (step (Listing.parse [order, switched])) {} (switching switched)).map
        (fun state => names state.yourTeam) = some ["Pikachu", "Eevee"] := by decide +kernel
    obtain ⟨state, reached, team⟩ := Option.map_eq_some_iff.mp shown
    exact ⟨state, reached, by rw [team]; decide⟩

end ShowdownCli.BattleState
