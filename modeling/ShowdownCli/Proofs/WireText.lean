import ShowdownCli.Proofs.AppDialogue
import ShowdownCli.Proofs.ProgramDelivery
import ShowdownCli.Proofs.Words

/-! Where the frames on the wire come from. Each is for a line that was typed, a message that
came or an answer of the login server, and has of these what belongs to it. So a line end has to
be typed, granted or in the name of a room, and without one each frame is a line of its own for
the server. -/

namespace ShowdownCli
open Library

/-- Why a frame is sent, with those that were sent before it. -/
inductive Sourced (world : World) (actions : List PsApp.Action) (asserted : List (String × String × String))
    (earlier : List String) : String → Prop where
  | search (typed : .line (some "1") ∈ actions) : Sourced world actions asserted earlier "|/search gen9randombattle"
  | login {request : Nat} {username password challenge : String} (introduced : Introduces actions username)
      (asked : asserted[request]? = some (username, password, challenge)) (answered : world.assertions request ≠ "") :
      Sourced world actions asserted earlier ("|/trn " ++ username ++ ",0," ++ world.assertions request)
  | join {msg : Message} {room : String} (came : .message msg ∈ actions) (named : Play.joins world msg = some room) :
      Sourced world actions asserted earlier ("|/join " ++ room)
  | order {room cmd : String} {given : Order} (joined : room = "" ∨ "|/join " ++ room ∈ earlier)
      (typed : .line (some cmd) ∈ actions) (said : given.From cmd) :
      Sourced world actions asserted earlier (room ++ given.text)

namespace PsApp
variable {world : World} {actions : List Action} {app : PsApp}

/-- A search is sent for the line that asks for it; a login with the name that was typed and the
answer to the request that was made with it; a join for a message that names the room; and an
order as the line has it, to the room of a join before it, if to any. -/
theorem text_sources (reached : Runs.exec (PsApp.step world) init actions = some app) :
    ∀ earlier frame, earlier ++ [frame] <+: app.client.sent →
      Sourced world actions app.client.asserted earlier frame := by
  rintro earlier frame ⟨later, split⟩
  obtain ⟨utterances, seat, taken, sent, _, logins, reasons⟩ := said reached
  rw [sent] at split
  obtain ⟨front, rest, rfl, both, _⟩ := List.map_eq_append_iff.mp split.symm
  obtain ⟨done, last, rfl, before, one⟩ := List.map_eq_append_iff.mp both
  obtain ⟨utterance, rfl, is⟩ := List.map_eq_singleton_iff.mp one
  have member : utterance ∈ done ++ [utterance] ++ rest := by simp
  have reason := reasons utterance member
  subst before is
  cases utterance with
  | search => exact .search reason
  | login username assertion =>
    have trusted : Utterance.login username assertion ∈ app.client.asserted.zipIdx.filterMap (granted world) := by
      rw [← logins]
      exact List.mem_filter.mpr ⟨member, rfl⟩
    obtain ⟨⟨⟨name, password, challenge⟩, request⟩, asked, grant⟩ := List.mem_filterMap.mp trusted
    unfold granted at grant
    split at grant
    next => cases grant
    next answered =>
      cases grant
      exact .login reason (List.mem_zipIdx_iff_getElem?.mp asked) answered
  | join room =>
    obtain ⟨msg, came, named⟩ := reason
    exact .join came named
  | order room given =>
    obtain ⟨cmd, typed, meant⟩ := reason
    have joined := Seat.order_joined taken (List.prefix_append ..)
    exact .order (joined.imp_right fun before => List.mem_map_of_mem before) typed meant

private def tokenWorld : World where
  parse payload := if payload = "found" then some (.object [("games", .object [("battle-1", .string "")])]) else none
  assertions _ := "proof"

/-- A login, and a battle with an order before its room is joined and one after. -/
private def introduced : List Action :=
  [.drained, .dispatch, .dispatch, .line (some "2"), .render,
    .message { roomId := "", type := "challstr", args := ["4", "abc"] }, .drained, .dispatch, .dispatch, .dispatch,
    .line (some "Misty"), .render, .drained, .dispatch, .dispatch, .line (some "psy"), .render, .drained, .dispatch,
    .dispatch, .dispatch, .line (some "1"), .render, .drained, .dispatch, .dispatch, .dispatch, .line (some "t"), .render,
    .drained, .dispatch, .dispatch, .line (some "f"), .render,
    .message { roomId := "", type := "updatesearch", args := ["found"] }, .drained, .dispatch]

theorem text_sources_introduced :
    ∃ app, Runs.exec (PsApp.step tokenWorld) init introduced = some app ∧
      app.client.sent = ["|/trn Misty,0,proof", "|/search gen9randombattle", "|/timer on", "|/join battle-1",
        "battle-1|/forfeit"] ∧
      ∀ earlier frame, earlier ++ [frame] <+: app.client.sent →
        Sourced tokenWorld introduced app.client.asserted earlier frame := by
  have run : (Runs.exec (PsApp.step tokenWorld) init introduced).map (fun app => app.client.sent) =
      some ["|/trn Misty,0,proof", "|/search gen9randombattle", "|/timer on", "|/join battle-1", "battle-1|/forfeit"] := by
    decide +kernel
  obtain ⟨app, reached, sent⟩ := Option.map_eq_some_iff.mp run
  exact ⟨app, reached, sent, text_sources reached⟩

end PsApp

/-! ## Lines -/

/-- The character is not in the text. -/
def Lacks (c : Char) (text : String) : Prop := c ∉ text.toList

instance (c : Char) (text : String) : Decidable (Lacks c text) := inferInstanceAs (Decidable (_ ∉ _))

variable {c : Char} {cmd : String}

theorem lacks_append {first rest : String} : Lacks c (first ++ rest) ↔ Lacks c first ∧ Lacks c rest := by
  simp only [Lacks, String.toList_append, List.mem_append, not_or]

theorem lacks_part {text : String} {part : List Char} (lacks : Lacks c text) (inside : part ⊆ text.toList) :
    Lacks c (String.ofList part) := by
  rw [Lacks, String.toList_ofList]
  exact fun member => lacks (inside member)

theorem Spaced.subset {tokens : List (List Char)} {input : List Char} (spaced : Spaced tokens input) :
    ∀ token ∈ tokens, token ⊆ input := by
  induction spaced with
  | blank => simp
  | word _ _ _ _ ih =>
    refine List.forall_mem_cons.mpr ⟨fun _ inside => ?_, fun token member _ inside => ?_⟩
    · exact List.mem_append_left _ (List.mem_append_right _ inside)
    · exact List.mem_append_right _ (ih token member inside)

theorem lacks_token {token : String} (lacks : Lacks c cmd) (member : token ∈ tokenize cmd) : Lacks c token :=
  fun inside => lacks ((tokenize_spaced cmd).subset _ (List.mem_map_of_mem member) inside)

theorem Order.From.single {given : Order} (said : given.From cmd) (typed : Lacks '\n' cmd) : Lacks '\n' given.text := by
  have first : Lacks '\n' (BattleLayer.initial cmd) := lacks_part typed (List.take_subset ..)
  cases given with
  | switch pick =>
    refine lacks_append.mpr ⟨by decide, ?_⟩
    rcases said with ⟨_, rfl⟩ | ⟨_, rfl⟩
    · exact first
    · exact lacks_part typed (List.drop_subset ..)
  | move pick tera =>
    obtain ⟨_, rfl, _⟩ := said
    refine lacks_append.mpr ⟨lacks_append.mpr ⟨by decide, first⟩, ?_⟩
    split <;> decide
  | forfeit => decide
  | timer on => cases on <;> decide

theorem Introduces.single {actions : List PsApp.Action} {username : String} (introduced : Introduces actions username)
    (typed : ∀ line, .line (some line) ∈ actions → Lacks '\n' line) : Lacks '\n' username := by
  obtain ⟨cmd, token, came, words, rfl⟩ := introduced
  have whole : Lacks '\n' token := lacks_token (typed cmd came) (words ▸ List.mem_singleton_self _)
  exact lacks_part whole (List.Subset.trans (List.takeWhile_prefix _).subset (List.take_subset ..))

/-- A frame has no line end, if none was typed, granted or in the name of a room. -/
theorem Sourced.single {world : World} {actions : List PsApp.Action} {asserted : List (String × String × String)}
    {earlier : List String} {frame : String} (sourced : Sourced world actions asserted earlier frame)
    (typed : ∀ line, .line (some line) ∈ actions → Lacks '\n' line)
    (tokens : ∀ request < asserted.length, Lacks '\n' (world.assertions request))
    (rooms : ∀ room, "|/join " ++ room ∈ earlier ++ [frame] → Lacks '\n' room) : Lacks '\n' frame := by
  cases sourced with
  | search => decide
  | @login request _ _ _ introduced asked =>
    have token := tokens request (List.getElem?_eq_some_iff.mp asked).1
    simp only [lacks_append]
    exact ⟨⟨⟨by decide, introduced.single typed⟩, by decide⟩, token⟩
  | join => exact lacks_append.mpr ⟨by decide, rooms _ (by simp)⟩
  | @order room cmd given joined came said =>
    refine lacks_append.mpr ⟨?_, said.single (typed cmd came)⟩
    rcases joined with rfl | before
    · decide
    · exact rooms room (List.mem_append_left _ before)

theorem splitOn_lines {frames : List (List Char)} (single : ∀ frame ∈ frames, '\n' ∉ frame) :
    (frames.flatMap fun frame => frame ++ ['\n']).splitOn '\n' = frames ++ [[]] := by
  induction frames with
  | nil => rfl
  | cons frame rest ih =>
    have first := single frame List.mem_cons_self
    rw [List.flatMap_cons, List.append_assoc, List.singleton_append,
      List.splitOn_append_cons_self_of_not_mem first, ih fun other member => single other (List.mem_cons_of_mem _ member)]
    rfl

theorem WsClient.format_single {message : String} (filled : message ≠ "") (single : Lacks '\n' message) :
    WsClient.format message = some (message ++ "\n") := by
  obtain ⟨formattedMsg, formats⟩ := format_some filled
  unfold format at formats ⊢
  obtain ⟨back, last, _⟩ := Option.map_eq_some_iff.mp formats
  have other : back ≠ '\n' := fun same => single (same ▸ List.mem_of_getLast? last)
  rw [last, Option.map_some, if_pos other]

namespace Program
variable {program : Program}

theorem sent_single {actions : List Action} (reached : Runs.exec (step world) {} actions = some program)
    (typed : ∀ line, .turn (.line (some line)) ∈ actions → Lacks '\n' line)
    (tokens : ∀ request < program.app.client.asserted.length, Lacks '\n' (world.assertions request))
    (rooms : ∀ room, "|/join " ++ room ∈ program.app.client.sent → Lacks '\n' room) :
    ∀ frame ∈ program.app.client.sent, Lacks '\n' frame := by
  intro frame member
  obtain ⟨earlier, later, split⟩ := List.append_of_mem member
  have inside : earlier ++ [frame] <+: program.app.client.sent := ⟨later, by rw [split, List.append_assoc]; rfl⟩
  have sourced := PsApp.text_sources (acted_reached reached).1 earlier frame inside
  refine sourced.single (fun line processed => ?_) tokens fun room joined => rooms room (inside.subset joined)
  obtain ⟨state, input, inside, shows⟩ := Runs.mem_shown processed
  cases input with
  | frame | network | strand | complete | post => cases shows
  | poll =>
    simp only [acted, polled] at shows
    repeat' split at shows
    all_goals simp at shows
  | turn action =>
    cases List.mem_singleton.mp shows
    exact typed line inside

/-- As long as no line end is typed, granted or in the name of a room that is joined, the server reads from
what has been written, line by line, the first frames that were sent, each as one line. -/
theorem frames_are_lines {actions : List Action} (reached : Runs.exec (step world) {} actions = some program)
    (typed : ∀ line, .turn (.line (some line)) ∈ actions → Lacks '\n' line)
    (tokens : ∀ request < program.app.client.asserted.length, Lacks '\n' (world.assertions request))
    (rooms : ∀ room, "|/join " ++ room ∈ program.app.client.sent → Lacks '\n' room) :
    (program.websocket.completed.flatMap String.toList).splitOn '\n' =
      (program.app.client.sent.take program.websocket.completed.length).map String.toList ++ [[]] := by
  have single := sent_single reached typed tokens rooms
  obtain ⟨app, _⟩ := acted_reached reached
  obtain ⟨lines, formats, written⟩ := written reached
  have ended : lines = program.app.client.sent.map (· ++ "\n") := by
    apply List.map_injective_iff.mpr fun _ _ => Option.some.inj
    rw [← formats, List.map_map]
    exact List.map_congr_left fun frame member => WsClient.format_single (sent_ne app frame member) (single frame member)
  have beginning := List.prefix_iff_eq_take.mp written
  rw [ended, ← List.map_take] at beginning
  have apart : ∀ line ∈ (program.app.client.sent.take program.websocket.completed.length).map String.toList,
      '\n' ∉ line := by
    intro line member
    obtain ⟨frame, inside, rfl⟩ := List.mem_map.mp member
    exact single frame (List.mem_of_mem_take inside)
  rw [← splitOn_lines apart]
  apply congrArg
  apply (congrArg (List.flatMap String.toList) beginning).trans
  rw [List.flatMap_map, List.flatMap_map]
  simp only [String.toList_append]
  rfl

/-- The room that a message names is joined, and all that was sent is written. -/
private def lettered : List Action :=
  [.poll, .poll, .poll, .turn .dispatch, .turn .dispatch, .turn (.line (some "1")), .turn .render, .poll, .poll, .poll,
    .turn .dispatch, .turn .dispatch, .post, .strand,
    .frame ['|', 'u', 'p', 'd', 'a', 't', 'e', 's', 'e', 'a', 'r', 'c', 'h', '|', 'f', 'o', 'u', 'n', 'd'], .network,
    .complete 0 false, .network, .network, .network, .network, .strand, .turn .dispatch, .turn (.line none), .turn .render,
    .poll, .poll, .poll, .poll, .poll, .post, .strand, .complete 0 false]

theorem frames_are_lines_lettered :
    ∃ program, Runs.exec (step PsApp.tokenWorld) {} lettered = some program ∧
      program.websocket.completed = ["|/search gen9randombattle\n", "|/join battle-1\n"] ∧
      (program.websocket.completed.flatMap String.toList).splitOn '\n' =
        (program.app.client.sent.take program.websocket.completed.length).map String.toList ++ [[]] := by
  have run : (Runs.exec (step PsApp.tokenWorld) {} lettered).map (fun program =>
      (program.websocket.completed, program.app.client.sent)) =
      some (["|/search gen9randombattle\n", "|/join battle-1\n"], ["|/search gen9randombattle", "|/join battle-1"]) := by
    decide +kernel
  obtain ⟨program, reached, facts⟩ := Option.map_eq_some_iff.mp run
  simp only [Prod.mk.injEq] at facts
  obtain ⟨written, sent⟩ := facts
  refine ⟨program, reached, written, frames_are_lines reached (fun line member => ?_) (fun _ _ => ?_) fun room joined => ?_⟩
  · have one : line = "1" := by simpa [lettered] using member
    subst one
    decide
  · exact (by decide : Lacks '\n' "proof")
  · have whole : ∀ frame ∈ program.app.client.sent, Lacks '\n' frame := by
      rw [sent]
      decide
    exact (lacks_append.mp (whole _ joined)).2

end Program
end ShowdownCli
