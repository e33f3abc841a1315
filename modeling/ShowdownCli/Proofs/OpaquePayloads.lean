import ShowdownCli.Client
import ShowdownCli.Proofs.BattleChanges
import ShowdownCli.Proofs.ParserLoss

/-! Free text at the end of a line. The parser cuts it at every bar; the challenge is put
together again from two pieces, and a request is read from the first one alone. -/

namespace ShowdownCli
open Library

/-- A line of the given type, and whatever follows the bar behind it. -/
def Field.lineOf (type : Field) (text : List Char) : List Char := '|' :: (type.text ++ '|' :: text)

def Field.challstr : Field := { text := "challstr".toList, line := by decide, bar := by decide, trimmed := by decide }

def Field.request : Field := { text := "request".toList, line := by decide, bar := by decide, trimmed := by decide }

theorem parseMessage_free (type : Field) {text : List Char} (line : '\n' ∉ text) (trimmed : text.getLast? ≠ some '\r') :
    parseMessage (type.lineOf text) =
      [{ type := type.value, args := (split text '|').map String.ofList }] := by
  have whole : '\n' ∉ type.lineOf text := by simp [Field.lineOf, type.line, line]
  have ends : returns (type.text ++ '|' :: text) = false := by
    rw [returns_bar]
    simpa [returns] using trimmed
  have kept : stripReturn (type.text ++ '|' :: text) = type.text ++ '|' :: text :=
    stripReturn_trimmed (by simpa [returns] using ends)
  have fields : split (type.text ++ '|' :: text) '|' = type.text :: split text '|' := by
    rw [split_eq, List.splitOn_append_cons_self_of_not_mem type.bar, List.map_cons, stripReturn_trimmed type.trimmed, split_eq]
  rw [parseMessage_lines, frameLines, List.splitOn_eq_singleton whole]
  simp only [Transducer.outputs, Field.lineOf, lineMessage, kept, fields]
  rfl

theorem split_bare {text piece : List Char} (member : piece ∈ split text '|') : '|' ∉ piece := by
  rw [split_eq] at member
  obtain ⟨whole, inside, rfl⟩ := List.mem_map.mp member
  exact fun bar => (splitOn_avoids inside).1 (stripReturn_subset whole bar)

theorem stripReturn_same {text : List Char} (same : stripReturn text = text) : text.getLast? ≠ some '\r' := by
  have length := stripReturn_length text
  rw [same] at length
  have ends : returns text = false := by
    by_contra ends
    rw [Bool.not_eq_false] at ends
    rw [if_pos ends] at length
    omega
  simpa [returns] using ends

/-- Two pieces with nothing dropped from the first. -/
def Paired (text : List Char) : Prop :=
  ∃ id challenge, text = id ++ '|' :: challenge ∧ '|' ∉ id ∧ '|' ∉ challenge ∧ id.getLast? ≠ some '\r'

theorem paired_iff {text : List Char} (trimmed : text.getLast? ≠ some '\r') :
    Paired text ↔ ∃ id challenge rest, split text '|' = id :: challenge :: rest ∧ text = id ++ '|' :: challenge := by
  constructor
  · intro given
    obtain ⟨id, challenge, rfl, bare, bare', kept⟩ := given
    have ends : returns challenge = false := by
      rw [← returns_bar id]
      simpa [returns] using trimmed
    refine ⟨id, challenge, [], ?_, rfl⟩
    rw [split_eq, List.splitOn_append_cons_self_of_not_mem bare, List.splitOn_eq_singleton bare', List.map_cons,
      List.map_singleton, stripReturn_trimmed kept, stripReturn_trimmed (by simpa [returns] using ends)]
  · intro given
    obtain ⟨id, challenge, rest, pieces, shape⟩ := given
    have bare := split_bare (pieces ▸ List.mem_cons_self)
    have bare' := split_bare (pieces ▸ List.mem_cons_of_mem id List.mem_cons_self)
    rw [split_eq, shape, List.splitOn_append_cons_self_of_not_mem bare, List.splitOn_eq_singleton bare', List.map_cons] at pieces
    exact ⟨id, challenge, shape, bare, bare', stripReturn_same (List.cons.inj pieces).1⟩

namespace PsClient
variable {client : PsClient}

/-- The challenge that the client is left with is the text that was sent. -/
theorem challenge_iff (unknown : client.loggedIn = false) {text : List Char} (line : '\n' ∉ text)
    (trimmed : text.getLast? ≠ some '\r') :
    (∃ after, (parseMessage (Field.challstr.lineOf text)).foldlM receive client = .ok after ∧
      after.challStr = String.ofList text) ↔ Paired text := by
  rw [parseMessage_free .challstr line trimmed, paired_iff trimmed]
  have only (msg : Message) : [msg].foldlM receive client = client.receive msg := by
    rw [List.foldlM_cons]
    simp
  have type : Field.challstr.value = "challstr" := rfl
  rw [only, type, receive, if_pos rfl, onChallStr, unknown]
  obtain ⟨id, rest, pieces⟩ := split_some text
  cases rest with
  | nil => simp [pieces, Message.arg, bind, Except.bind]
  | cons challenge rest =>
    have joined : String.ofList id ++ "|" ++ String.ofList challenge = String.ofList text ↔ text = id ++ '|' :: challenge := by
      rw [← String.toList_inj, eq_comm]
      simp
    simp [pieces, Message.arg, bind, Except.bind, pure, Except.pure, joined]

end PsClient

namespace BattleState

/-- Applying a message asks the parser for this text, and for no other. -/
def Hands (msg : Message) (text : String) : Prop :=
  (∀ parse other : String → Option Json, parse text = other text → apply parse msg = apply other msg) ∧
    ∀ parse : String → Option Json, parse text = none → ∀ state,
      ∃ after, (apply parse msg).run state = .error .uncaught after

theorem hands_iff {payload text : String} {rest : List String} :
    Hands { type := "request", args := payload :: rest } text ↔ payload = text ∧ text ≠ "" := by
  constructor
  · intro given
    obtain ⟨only, asked⟩ := given
    have fails (state : BattleState) : step (fun _ => none) state { type := "request", args := payload :: rest } = none := by
      obtain ⟨after, failed⟩ := asked (fun _ => none) rfl state
      rw [step, failed]
    have filled : payload ≠ "" := by
      rintro rfl
      have kept : step (fun _ => none) {} { type := "request", args := "" :: rest } = some {} := step_iff.mpr (.blank rfl rfl)
      rw [fails] at kept
      cases kept
    have same : payload = text := by
      by_contra other
      have blind := only (fun _ => none) (fun asked => if asked = text then none else some (.object [])) (by simp)
      have taken : step (fun asked => if asked = text then none else some (.object [])) { yourSide := "p1" }
          { type := "request", args := payload :: rest } = some _ :=
        step_iff.mpr (.later ⟨rfl, payload, rfl, filled, if_neg other⟩ (by decide) rfl)
      rw [step, ← blind, ← step, fails] at taken
      cases taken
    exact ⟨same, same ▸ filled⟩
  · intro given
    obtain ⟨rfl, filled⟩ := given
    constructor
    · intro parse other same
      simp [apply, applyRequest, Message.arg, attempt, same]
    · intro parse failing state
      have thrown : apply parse { type := "request", args := payload :: rest } = throw .uncaught := by
        simp [apply, applyRequest, Message.arg, attempt, failing, filled]
      exact ⟨state, by rw [thrown]; rfl⟩

theorem payload_iff {text : List Char} (line : '\n' ∉ text) (trimmed : text.getLast? ≠ some '\r') :
    (∃ msg, parseMessage (Field.request.lineOf text) = [msg] ∧ Hands msg (String.ofList text)) ↔ text ≠ [] ∧ '|' ∉ text := by
  obtain ⟨payload, rest, pieces⟩ := split_some text
  have type : Field.request.value = "request" := rfl
  rw [parseMessage_free .request line trimmed, pieces, type]
  simp only [List.cons.injEq, and_true, exists_eq_left', List.map_cons]
  rw [hands_iff, String.ofList_inj]
  constructor
  · intro given
    obtain ⟨rfl, filled⟩ := given
    exact ⟨by simpa using filled, split_bare (pieces ▸ List.mem_cons_self)⟩
  · intro given
    obtain ⟨filled, bare⟩ := given
    rw [split_eq, List.splitOn_eq_singleton bare, List.map_singleton, stripReturn_trimmed trimmed] at pieces
    exact ⟨(List.cons.inj pieces).1.symm, by simpa using filled⟩

end BattleState

/-- The challenge survives exactly when it has two pieces and nothing is dropped from the first,
and the payload of a request exactly when it has one piece that is not empty. -/
theorem payloads_iff {client : PsClient} (unknown : client.loggedIn = false) {text : List Char} (line : '\n' ∉ text)
    (trimmed : text.getLast? ≠ some '\r') :
    ((∃ after, (parseMessage (Field.challstr.lineOf text)).foldlM PsClient.receive client = .ok after ∧
      after.challStr = String.ofList text) ↔ Paired text) ∧
    ((∃ msg, parseMessage (Field.request.lineOf text) = [msg] ∧ BattleState.Hands msg (String.ofList text)) ↔
      text ≠ [] ∧ '|' ∉ text) :=
  ⟨PsClient.challenge_iff unknown line trimmed, BattleState.payload_iff line trimmed⟩

/-- A challenge of three pieces, and a JSON string with a bar in it. -/
theorem bars_lost :
    (¬ ∃ after, (parseMessage (Field.challstr.lineOf "4|ab|cd".toList)).foldlM PsClient.receive {} = .ok after ∧
      after.challStr = String.ofList "4|ab|cd".toList) ∧
    ¬ ∃ msg, parseMessage (Field.request.lineOf "\x7b\"a\":\"|\"\x7d".toList) = [msg] ∧
      BattleState.Hands msg (String.ofList "\x7b\"a\":\"|\"\x7d".toList) := by
  constructor
  · rw [PsClient.challenge_iff rfl (by decide) (by decide), paired_iff (by decide)]
    rintro ⟨id, challenge, rest, pieces, shape⟩
    have three : split "4|ab|cd".toList '|' = ["4".toList, "ab".toList, "cd".toList] := by decide
    rw [three] at pieces
    cases pieces
    exact absurd shape (by decide)
  · rw [BattleState.payload_iff (by decide) (by decide)]
    exact fun given => given.2 (by decide)

theorem payloads_iff_short :
    ((∃ after, (parseMessage (Field.challstr.lineOf "4|ab".toList)).foldlM PsClient.receive {} = .ok after ∧
      after.challStr = String.ofList "4|ab".toList) ↔ Paired "4|ab".toList) ∧
    ((∃ msg, parseMessage (Field.request.lineOf "4|ab".toList) = [msg] ∧ BattleState.Hands msg (String.ofList "4|ab".toList)) ↔
      "4|ab".toList ≠ [] ∧ '|' ∉ "4|ab".toList) :=
  payloads_iff rfl (by decide) (by decide)

end ShowdownCli
