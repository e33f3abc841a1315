import ShowdownCli.Proofs.ParserCompose
import ShowdownCli.Proofs.ParserLoss

/-! What the parser can deliver. No separator is left in any part of a message, and every
list of such messages is delivered for some frame. -/

namespace ShowdownCli
open Library

namespace Message

/-- No part of the message holds a separator. -/
structure Plain (msg : Message) : Prop where
  room : '\n' ∉ msg.roomId.toList
  fields : ∀ field ∈ msg.type :: msg.args, '\n' ∉ field.toList ∧ '|' ∉ field.toList

/-- The fields behind their bars, each with a carriage return for the parser to strip. -/
def body (msg : Message) : List Char :=
  rejoin ((msg.type :: msg.args).map fun field => field.toList ++ ['\r'])

/-- The message below its room. -/
def encode (msg : Message) : List Char :=
  endLine ('>' :: msg.roomId.toList) true ++ endLine ('|' :: msg.body) true

end Message

variable {msg : Message} {msgs : List Message} {room : String} {line text piece : List Char} {delim : Char}

/-! ## What is delivered -/

/-- The fields of a line are pieces of it. -/
theorem lineMessage_plain (made : lineMessage room line = some msg) (single : '\n' ∉ line) :
    msg.roomId = room ∧ ∀ field ∈ msg.type :: msg.args, '\n' ∉ field.toList ∧ '|' ∉ field.toList := by
  unfold lineMessage at made
  split at made
  next body =>
    split at made
    next => cases made
    next type args pieces =>
      cases made
      refine ⟨rfl, fun field member => ?_⟩
      obtain ⟨token, inside, rfl⟩ : ∃ token ∈ split (stripReturn body) '|', String.ofList token = field := by
        rw [pieces]
        exact List.mem_map.mp member
      rw [split_eq] at inside
      obtain ⟨piece, among, rfl⟩ := List.mem_map.mp inside
      obtain ⟨avoids, part⟩ := splitOn_avoids among
      have inside : piece ⊆ body := List.Subset.trans part (stripReturn_subset body)
      have whole : stripReturn piece ⊆ body := List.Subset.trans (stripReturn_subset piece) inside
      rw [String.toList_ofList]
      exact ⟨fun newline => single (List.mem_cons_of_mem _ (whole newline)), fun bar => avoids (stripReturn_subset piece bar)⟩
  next => cases made

theorem lastRoom_plain {lines : List (List Char)} (single : ∀ line ∈ lines, '\n' ∉ line) : '\n' ∉ (lastRoom lines).toList := by
  unfold lastRoom
  cases last : (lines.filterMap lineRoom).getLast? with
  | none => simp
  | some room =>
    obtain ⟨line, member, named⟩ := List.mem_filterMap.mp (List.mem_of_getLast? last)
    unfold lineRoom at named
    split at named
    next text =>
      cases named
      rw [Option.getD_some, String.toList_ofList]
      exact fun newline => single _ member (List.mem_cons_of_mem _ (stripReturn_subset text newline))
    next => cases named

theorem parseMessage_plain (raw : List Char) : ∀ msg ∈ parseMessage raw, msg.Plain := by
  intro msg member
  rw [parseMessage_lines, Transducer.outputs_splits] at member
  obtain ⟨⟨before, line⟩, split, made⟩ := List.mem_filterMap.mp member
  have inside := Runs.mem_splits.mp split
  have single : ∀ line ∈ frameLines raw, '\n' ∉ line := fun line member => (splitOn_avoids member).1
  rw [foldl_roomAfter] at made
  obtain ⟨same, fields⟩ := lineMessage_plain made (single line (inside.subset (by simp)))
  refine ⟨?_, fields⟩
  rw [same]
  exact lastRoom_plain fun line member => single line (inside.subset (by simp [member]))

/-! ## What is delivered for an encoding -/

theorem split_body (plain : msg.Plain) : split msg.body '|' = (msg.type :: msg.args).map String.toList := by
  have avoids : ∀ piece ∈ (msg.type :: msg.args).map (fun field => field.toList ++ ['\r']), '|' ∉ piece := by
    intro piece member
    obtain ⟨field, inside, rfl⟩ := List.mem_map.mp member
    simp [(plain.fields field inside).2]
  rw [split_eq, Message.body, rejoin, List.splitOn_intercalate '|' avoids (by simp), List.map_map]
  exact List.map_congr_left fun field _ => stripReturn_return field.toList

theorem body_single (plain : msg.Plain) : '\n' ∉ msg.body := by
  have joined (fields : List String) (single : ∀ field ∈ fields, '\n' ∉ field.toList) :
      '\n' ∉ rejoin (fields.map fun field => field.toList ++ ['\r']) := by
    induction fields with
    | nil => simp [rejoin]
    | cons field rest ih =>
      have first := single field List.mem_cons_self
      have later := ih fun other member => single other (List.mem_cons_of_mem _ member)
      cases rest with
      | nil => simp [rejoin, first]
      | cons next rest =>
        rw [List.map_cons, List.map_cons, rejoin_cons] at *
        simp [first, later]
  exact joined _ fun field member => (plain.fields field member).1

theorem parseLines_encode (plain : msg.Plain) (current : String) (rest : List Char) :
    parseLines current (split (msg.encode ++ rest) '\n') = msg :: parseLines msg.roomId (split rest '\n') := by
  have header : '\n' ∉ '>' :: msg.roomId.toList := by simp [plain.room]
  have bar : '\n' ∉ '|' :: msg.body := by simp [body_single plain]
  rw [Message.encode, List.append_assoc, split_endLine header, split_endLine bar, if_pos rfl, if_pos rfl, parseLines,
    String.ofList_toList, parseLines, split_body plain]
  simp [Function.comp_def]

theorem parseLines_encodes (plain : ∀ msg ∈ msgs, msg.Plain) (current : String) :
    parseLines current (split (msgs.flatMap Message.encode) '\n') = msgs := by
  induction msgs generalizing current with
  | nil => rfl
  | cons msg rest ih =>
    rw [List.flatMap_cons, parseLines_encode (plain msg List.mem_cons_self),
      ih fun other member => plain other (List.mem_cons_of_mem _ member)]

/-- The messages without a separator in any part, in any number and order, are exactly what the
parser can deliver, and it delivers them for their encoding. -/
theorem parseMessage_range (msgs : List Message) :
    ((∃ raw, parseMessage raw = msgs) ↔ ∀ msg ∈ msgs, msg.Plain) ∧
      (parseMessage (msgs.flatMap Message.encode) = msgs ↔ ∀ msg ∈ msgs, msg.Plain) := by
  have read (plain : ∀ msg ∈ msgs, msg.Plain) : parseMessage (msgs.flatMap Message.encode) = msgs := by
    unfold parseMessage
    split
    next nothing =>
      rw [← parseLines_encodes plain "", nothing]
      rfl
    next => exact parseLines_encodes plain ""
  have delivered (raw : List Char) (parsed : parseMessage raw = msgs) : ∀ msg ∈ msgs, msg.Plain :=
    parsed ▸ parseMessage_plain raw
  exact ⟨⟨fun given => delivered _ given.choose_spec, fun plain => ⟨_, read plain⟩⟩, delivered _, read⟩

end ShowdownCli
