import ShowdownCli.Proofs.ParserLines

/-! Transcripts in the form the protocol gives them, and that `parseMessage` reads
from each exactly the messages it was written from. -/

namespace ShowdownCli

/-- The type or an argument of a message. -/
structure Field where
  text : List Char
  line : '\n' ∉ text
  bar : '|' ∉ text
  trimmed : text.getLast? ≠ some '\r'

structure Room where
  text : List Char
  line : '\n' ∉ text
  trimmed : text.getLast? ≠ some '\r'

/-- A line that is neither a room nor a message, the blank line among them. -/
structure Noise where
  text : List Char
  line : '\n' ∉ text
  room : text.head? ≠ some '>'
  message : text.head? ≠ some '|'

inductive Line where
  | message (type : Field) (args : List Field)
  | noise (text : Noise)

/-- The lines under one room, each with whether its end has a carriage return. -/
abbrev Lines := List (Line × Bool)

structure Block where
  room : Room
  carriage : Bool
  lines : Lines

/-- `opening` stands before the first room. -/
structure Transcript where
  opening : Lines
  blocks : List Block

def Field.value (field : Field) : String := String.ofList field.text

def Line.render : Line → List Char
  | .message type args => (type :: args).flatMap fun field => '|' :: field.text
  | .noise line => line.text

def Line.messages (roomId : String) : Line → List Message
  | .message type args => [{ roomId, type := type.value, args := args.map Field.value }]
  | .noise _ => []

def endLine (line : List Char) (carriage : Bool) : List Char :=
  line ++ (if carriage then ['\r', '\n'] else ['\n'])

namespace Lines

def render (lines : Lines) : List Char := lines.flatMap fun (line, carriage) => endLine line.render carriage

def messages (roomId : String) (lines : Lines) : List Message := lines.flatMap fun (line, _) => line.messages roomId

end Lines

namespace Block

def roomId (block : Block) : String := String.ofList block.room.text

def render (block : Block) : List Char := endLine ('>' :: block.room.text) block.carriage ++ block.lines.render

def messages (block : Block) : List Message := block.lines.messages block.roomId

end Block

namespace Transcript

def render (transcript : Transcript) : List Char :=
  transcript.opening.render ++ transcript.blocks.flatMap Block.render

def messages (transcript : Transcript) : List Message :=
  transcript.opening.messages "" ++ transcript.blocks.flatMap Block.messages

end Transcript

theorem stripReturn_trimmed {token : List Char} (trimmed : token.getLast? ≠ some '\r') :
    stripReturn token = token := if_neg trimmed

theorem stripReturn_return (token : List Char) : stripReturn (token ++ ['\r']) = token := by
  simp [stripReturn]

/-- What is left of a line that may have ended in a carriage return of its own. -/
theorem split_endLine {line : List Char} (inside : '\n' ∉ line) (carriage : Bool) (rest : List Char) :
    split (endLine line carriage ++ rest) '\n' =
      (if carriage then line else stripReturn line) :: split rest '\n' := by
  cases carriage with
  | false =>
    have cut : (line ++ '\n' :: rest).splitOn '\n' = line :: rest.splitOn '\n' :=
      List.splitOn_append_cons_self_of_not_mem inside rest
    simp [endLine, split_eq, cut]
  | true =>
    have whole : '\n' ∉ line ++ ['\r'] := by simp [inside]
    have cut := List.splitOn_append_cons_self_of_not_mem whole rest
    have joined : endLine line true ++ rest = (line ++ ['\r']) ++ '\n' :: rest := by simp [endLine]
    rw [joined, split_eq, cut, List.map_cons, stripReturn_return, ← split_eq, if_pos rfl]

theorem split_trimmed {line : List Char} (inside : '\n' ∉ line) (trimmed : line.getLast? ≠ some '\r')
    (carriage : Bool) (rest : List Char) :
    split (endLine line carriage ++ rest) '\n' = line :: split rest '\n' := by
  rw [split_endLine inside, stripReturn_trimmed trimmed, ite_self]

/-! ## One line -/

theorem split_fields (type : Field) (args : List Field) :
    split (type.text ++ args.flatMap fun field => '|' :: field.text) '|' = (type :: args).map Field.text := by
  induction args generalizing type with
  | nil => simp [split_eq, List.splitOn_eq_singleton type.bar, stripReturn_trimmed type.trimmed]
  | cons arg args ih =>
    have cut := List.splitOn_append_cons_self_of_not_mem type.bar (arg.text ++ args.flatMap fun field => '|' :: field.text)
    have rest := ih arg
    rw [split_eq] at rest
    rw [split_eq, List.flatMap_cons, List.cons_append, cut, List.map_cons, stripReturn_trimmed type.trimmed, rest]
    rfl

theorem parseLines_message (roomId : String) (type : Field) (args : List Field) (rest : List (List Char)) :
    parseLines roomId ((Line.message type args).render :: rest) =
      (Line.message type args).messages roomId ++ parseLines roomId rest := by
  rw [Line.render, List.flatMap_cons, List.cons_append, parseLines, split_fields]
  simp [Line.messages, Field.value, Function.comp_def]

theorem parseLines_noise (roomId : String) {text : List Char} (room : text.head? ≠ some '>')
    (message : text.head? ≠ some '|') (rest : List (List Char)) :
    parseLines roomId (text :: rest) = parseLines roomId rest := by
  cases text with
  | nil => rfl
  | cons c text =>
    rw [parseLines]
    · exact List.cons_ne_nil c text
    · intro name header
      exact room (header ▸ rfl)
    · intro body bar
      exact message (bar ▸ rfl)

theorem stripReturn_head {text : List Char} {c : Char} (other : text.head? ≠ some c) :
    (stripReturn text).head? ≠ some c := by
  unfold stripReturn
  split
  next =>
    intro first
    apply other
    cases text with
    | nil => cases first
    | cons d rest =>
      cases rest with
      | nil => cases first
      | cons => exact first
  next => exact other

theorem message_inside (type : Field) (args : List Field) : '\n' ∉ (Line.message type args).render := by
  intro member
  obtain ⟨field, _, inside⟩ := List.mem_flatMap.mp member
  rcases List.mem_cons.mp inside with bar | inside
  · exact absurd bar (by decide)
  · exact field.line inside

theorem cons_trimmed {c : Char} {text : List Char} (other : c ≠ '\r') (trimmed : text.getLast? ≠ some '\r') :
    (c :: text).getLast? ≠ some '\r' := by
  cases text with
  | nil => simpa using other
  | cons => rwa [List.getLast?_cons_cons]

theorem message_trimmed (type : Field) (args : List Field) :
    (Line.message type args).render.getLast? ≠ some '\r' := by
  have ends (before : List Field) (last : Field) :
      ((before ++ [last]).flatMap fun field => '|' :: field.text).getLast? ≠ some '\r' := by
    rw [List.flatMap_append, List.flatMap_singleton, List.getLast?_append]
    exact cons_trimmed (by decide) last.trimmed
  rw [Line.render, ← List.dropLast_concat_getLast (List.cons_ne_nil type args)]
  exact ends _ _

theorem parseLines_line (roomId : String) (line : Line) (carriage : Bool) (rest : List Char) :
    parseLines roomId (split (endLine line.render carriage ++ rest) '\n') =
      line.messages roomId ++ parseLines roomId (split rest '\n') := by
  cases line with
  | message type args =>
    rw [split_trimmed (message_inside type args) (message_trimmed type args), parseLines_message]
  | noise text =>
    rw [Line.render, split_endLine text.line]
    cases carriage with
    | false => exact parseLines_noise roomId (stripReturn_head text.room) (stripReturn_head text.message) _
    | true => exact parseLines_noise roomId text.room text.message _

/-! ## Blocks -/

theorem parseLines_lines (roomId : String) (lines : Lines) (rest : List Char) :
    parseLines roomId (split (lines.render ++ rest) '\n') =
      lines.messages roomId ++ parseLines roomId (split rest '\n') := by
  induction lines with
  | nil => rfl
  | cons entry lines ih =>
    obtain ⟨line, carriage⟩ := entry
    have first : Lines.render ((line, carriage) :: lines) = endLine line.render carriage ++ Lines.render lines := rfl
    rw [first, List.append_assoc, parseLines_line, ih, ← List.append_assoc]
    rfl

theorem parseLines_block (roomId : String) (block : Block) (rest : List Char) :
    parseLines roomId (split (block.render ++ rest) '\n') =
      block.messages ++ parseLines block.roomId (split rest '\n') := by
  have inside : '\n' ∉ '>' :: block.room.text := by simp [block.room.line]
  have trimmed := cons_trimmed (c := '>') (by decide) block.room.trimmed
  rw [Block.render, List.append_assoc, split_trimmed inside trimmed, parseLines]
  exact parseLines_lines block.roomId block.lines rest

theorem parseLines_blocks (roomId : String) (blocks : List Block) :
    parseLines roomId (split (blocks.flatMap Block.render) '\n') = blocks.flatMap Block.messages := by
  induction blocks generalizing roomId with
  | nil => rfl
  | cons block blocks ih => rw [List.flatMap_cons, parseLines_block, ih, List.flatMap_cons]

/-- Parsing what a transcript is rendered to gives its messages back. -/
theorem parseMessage_render (transcript : Transcript) : parseMessage transcript.render = transcript.messages := by
  have read : parseLines "" (split transcript.render '\n') = transcript.messages := by
    rw [Transcript.render, parseLines_lines, parseLines_blocks]
    rfl
  unfold parseMessage
  split
  next nothing =>
    rw [← read, nothing]
    rfl
  next => exact read

/-- A room between lines that are not messages, an argument that is empty, and both line ends. -/
private def excerpt : Transcript where
  opening := [(.noise ⟨"welcome".toList, by decide, by decide, by decide⟩, false)]
  blocks := [{
    room := ⟨"battle-gen9-1".toList, by decide, by decide⟩
    carriage := true
    lines := [
      (.message ⟨"player".toList, by decide, by decide, by decide⟩
        [⟨"p1".toList, by decide, by decide, by decide⟩, ⟨[], by decide, by decide, by decide⟩], true),
      (.noise ⟨[], by decide, by decide, by decide⟩, false),
      (.message ⟨"turn".toList, by decide, by decide, by decide⟩ [⟨"1".toList, by decide, by decide, by decide⟩], false)] }]

example : excerpt.render = "welcome\n>battle-gen9-1\r\n|player|p1|\r\n\n|turn|1\n".toList ∧
    parseMessage excerpt.render =
      [{ roomId := "battle-gen9-1", type := "player", args := ["p1", ""] },
        { roomId := "battle-gen9-1", type := "turn", args := ["1"] }] := by decide +kernel

end ShowdownCli
