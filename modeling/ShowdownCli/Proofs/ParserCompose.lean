import ShowdownCli.Library.Transducer
import ShowdownCli.Proofs.ParserRoundTrip

/-! A frame line by line. Each line either names the room of the lines below it, or makes
one message, or does nothing, so frames may be cut between any two lines. -/

namespace ShowdownCli
open Library

/-- The lines of a frame, with their carriage returns. -/
def frameLines (raw : List Char) : List (List Char) := raw.splitOn '\n'

/-- The room that a line names, less the carriage return of the line. -/
def lineRoom : List Char → Option String
  | '>' :: room => some (String.ofList (stripReturn room))
  | _ => none

def barred (line : List Char) : Bool := line.head? = some '|'

/-- The message of a line in a room. -/
def lineMessage (room : String) : List Char → Option Message
  | '|' :: body =>
    match split (stripReturn body) '|' with
    | [] => none
    | type :: args => some { roomId := room, type := String.ofList type, args := args.map String.ofList }
  | _ => none

/-- The room in effect after a line. -/
def roomAfter (room : String) (line : List Char) : String := (lineRoom line).getD room

/-- The room in effect below some lines: the last one that they name. -/
def lastRoom (lines : List (List Char)) : String := ((lines.filterMap lineRoom).getLast?).getD ""

/-- How many messages some lines make before they name a room. -/
def roomless (lines : List (List Char)) : Nat :=
  (lines.takeWhile fun line => (lineRoom line).isNone).countP barred

theorem stripReturn_cons {c : Char} (other : c ≠ '\r') (text : List Char) :
    stripReturn (c :: text) = c :: stripReturn text := by
  unfold stripReturn
  cases text with
  | nil => simp [other]
  | cons d rest =>
    rw [List.getLast?_cons_cons]
    split <;> rfl

theorem split_some (text : List Char) : ∃ type args, split text '|' = type :: args := by
  rw [split_eq]
  cases pieces : text.splitOn '|' with
  | nil => exact absurd pieces (List.splitOn_ne_nil _ _)
  | cons type args => exact ⟨_, _, rfl⟩

theorem lineMessage_bar (room : String) (body : List Char) : ∃ type args, split (stripReturn body) '|' = type :: args ∧
    lineMessage room ('|' :: body) =
      some { roomId := room, type := String.ofList type, args := args.map String.ofList } := by
  obtain ⟨type, args, pieces⟩ := split_some (stripReturn body)
  exact ⟨type, args, pieces, by rw [lineMessage, pieces]⟩

theorem lineMessage_isSome (room : String) (line : List Char) : (lineMessage room line).isSome = barred line := by
  cases line with
  | nil => rfl
  | cons c body =>
    by_cases bar : c = '|'
    · subst bar
      obtain ⟨_, _, _, message⟩ := lineMessage_bar room body
      simp [message, barred]
    · have silent : lineMessage room (c :: body) = none := by
        rw [lineMessage]
        intro body same
        exact bar (List.cons.inj same).1
      simp [silent, barred, bar]

theorem parseLines_cons (room : String) (line : List Char) (rest : List (List Char)) :
    parseLines room (stripReturn line :: rest) = (lineMessage room line).toList ++ parseLines (roomAfter room line) rest := by
  by_cases names : line.head? = some '>'
  · obtain ⟨text, rfl⟩ := List.head?_eq_some_iff.mp names
    rw [stripReturn_cons (by decide), parseLines]
    rfl
  by_cases bar : line.head? = some '|'
  · obtain ⟨body, rfl⟩ := List.head?_eq_some_iff.mp bar
    obtain ⟨type, args, pieces, message⟩ := lineMessage_bar room body
    rw [stripReturn_cons (by decide), parseLines, pieces, message]
    rfl
  · have silent : lineMessage room line = none := by
      rw [← Option.not_isSome_iff_eq_none, lineMessage_isSome]
      simpa [barred] using bar
    have stays : roomAfter room line = room := by
      unfold roomAfter lineRoom
      split
      next => exact absurd rfl names
      next => rfl
    rw [silent, stays, parseLines_noise room (stripReturn_head names) (stripReturn_head bar)]
    rfl

/-- The loop over the lines of a frame. -/
theorem parseMessage_lines (raw : List Char) :
    parseMessage raw = Transducer.outputs roomAfter lineMessage "" (frameLines raw) := by
  have loop (room : String) (lines : List (List Char)) :
      parseLines room (lines.map stripReturn) = Transducer.outputs roomAfter lineMessage room lines := by
    induction lines generalizing room with
    | nil => rfl
    | cons line rest ih => rw [List.map_cons, parseLines_cons, ih, Transducer.outputs]
  unfold parseMessage
  split
  next nothing =>
    subst nothing
    rfl
  next => rw [split_eq, loop, frameLines]

def Message.inRoom (room : String) (msg : Message) : Message := { msg with roomId := room }

theorem lineMessage_inRoom (room other : String) (line : List Char) :
    lineMessage room line = (lineMessage other line).map (Message.inRoom room) := by
  unfold lineMessage
  split
  next body =>
    split
    next => rfl
    next => rfl
  next => rfl

theorem foldl_roomAfter (lines : List (List Char)) : lines.foldl roomAfter "" = lastRoom lines := by
  induction lines using List.reverseRecOn with
  | nil => rfl
  | append_singleton before line ih =>
    rw [List.foldl_append, List.foldl_cons, List.foldl_nil, ih, roomAfter, lastRoom, lastRoom, List.filterMap_append]
    cases named : lineRoom line <;> simp [named]

theorem lineMessage_named {line : List Char} {name : String} (named : lineRoom line = some name) (room : String) :
    lineMessage room line = none := by
  unfold lineRoom at named
  split at named
  next => rfl
  next => cases named

/-- Lines read under another room differ in the messages before they name one. -/
theorem outputs_inRoom (room : String) (lines : List (List Char)) :
    Transducer.outputs roomAfter lineMessage room lines =
      ((Transducer.outputs roomAfter lineMessage "" lines).take (roomless lines)).map (Message.inRoom room) ++
        (Transducer.outputs roomAfter lineMessage "" lines).drop (roomless lines) := by
  induction lines with
  | nil => rfl
  | cons line rest ih =>
    rw [Transducer.outputs, Transducer.outputs, roomAfter, roomAfter, lineMessage_inRoom room ""]
    cases named : lineRoom line with
    | some name =>
      have none : roomless (line :: rest) = 0 := by simp [roomless, named]
      simp [none, lineMessage_named named]
    | none =>
      have counted : roomless (line :: rest) = roomless rest + if barred line then 1 else 0 := by
        simp [roomless, named, List.countP_cons]
      have bar := lineMessage_isSome "" line
      rw [Option.getD_none, Option.getD_none, ih, counted, ← bar]
      cases lineMessage "" line with
      | none => rfl
      | some msg => simp

/-- A frame cut after any line: the second part is read as a frame of its own, except that its
messages above its first room belong to the last room of the first part. Every line with a bar
makes one message, whose room is the last one named above it. -/
theorem parseMessage_append (a b : List Char) :
    parseMessage (a ++ '\n' :: b) = parseMessage a ++
        (((parseMessage b).take (roomless (frameLines b))).map (Message.inRoom (lastRoom (frameLines a))) ++
          (parseMessage b).drop (roomless (frameLines b))) ∧
      List.Forall₂ (fun split msg => msg.roomId = lastRoom split.1)
        ((Runs.splits (frameLines a)).filter fun split => barred split.2) (parseMessage a) := by
  constructor
  · have cut : frameLines (a ++ '\n' :: b) = frameLines a ++ frameLines b := List.splitOn_append_cons_self ..
    rw [parseMessage_lines, cut, Transducer.outputs_append, foldl_roomAfter, outputs_inRoom (lastRoom _),
      ← parseMessage_lines, ← parseMessage_lines]
  · rw [parseMessage_lines]
    refine (Transducer.outputs_forall lineMessage_isSome "" _).imp fun split msg message => ?_
    rw [foldl_roomAfter, lineMessage_inRoom _ ""] at message
    obtain ⟨_, _, rfl⟩ := Option.map_eq_some_iff.mp message
    rfl

end ShowdownCli
