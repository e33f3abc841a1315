import ShowdownCli.Standard

/-! Messages and identifiers of the Showdown protocol (`protocol/message.h`,
`protocol/ident.h`) and the two parsers for them (`protocol/parser.cpp`). -/

namespace ShowdownCli

structure Message where
  roomId : String := ""
  type : String := ""
  args : List String := []
deriving DecidableEq, Repr, Inhabited

/-- `msg.args[i]`, which the vector does not check. -/
def Message.arg (msg : Message) (i : Nat) : Except Fault String :=
  match msg.args[i]? with
  | some arg => .ok arg
  | none => .error .undefined

@[simp] theorem Message.arg_ok {msg : Message} {i : Nat} {text : String} :
    msg.arg i = .ok text ↔ msg.args[i]? = some text := by
  unfold Message.arg
  cases msg.args[i]? <;> simp

/-- `"p2a: Hoopa"` has side `"p2"`, slot `'a'` and name `"Hoopa"`. -/
structure Ident where
  slot : Char := '\x00'
  side : String := ""
  name : String := ""
deriving DecidableEq, Repr

/-- Remove the carriage return if it exists. -/
def stripReturn (token : List Char) : List Char :=
  if token.getLast? = some '\r' then token.dropLast else token

/-- `split` from inside a token: the characters of the token read so far, and
the rest of the text. -/
def splitFrom (delim : Char) (token : List Char) : List Char → List (List Char)
  | [] => [stripReturn token]
  | c :: rest =>
    if c = delim then stripReturn token :: splitFrom delim [] rest
    else splitFrom delim (token ++ [c]) rest

def split (s : List Char) (delim : Char) : List (List Char) := splitFrom delim [] s

/-- The loop of `parse_message` over the lines that are left. -/
def parseLines (currentRoom : String) : List (List Char) → List Message
  | [] => []
  | line :: rest =>
    match line with
    | [] => parseLines currentRoom rest
    | '>' :: room => parseLines (String.ofList room) rest
    | '|' :: body =>
      match split body '|' with
      | [] => parseLines currentRoom rest
      | type :: args =>
        { roomId := currentRoom, type := String.ofList type, args := args.map String.ofList } ::
          parseLines currentRoom rest
    | _ => parseLines currentRoom rest

def parseMessage (raw : List Char) : List Message :=
  if raw = [] then [] else parseLines "" (split raw '\n')

/-- The name starts at the first character after the colon that is no space.
Everything malformed gives the default identifier. -/
def parseIdent (ident : String) : Ident :=
  let text := ident.toList
  match text.idxOf? ':' with
  | none => {}
  | some pos =>
    let metaData := text.take pos
    let pkmName := (text.drop (pos + 1)).dropWhile (· = ' ')
    if pkmName = [] then {}
    else match metaData with
      | [first, second] => { side := String.ofList [first, second], name := String.ofList pkmName }
      | [first, second, slot] =>
        { slot := slot, side := String.ofList [first, second], name := String.ofList pkmName }
      | _ => {}

example : parseIdent "p2a: Hoopa" = { slot := 'a', side := "p2", name := "Hoopa" } := by decide

example : parseMessage ">battle-1\n|switch|p1a: X|X|9/9\n\n|turn|2\r\n".toList =
    [{ roomId := "battle-1", type := "switch", args := ["p1a: X", "X", "9/9"] },
      { roomId := "battle-1", type := "turn", args := ["2"] }] := by decide

end ShowdownCli
