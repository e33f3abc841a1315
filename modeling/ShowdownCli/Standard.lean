/-! What the client takes from the C++ standard library. A `char` is a `Char`,
so every byte string is the string of the characters with the same codes. -/

namespace ShowdownCli

/-- How a call can fail to return: behaviour the standard leaves undefined (an
index or a key that is not there), or an exception that nothing catches. -/
inductive Fault where
  | undefined
  | uncaught
deriving DecidableEq, Repr

/-- The value of a run of decimal digits. -/
def decimal (digits : List Char) : Nat :=
  digits.foldl (fun value digit => 10 * value + (digit.toNat - '0'.toNat)) 0

/-- `std::isspace` in the default locale. -/
def isSpace (c : Char) : Bool := c ∈ [' ', '\t', '\n', '\x0b', '\x0c', '\r']

def sign : List Char → Int × List Char
  | '-' :: rest => (-1, rest)
  | '+' :: rest => (1, rest)
  | text => (1, text)

/-- `std::stoi`: leading whitespace and a sign, then as many digits as there
are. It throws when there is no digit and when the value is no `int`. -/
def stoi (text : List Char) : Except Fault Int :=
  let (factor, rest) := sign (text.dropWhile isSpace)
  let digits := rest.takeWhile Char.isDigit
  let value : Int := factor * decimal digits
  if digits = [] then .error .uncaught
  else if Int32.minValue.toInt ≤ value ∧ value ≤ Int32.maxValue.toInt then .ok value
  else .error .uncaught

/-- The words `operator>>` reads from a stream until it is exhausted. -/
def words (word : List Char) : List Char → List (List Char)
  | [] => if word = [] then [] else [word]
  | c :: rest =>
    if isSpace c then (if word = [] then words [] rest else word :: words [] rest)
    else words (word ++ [c]) rest

/-- `util.cpp`: the words of a command line. -/
def tokenize (input : String) : List String := (words [] input.toList).map String.ofList

example : stoi "288 brn".toList = .ok 288 := rfl
example : tokenize "  1  tera " = ["1", "tera"] := by decide

end ShowdownCli
