import ShowdownCli.Layers

/-! The request to the login server and its answer (`net/auth.cpp`). -/

namespace ShowdownCli.Auth

def postFields (username password challstr : String) : String :=
  "act=login&name=" ++ username ++ "&pass=" ++ password ++ "&challstr=" ++ challstr

/-- The body is handed over as a C string. -/
def requestBody (username password challstr : String) : String :=
  String.ofList ((postFields username password challstr).toList.takeWhile (· ≠ '\x00'))

/-- What `curl_easy_perform` comes to, with the pieces of the body as the write callback
was given them. -/
structure Answer where
  res : Bool
  pieces : List (List Char)

def writeCallback (userp contents : List Char) : List Char := userp ++ contents

def responseBuffer (answer : Answer) : List Char := answer.pieces.foldl writeCallback []

/-- The body of the `try`, whose last branch only logs. -/
def readAssertion (parse : String → Option Json) (text : String) : Except Fault String :=
  match parse text with
  | none => .error .uncaught
  | some j =>
    if j.contains "assertion" then do
      let assertion ← (← j.member "assertion").getString
      return if assertion.toList.head? = some ';' then "" else assertion
    else if j.contains "curuser" then do
      let _ ← (← j.member "curuser").member "loggedin"
      return ""
    else .ok ""

/-- From the answer on; there is none if there was no handle for the request. An exception
leaves the assertion as it was, which is empty. -/
def requestAssertion (parse : String → Option Json) (answer : Option Answer) : Except Fault String :=
  match answer with
  | none => .ok ""
  | some answer =>
    if answer.res then
      match responseBuffer answer with
      | ']' :: rest =>
        match readAssertion parse (String.ofList rest) with
        | .error .uncaught => .ok ""
        | assertion => assertion
      | _ => .ok ""
    else .ok ""

/-- The world with a login server that gives these answers. -/
def world (parse : String → Option Json) (answers : Nat → Option Answer) : World :=
  { parse, assertions := fun request => (requestAssertion parse (answers request)).toOption.getD "" }

end ShowdownCli.Auth
