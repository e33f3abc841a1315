import ShowdownCli.Json

/-! Configuration files (`util/json_loader.h`, `net/netconfig.h`). A configuration hands
out references to its fields, and the loader assigns them in turn. -/

namespace ShowdownCli

/-- `as_tuple`: for each field, in the order of the tuple, the assignment of a string to it.
All fields of a configuration are strings. -/
class Config (α : Type) where
  asTuple : List (String → α → α)

namespace JsonLoader
variable {α : Type}

/-- `values.at(index++)` for each field of the tuple; `at` throws behind the last value. -/
def assign (values : List Json) : Nat → List (String → α → α) → α → Except Fault α
  | _, [], cfg => .ok cfg
  | index, field :: fields, cfg =>
    match values[index]? with
    | none => .error .uncaught
    | some value => do
      let arg ← value.getString
      assign values (index + 1) fields (field arg cfg)

/-- A file that cannot be opened has no text, and leaves the configuration as it is. -/
def load [Config α] (parse : String → Option Json) (cfg : α) (file : Option String) : Except Fault α :=
  match file with
  | none => .ok cfg
  | some text =>
    match parse text with
    | none => .error .uncaught
    | some j => assign j.elements 0 Config.asTuple cfg

end JsonLoader

structure NetConfig where
  psServerPort : String := ""
  psServerUrl : String := ""
  psWebsocketPath : String := ""
deriving DecidableEq, Repr

instance : Config NetConfig where
  asTuple := [fun arg cfg => { cfg with psServerPort := arg }, fun arg cfg => { cfg with psServerUrl := arg },
    fun arg cfg => { cfg with psWebsocketPath := arg }]

end ShowdownCli
