import Mathlib.Data.List.Basic

/-! What the client may say to the server, as a protocol of its own. A search begins a
battle; from then on orders go to the room that was joined last, or to none before one is
joined, and the timer is turned on and off in turns. -/

namespace ShowdownCli

inductive Order where
  | switch (pick : String)
  | move (pick : String) (tera : Bool)
  | forfeit
  | timer (on : Bool)
deriving DecidableEq, Repr

inductive Utterance where
  | search
  | login (username assertion : String)
  | join (room : String)
  | order (room : String) (order : Order)
deriving DecidableEq, Repr

def Order.text : Order → String
  | .switch pick => "|/choose switch " ++ pick
  | .move pick tera => "|/choose move " ++ pick ++ if tera then " terastallize" else ""
  | .forfeit => "|/forfeit"
  | .timer on => if on then "|/timer on" else "|/timer off"

def Utterance.frame : Utterance → String
  | .search => "|/search gen9randombattle"
  | .login username assertion => "|/trn " ++ username ++ ",0," ++ assertion
  | .join room => "|/join " ++ room
  | .order room given => room ++ given.text

def Utterance.isLogin : Utterance → Bool
  | .login _ _ => true
  | _ => false

/-- The battle the client is taking part in; before it has joined, orders go to the empty room. -/
structure Seat where
  room : String := ""
  timer : Bool := false
deriving DecidableEq, Repr

namespace Seat

def order (seat : Seat) : Order → Option Seat
  | .timer on => if seat.timer = on then none else some { seat with timer := on }
  | _ => some seat

/-- Without a battle there is only logging in and searching. -/
def step (seat : Option Seat) : Utterance → Option (Option Seat)
  | .search => some (some {})
  | .login _ _ => some seat
  | .join room => seat.map fun battle => some { battle with room }
  | .order room given =>
    match seat with
    | none => none
    | some battle => if battle.room = room then (battle.order given).map some else none

end Seat
end ShowdownCli
