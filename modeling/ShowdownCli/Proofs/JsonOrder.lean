import Mathlib.Data.String.Basic
import ShowdownCli.Library.Ordered
import ShowdownCli.Library.Results
import ShowdownCli.Json

/-! Values whose objects are all in key order, as the JSON library iterates them. -/

namespace ShowdownCli.Json
open Library Library.Ordered

inductive InOrder : Json → Prop where
  | null : InOrder .null
  | bool (value : Bool) : InOrder (.bool value)
  | integer (value : Int) : InOrder (.integer value)
  | real (truncated : Int) : InOrder (.real truncated)
  | string (value : String) : InOrder (.string value)
  | array {elements : List Json} (inner : ∀ element ∈ elements, InOrder element) : InOrder (.array elements)
  | object {members : List (String × Json)} (increasing : Increasing members)
      (inner : ∀ member ∈ members, InOrder member.2) : InOrder (.object members)

/-- The assumption on the JSON library. -/
def Orders (parse : String → Option Json) : Prop := ∀ text j, parse text = some j → j.InOrder

variable {j value : Json} {key : String}

theorem InOrder.increasing {members : List (String × Json)} (ordered : (Json.object members).InOrder) :
    Increasing members := by
  cases ordered with
  | object increasing _ => exact increasing

theorem InOrder.member (ordered : j.InOrder) (found : j.member key = .ok value) : value.InOrder := by
  cases ordered with
  | object _ inner =>
    cases found
    cases present : List.lookup key _ with
    | none => exact .null
    | some value => exact inner _ (lookup_mem present)
  | null =>
    cases found
    exact .null
  | bool | integer | real | string | array => cases found

/-- The keys of an object. -/
def keys : Json → List String
  | .object members => members.map Prod.fst
  | _ => []

theorem InOrder.firstKey (ordered : j.InOrder) :
    j.firstKey = .ok key ↔ key ∈ j.keys ∧ ∀ other ∈ j.keys, ¬ other < key := by
  cases ordered with
  | @object members increasing _ =>
    rw [keys, ← first_iff increasing.keys]
    cases members with
    | nil => simp [Json.firstKey]
    | cons member rest => simp [Json.firstKey]
  | null | bool | integer | real | string | array => simp [Json.firstKey, keys]

end ShowdownCli.Json
