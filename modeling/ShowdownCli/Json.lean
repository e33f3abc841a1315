import ShowdownCli.Standard

/-! Values of the JSON library and the accesses the client makes on them. The
parser itself is outside of the repository and stays a parameter. -/

namespace ShowdownCli

/-- Objects keep their members in key order. Of a number with a fraction the
client only ever uses the integer it truncates to. -/
inductive Json where
  | null
  | bool (value : Bool)
  | integer (value : Int)
  | real (truncated : Int)
  | string (value : String)
  | array (elements : List Json)
  | object (members : List (String × Json))

namespace Json

/-- `operator[]` of a constant object does not check that the key is there; on
anything but an object it throws. -/
def constMember (json : Json) (key : String) : Except Fault Json :=
  match json with
  | .object members =>
    match members.lookup key with
    | some value => .ok value
    | none => .error .undefined
  | _ => .error .uncaught

/-- `operator[]` of a value that may change: a missing member is added as null,
and null itself becomes an object. -/
def member (json : Json) (key : String) : Except Fault Json :=
  match json with
  | .object members => .ok ((members.lookup key).getD .null)
  | .null => .ok .null
  | _ => .error .uncaught

def index (json : Json) (i : Nat) : Except Fault Json :=
  match json with
  | .array elements =>
    match elements[i]? with
    | some value => .ok value
    | none => .error .undefined
  | _ => .error .uncaught

def contains (json : Json) (key : String) : Bool :=
  match json with
  | .object members => (members.lookup key).isSome
  | _ => false

/-- What a range-based loop visits; a single value is a range of itself. -/
def elements (json : Json) : List Json :=
  match json with
  | .null => []
  | .array elements => elements
  | .object members => members.map Prod.snd
  | value => [value]

def isNull (json : Json) : Bool :=
  match json with
  | .null => true
  | _ => false

/-- `begin().key()`: only iterators of objects have keys, and `begin` of an
empty object is its end. -/
def firstKey (json : Json) : Except Fault String :=
  match json with
  | .object [] => .error .undefined
  | .object ((key, _) :: _) => .ok key
  | _ => .error .uncaught

def getString (json : Json) : Except Fault String :=
  match json with
  | .string value => .ok value
  | _ => .error .uncaught

theorem getString_ok {json : Json} {text : String} : json.getString = .ok text ↔ json = .string text := by
  cases json <;> simp [getString]

def getBool (json : Json) : Except Fault Bool :=
  match json with
  | .bool value => .ok value
  | _ => .error .uncaught

/-- `get<int>` converts numbers and truth values. Integers are reduced to the
width of an `int`; a fraction outside of it has no defined value. -/
def getInt (json : Json) : Except Fault Int :=
  match json with
  | .integer value => .ok (value.bmod UInt32.size)
  | .real truncated =>
    if Int32.minValue.toInt ≤ truncated ∧ truncated ≤ Int32.maxValue.toInt then .ok truncated
    else .error .undefined
  | .bool value => .ok (if value then 1 else 0)
  | _ => .error .uncaught

end Json
end ShowdownCli
