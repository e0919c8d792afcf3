/-!
# JSON values

Objects keep the order of their members and may repeat a key: both decide what a reader of the
value reports. `Json.sorted` gives the form in which the order is by key and the last of several
members with one key stands.
-/

namespace Manuscript

namespace Json

/-- A number of a JSON text: an integer of at most 64 bits, or a double. -/
inductive Number
  | natural (n : Nat)
  | negative (n : Nat)
  | real (x : Float)

end Json

inductive Json
  | null
  | bool (b : Bool)
  | number (n : Json.Number)
  | string (s : String)
  | array (items : List Json)
  | object (members : List (String × Json))

namespace Json

def natural (n : Nat) : Json :=
  .number (.natural n)

def optional {α : Type} (toJson : α → Json) : Option α → Json
  | none => .null
  | some x => toJson x

def list {α : Type} (toJson : α → Json) (xs : List α) : Json :=
  .array (xs.map toJson)

/-- Put a member into a list that is sorted by key, in the place of one with the same key. -/
def insertMember (key : String) (value : Json) : List (String × Json) → List (String × Json)
  | [] => [(key, value)]
  | (k, v) :: rest =>
    if key < k then (key, value) :: (k, v) :: rest
    else if key = k then (key, value) :: rest
    else (k, v) :: insertMember key value rest

mutual

/-- The value with the members of every object sorted by key, the last one of each key kept. -/
def sorted : Json → Json
  | .array items => .array (sortedItems items)
  | .object members => .object (sortedMembers members [])
  | .null => .null
  | .bool b => .bool b
  | .number n => .number n
  | .string s => .string s

def sortedItems : List Json → List Json
  | [] => []
  | item :: rest => sorted item :: sortedItems rest

def sortedMembers : List (String × Json) → List (String × Json) → List (String × Json)
  | [], done => done
  | (key, value) :: rest, done => sortedMembers rest (insertMember key (sorted value) done)

end

mutual

/-- How many arrays and objects lie inside each other at the deepest place. -/
def depth : Json → Nat
  | .array items => depthItems items + 1
  | .object members => depthMembers members + 1
  | _ => 0

def depthItems : List Json → Nat
  | [] => 0
  | item :: rest => max (depth item) (depthItems rest)

def depthMembers : List (String × Json) → Nat
  | [] => 0
  | (_, value) :: rest => max (depth value) (depthMembers rest)

end

def get? (key : String) : Json → Option Json
  | .object members => members.lookup key
  | _ => none

end Json

end Manuscript
