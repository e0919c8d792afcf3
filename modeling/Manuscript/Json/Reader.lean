import Manuscript.Json.Outline

/-!
# Readers

A reader takes an outline for a value of some type or reports why it cannot. Where the outline comes
from decides a few of the reports: a text limits how deep brackets may nest and is read no further
than needed, a whole value and a part of a buffered value are complete before they are read.
-/

namespace Manuscript.Json

inductive Origin
  /-- A text, of which `room` further levels of brackets are read. -/
  | text (room : Nat)
  | value
  /-- The inside of a value that was read whole before its meaning was known. -/
  | buffered
deriving DecidableEq

/-- The levels of brackets that are read of a text. -/
def maxDepth : Nat := 127

/-- The origin of what stands in a bracket. -/
def Origin.enter : Origin → Except Fault Origin
  | .text 0 => .error Malformation.nestingTooDeep
  | .text (room + 1) => .ok (.text room)
  | .value => .ok .value
  | .buffered => .ok .buffered

abbrev Reader (α : Type) := Origin → Outline → Except Fault α

/-- Take the report of a text for the report of a reader. -/
def wellFormed {α : Type} : Except Malformation α → Except Fault α
  | .ok x => .ok x
  | .error m => .error (.malformed m)

/-- The report of a reader that expected something else. -/
def Outline.mismatch (expected : String) : Outline → Fault
  | .null => .wrongType .null expected
  | .bool b => .wrongType (.bool b) expected
  | .number (.ok n) => .wrongType n.found expected
  | .number (.error m) => m
  | .string (.ok s) => .wrongType (.string s) expected
  | .string (.error m) => m
  | .array _ _ => .wrongType .array expected
  | .object _ _ => .wrongType .object expected
  | .missing => Malformation.valueMissing
  | .broken b => b.kept

namespace Outline

mutual

/-- Whether the outline is a value that can be read whole, and else the first report. -/
def sound (origin : Origin) : Outline → Except Fault Unit
  | .array items ending => do
    let inside ← origin.enter
    soundItems inside items
    wellFormed ending.keptInArray
  | .object members ending => do
    let inside ← origin.enter
    soundMembers inside members
    wellFormed ending.keptInObject
  | .number n => do
    let _ ← wellFormed n
  | .string s => do
    let _ ← wellFormed s
  | .missing => .error Malformation.valueMissing
  | .broken b => .error b.kept
  | .null => .ok ()
  | .bool _ => .ok ()

def soundItems (origin : Origin) : List Outline → Except Fault Unit
  | [] => .ok ()
  | item :: rest => do
    sound origin item
    soundItems origin rest

def soundMembers (origin : Origin) : List (Key × Outline) → Except Fault Unit
  | [] => .ok ()
  | (key, value) :: rest => do
    let _ ← wellFormed key
    sound origin value
    soundMembers origin rest

end

end Outline

namespace Reader

variable {α : Type}

def text : Reader String
  | _, .string (.ok s) => .ok s
  | _, x => .error (x.mismatch "a string")

def flag : Reader Bool
  | _, .bool b => .ok b
  | _, x => .error (x.mismatch "a boolean")

def below (bound : Nat) (expected : String) : Reader Nat
  | _, .number (.ok (.natural n)) =>
    if n < bound then .ok n else .error (.wrongValue (.integer n) expected)
  | _, .number (.ok (.negative n)) => .error (.wrongValue (.integer (-n)) expected)
  | _, x => .error (x.mismatch expected)

def word8 : Reader UInt8 := fun origin x =>
  (below UInt8.size "u8" origin x).map UInt8.ofNat

def word32 : Reader UInt32 := fun origin x =>
  (below UInt32.size "u32" origin x).map UInt32.ofNat

def size : Reader Nat :=
  below UInt64.size "usize"

def word64 : Reader UInt64 := fun origin x =>
  (below UInt64.size "u64" origin x).map UInt64.ofNat

def bytes : Reader (List UInt8) := fun origin x => do
  let s ← text origin x
  match Base64.decode s with
  | .ok bytes => .ok bytes
  | .error fault => .error (.base64 fault)

def optional (read : Reader α) : Reader (Option α)
  | _, .null => .ok none
  | origin, .broken b => if b.inNull then .error b.kept else (read origin (.broken b)).map some
  | origin, x => (read origin x).map some

def items (read : Reader α) (origin : Origin) : List Outline → Except Fault (List α)
  | [] => .ok []
  | item :: rest => do
    let x ← read origin item
    let xs ← items read origin rest
    return x :: xs

def list (read : Reader α) : Reader (List α)
  | origin, .array xs ending => do
    let inside ← origin.enter
    let xs ← items read inside xs
    wellFormed ending.keptInArray
    return xs
  | _, x => .error (x.mismatch "a sequence")

def members (read : Reader α) (origin : Origin) :
    List (Key × Outline) → Except Fault (List (String × α))
  | [] => .ok []
  | (key, value) :: rest => do
    let key ← wellFormed key
    let x ← read origin value
    let xs ← members read origin rest
    return (key, x) :: xs

def table (read : Reader α) : Reader (List (String × α))
  | origin, .object ms ending => do
    let inside ← origin.enter
    let xs ← members read inside ms
    wellFormed ending.keptInObject
    return xs
  | _, x => .error (x.mismatch "a map")

def named (choices : List (String × α)) (name : String) : Except Fault α :=
  match choices.lookup name with
  | some x => .ok x
  | none => .error (.unknownVariant name (choices.map Prod.fst))

def unit : Reader Unit
  | _, .null => .ok ()
  | _, x => .error (x.mismatch "unit")

/-- The report on what follows the only member of an object in a text. -/
def afterMember : List (Key × Outline) → Ending → Except Fault Unit
  | [], .closed => .ok ()
  | [], .unclosed => .error Malformation.objectUnclosed
  | _, _ => .error Malformation.valueExpected

def noMember : Ending → Fault
  | .unclosed => Malformation.valueMissing
  | .oddKey (.ok found) => .wrongType found "variant identifier"
  | .oddKey (.error m) => m
  | .brokenKey b => b.kept
  | _ => Malformation.valueExpected

/-- The report on what breaks off where a name belongs: only a string is read at all. -/
def noName : Malformation → Malformation
  | .wordExpected | .numberMalformed | .valueMissing => .valueExpected
  | m => m

/-- A value given by its name: the name itself, or an object with that single key and null. -/
def choice (choices : List (String × α)) : Reader α
  | _, .string (.ok name) => named choices name
  | .text room, .object ms ending => do
    let inside ← (Origin.text room).enter
    match ms with
    | [] => throw (noMember ending)
    | (key, value) :: rest =>
      let x ← named choices (← wellFormed key)
      unit inside value
      afterMember rest ending
      return x
  | origin, .object [(key, value)] _ => do
    let x ← named choices (← wellFormed key)
    unit origin value
    return x
  | _, .object _ _ => .error (.wrongValue .object "map with a single key")
  | .text _, .string (.error m) => .error m
  | .text _, .missing => .error Malformation.valueMissing
  | .text _, .broken b => .error (noName b.kept)
  | .text _, _ => .error Malformation.valueExpected
  | _, x => .error (x.mismatch "string or map")

end Reader

end Manuscript.Json
