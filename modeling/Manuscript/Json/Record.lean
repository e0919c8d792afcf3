import Manuscript.Json.Reader

/-!
# Records

A record is read from an object or from an array. In an object the members are visited in their
order, a member of no field is skipped, and a field without member gets its default. In an array the
items belong to the fields in the order of declaration.

The fields of a record are put together from single fields, so that the state of reading is a tuple
of what has been found so far and the result a tuple of all fields. The members of a record that may
contain records of its own kind are offered together with their reading as a list of such records:
see `Manuscript.Json.Tagged`.
-/

namespace Manuscript.Json

/-- A member's value, with its reading as a list of `ν`. -/
structure Offer (ν : Type) where
  outline : Outline
  nested : Except Fault (List ν)

/-- A value with offers in the place of its parts. -/
inductive Body (ν : Type)
  | object (members : List (Key × Offer ν)) (ending : Ending)
  | array (items : List (Offer ν)) (ending : Ending)
  | other (outline : Outline)

/-- What a field is when the value says nothing about it. -/
inductive Absence (α : Type)
  | refused
  /-- An object may leave the field out. -/
  | inObject (x : α)
  | anywhere (x : α)

def Absence.inObject? {α : Type} : Absence α → Option α
  | .refused => none
  | .inObject x | .anywhere x => some x

def Absence.inArray? {α : Type} : Absence α → Option α
  | .anywhere x => some x
  | .refused | .inObject _ => none

/-- The items of an array that are still to be read. -/
structure Line (ν : Type) where
  origin : Origin
  /-- What the array should be, for the report that it is too short. -/
  expected : String
  taken : Nat
  rest : List (Offer ν)
  ending : Ending

/-- The fields of a record: `σ` is what has been found of them, `α` what they come to. -/
structure Fields (ν σ α : Type) where
  names : List String
  start : σ
  has : σ → String → Bool
  put : Origin → σ → String → Offer ν → Except Fault σ
  finish : σ → Except Fault α
  take : Line ν → Except Fault (α × Line ν)

namespace Fields

variable {ν σ τ α β : Type}

def empty : Fields ν Unit Unit where
  names := []
  start := ()
  has _ _ := false
  put _ _ _ _ := .ok ()
  finish _ := .ok ()
  take line := .ok ((), line)

/-- The next item of an array for a field. -/
def takeOne (absence : Absence α) (read : Origin → Offer ν → Except Fault α) (line : Line ν) :
    Except Fault (α × Line ν) :=
  match line.rest with
  | item :: rest => do
    let x ← read line.origin item
    return (x, { line with taken := line.taken + 1, rest := rest })
  | [] => do
    wellFormed line.ending.keptInArray
    match absence.inArray? with
    | some x => return (x, line)
    | none => throw (.wrongLength line.taken line.expected)

def one (name : String) (absence : Absence α) (read : Origin → Offer ν → Except Fault α) :
    Fields ν (Option α) α where
  names := [name]
  start := none
  has found key := key == name && found.isSome
  put origin _ _ offer := (read origin offer).map some
  finish
    | some x => .ok x
    | none =>
      match absence.inObject? with
      | some x => .ok x
      | none => .error (.missingMember name)
  take := takeOne absence read

/-- Two groups of fields, one after the other. -/
def and (f : Fields ν σ α) (g : Fields ν τ β) : Fields ν (σ × τ) (α × β) where
  names := f.names ++ g.names
  start := (f.start, g.start)
  has found key := f.has found.1 key || g.has found.2 key
  put origin found key offer :=
    if f.names.contains key then (f.put origin found.1 key offer).map (·, found.2)
    else (g.put origin found.2 key offer).map (found.1, ·)
  finish found := do
    let x ← f.finish found.1
    let y ← g.finish found.2
    return (x, y)
  take line := do
    let (x, line) ← f.take line
    let (y, line) ← g.take line
    return ((x, y), line)

def map (h : α → β) (f : Fields ν σ α) : Fields ν σ β where
  names := f.names
  start := f.start
  has := f.has
  put := f.put
  finish found := (f.finish found).map h
  take line := (f.take line).map fun (x, line) => (h x, line)

def required (name : String) (read : Reader α) : Fields ν (Option α) α :=
  one name .refused fun origin offer => read origin offer.outline

/-- A field that is null or left out of an object when it has no value. -/
def nullable (name : String) (read : Reader α) : Fields ν (Option (Option α)) (Option α) :=
  one name (.inObject none) fun origin offer => read.optional origin offer.outline

/-- A field that is null or left out when it has no value. -/
def optional (name : String) (read : Reader α) : Fields ν (Option (Option α)) (Option α) :=
  one name (.anywhere none) fun origin offer => read.optional origin offer.outline

def defaulted (name : String) (x : α) (read : Reader α) : Fields ν (Option α) α :=
  one name (.anywhere x) fun origin offer => read origin offer.outline

/-- A list of records of the kind that is being read. -/
def nested (name : String) : Fields ν (Option (List ν)) (List ν) :=
  one name .refused fun _ offer => offer.nested

/-- A list of records of the kind that is being read, which may be left out. -/
def nestedOrNone (name : String) : Fields ν (Option (List ν)) (List ν) :=
  one name (.anywhere []) fun _ offer => offer.nested

def visit (f : Fields ν σ α) (origin : Origin) (found : σ) :
    List (Key × Offer ν) → Except Fault σ
  | [] => .ok found
  | (key, offer) :: rest => do
    let key ← wellFormed key
    if f.names.contains key then
      if f.has found key then throw (.repeatedMember key)
      let found ← f.put origin found key offer
      visit f origin found rest
    else
      wellFormed offer.outline.skip
      visit f origin found rest

def leftOver (line : Line ν) : Except Fault Unit :=
  match line.origin, line.rest, line.ending with
  | .text _, [], .closed => .ok ()
  | .text _, [], .unclosed => .error Malformation.arrayUnclosed
  | .text _, [], .afterComma => .error Malformation.commaDangling
  | .text _, _, _ => .error Malformation.trailingCharacters
  | _, [], _ => .ok ()
  | .value, rest, _ =>
    .error (.wrongLength (line.taken + rest.length) "fewer elements in array")
  | .buffered, rest, _ =>
    let plural := if line.taken = 1 then "element" else "elements"
    .error (.wrongLength (line.taken + rest.length) s!"{line.taken} {plural} in sequence")

/-- Read a record in a bracket that has been entered. -/
def readInside (f : Fields ν σ α) (title : String) (origin : Origin) : Body ν → Except Fault α
  | .object members ending => do
    let found ← f.visit origin f.start members
    wellFormed ending.keptInObject
    f.finish found
  | .array items ending => do
    let plural := if f.names.length = 1 then "element" else "elements"
    let expected := s!"{title} with {f.names.length} {plural}"
    let (x, line) ← f.take ⟨origin, expected, 0, items, ending⟩
    leftOver line
    return x
  | .other x => .error (x.mismatch title)

end Fields

/-- The value of a member that cannot contain its own kind. -/
def Offer.plain (x : Outline) : Offer Unit :=
  ⟨x, .ok []⟩

/-- A value without anything of its own kind in it. -/
def Body.plain : Outline → Body Unit
  | .object members ending => .object (members.map fun (key, x) => (key, .plain x)) ending
  | .array items ending => .array (items.map .plain) ending
  | x => .other x

def Fields.reader {σ α : Type} (f : Fields Unit σ α) (title : String) : Reader α := fun origin x =>
  match Body.plain x with
  | .other x => .error (x.mismatch title)
  | body => do f.readInside title (← origin.enter) body

end Manuscript.Json
