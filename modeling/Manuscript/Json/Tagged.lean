import Manuscript.Json.Record

/-!
# Tagged records

A tagged record is an object whose member `type` names its variant, or an array whose first item
does. All of it is read before the variant's fields are looked for, so what breaks off inside is
reported first; the tag itself is checked when it is met.

Tagged records contain each other. `Outline.nested` reads them by recursion on the outline: every
part of a value is offered with its reading as a list of records of the same kind, and a function
that does not recurse puts a record together from the offers.
-/

namespace Manuscript.Json

/-- A variant: its tag, and how its fields are read. -/
structure Variant (ν : Type) where
  tag : String
  read : Body ν → Except Fault ν

/-- A variant with the given fields. -/
def Variant.ofFields {ν σ α : Type} (tag title : String) (f : Fields ν σ α) (build : α → ν) :
    Variant ν :=
  ⟨tag, (f.map build).readInside title .buffered⟩

structure Tagged (ν : Type) where
  name : String
  variants : List (Variant ν)

namespace Tagged

variable {ν : Type}

/-- The variant that a tag names. Inside a buffered value it may also be given by its number. -/
def variant (t : Tagged ν) : Origin → Outline → Except Fault (Variant ν)
  | _, .string (.ok tag) =>
    match t.variants.find? (·.tag == tag) with
    | some v => .ok v
    | none => .error (.unknownVariant tag (t.variants.map Variant.tag))
  | .buffered, .number (.ok (.natural i)) =>
    match t.variants[i]? with
    | some v => .ok v
    | none =>
      .error (.wrongValue (.integer i) s!"variant index 0 <= i < {t.variants.length}")
  | _, x => .error (x.mismatch "variant identifier")

/-- A part that is not looked into yet: it has to be sound, unless that is known. -/
def buffer (origin : Origin) (x : Outline) : Except Fault Unit :=
  match origin with
  | .buffered => .ok ()
  | origin => x.sound origin

/-- Visit the members for the tag; the other members. -/
def split (t : Tagged ν) (origin : Origin) (found : Option (Variant ν)) :
    List (Key × Offer ν) → Except Fault (Option (Variant ν) × List (Key × Offer ν))
  | [] => .ok (found, [])
  | (key, offer) :: rest => do
    let key ← wellFormed key
    if key = "type" then
      if found.isSome then throw (.repeatedMember "type")
      let v ← t.variant origin offer.outline
      split t origin (some v) rest
    else
      buffer origin offer.outline
      let (found, others) ← split t origin found rest
      return (found, (.ok key, offer) :: others)

def bufferAll (origin : Origin) : List (Offer ν) → Except Fault Unit
  | [] => .ok ()
  | offer :: rest => do
    buffer origin offer.outline
    bufferAll origin rest

/-- Put a record together from the offers for its parts. -/
def assemble (t : Tagged ν) (origin : Origin) : Body ν → Except Fault ν
  | .object members ending => do
    let inside ← origin.enter
    let (found, others) ← t.split inside none members
    wellFormed ending.keptInObject
    match found with
    | some v => v.read (.object others .closed)
    | none => throw (.missingMember "type")
  | .array [] ending => do
    let _ ← origin.enter
    wellFormed ending.keptInArray
    throw (.missingMember "type")
  | .array (tag :: items) ending => do
    let inside ← origin.enter
    let v ← t.variant inside tag.outline
    bufferAll inside items
    wellFormed ending.keptInArray
    v.read (.array items .closed)
  | .other x => .error (x.mismatch s!"internally tagged enum {t.name}")

end Tagged

namespace Outline

variable {ν : Type}

mutual

def nested (t : Tagged ν) : Outline → Except Fault ν
  | .object members ending => t.assemble .buffered (.object (offerMembers t members) ending)
  | .array items ending => t.assemble .buffered (.array (offerItems t items) ending)
  | .null => t.assemble .buffered (.other .null)
  | .bool b => t.assemble .buffered (.other (.bool b))
  | .number n => t.assemble .buffered (.other (.number n))
  | .string s => t.assemble .buffered (.other (.string s))
  | .missing => t.assemble .buffered (.other .missing)
  | .broken b => t.assemble .buffered (.other (.broken b))

def nestedList (t : Tagged ν) : Outline → Except Fault (List ν)
  | .array items _ => nestedItems t items
  | .object members ending => .error ((Outline.object members ending).mismatch "a sequence")
  | .null => .error (Outline.null.mismatch "a sequence")
  | .bool b => .error ((Outline.bool b).mismatch "a sequence")
  | .number n => .error ((Outline.number n).mismatch "a sequence")
  | .string s => .error ((Outline.string s).mismatch "a sequence")
  | .missing => .error (Outline.missing.mismatch "a sequence")
  | .broken b => .error ((Outline.broken b).mismatch "a sequence")

def nestedItems (t : Tagged ν) : List Outline → Except Fault (List ν)
  | [] => .ok []
  | item :: rest => do
    let x ← nested t item
    let xs ← nestedItems t rest
    return x :: xs

def offerItems (t : Tagged ν) : List Outline → List (Offer ν)
  | [] => []
  | item :: rest => ⟨item, nestedList t item⟩ :: offerItems t rest

def offerMembers (t : Tagged ν) : List (Key × Outline) → List (Key × Offer ν)
  | [] => []
  | (key, value) :: rest => (key, ⟨value, nestedList t value⟩) :: offerMembers t rest

end

def body (t : Tagged ν) : Outline → Body ν
  | .object members ending => .object (offerMembers t members) ending
  | .array items ending => .array (offerItems t items) ending
  | x => .other x

end Outline

def Tagged.reader {ν : Type} (t : Tagged ν) : Reader ν := fun origin x =>
  t.assemble origin (x.body t)

def Reader.ofText {α : Type} (read : Reader α) (text : List Text.Glyph) : Except Fault α := do
  let (outline, rest) := Outline.ofGlyphs text
  let x ← read (.text maxDepth) outline
  if !rest.isEmpty then throw (.malformed .trailingCharacters)
  return x

/-- Read a value, the members of its objects by key. -/
def Reader.ofValue {α : Type} (read : Reader α) (value : Json) : Except Fault α :=
  read .value (.ofJson value.sorted)

end Manuscript.Json
