import Manuscript.Json.Token

/-!
# Outlines

The outline of a text is the value that it spells, with the faults of the text in their places: a
reader goes through it in the order of the text and reports the first fault that it meets. A reader
that wants a value is stricter than one that skips it. The outline of a value has no faults, so one
reader serves texts and values.

An outline is built in one pass over the tokens. What encloses a value that breaks off is closed
behind it: no reader gets past the break.
-/

namespace Manuscript.Json

open Text (Glyph)

/-- A key of an object, or the reason why it is no text. -/
abbrev Key := Except Malformation String

inductive Ending
  | closed
  /-- The text ends where a comma or the closing bracket belongs. -/
  | unclosed
  /-- Something else stands where a comma or the closing bracket belongs. -/
  | unseparated
  /-- The closing bracket follows a comma. -/
  | afterComma
  /-- The text ends after a comma that another key should follow. -/
  | cutAfterComma
  /-- Something else stands in the place of a key. -/
  | oddKey (met : Except Malformation Found)
  | brokenKey (b : Break)

/-- A value with the faults of its text in place. -/
inductive Outline
  | null
  | bool (b : Bool)
  | number (n : Except Malformation Number)
  | string (s : Except Malformation String)
  | array (items : List Outline) (ending : Ending)
  | object (members : List (Key × Outline)) (ending : Ending)
  /-- Nothing: the text ends where a value belongs. -/
  | missing
  /-- No value at all. -/
  | broken (b : Break)

def Number.found : Number → Found
  | .natural n => .integer n
  | .negative n => .integer (-n)
  | .real x => .real x

namespace Outline

/-- Where a value belongs whose reading has begun. -/
inductive Place
  | top
  | item (done : List Outline) (outer : Place)
  | member (done : List (Key × Outline)) (key : Key) (outer : Place)

inductive Wanted
  | value (place : Place)
  | firstItem (outer : Place)
  | nextItem (done : List Outline) (outer : Place)
  | firstKey (outer : Place)
  | nextKey (done : List (Key × Outline)) (outer : Place)
  | colon (done : List (Key × Outline)) (key : Key) (outer : Place)
  | itemEnd (done : List Outline) (outer : Place)
  | memberEnd (done : List (Key × Outline)) (outer : Place)

/-- The whole outline when nothing behind the value is read. -/
def Place.enclose : Place → Outline → Outline
  | .top, x => x
  | .item done outer, x => outer.enclose (.array (x :: done).reverse .closed)
  | .member done key outer, x => outer.enclose (.object ((key, x) :: done).reverse .closed)

def Place.put : Place → Outline → Outline ⊕ Wanted
  | .top, x => .inl x
  | .item done outer, x => .inr (.itemEnd (x :: done) outer)
  | .member done key outer, x => .inr (.memberEnd ((key, x) :: done) outer)

/-- What a token is that stands where no such token belongs. -/
def met : Token → Except Malformation Found
  | .openArray => .ok .array
  | .openObject => .ok .object
  | .null => .ok .null
  | .bool b => .ok (.bool b)
  | .number n => n.map Number.found
  | .string s => s.map Found.string
  | .brokenString b | .brokenScalar b => .error b.kept
  | .closeArray | .closeObject | .comma | .colon | .other => .error .valueExpected

def startValue (place : Place) : Token → Outline ⊕ Wanted
  | .openArray => .inr (.firstItem place)
  | .openObject => .inr (.firstKey place)
  | .null => place.put .null
  | .bool b => place.put (.bool b)
  | .number n => place.put (.number n)
  | .string s => place.put (.string s)
  | .brokenString b | .brokenScalar b => .inl (place.enclose (.broken b))
  | .closeArray | .closeObject | .comma | .colon | .other =>
    .inl (place.enclose (.broken (.all .valueExpected)))

def startKey (done : List (Key × Outline)) (outer : Place) : Token → Outline ⊕ Wanted
  | .string s => .inr (.colon done s outer)
  | .brokenString b => .inl (outer.enclose (.object done.reverse (.brokenKey b)))
  | t => .inl (outer.enclose (.object done.reverse (.oddKey (met t))))

def Wanted.step : Wanted → Token → Outline ⊕ Wanted
  | .value place, t => startValue place t
  | .firstItem outer, t =>
    match t with
    | .closeArray => outer.put (.array [] .closed)
    | t => startValue (.item [] outer) t
  | .nextItem done outer, t =>
    match t with
    | .closeArray => .inl (outer.enclose (.array done.reverse .afterComma))
    | t => startValue (.item done outer) t
  | .firstKey outer, t =>
    match t with
    | .closeObject => outer.put (.object [] .closed)
    | t => startKey [] outer t
  | .nextKey done outer, t =>
    match t with
    | .closeObject => .inl (outer.enclose (.object done.reverse .afterComma))
    | t => startKey done outer t
  | .colon done key outer, t =>
    match t with
    | .colon => .inr (.value (.member done key outer))
    | _ => .inl ((Place.member done key outer).enclose (.broken (.all .colonExpected)))
  | .itemEnd done outer, t =>
    match t with
    | .closeArray => outer.put (.array done.reverse .closed)
    | .comma => .inr (.nextItem done outer)
    | _ => .inl (outer.enclose (.array done.reverse .unseparated))
  | .memberEnd done outer, t =>
    match t with
    | .closeObject => outer.put (.object done.reverse .closed)
    | .comma => .inr (.nextKey done outer)
    | _ => .inl (outer.enclose (.object done.reverse .unseparated))

/-- The whole outline when the text ends here. -/
def Wanted.cut : Wanted → Outline
  | .value place => place.enclose .missing
  | .firstItem outer => outer.enclose (.array [] .unclosed)
  | .nextItem done outer => (Place.item done outer).enclose .missing
  | .firstKey outer => outer.enclose (.object [] .unclosed)
  | .nextKey done outer => outer.enclose (.object done.reverse .cutAfterComma)
  | .colon done key outer =>
    (Place.member done key outer).enclose (.broken (.all .objectUnclosed))
  | .itemEnd done outer => outer.enclose (.array done.reverse .unclosed)
  | .memberEnd done outer => outer.enclose (.object done.reverse .unclosed)

/-- Read tokens until the outline is whole; the tokens behind it. -/
def Wanted.run : Wanted → List Token → Outline × List Token
  | wanted, [] => (wanted.cut, [])
  | wanted, t :: ts =>
    match wanted.step t with
    | .inl outline => (outline, ts)
    | .inr wanted => wanted.run ts

def ofGlyphs (text : List Glyph) : Outline × List Token :=
  (Wanted.value .top).run (Token.ofGlyphs text)

end Outline

/-- The report on the end of an array to a reader who wants it. -/
def Ending.keptInArray : Ending → Except Malformation Unit
  | .closed => .ok ()
  | .unclosed => .error .arrayUnclosed
  | .unseparated => .error .itemSeparatorExpected
  | .afterComma => .error .commaDangling
  | .cutAfterComma => .error .valueMissing
  | .oddKey _ => .error .keyNotString
  | .brokenKey b => .error b.kept

def Ending.keptInObject : Ending → Except Malformation Unit
  | .unclosed => .error .objectUnclosed
  | .unseparated => .error .memberSeparatorExpected
  | ending => ending.keptInArray

/-- The report on the end of an array to a reader who skips it. -/
def Ending.skippedInArray : Ending → Except Malformation Unit
  | .afterComma => .error .valueExpected
  | ending => ending.keptInArray

def Ending.skippedInObject : Ending → Except Malformation Unit
  | .afterComma => .error .keyNotString
  | .cutAfterComma => .error .objectUnclosed
  | .brokenKey b => .error b.skipped
  | ending => ending.keptInObject

namespace Outline

mutual

/-- Skip a value: only its delimiters matter. -/
def skip : Outline → Except Malformation Unit
  | .array items ending => do
    skipItems items
    ending.skippedInArray
  | .object members ending => do
    skipMembers members
    ending.skippedInObject
  | .missing => .error .valueMissing
  | .broken b => .error b.skipped
  | .null | .bool _ | .number _ | .string _ => .ok ()

def skipItems : List Outline → Except Malformation Unit
  | [] => .ok ()
  | item :: rest => do
    skip item
    skipItems rest

def skipMembers : List (Key × Outline) → Except Malformation Unit
  | [] => .ok ()
  | (_, value) :: rest => do
    skip value
    skipMembers rest

end

mutual

/-- The value of an outline without faults, or the first fault. -/
def toJson : Outline → Except Malformation Json
  | .null => .ok .null
  | .bool b => .ok (.bool b)
  | .number n => n.map Json.number
  | .string s => s.map Json.string
  | .array items ending => do
    let items ← toJsonItems items
    ending.keptInArray
    return .array items
  | .object members ending => do
    let members ← toJsonMembers members
    ending.keptInObject
    return .object members
  | .missing => .error .valueMissing
  | .broken b => .error b.kept

def toJsonItems : List Outline → Except Malformation (List Json)
  | [] => .ok []
  | item :: rest => do
    let item ← toJson item
    let rest ← toJsonItems rest
    return item :: rest

def toJsonMembers : List (Key × Outline) → Except Malformation (List (String × Json))
  | [] => .ok []
  | (key, value) :: rest => do
    let key ← key
    let value ← toJson value
    let rest ← toJsonMembers rest
    return (key, value) :: rest

end

mutual

def ofJson : Json → Outline
  | .null => .null
  | .bool b => .bool b
  | .number n => .number (.ok n)
  | .string s => .string (.ok s)
  | .array items => .array (ofJsonItems items) .closed
  | .object members => .object (ofJsonMembers members) .closed

def ofJsonItems : List Json → List Outline
  | [] => []
  | item :: rest => ofJson item :: ofJsonItems rest

def ofJsonMembers : List (String × Json) → List (Key × Outline)
  | [] => []
  | (key, value) :: rest => (.ok key, ofJson value) :: ofJsonMembers rest

end

end Outline

def ofText (text : List Glyph) : Except Malformation Json := do
  let (outline, rest) := Outline.ofGlyphs text
  let value ← outline.toJson
  if !rest.isEmpty then throw .trailingCharacters
  return value

end Manuscript.Json
