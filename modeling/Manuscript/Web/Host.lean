import Manuscript.Text.Glyph
import Manuscript.Text.Split
import Manuscript.Web.Percent
import Manuscript.Web.Punycode

/-!
# Hosts

A host is a name, four numbers with points between them, or eight in brackets with colons between
them. Names are in lower case, with labels past ASCII in their written form; numbers are decimal in
the second form, and hexadecimal with the longest row of zeros left out in the third.
-/

namespace Manuscript.Web.Host

open Text (split)

def digitValue? (c : Char) : Option Nat :=
  if c.isDigit then some (c.toNat - '0'.toNat)
  else if 'a' ≤ c ∧ c ≤ 'f' then some (c.toNat - 'a'.toNat + 10)
  else none

def number? (base : Nat) (cs : List Char) : Option Nat :=
  cs.foldlM (fun n c => ((digitValue? c).filter (· < base)).map (base * n + ·)) 0

/-- A number with a sign of its base: hexadecimal, octal or decimal. -/
def part? : List Char → Option Nat
  | [] => none
  | '0' :: 'x' :: cs => number? 16 cs
  | ['0'] => some 0
  | '0' :: cs => number? 8 cs
  | cs => number? 10 cs

/-- The parts of a host between its points, without an empty one at the end. -/
def parts (cs : List Char) : List (List Char) :=
  let ps := split (· == '.') cs
  if ps.getLast? = some [] ∧ 1 < ps.length then ps.dropLast else ps

/-- Whether a host has to be numeric, which its last part tells. -/
def endsInNumber (cs : List Char) : Bool :=
  match (parts cs).getLast? with
  | none => false
  | some last => !last.isEmpty && (last.all Char.isDigit || (part? last).isSome)

/-- The address that some numbers give: the last one fills all places that are left. -/
def address? : List Nat → Option Nat
  | [] => none
  | numbers@(_ :: _) =>
    let front := numbers.dropLast
    let last := numbers.getLastD 0
    let room := Nat.pow 256 (4 - front.length)
    if numbers.length ≤ 4 ∧ front.all (· < 256) ∧ last < room then
      some (front.foldl (fun n part => 256 * n + part) 0 * room + last)
    else none

def decimal (n : Nat) : List Char :=
  Nat.toDigits 10 n

def ofAddress (n : Nat) : List Char :=
  List.intercalate ['.'] ([3, 2, 1, 0].map fun i => decimal (n / Nat.pow 256 i % 256))

def numeric? (cs : List Char) : Option (List Char) := do
  let numbers ← (parts cs).mapM part?
  let n ← address? numbers
  return ofAddress n

def forbidden : List Char :=
  [' ', '#', '/', ':', '<', '>', '?', '@', '[', '\\', ']', '^', '|', '%', '\x7f']

def label (cs : List Char) : List Char :=
  if cs.all (·.toNat < 0x80) then cs else 'x' :: 'n' :: '-' :: '-' :: Punycode.encode cs

/-- The text of a name or of a numeric host. -/
def name? (cs : List Char) : Option (List Char) := do
  let cs ← (Text.textOfBytes? (unescaped (Text.bytesOfText (String.ofList cs)))).map String.toList
  let text := List.intercalate ['.'] ((split (· == '.') (cs.map Char.toLower)).map label)
  if text.isEmpty ∨ text.any (fun c => c.toNat < 0x20 || forbidden.contains c) then none
  else if endsInNumber text then numeric? text
  else return text

/-- A text up to a double colon, and behind it. -/
def cutGap : List Char → List Char × Option (List Char)
  | [] => ([], none)
  | [c] => ([c], none)
  | c :: d :: rest =>
    if c = ':' ∧ d = ':' then ([], some rest)
    else
      let (front, back) := cutGap (d :: rest)
      (c :: front, back)

def group? (cs : List Char) : Option (List Nat) :=
  if 1 ≤ cs.length ∧ cs.length ≤ 4 then (number? 16 cs).map ([·]) else none

def dotted? (cs : List Char) : Option (List Nat) := do
  let numbers ← (split (· == '.') cs).mapM fun p =>
    if p.isEmpty ∨ (1 < p.length ∧ p.head? = some '0') then none
    else (number? 10 p).filter (· < 256)
  match numbers with
  | [a, b, c, d] => return [256 * a + b, 256 * c + d]
  | _ => none

def groups? (cs : List Char) : Option (List Nat) := do
  if cs.isEmpty then return []
  let ps := split (· == ':') cs
  let front ← ps.dropLast.mapM group?
  let last := ps.getLastD []
  let back ← if last.contains '.' then dotted? last else group? last
  return front.flatten ++ back

/-- The eight numbers; a double colon stands for one or more zeros. -/
def eight? (cs : List Char) : Option (List Nat) := do
  match cutGap cs with
  | (all, none) => (← groups? all) |> fun ns => if ns.length = 8 then some ns else none
  | (front, some back) =>
    let front ← groups? front
    let back ← groups? back
    let known := front.length + back.length
    if known ≤ 7 then return front ++ List.replicate (8 - known) 0 ++ back else none

/-- The first longest row of zeros, as its start and its length. -/
def zeros (ns : List Nat) : Nat × Nat :=
  (List.range ns.length).foldl
    (fun best i =>
      let length := ((ns.drop i).takeWhile (· == 0)).length
      if best.2 < length then (i, length) else best)
    (0, 0)

def hexadecimal (ns : List Nat) : List Char :=
  List.intercalate [':'] (ns.map (Nat.toDigits 16))

def ofEight (ns : List Nat) : List Char :=
  let (start, length) := zeros ns
  if length < 2 then hexadecimal ns
  else hexadecimal (ns.take start) ++ ':' :: ':' :: hexadecimal (ns.drop (start + length))

def text? : List Char → Option (List Char)
  | '[' :: rest =>
    if rest.getLast? = some ']' then
      (eight? (rest.dropLast.map Char.toLower)).map fun ns => '[' :: ofEight ns ++ [']']
    else none
  | cs => name? cs

end Manuscript.Web.Host
