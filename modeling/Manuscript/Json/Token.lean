import Manuscript.Json.Number

/-!
# Tokens of a JSON text

The words of a JSON text. Strings and numbers can be well delimited and still have no value: such a
token is kept with its fault, because a reader that skips it never asks for the value. A token that
is not even delimited ends the text, and may be reported differently by a reader that wants its
value and by one that skips it.
-/

namespace Manuscript.Json

open Text (Glyph)

/-- How a text breaks off: the report to a reader who wants a value, and to one who skips it. -/
structure Break where
  kept : Malformation
  skipped : Malformation
  /-- Whether it breaks off in the word for no value. -/
  inNull : Bool := false
deriving DecidableEq, Repr

def Break.all (m : Malformation) : Break :=
  ⟨m, m, false⟩

inductive Token
  | openArray
  | closeArray
  | openObject
  | closeObject
  | comma
  | colon
  | null
  | bool (b : Bool)
  | number (n : Except Malformation Number)
  | string (s : Except Malformation String)
  /-- A string without an end, or with a part that no reader gets past. -/
  | brokenString (b : Break)
  /-- A number or a word that no reader gets past. -/
  | brokenScalar (b : Break)
  | other

inductive StringScan
  | closed (value : Except Malformation String) (rest : List Glyph)
  | broken (b : Break)

namespace StringScan

/-- The characters read so far, last one first, or the first fault of the value. -/
abbrev Kept := Except Malformation (List Char)

/-- The fault to report to a reader who wants the value when the string breaks off. -/
def Kept.orElse (kept : Kept) (m : Malformation) : Malformation :=
  match kept with
  | .ok _ => m
  | .error first => first

def Kept.push (kept : Kept) (c : Char) : Kept :=
  kept.map (c :: ·)

def Kept.breakOff (kept : Kept) (m : Malformation) : Break :=
  ⟨kept.orElse m, m, false⟩

/-- Remember a fault unless there was one before. -/
def Kept.flaw (kept : Kept) (m : Malformation) : Kept :=
  .error (kept.orElse m)

def hexDigit? : Glyph → Option Nat
  | .char c =>
    if '0' ≤ c ∧ c ≤ '9' then some (c.toNat - '0'.toNat)
    else if 'a' ≤ c ∧ c ≤ 'f' then some (c.toNat - 'a'.toNat + 10)
    else if 'A' ≤ c ∧ c ≤ 'F' then some (c.toNat - 'A'.toNat + 10)
    else none
  | .stray _ => none

def hex4? (a b c d : Glyph) : Option Nat := do
  let a ← hexDigit? a
  let b ← hexDigit? b
  let c ← hexDigit? c
  let d ← hexDigit? d
  return ((a * 16 + b) * 16 + c) * 16 + d

def shortEscape? : Glyph → Option Char
  | .char '"' => some '"'
  | .char '\\' => some '\\'
  | .char '/' => some '/'
  | .char 'b' => some '\x08'
  | .char 'f' => some '\x0c'
  | .char 'n' => some '\n'
  | .char 'r' => some '\r'
  | .char 't' => some '\t'
  | _ => none

/-- The value after a code unit written by its number, and the first half of a surrogate pair if the
unit was one. -/
def pushUnit (kept : Kept) (high : Option Nat) (unit : Nat) : Kept × Option Nat :=
  match high with
  | some first =>
    if 0xDC00 ≤ unit ∧ unit ≤ 0xDFFF then
      (kept.push (Char.ofNat ((first - 0xD800) * 0x400 + (unit - 0xDC00) + 0x10000)), none)
    else (kept.flaw .surrogateAlone, none)
  | none =>
    if 0xDC00 ≤ unit ∧ unit ≤ 0xDFFF then (kept.flaw .surrogateAlone, none)
    else if 0xD800 ≤ unit ∧ unit ≤ 0xDBFF then (kept, some unit)
    else (kept.push (Char.ofNat unit), none)

/-- The value so far, given that no second half follows. -/
def Kept.unpaired (kept : Kept) (high : Option Nat) : Kept :=
  if high.isSome then kept.flaw .surrogateUnpaired else kept

/-- The fault of a code unit without four digits. -/
def unitFault (rest : List Glyph) : Malformation :=
  if rest.foldl (fun n g => n + g.byteSize) 0 < 4 then .stringUnclosed else .escapeUnknown

/-- Read a string after its opening quote. `high` is the first half of a surrogate pair that still
lacks the second, and `stray` tells whether a byte was no part of a character. -/
def scan (kept : Kept) (high : Option Nat) (stray : Bool) : List Glyph → StringScan
  | [] => .broken (kept.breakOff .stringUnclosed)
  | g :: rest =>
    if g = .char '"' then
      let kept := kept.unpaired high
      let kept := if stray then kept.flaw .characterMalformed else kept
      .closed (kept.map fun cs => String.ofList cs.reverse) rest
    else if g = .char '\\' then
      match rest with
      | [] => .broken (kept.breakOff .stringUnclosed)
      | e :: rest =>
        if e = .char 'u' then
          match rest with
          | a :: b :: c :: d :: rest =>
            match hex4? a b c d with
            | some unit =>
              let next := pushUnit kept high unit
              scan next.1 next.2 stray rest
            | none => .broken (kept.breakOff .escapeUnknown)
          | short => .broken (kept.breakOff (unitFault short))
        else
          let kept := kept.unpaired high
          match shortEscape? e with
          | some c => scan (kept.push c) none stray rest
          | none => .broken (kept.breakOff .escapeUnknown)
    else
      let kept := kept.unpaired high
      match g with
      | .char c =>
        if c.toNat < 0x20 then .broken (kept.breakOff .controlCharacter)
        else scan (kept.push c) none stray rest
      | .stray _ => scan kept none true rest

theorem length_scan {kept : Kept} {high : Option Nat} {stray : Bool} {s rest : List Glyph}
    {value : Except Malformation String} (h : scan kept high stray s = .closed value rest) :
    rest.length < s.length := by
  fun_induction scan kept high stray s <;> simp_all <;> omega

end StringScan

namespace Token

def isSpace (g : Glyph) : Bool :=
  g = .char ' ' || g = .char '\n' || g = .char '\t' || g = .char '\r'

def ofMark? : Glyph → Option Token
  | .char '[' => some .openArray
  | .char ']' => some .closeArray
  | .char '\x7b' => some .openObject
  | .char '\x7d' => some .closeObject
  | .char ',' => some .comma
  | .char ':' => some .colon
  | _ => none

/-- The words, each without its first character. -/
def word? : Glyph → Option (List Char × Token)
  | .char 'n' => some (['u', 'l', 'l'], .null)
  | .char 't' => some (['r', 'u', 'e'], .bool true)
  | .char 'f' => some (['a', 'l', 's', 'e'], .bool false)
  | _ => none

def scanWord : List Char → List Glyph → Except Malformation (List Glyph)
  | [], s => .ok s
  | _ :: _, [] => .error .valueMissing
  | c :: cs, g :: rest => if g = .char c then scanWord cs rest else .error .wordExpected

theorem length_scanWord {cs : List Char} {s rest : List Glyph} (h : scanWord cs s = .ok rest) :
    rest.length ≤ s.length := by
  fun_induction scanWord cs s <;> simp_all
  omega

/-- The first token of a text that does not start with a space, and the rest if a token can
follow. -/
def scan (g : Glyph) (rest : List Glyph) : Token × Option (List Glyph) :=
  match ofMark? g with
  | some mark => (mark, some rest)
  | none =>
    match word? g with
    | some (letters, word) =>
      match scanWord letters rest with
      | .ok rest => (word, some rest)
      | .error m => (.brokenScalar ⟨m, m, g = .char 'n'⟩, none)
    | none =>
      match g with
      | .char '"' =>
        match StringScan.scan (.ok []) none false rest with
        | .closed value rest => (.string value, some rest)
        | .broken b => (.brokenString b, none)
      | .char '-' =>
        match scanNumeral true rest with
        | .ok (n, rest) => (.number n.value, some rest)
        | .error m => (.brokenScalar ⟨m, .numberMalformed, false⟩, none)
      | .char c =>
        if c.isDigit then
          match scanNumeral false (.char c :: rest) with
          | .ok (n, rest) => (.number n.value, some rest)
          | .error m => (.brokenScalar ⟨m, .numberMalformed, false⟩, none)
        else (.other, none)
      | .stray _ => (.other, none)

theorem length_scan {g : Glyph} {s rest : List Glyph} (h : (scan g s).2 = some rest) :
    rest.length ≤ s.length := by
  unfold scan at h
  split at h
  · cases h
    exact Nat.le_refl _
  · split at h
    · split at h
      · rename_i hw
        cases h
        exact length_scanWord hw
      · cases h
    · split at h
      · split at h
        · rename_i hs
          cases h
          exact Nat.le_of_lt (StringScan.length_scan hs)
        · cases h
      · split at h
        · rename_i hn
          cases h
          exact Nat.le_of_lt (length_scanNumeral hn)
        · cases h
      · split at h
        · split at h
          · rename_i hn
            cases h
            exact Nat.le_of_lt_succ (length_scanNumeral hn)
          · cases h
        · cases h
      · cases h

/-- The tokens of a text, up to the first thing that is none. -/
def ofGlyphs : List Glyph → List Token
  | [] => []
  | g :: rest =>
    if isSpace g then ofGlyphs rest
    else
      match _h : (scan g rest).2 with
      | some after => (scan g rest).1 :: ofGlyphs after
      | none => [(scan g rest).1]
termination_by s => s.length
decreasing_by
  · simp
  · have := length_scan _h
    simp only [List.length_cons]
    omega

end Token

end Manuscript.Json
