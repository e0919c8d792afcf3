/-!
# Glyphs

What a reader of bytes sees: characters, and stray bytes that are part of no character. A text
is a list of glyphs without stray bytes; `Glyph.ofBytes` splits any bytes into glyphs, taking the
longest well-formed UTF-8 sequence at each place or else one byte.
-/

namespace Manuscript.Text

/-- A character, or a byte that belongs to none. -/
inductive Glyph
  | char (c : Char)
  | stray (b : UInt8)
deriving DecidableEq

namespace Glyph

def byteSize : Glyph → Nat
  | .char c => c.utf8Size
  | .stray _ => 1

def ofString (s : String) : List Glyph :=
  s.toList.map .char

def continues (b : UInt8) : Bool :=
  0x80 ≤ b && b ≤ 0xBF

def low (b : UInt8) : Nat :=
  b.toNat - 0x80

def two? (a b : UInt8) : Option Char :=
  if 0xC2 ≤ a && a ≤ 0xDF && continues b then
    some (Char.ofNat ((a.toNat - 0xC0) * 64 + low b))
  else none

/-- The character of a sequence of three bytes: no overlong form and no surrogate. -/
def three? (a b c : UInt8) : Option Char :=
  if 0xE0 ≤ a && a ≤ 0xEF && continues b && continues c
      && (a != 0xE0 || 0xA0 ≤ b) && (a != 0xED || b ≤ 0x9F) then
    some (Char.ofNat ((a.toNat - 0xE0) * 4096 + low b * 64 + low c))
  else none

/-- The character of a sequence of four bytes: no overlong form and none past the last plane. -/
def four? (a b c d : UInt8) : Option Char :=
  if 0xF0 ≤ a && a ≤ 0xF4 && continues b && continues c && continues d
      && (a != 0xF0 || 0x90 ≤ b) && (a != 0xF4 || b ≤ 0x8F) then
    some (Char.ofNat ((a.toNat - 0xF0) * 262144 + low b * 4096 + low c * 64 + low d))
  else none

def ofBytes : List UInt8 → List Glyph
  | [] => []
  | a :: rest =>
    if a < 0x80 then .char (Char.ofNat a.toNat) :: ofBytes rest
    else match rest with
      | b :: c :: d :: after4 =>
        match two? a b with
        | some ch => .char ch :: ofBytes (c :: d :: after4)
        | none =>
          match three? a b c with
          | some ch => .char ch :: ofBytes (d :: after4)
          | none =>
            match four? a b c d with
            | some ch => .char ch :: ofBytes after4
            | none => .stray a :: ofBytes (b :: c :: d :: after4)
      | [b, c] =>
        match two? a b with
        | some ch => .char ch :: ofBytes [c]
        | none =>
          match three? a b c with
          | some ch => [.char ch]
          | none => .stray a :: ofBytes [b, c]
      | [b] =>
        match two? a b with
        | some ch => [.char ch]
        | none => .stray a :: ofBytes [b]
      | [] => [.stray a]
termination_by bytes => bytes.length

/-- The characters, if no byte is stray. -/
def chars? : List Glyph → Option (List Char)
  | [] => some []
  | .char c :: rest => (chars? rest).map (c :: ·)
  | .stray _ :: _ => none

@[simp]
theorem chars?_map_char (cs : List Char) : chars? (cs.map .char) = some cs := by
  induction cs with
  | nil => rfl
  | cons c cs ih => simp [chars?, ih]

end Glyph

/-- The text that some bytes spell, if they are well-formed UTF-8. -/
def textOfBytes? (bytes : List UInt8) : Option String :=
  (Glyph.chars? (Glyph.ofBytes bytes)).map String.ofList

def bytesOfText (s : String) : List UInt8 :=
  s.toUTF8.toList

end Manuscript.Text
