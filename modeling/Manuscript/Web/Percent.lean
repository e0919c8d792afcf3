/-!
# Percent encoding

A byte is written as a percent sign and two hexadecimal digits.
-/

namespace Manuscript.Web

def escapedByte (b : UInt8) : List Char :=
  ['%', (Nat.digitChar (b.toNat / 16)).toUpper, (Nat.digitChar (b.toNat % 16)).toUpper]

/-- A text with the bytes of some characters escaped: controls, characters past ASCII and those that
are special where the text stands. -/
def escaped (special : List Char) (cs : List Char) : List Char :=
  cs.flatMap fun c =>
    if c.toNat < 0x20 ∨ 0x7E < c.toNat ∨ c ∈ special then
      (String.utf8EncodeChar c).flatMap escapedByte
    else [c]

def hexDigit? (b : UInt8) : Option Nat :=
  if 0x30 ≤ b ∧ b ≤ 0x39 then some (b.toNat - 0x30)
  else if 0x41 ≤ b ∧ b ≤ 0x46 then some (b.toNat - 0x41 + 10)
  else if 0x61 ≤ b ∧ b ≤ 0x66 then some (b.toNat - 0x61 + 10)
  else none

/-- The byte that a percent sign and two digits stand for. -/
def escape? (percent a b : UInt8) : Option UInt8 :=
  if percent = 0x25 then do
    let high ← hexDigit? a
    let low ← hexDigit? b
    return UInt8.ofNat (16 * high + low)
  else none

def unescaped : List UInt8 → List UInt8
  | a :: b :: c :: rest =>
    match escape? a b c with
    | some byte => byte :: unescaped rest
    | none => a :: unescaped (b :: c :: rest)
  | bytes => bytes

end Manuscript.Web
