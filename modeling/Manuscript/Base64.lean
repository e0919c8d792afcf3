/-!
# Base64

Bytes as text over the standard alphabet, padded to whole groups of four symbols. Decoding is
strict: it accepts the padded form with zero spare bits only, and names the first offence by its
byte and offset otherwise.
-/

namespace Manuscript.Base64

/-- Why a text is not the form of any bytes. -/
inductive Fault
  /-- A byte outside the alphabet, or padding where a symbol belongs. -/
  | symbol (byte : UInt8) (offset : Nat)
  /-- One symbol is left over after the last whole group. -/
  | length (symbols : Nat)
  /-- The last symbol carries bits that no byte takes. -/
  | lastSymbol (byte : UInt8) (offset : Nat)
  /-- The padding does not fill the last group. -/
  | padding
deriving DecidableEq, Repr

def Fault.message : Fault → String
  | .symbol byte offset => s!"Invalid symbol {byte}, offset {offset}."
  | .length symbols => s!"Invalid input length: {symbols}"
  | .lastSymbol byte offset => s!"Invalid last symbol {byte}, offset {offset}."
  | .padding => "Invalid padding"

def pad : UInt8 := 0x3D

def symbol (n : Nat) : UInt8 :=
  if n < 26 then UInt8.ofNat (0x41 + n)
  else if n < 52 then UInt8.ofNat (0x61 + (n - 26))
  else if n < 62 then UInt8.ofNat (0x30 + (n - 52))
  else if n = 62 then 0x2B
  else 0x2F

def sextet? (b : UInt8) : Option Nat :=
  if 0x41 ≤ b && b ≤ 0x5A then some (b.toNat - 0x41)
  else if 0x61 ≤ b && b ≤ 0x7A then some (b.toNat - 0x61 + 26)
  else if 0x30 ≤ b && b ≤ 0x39 then some (b.toNat - 0x30 + 52)
  else if b = 0x2B then some 62
  else if b = 0x2F then some 63
  else none

def encodeBytes : List UInt8 → List UInt8
  | a :: b :: c :: rest =>
    symbol (a.toNat / 4) :: symbol (a.toNat % 4 * 16 + b.toNat / 16) ::
      symbol (b.toNat % 16 * 4 + c.toNat / 64) :: symbol (c.toNat % 64) :: encodeBytes rest
  | [a, b] =>
    [symbol (a.toNat / 4), symbol (a.toNat % 4 * 16 + b.toNat / 16), symbol (b.toNat % 16 * 4), pad]
  | [a] => [symbol (a.toNat / 4), symbol (a.toNat % 4 * 16), pad, pad]
  | [] => []

def encode (bytes : List UInt8) : String :=
  String.ofList ((encodeBytes bytes).map fun b => Char.ofNat b.toNat)

def sextet (offset : Nat) (b : UInt8) : Except Fault Nat :=
  match sextet? b with
  | some n => .ok n
  | none => .error (.symbol b offset)

def triple (n₀ n₁ n₂ n₃ : Nat) : List UInt8 :=
  [UInt8.ofNat (n₀ * 4 + n₁ / 16), UInt8.ofNat (n₁ % 16 * 16 + n₂ / 4), UInt8.ofNat (n₂ % 4 * 64 + n₃)]

/-- The symbols and the padding of the last group. Padding may start at the third place and
nothing but padding may follow it. -/
def lastSymbols (offset : Nat) (group : List UInt8) : Except Fault (List (UInt8 × Nat) × Nat) := do
  let symbols := group.takeWhile (· != pad)
  let rest := group.drop symbols.length
  let read ← symbols.zipIdx.mapM fun (b, i) => do
    let n ← sextet (offset + i) b
    return (b, n)
  if rest ≠ [] ∧ (symbols.length < 2 ∨ ¬ rest.all (· == pad)) then
    throw (.symbol pad (offset + symbols.length))
  return (read, rest.length)

def decodeLast (offset : Nat) (group : List UInt8) : Except Fault (List UInt8) := do
  let (symbols, padding) ← lastSymbols offset group
  if symbols.length < 2 then throw (.length (offset + symbols.length))
  if (symbols.length + padding) % 4 ≠ 0 then throw .padding
  match symbols with
  | [(_, n₀), (b, n₁)] =>
    if n₁ % 16 ≠ 0 then throw (.lastSymbol b (offset + 1))
    return (triple n₀ n₁ 0 0).take 1
  | [(_, n₀), (_, n₁), (b, n₂)] =>
    if n₂ % 4 ≠ 0 then throw (.lastSymbol b (offset + 2))
    return (triple n₀ n₁ n₂ 0).take 2
  | [(_, n₀), (_, n₁), (_, n₂), (_, n₃)] => return triple n₀ n₁ n₂ n₃
  | _ => return []

def decodeFrom (offset : Nat) : List UInt8 → Except Fault (List UInt8)
  | a :: b :: c :: d :: e :: rest => do
    let n₀ ← sextet offset a
    let n₁ ← sextet (offset + 1) b
    let n₂ ← sextet (offset + 2) c
    let n₃ ← sextet (offset + 3) d
    let bytes ← decodeFrom (offset + 4) (e :: rest)
    return triple n₀ n₁ n₂ n₃ ++ bytes
  | [] => .ok []
  | group => decodeLast offset group

/-- The bytes that some symbols spell. A foreign byte that stands alone after the last whole group
is reported before anything else. -/
def decodeBytes (symbols : List UInt8) : Except Fault (List UInt8) := do
  if symbols.length % 4 = 1 then
    match symbols.getLast? with
    | some b => if b ≠ pad ∧ sextet? b = none then throw (.symbol b (symbols.length - 1))
    | none => pure ()
  decodeFrom 0 symbols

def decode (s : String) : Except Fault (List UInt8) :=
  decodeBytes s.toUTF8.toList

end Manuscript.Base64
