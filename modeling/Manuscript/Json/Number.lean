import Manuscript.Json.Basic
import Manuscript.Json.Fault
import Manuscript.Text.Glyph

/-!
# Numbers of a JSON text

A number is written as an integer part, a fraction and an exponent. Without the last two it is an
integer if 64 bits hold it. Every other number is a double: the leading digits that fit 64 bits,
scaled by one multiplication or by divisions by powers of ten.
-/

namespace Manuscript.Json

open Text (Glyph)

def digitRun : List Glyph → List Char × List Glyph
  | .char c :: rest =>
    if c.isDigit then
      let (digits, after) := digitRun rest
      (c :: digits, after)
    else ([], .char c :: rest)
  | rest => ([], rest)

theorem length_digitRun (s : List Glyph) : (digitRun s).2.length ≤ s.length := by
  fun_induction digitRun s with
  | case1 c rest hc digits after h ih => simp only [h, List.length_cons] at ih ⊢; omega
  | case2 => simp
  | case3 => simp

structure Numeral where
  negative : Bool
  whole : List Char
  fraction : Option (List Char)
  /-- Whether the exponent is negative, and its digits. -/
  exponent : Option (Bool × List Char)

namespace Numeral

/-- Append digits to a significand as long as 64 bits hold it; the digits that are left over. -/
def gather (significand : Nat) : List Char → Nat × List Char
  | [] => (significand, [])
  | d :: ds =>
    let next := significand * 10 + (d.toNat - '0'.toNat)
    if next < UInt64.size then gather next ds else (significand, d :: ds)

def tenTo (e : Nat) : Float :=
  Float.ofScientific 1 false e

/-- The significand scaled by a power of ten. -/
def scaled (x : Float) (e : Int) : Except Malformation Float :=
  if 0 ≤ e then
    if e ≤ 308 then
      let y := x * tenTo e.toNat
      if y.isInf then .error .numberTooLarge else .ok y
    else if x == 0.0 then .ok x
    else .error .numberTooLarge
  else if -308 ≤ e then .ok (x / tenTo (-e).toNat)
  else if x == 0.0 then .ok x
  else scaled (x / tenTo 308) (e + 308)
termination_by (-e).toNat

def signed (n : Numeral) (x : Float) : Float :=
  if n.negative then -x else x

/-- The value, if doubles reach it. -/
def value (n : Numeral) : Except Malformation Number := do
  let (whole, dropped) := gather 0 n.whole
  let (significand, places) := match n.fraction with
    | none => (whole, 0)
    | some ds =>
      let (significand, rest) := gather whole ds
      (significand, ds.length - rest.length)
  let shift := Int.ofNat dropped.length - Int.ofNat places
  match n.exponent with
  | none =>
    if n.fraction.isNone && dropped.isEmpty then
      if !n.negative then return .natural whole
      else if 0 < whole && whole ≤ 0x8000000000000000 then return .negative whole
      else return .real (-whole.toUInt64.toFloat)
    else
      let x ← scaled significand.toUInt64.toFloat shift
      return .real (n.signed x)
  | some (down, ds) =>
    let size := Nat.ofDigitChars 10 ds 0
    if size < 0x80000000 then
      let x ← scaled significand.toUInt64.toFloat (if down then shift - size else shift + size)
      return .real (n.signed x)
    else if significand ≠ 0 ∧ !down then throw .numberTooLarge
    else return .real (n.signed 0.0)

end Numeral

/-- What stands in the place of a digit that is missing. -/
def digitMissing (rest : List Glyph) : Malformation :=
  if rest.isEmpty then .valueMissing else .numberMalformed

def someDigits (s : List Glyph) : Except Malformation (List Char × List Glyph) :=
  if (digitRun s).1.isEmpty then .error (digitMissing s) else .ok (digitRun s)

/-- The rest of a text after the sign of an exponent, and whether the sign is a minus. -/
def exponentSign : List Glyph → Bool × List Glyph
  | .char '+' :: rest => (false, rest)
  | .char '-' :: rest => (true, rest)
  | rest => (false, rest)

def scanExponent : List Glyph → Except Malformation (Option (Bool × List Char) × List Glyph)
  | .char c :: rest =>
    if c = 'e' ∨ c = 'E' then
      (someDigits (exponentSign rest).2).map fun read =>
        (some ((exponentSign rest).1, read.1), read.2)
    else .ok (none, .char c :: rest)
  | rest => .ok (none, rest)

def scanFraction : List Glyph → Except Malformation (Option (List Char) × List Glyph)
  | .char '.' :: rest => (someDigits rest).map fun read => (some read.1, read.2)
  | rest => .ok (none, rest)

def hasIdleZero : List Char → Bool
  | '0' :: _ :: _ => true
  | _ => false

/-- Read a number after its sign. A zero stands alone before the point. -/
def scanNumeral (negative : Bool) (s : List Glyph) : Except Malformation (Numeral × List Glyph) := do
  let whole ← someDigits s
  if hasIdleZero whole.1 then throw .numberMalformed
  let fraction ← scanFraction whole.2
  let exponent ← scanExponent fraction.2
  return (⟨negative, whole.1, fraction.1, exponent.1⟩, exponent.2)

theorem length_someDigits {s : List Glyph} {read : List Char × List Glyph}
    (h : someDigits s = .ok read) : read.2.length < s.length := by
  unfold someDigits at h
  split at h
  · cases h
  · rename_i hne
    cases h
    match s, hne with
    | .char c :: rest, hne =>
      by_cases hc : c.isDigit
      · have := length_digitRun rest
        simp only [digitRun, hc, if_true, List.length_cons]
        omega
      · simp [digitRun, hc] at hne
    | .stray b :: rest, hne => simp [digitRun] at hne
    | [], hne => simp [digitRun] at hne

theorem length_exponentSign (s : List Glyph) : (exponentSign s).2.length ≤ s.length := by
  unfold exponentSign
  split <;> simp

theorem length_scanFraction {s : List Glyph} {read : Option (List Char) × List Glyph}
    (h : scanFraction s = .ok read) : read.2.length ≤ s.length := by
  unfold scanFraction at h
  split at h
  · rename_i rest
    cases hd : someDigits rest with
    | error e => simp [hd, Except.map] at h
    | ok digits =>
      have := length_someDigits hd
      simp only [hd, Except.map, Except.ok.injEq] at h
      subst h
      simp only [List.length_cons]
      omega
  · cases h
    exact Nat.le_refl _

theorem length_scanExponent {s : List Glyph} {read : Option (Bool × List Char) × List Glyph}
    (h : scanExponent s = .ok read) : read.2.length ≤ s.length := by
  unfold scanExponent at h
  split at h
  · rename_i c rest
    split at h
    · cases hd : someDigits (exponentSign rest).2 with
      | error e => simp [hd, Except.map] at h
      | ok digits =>
        have := length_someDigits hd
        have := length_exponentSign rest
        simp only [hd, Except.map, Except.ok.injEq] at h
        subst h
        simp only [List.length_cons]
        omega
    · cases h
      exact Nat.le_refl _
  · cases h
    exact Nat.le_refl _

theorem length_scanNumeral {negative : Bool} {s : List Glyph} {read : Numeral × List Glyph}
    (h : scanNumeral negative s = .ok read) : read.2.length < s.length := by
  unfold scanNumeral at h
  cases hw : someDigits s with
  | error e => simp [hw, bind, Except.bind] at h
  | ok whole =>
    cases hf : scanFraction whole.2 with
    | error e => simp only [hw, hf, bind, Except.bind] at h; split at h <;> cases h
    | ok fraction =>
      cases he : scanExponent fraction.2 with
      | error e => simp only [hw, hf, he, bind, Except.bind] at h; split at h <;> cases h
      | ok exponent =>
        have := length_someDigits hw
        have := length_scanFraction hf
        have := length_scanExponent he
        simp only [hw, hf, he, bind, Except.bind, pure, Except.pure] at h
        split at h
        · cases h
        · cases h
          dsimp only
          omega

end Manuscript.Json
