/-!
# Punycode

A label of a host name in ASCII: its ASCII characters, and behind a hyphen where the others go. The
others are taken in the order of their code points; each place is written as the distance from the
one before, in digits to base 36 whose thresholds adapt to the distances so far.
-/

namespace Manuscript.Web.Punycode

def digit (n : Nat) : Char :=
  if n < 26 then Char.ofNat (0x61 + n) else Char.ofNat (0x30 + (n - 26))

/-- The threshold of the digit at a weight: a smaller digit is the last one. -/
def threshold (bias weight : Nat) : Nat :=
  if weight ≤ bias then 1 else if bias + 26 ≤ weight then 26 else weight - bias

theorem threshold_pos (bias weight : Nat) : 0 < threshold bias weight := by
  unfold threshold
  split
  · omega
  · split <;> omega

def digits (bias weight distance : Nat) : List Char :=
  let t := threshold bias weight
  if distance < t then [digit distance]
  else
    digit (t + (distance - t) % (36 - t)) :: digits bias (weight + 36) ((distance - t) / (36 - t))
termination_by distance
decreasing_by
  have := threshold_pos bias weight
  exact Nat.lt_of_le_of_lt (Nat.div_le_self _ _) (by omega)

def scale (bias distance : Nat) : Nat :=
  if 455 < distance then scale (bias + 36) (distance / 35)
  else bias + 36 * distance / (distance + 38)
termination_by distance

/-- The bias after a distance among so many characters. -/
def adapted (distance written : Nat) (first : Bool) : Nat :=
  let distance := if first then distance / 700 else distance / 2
  scale 0 (distance + distance / written)

structure Progress where
  /-- The digits of the characters past ASCII. -/
  out : List Char := []
  distance : Nat := 0
  bias : Nat := 72
  written : Nat

/-- Pass a character of the label while those with a code point are written. -/
def pass (basics point : Nat) (p : Progress) (c : Char) : Progress :=
  if c.toNat < point then { p with distance := p.distance + 1 }
  else if c.toNat = point then
    { out := p.out ++ digits p.bias 36 p.distance
      distance := 0
      bias := adapted p.distance (p.written + 1) (p.written == basics)
      written := p.written + 1 }
  else p

/-- Write all characters with the given code points, which increase and are no smaller than the start. -/
def writeAll (label : List Char) (basics : Nat) :
    (start : Nat) → (points : List Nat) → Progress → Progress
  | _, [], p => p
  | start, point :: points, p =>
    let p := { p with distance := p.distance + (point - start) * (p.written + 1) }
    let p := label.foldl (pass basics point) p
    writeAll label basics (point + 1) points { p with distance := p.distance + 1 }

def encode (label : List Char) : List Char :=
  let basic := label.filter (·.toNat < 0x80)
  let points := ((label.map Char.toNat).filter (0x80 ≤ ·)).eraseDups.mergeSort
  let p := writeAll label basic.length 0x80 points { written := basic.length }
  basic ++ (if basic.isEmpty then [] else ['-']) ++ p.out

end Manuscript.Web.Punycode
