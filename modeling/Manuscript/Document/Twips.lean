/-!
# Twips

Lengths in inches as whole twips, 1440 to the inch. Fractions of a twip are dropped and lengths
that 32 bits do not hold become the nearest end of their range.
-/

namespace Manuscript

/-- The twips of a length in inches. Points come first: 0.35 in are 25.2 pt and so 504 twips, while
0.35 times 1440 lies just below 504. -/
def twipsOfInches (inches : Float) : UInt32 :=
  (inches * 72.0 * 20.0).floor.toUInt32

def twipsOfHalfInches (n : Nat) : UInt32 :=
  UInt32.ofNat (min (720 * n) (UInt32.size - 1))

end Manuscript
