/-!
# Character sets

A set of characters is a list of closed ranges of code points, as the tables of
character properties are published.
-/

namespace Manuscript.Text

/-- Closed ranges of code points, in increasing order. -/
abbrev CharSet := List (Nat × Nat)

def CharSet.has (set : CharSet) (c : Char) : Bool :=
  set.any fun range => range.1 ≤ c.toNat && c.toNat ≤ range.2

end Manuscript.Text
