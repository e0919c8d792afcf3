/-!
# Unsigned numerals

Reading an unsigned number of bounded size: an optional plus sign, at least one decimal digit
and nothing else.
-/

namespace Manuscript.Text

def digits? (cs : List Char) : Option Nat :=
  if cs ≠ [] ∧ cs.all Char.isDigit then some (Nat.ofDigitChars 10 cs 0) else none

/-- The number that a numeral spells, if it is below `bound`. -/
def numeral? (bound : Nat) (cs : List Char) : Option Nat :=
  (digits? (if cs.head? = some '+' then cs.tail else cs)).filter (· < bound)

theorem lt_of_numeral? {bound n : Nat} {cs : List Char} (h : numeral? bound cs = some n) :
    n < bound := by
  simp only [numeral?, Option.filter_eq_some_iff, decide_eq_true_eq] at h
  exact h.2

end Manuscript.Text
