import Manuscript.Layout.Walk
import Manuscript.Proofs.Tree.Sites

/-!
# Offences

What is wrong with a node at its site, if anything: the rules on where nodes may stand, on the depths
of headings, on images and on the identifiers of footnote references. A node is judged by itself and
by the node directly around it.
-/

namespace Manuscript

namespace Text

/-- An unsigned numeral below a bound: at least one decimal digit, perhaps behind a plus sign, and
nothing else. -/
def IsNumeral (bound : Nat) (cs : List Char) : Prop :=
  ∃ digits : List Char, (cs = digits ∨ cs = '+' :: digits) ∧ digits ≠ [] ∧
    (∀ c ∈ digits, '0' ≤ c ∧ c ≤ '9') ∧ Nat.ofDigitChars 10 digits 0 < bound

theorem all_isDigit_iff {cs : List Char} :
    cs.all Char.isDigit = true ↔ ∀ c ∈ cs, '0' ≤ c ∧ c ≤ '9' := by
  simp only [List.all_eq_true, Char.isDigit, Bool.and_eq_true, decide_eq_true_eq]
  rfl

theorem numeral?_cons_plus (bound : Nat) (digits : List Char) :
    numeral? bound ('+' :: digits) = (digits? digits).filter (· < bound) := rfl

theorem numeral?_of_head_ne {bound : Nat} {cs : List Char} (h : cs.head? ≠ some '+') :
    numeral? bound cs = (digits? cs).filter (· < bound) := by
  rw [numeral?, if_neg h]

theorem isSome_digits_filter_iff {bound : Nat} {cs : List Char} :
    ((digits? cs).filter (· < bound)).isSome = true ↔
      cs ≠ [] ∧ (∀ c ∈ cs, '0' ≤ c ∧ c ≤ '9') ∧ Nat.ofDigitChars 10 cs 0 < bound := by
  rw [digits?, ← all_isDigit_iff, ← and_assoc]
  split
  · rename_i hDigits
    simp [Option.filter_some, hDigits, apply_ite]
  · rename_i hDigits
    rw [Option.filter_none]
    exact ⟨fun h => absurd h (by decide), fun h => absurd h.1 hDigits⟩

theorem isSome_numeral?_iff {bound : Nat} {cs : List Char} :
    (numeral? bound cs).isSome = true ↔ IsNumeral bound cs := by
  by_cases hSign : cs.head? = some '+'
  · obtain ⟨digits, rfl⟩ : ∃ digits, cs = '+' :: digits := by
      cases cs with
      | nil => cases hSign
      | cons c digits => exact ⟨digits, by rw [Option.some.inj hSign]⟩
    rw [numeral?_cons_plus, isSome_digits_filter_iff]
    constructor
    · exact fun h => ⟨digits, .inr rfl, h⟩
    · rintro ⟨digits', rfl | hEq, h⟩
      · exact absurd (h.2.1 '+' List.mem_cons_self).1 (by decide)
      · rwa [(List.cons.inj hEq).2]
  · rw [numeral?_of_head_ne hSign, isSome_digits_filter_iff]
    constructor
    · exact fun h => ⟨cs, .inl rfl, h⟩
    · rintro ⟨digits, rfl | rfl, h⟩
      · exact h
      · exact absurd rfl hSign

instance (bound : Nat) (cs : List Char) : Decidable (IsNumeral bound cs) :=
  decidable_of_iff _ isSome_numeral?_iff

end Text

def isInList : List Node → Bool
  | .list .. :: _ => true
  | _ => false

/-- Whether the nodes inside a node are left out of the document. -/
def Node.hidesInside : Node → Bool
  | .table .. | .linkReference .. => true
  | _ => false

namespace Layout

/-- What is wrong with a node that stands directly inside a list. -/
def itemOffence : Node → Option Error
  | .listItem .. => none
  | n => some (.unexpectedNode n.kind "directly inside a list")

/-- What is wrong with a node that stands anywhere else. -/
def nodeOffence (images : ImageTable) : Node → Option Error
  | .listItem .. => some (.unexpectedNode "listItem" "outside a list")
  | .tableRow _ => some (.unexpectedNode "tableRow" "outside a table")
  | .tableCell _ => some (.unexpectedNode "tableCell" "outside a table")
  | .heading depth _ => if 1 ≤ depth ∧ depth ≤ 6 then none else some (.invalidHeadingDepth depth)
  | .image url .. => if images.has url then none else some (.imageNotResolved url)
  | .footnoteReference identifier _ =>
    if Text.IsNumeral UInt32.size identifier.toList then none
    else some (.invalidFootnoteIdentifier identifier)
  | _ => none

def offence (images : ImageTable) (p : Site) : Option Error :=
  if isInList p.above then itemOffence p.node else nodeOffence images p.node

/-- Only an item can stand directly inside a list, so any other node that is fine is judged by the
rules on nodes that stand anywhere else. -/
theorem nodeOffence_of_allowed {images : ImageTable} {above : List Node} {n : Node}
    (h : offence images ⟨above, n⟩ = none) (hItem : itemOffence n ≠ none) :
    nodeOffence images n = none := by
  rw [offence] at h
  split at h
  · exact absurd h hItem
  · exact h

theorem headingStyle_of_range {depth : UInt8} (h : 1 ≤ depth ∧ depth ≤ 6) :
    ∃ style, headingStyle depth = .ok style := by
  unfold headingStyle
  split
  case h_7 => grind
  all_goals exact ⟨_, rfl⟩

theorem headingStyle_of_not_range {depth : UInt8} (h : ¬ (1 ≤ depth ∧ depth ≤ 6)) :
    headingStyle depth = .error (.invalidHeadingDepth depth) := by
  unfold headingStyle
  split
  case h_7 => rfl
  all_goals exact absurd (by decide) h

theorem footnoteNumber_of_isNumeral {identifier : String}
    (h : Text.IsNumeral UInt32.size identifier.toList) :
    ∃ number, footnoteNumber identifier = .ok number := by
  obtain ⟨n, hNumeral⟩ := Option.isSome_iff_exists.mp (Text.isSome_numeral?_iff.mpr h)
  exact ⟨.ofNat n, by rw [footnoteNumber, hNumeral]⟩

theorem footnoteNumber_of_not_isNumeral {identifier : String}
    (h : ¬ Text.IsNumeral UInt32.size identifier.toList) :
    footnoteNumber identifier = .error (.invalidFootnoteIdentifier identifier) := by
  have hNone : Text.numeral? UInt32.size identifier.toList = none :=
    Option.not_isSome_iff_eq_none.mp fun hSome => h (Text.isSome_numeral?_iff.mp hSome)
  rw [footnoteNumber, hNone]

end Layout

end Manuscript
