/-!
# Splitting text

The pieces of a text between separators, of which there is one more than there are separators.
-/

namespace Manuscript.Text

/-- The pieces between the characters that separate. -/
def split (separates : Char → Bool) : List Char → List (List Char)
  | [] => [[]]
  | c :: rest =>
    if separates c then [] :: split separates rest
    else
      match split separates rest with
      | [] => [[c]]
      | first :: others => (c :: first) :: others

theorem split_ne_nil (separates : Char → Bool) (cs : List Char) : split separates cs ≠ [] := by
  cases cs with
  | nil => simp [split]
  | cons c rest =>
    simp only [split]
    split
    · simp
    · split <;> simp

end Manuscript.Text
