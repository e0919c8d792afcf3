import Mathlib.Data.List.DropRight
import Mathlib.Data.List.TakeWhile
import Manuscript.Text.Blank

/-!
# Trimmed texts

Trimming takes blank characters from both ends of a text, and as many as there are: what is left has
no blank character at an end, and any such text comes back however many blank characters are put
around it.
-/

namespace Manuscript.Text

/-- No blank character stands at an end. -/
structure IsTrimmed (cs : List Char) : Prop where
  first : ∀ c ∈ cs.head?, isBlank c = false
  last : ∀ c ∈ cs.getLast?, isBlank c = false

def Blank (cs : List Char) : Prop :=
  ∀ c ∈ cs, isBlank c = true

theorem trimEnd_eq_rdropWhile (cs : List Char) : trimEnd cs = cs.rdropWhile isBlank := rfl

theorem trimEnd_append_blank (cs : List Char) {right : List Char} (h : Blank right) :
    trimEnd (cs ++ right) = trimEnd cs := by
  rw [trimEnd, trimEnd, List.reverse_append,
    List.dropWhile_append_of_pos fun c hMem => h c (List.mem_reverse.mp hMem)]

theorem trimEnd_of_last {cs : List Char} (h : ∀ c ∈ cs.getLast?, isBlank c = false) :
    trimEnd cs = cs := by
  rw [trimEnd_eq_rdropWhile, List.rdropWhile_eq_self_iff]
  intro hNonempty hBlank
  have hLast := h _ (List.getLast?_eq_some_getLast hNonempty)
  rw [hLast] at hBlank
  cases hBlank

theorem isTrimmed_trim (cs : List Char) : IsTrimmed (trim cs) := by
  rw [trim, trimEnd_eq_rdropWhile]
  constructor
  · intro c hFirst
    obtain ⟨rest, hRest⟩ := List.rdropWhile_prefix isBlank (cs.dropWhile isBlank)
    obtain ⟨others, hOthers⟩ := List.head?_eq_some_iff.mp (Option.mem_def.mp hFirst)
    have hNot := List.head?_dropWhile_not isBlank cs
    rw [← hRest, hOthers] at hNot
    exact hNot
  · intro c hLast
    obtain ⟨hNonempty, rfl⟩ := List.mem_getLast?_eq_getLast hLast
    exact eq_false_of_ne_true (List.rdropWhile_last_not isBlank _ hNonempty)

/-- What was trimmed off is blank. -/
theorem exists_blank_around (cs : List Char) :
    ∃ left right, Blank left ∧ Blank right ∧ cs = left ++ (trim cs ++ right) := by
  refine ⟨cs.takeWhile isBlank, (cs.dropWhile isBlank).rtakeWhile isBlank,
    fun c => List.mem_takeWhile_imp, fun c => List.mem_rtakeWhile_imp, ?_⟩
  rw [trim, trimEnd_eq_rdropWhile, List.rdropWhile_append_rtakeWhile,
    List.takeWhile_append_dropWhile]

theorem trim_of_blank {cs : List Char} (h : Blank cs) : trim cs = [] := by
  rw [trim, List.dropWhile_eq_nil_iff.mpr h]
  rfl

theorem trim_around {left core right : List Char} (hLeft : Blank left) (hCore : IsTrimmed core)
    (hRight : Blank right) : trim (left ++ (core ++ right)) = core := by
  rw [trim, List.dropWhile_append_of_pos hLeft]
  cases core with
  | nil => exact trim_of_blank hRight
  | cons c rest =>
    have hFirst : isBlank c = false := hCore.first c rfl
    rw [List.cons_append, List.dropWhile_cons_of_neg (by rw [hFirst]; decide), ← List.cons_append,
      trimEnd_append_blank _ hRight, trimEnd_of_last hCore.last]

theorem trim_eq_nil_iff {cs : List Char} : trim cs = [] ↔ Blank cs := by
  refine ⟨fun h => ?_, trim_of_blank⟩
  obtain ⟨left, right, hLeft, hRight, hSplit⟩ := exists_blank_around cs
  rw [hSplit, h]
  intro c hMem
  rcases List.mem_append.mp hMem with hMem | hMem
  · exact hLeft c hMem
  · exact hRight c hMem

end Manuscript.Text
