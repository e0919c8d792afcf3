import Manuscript.Files.Path

/-!
# The directories that a path names

The pieces of a path make up the path again. Every directory on the way to a path is a part of it at
the front that a slash follows, or the root.
-/

namespace Manuscript

namespace Text

theorem split_append (c : Char) (cs ds : List Char) :
    split (· == c) (cs ++ c :: ds) = split (· == c) cs ++ split (· == c) ds := by
  induction cs with
  | nil => simp [split]
  | cons d rest ih =>
    rw [List.cons_append, split, split, ih]
    split
    · rfl
    · cases hRest : split (· == c) rest with
      | nil => exact absurd hRest (split_ne_nil _ rest)
      | cons first others => rfl

theorem split_eq_splitOn (c : Char) (cs : List Char) : split (· == c) cs = cs.splitOn c := by
  induction cs with
  | nil => rfl
  | cons d rest ih =>
    rw [split, ih, List.splitOn_eq_splitOnP, List.splitOn_eq_splitOnP,
      List.splitOnP_cons_eq_if_modifyHead]
    split
    · rfl
    · cases hRest : List.splitOnP (· == c) rest with
      | nil => exact absurd (ih.trans hRest) (split_ne_nil _ rest)
      | cons first others => rfl

end Text

namespace Files

theorem pieces_ne_nil (path : String) : pieces path ≠ [] := by
  rw [pieces, ne_eq, List.map_eq_nil_iff]
  exact Text.split_ne_nil _ _

theorem pieces_slash (a b : String) : pieces (a ++ "/" ++ b) = pieces a ++ pieces b := by
  have hText : (a ++ "/" ++ b).toList = a.toList ++ '/' :: b.toList := by simp
  rw [pieces, hText, Text.split_append, List.map_append]
  rfl

theorem ofPieces_pieces (path : String) : ofPieces (pieces path) = path := by
  have hTexts : (pieces path).map String.toList = path.toList.splitOn '/' := by
    rw [pieces, List.map_map, Text.split_eq_splitOn]
    simp [Function.comp_def]
  rw [← String.toList_inj, ofPieces, String.toList_intercalate, hTexts]
  exact List.intercalate_splitOn '/'

theorem ofPieces_append {ps qs : List String} (hps : ps ≠ []) (hqs : qs ≠ []) :
    ofPieces (ps ++ qs) = ofPieces ps ++ "/" ++ ofPieces qs := by
  induction ps with
  | nil => exact absurd rfl hps
  | cons p rest ih =>
    rw [List.cons_append, ofPieces, ofPieces,
      String.intercalate_cons_of_ne_nil (List.append_ne_nil_of_right_ne_nil _ hqs)]
    change p ++ "/" ++ ofPieces (rest ++ qs) = _
    cases rest with
    | nil => rfl
    | cons q more =>
      rw [ih (List.cons_ne_nil _ _), String.intercalate_cons_of_ne_nil (List.cons_ne_nil _ _)]
      simp only [String.append_assoc]
      rfl

/-! ## Parents -/

/-- What is not the longest has a component behind it. -/
theorem mem_tail_upToComponents {first rest ps : List String}
    (h : ps ∈ (upToComponents first rest).tail) :
    ∃ more behind, more ≠ [] ∧ behind ≠ [] ∧ ps = first ++ more ∧ rest = more ++ behind := by
  induction rest generalizing first with
  | nil => cases h
  | cons piece rest ih =>
    have hLonger : ps ∈ (upToComponents (first ++ [piece]) rest).tail →
        ∃ more behind, more ≠ [] ∧ behind ≠ [] ∧ ps = first ++ more ∧
          piece :: rest = more ++ behind := by
      intro h
      obtain ⟨more, behind, -, hBehind, rfl, rfl⟩ := ih h
      exact ⟨piece :: more, behind, List.cons_ne_nil _ _, hBehind, by simp, rfl⟩
    rw [upToComponents] at h
    split at h
    · cases hMore : upToComponents (first ++ [piece]) rest with
      | nil =>
        rw [hMore] at h
        cases h
      | cons longest others =>
        rw [hMore] at h hLonger
        rcases List.mem_append.mp h with h | h
        · exact hLonger h
        · obtain rfl := List.mem_singleton.mp h
          refine ⟨[piece], rest, List.cons_ne_nil _ _, ?_, rfl, rfl⟩
          rintro rfl
          cases hMore
    · exact hLonger h

theorem isAbsolute_slash (rest : String) : isAbsolute ("/" ++ rest) = true := by
  simp [isAbsolute]

theorem mem_parents {dir path : String} (h : dir ∈ parents path) :
    dir = "/" ∧ isAbsolute path = true ∨ dir ≠ "" ∧ ∃ rest, path = dir ++ "/" ++ rest := by
  have hPath := ofPieces_pieces path
  rw [parents, lineage] at h
  cases hPieces : pieces path with
  | nil => exact absurd hPieces (pieces_ne_nil path)
  | cons first rest =>
    rw [hPieces] at h hPath
    dsimp only at h
    cases hUp : upToComponents [first] rest with
    | nil =>
      rw [hUp] at h
      split at h
      · cases h
      · split at h <;> cases h
    | cons longest others =>
      have hRest : rest ≠ [] := by
        rintro rfl
        cases hUp
      have hSplit : path = first ++ "/" ++ ofPieces rest := by
        rw [← hPath]
        exact ofPieces_append (List.cons_ne_nil first []) hRest
      rw [hUp, List.cons_append, List.map_cons, List.tail_cons] at h
      obtain ⟨ps, hMem, rfl⟩ := List.mem_map.mp h
      rcases List.mem_append.mp hMem with hLonger | hTop
      · have hTail : ps ∈ (upToComponents [first] rest).tail := hUp ▸ hLonger
        obtain ⟨more, behind, hMore, hBehind, rfl, rfl⟩ := mem_tail_upToComponents hTail
        rw [← List.singleton_append, ← List.append_assoc,
          ofPieces_append (by simp) hBehind] at hPath
        refine .inr ⟨?_, _, hPath.symm⟩
        rw [ofPieces_append (List.cons_ne_nil _ _) hMore, ne_eq, ← String.toList_inj]
        simp
      · split at hTop
        · rename_i hFirst
          obtain rfl := List.mem_singleton.mp hTop
          exact .inr ⟨hFirst, _, hSplit⟩
        · rename_i hFirst
          obtain rfl := List.mem_singleton.mp hTop
          obtain rfl := Decidable.not_not.mp hFirst
          refine .inl ⟨rfl, ?_⟩
          rw [hSplit]
          exact isAbsolute_slash _

end Files

end Manuscript
