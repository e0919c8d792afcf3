import Mathlib.Data.List.Chain
import Manuscript.Latex
import Manuscript.Proofs.Text.Blank

/-!
# Rows of equations

The plain parser takes the rows of an equation from the pieces between double backslashes. A row is
never empty, has no blank character at an end and no double backslash inside. Rows that are joined by
double backslashes with a space on each side are read back as they are, so a source can be replaced by
its joined rows without any change.
-/

namespace Manuscript.Latex

/-- No two backslashes stand next to each other. -/
def Unbroken (cs : List Char) : Prop :=
  cs.IsChain fun c d => ¬(c = '\\' ∧ d = '\\')

instance (cs : List Char) : Decidable (Unbroken cs) :=
  inferInstanceAs (Decidable (List.IsChain _ cs))

/-- A text and its pieces between double backslashes. A piece ends where a double backslash stands for
the first time: even with one backslash more it is unbroken. -/
inductive Cut : List Char → List (List Char) → Prop
  | whole {piece : List Char} (hPiece : Unbroken piece) : Cut piece [piece]
  | apart {piece rest : List Char} {others : List (List Char)}
      (hPiece : Unbroken (piece ++ ['\\'])) (hRest : Cut rest others) :
      Cut (piece ++ '\\' :: '\\' :: rest) (piece :: others)

theorem unbroken_cons_iff {c : Char} {cs : List Char} :
    Unbroken (c :: cs) ↔ (c = '\\' → cs.head? ≠ some '\\') ∧ Unbroken cs := by
  rw [Unbroken, List.isChain_cons]
  refine and_congr_left fun _ => ⟨fun h hc hHead => h _ hHead ⟨hc, rfl⟩, ?_⟩
  rintro h d hHead ⟨hc, rfl⟩
  exact h hc hHead

theorem pieces_break (rest : List Char) : pieces ('\\' :: '\\' :: rest) = [] :: pieces rest := by
  rw [pieces]

theorem pieces_cons {c : Char} {cs first : List Char} {others : List (List Char)}
    (hBreak : c = '\\' → cs.head? ≠ some '\\') (h : pieces cs = first :: others) :
    pieces (c :: cs) = (c :: first) :: others := by
  rw [pieces, h]
  rintro rest rfl rfl
  exact hBreak rfl rfl

theorem pieces_of_unbroken {piece : List Char} (h : Unbroken piece) : pieces piece = [piece] := by
  induction piece with
  | nil => rfl
  | cons c cs ih =>
    obtain ⟨hBreak, hRest⟩ := unbroken_cons_iff.mp h
    exact pieces_cons hBreak (ih hRest)

theorem pieces_append_break {piece : List Char} (h : Unbroken (piece ++ ['\\']))
    (rest : List Char) : pieces (piece ++ '\\' :: '\\' :: rest) = piece :: pieces rest := by
  induction piece with
  | nil => exact pieces_break rest
  | cons c cs ih =>
    obtain ⟨hBreak, hRest⟩ := unbroken_cons_iff.mp h
    refine pieces_cons (fun hc hHead => hBreak hc ?_) (ih hRest)
    cases cs with
    | nil => rfl
    | cons d ds => exact hHead

theorem Cut.cons {c : Char} {cs first : List Char} {others : List (List Char)}
    (hBreak : c = '\\' → cs.head? ≠ some '\\') (h : Cut cs (first :: others)) :
    Cut (c :: cs) ((c :: first) :: others) := by
  cases h with
  | whole hPiece => exact .whole (unbroken_cons_iff.mpr ⟨hBreak, hPiece⟩)
  | apart hPiece hRest =>
    have hFirst : Unbroken (c :: first ++ ['\\']) := by
      refine unbroken_cons_iff.mpr ⟨fun hc hHead => hBreak hc ?_, hPiece⟩
      cases first with
      | nil => rfl
      | cons d ds => exact hHead
    exact .apart hFirst hRest

theorem cut_pieces (cs : List Char) : Cut cs (pieces cs) := by
  fun_induction pieces cs with
  | case1 => exact .whole .nil
  | case2 rest ih => exact @Cut.apart [] _ _ (.singleton _) ih
  | case3 c rest hBreak hNone ih =>
    rw [hNone] at ih
    cases ih
  | case4 c rest hBreak first others hRest ih =>
    rw [hRest] at ih
    refine ih.cons fun hc hHead => ?_
    obtain ⟨behind, hBehind⟩ := List.head?_eq_some_iff.mp hHead
    exact hBreak behind hc hBehind

/-- A text is cut into pieces in one way only. -/
theorem cut_iff {cs : List Char} {parts : List (List Char)} : Cut cs parts ↔ pieces cs = parts := by
  constructor
  · intro h
    induction h with
    | whole hPiece => exact pieces_of_unbroken hPiece
    | apart hPiece hRest ih => rw [pieces_append_break hPiece, ih]
  · rintro rfl
    exact cut_pieces cs

example : pieces ['a', '\\', '\\', '\\', 'b'] = [['a'], ['\\', 'b']] := by decide

theorem Cut.unbroken {cs piece : List Char} {parts : List (List Char)} (h : Cut cs parts)
    (hMem : piece ∈ parts) : Unbroken piece := by
  induction h with
  | whole hPiece => rwa [List.mem_singleton.mp hMem]
  | apart hPiece hRest ih =>
    rcases List.mem_cons.mp hMem with rfl | hMem
    · exact List.IsChain.left_of_append hPiece
    · exact ih hMem

/-! ## Rows -/

/-- What a row of an equation can be. -/
structure IsRow (row : List Char) : Prop where
  nonempty : row ≠ []
  trimmed : Text.IsTrimmed row
  unbroken : Unbroken row

theorem isRow_of_mem_rows {source row : List Char} (h : row ∈ rows source) : IsRow row := by
  rw [rows, List.mem_filter, List.mem_map] at h
  obtain ⟨⟨piece, hPiece, rfl⟩, hNonempty⟩ := h
  refine ⟨fun hNil => ?_, Text.isTrimmed_trim piece, ?_⟩
  · rw [hNil] at hNonempty
    cases hNonempty
  · obtain ⟨left, right, -, -, hSplit⟩ := Text.exists_blank_around piece
    have hUnbroken := (cut_pieces source).unbroken hPiece
    rw [hSplit] at hUnbroken
    exact (List.IsChain.right_of_append hUnbroken).left_of_append

theorem rows_of_isRow {row : List Char} (h : IsRow row) : rows row = [row] := by
  have hTrim : Text.trim row = row := by
    have hAround := @Text.trim_around [] row [] nofun h.trimmed nofun
    rwa [List.nil_append, List.append_nil] at hAround
  rw [rows, pieces_of_unbroken h.unbroken, List.map_singleton, hTrim, List.filter_singleton,
    List.isEmpty_eq_false_iff.mpr h.nonempty]
  rfl

/-- A space in front of a source changes no row. -/
theorem rows_cons_space (cs : List Char) : rows (' ' :: cs) = rows cs := by
  cases hPieces : pieces cs with
  | nil =>
    have hCut := cut_pieces cs
    rw [hPieces] at hCut
    cases hCut
  | cons first others =>
    rw [rows, rows, pieces_cons (fun hc => absurd hc (by decide)) hPieces, hPieces]
    rfl

theorem rows_append_separator {row : List Char} (h : IsRow row) (rest : List Char) :
    rows (row ++ ' ' :: '\\' :: '\\' :: ' ' :: rest) = row :: rows rest := by
  have hPiece : Unbroken (row ++ [' '] ++ ['\\']) := by
    rw [List.append_assoc]
    refine List.isChain_append.mpr ⟨h.unbroken, by decide, ?_⟩
    rintro c - d hSpace ⟨-, rfl⟩
    cases hSpace
  have hTrim : Text.trim (row ++ [' ']) = row :=
    @Text.trim_around [] row [' '] nofun h.trimmed fun c hSpace => by
      rw [List.mem_singleton.mp hSpace]
      decide
  have hPieces := pieces_append_break hPiece (' ' :: rest)
  rw [List.append_assoc] at hPieces
  rw [← rows_cons_space rest, rows, rows]
  change ((pieces (row ++ ([' '] ++ _))).map _).filter _ = _
  rw [hPieces, List.map_cons, hTrim, List.filter_cons,
    List.isEmpty_eq_false_iff.mpr h.nonempty]
  rfl

/-- The source with some rows: a double backslash with a space on each side stands between them. -/
def joined (rows : List String) : String :=
  String.intercalate " \\\\ " rows

theorem rows_joined {texts : List String} (h : ∀ row ∈ texts, IsRow row.toList) :
    rows (joined texts).toList = texts.map String.toList := by
  rw [joined, String.toList_intercalate]
  induction texts with
  | nil => decide
  | cons row rest ih =>
    obtain ⟨hRow, hRest⟩ := List.forall_mem_cons.mp h
    cases rest with
    | nil =>
      rw [List.map_singleton, List.intercalate_singleton]
      exact rows_of_isRow hRow
    | cons next others =>
      rw [List.map_cons, List.map_cons, List.intercalate_cons_cons, List.append_assoc,
        ← List.map_cons]
      exact (rows_append_separator hRow _).trans (congrArg _ (ih hRest))

theorem plain_of_rows {source : String} (h : rows source.toList ≠ []) :
    plain source = ((rows source.toList).map String.ofList).map fun row => [.text row] := by
  rw [plain]
  split
  · rename_i hNil
    exact absurd hNil h
  · rename_i first others hRows
    rw [hRows, List.map_map]
    rfl

theorem plain_of_blank {source : String} (h : rows source.toList = []) : plain source = [[]] := by
  rw [plain, h]

/-- The texts of some groups, one after the other. -/
def texts (groups : List (List MathAtom)) : List String :=
  groups.flatten.filterMap fun
    | .text text => some text
    | _ => none

theorem flatten_plain (source : String) :
    (plain source).flatten = ((rows source.toList).map String.ofList).map .text := by
  by_cases h : rows source.toList = []
  · rw [plain_of_blank h, h]
    rfl
  · rw [plain_of_rows h]
    exact List.map_eq_flatMap.symm

theorem texts_plain (source : String) :
    texts (plain source) = (rows source.toList).map String.ofList := by
  rw [texts, flatten_plain, List.filterMap_map]
  exact List.filterMap_some

theorem plain_eq_singleton_nil_iff {source : String} :
    plain source = [[]] ↔ rows source.toList = [] := by
  refine ⟨fun h => ?_, plain_of_blank⟩
  have hTexts := texts_plain source
  rw [h] at hTexts
  exact List.map_eq_nil_iff.mp hTexts.symm

theorem rows_eq_nil_iff {source : List Char} :
    rows source = [] ↔ ∀ piece ∈ pieces source, Text.Blank piece := by
  simp only [rows, List.filter_eq_nil_iff, List.forall_mem_map, Bool.not_eq_true',
    Bool.not_eq_false, List.isEmpty_iff, Text.trim_eq_nil_iff]

theorem plain_congr {source other : String} (h : rows source.toList = rows other.toList) :
    plain source = plain other := by
  rw [plain, plain, h]

theorem isRow_of_mem_texts {source row : String} (h : row ∈ texts (plain source)) :
    IsRow row.toList := by
  rw [texts_plain, List.mem_map] at h
  obtain ⟨cs, hMem, rfl⟩ := h
  rw [String.toList_ofList]
  exact isRow_of_mem_rows hMem

/-- A source can be replaced by its rows, joined. -/
theorem plain_joined_texts (source : String) :
    plain (joined (texts (plain source))) = plain source := by
  refine plain_congr ?_
  rw [rows_joined fun row hRow => isRow_of_mem_texts hRow, texts_plain, List.map_map]
  exact List.map_id'' (fun cs => String.toList_ofList) _

theorem length_blockMath_plain (source : String) :
    (blockMath plain source).length = max 1 (rows source.toList).length := by
  rw [blockMath, List.length_map]
  cases hRows : rows source.toList with
  | nil =>
    rw [plain_of_blank hRows]
    rfl
  | cons first others =>
    rw [plain_of_rows (by rw [hRows]; nofun), hRows, List.length_map, List.length_map,
      List.length_cons]
    omega

/-- The plain parser finds the rows of a source: of its pieces between double backslashes, for which
there is one way only, those that are not blank, trimmed. Each row is a group with one text, and
without any row there is one empty group. A row has no blank character at an end and no double
backslash inside, and any such texts, joined, are read back as they are. An equation that stands alone
has a paragraph for each row and at least one, and one inside a paragraph has a part for each row. -/
theorem plain_finds_rows :
    (∀ source : String, ∃ parts, (∀ other, Cut source.toList other ↔ parts = other) ∧
        let rows := ((parts.map Text.trim).filter (!·.isEmpty)).map String.ofList
        plain source ≠ [] ∧
          (plain source = [[]] ↔ ∀ piece ∈ parts, Text.Blank piece) ∧
          (plain source ≠ [[]] → plain source = rows.map fun row => [.text row]) ∧
          (∀ row ∈ rows, IsRow row.toList) ∧
          plain (joined (texts (plain source))) = plain source ∧
          (blockMath plain source).length = max 1 rows.length ∧
          inlineMath plain source = .math (rows.map .text)) ∧
      ∀ rows : List String, (∀ row ∈ rows, IsRow row.toList) →
        texts (plain (joined rows)) = rows ∧
          (rows ≠ [] → plain (joined rows) = rows.map fun row => [.text row]) := by
  constructor
  · intro source
    refine ⟨pieces source.toList, fun other => cut_iff, ?_, ?_, ?_, ?_,
      plain_joined_texts source, ?_, ?_⟩
    · intro hNil
      have hLength := length_blockMath_plain source
      rw [blockMath, hNil, List.map_nil, List.length_nil] at hLength
      omega
    · exact plain_eq_singleton_nil_iff.trans rows_eq_nil_iff
    · exact fun hRows => plain_of_rows fun hNil => hRows (plain_of_blank hNil)
    · intro row hRow
      have hText : row ∈ texts (plain source) := by
        rw [texts_plain]
        exact hRow
      exact isRow_of_mem_texts hText
    · rw [length_blockMath_plain, List.length_map]
      rfl
    · rw [inlineMath, flatten_plain]
      rfl
  · intro rows hRows
    have hJoined : (Latex.rows (joined rows).toList).map String.ofList = rows := by
      rw [rows_joined hRows, List.map_map]
      exact List.map_id'' (fun row => String.ofList_toList) _
    refine ⟨by rw [texts_plain, hJoined], fun hNonempty => ?_⟩
    rw [plain_of_rows, hJoined]
    intro hNil
    rw [hNil] at hJoined
    exact hNonempty hJoined.symm

end Manuscript.Latex
