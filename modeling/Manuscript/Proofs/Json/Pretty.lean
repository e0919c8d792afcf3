import Manuscript.Proofs.Json.Compact

/-!
# Pretty texts spell their values

The pretty text of a value has the tokens of its compact text: the two differ in spaces and new
lines between tokens, and these mean nothing.
-/

namespace Manuscript.Json

open Text (Glyph)

namespace Token

theorem ofGlyphs_space {g : Glyph} (h : isSpace g = true) (rest : List Glyph) :
    ofGlyphs (g :: rest) = ofGlyphs rest := by
  rw [ofGlyphs, h, if_pos rfl]

theorem ofGlyphs_newLine (depth : Nat) (rest : List Glyph) :
    ofGlyphs ((newLine depth).map .char ++ rest) = ofGlyphs rest := by
  have hSpaces : ∀ n, ofGlyphs ((List.replicate n ' ').map .char ++ rest) = ofGlyphs rest := by
    intro n
    induction n with
    | zero => rfl
    | succ n ih => rw [List.replicate_succ, List.map_cons, List.cons_append, ofGlyphs_space rfl, ih]
  rw [newLine, List.map_cons, List.cons_append, ofGlyphs_space rfl, hSpaces]

theorem delimited_newLine (depth : Nat) (rest : List Glyph) :
    Delimited ((newLine depth).map .char ++ rest) :=
  .inr ⟨'\n', _, rfl, .inr (.inl rfl)⟩

theorem delimited_prettyItems (depth : Nat) (items : List Json) (rest : List Glyph) :
    Delimited ((prettyItems depth items).map .char ++ rest) := by
  cases items with
  | nil =>
    rw [prettyItems, List.map_append, List.append_assoc]
    exact delimited_newLine depth _
  | cons item more => exact .inr ⟨',', _, rfl, .inl rfl⟩

theorem delimited_prettyMembers (depth : Nat) (members : List (String × Json))
    (rest : List Glyph) : Delimited ((prettyMembers depth members).map .char ++ rest) := by
  cases members with
  | nil =>
    rw [prettyMembers, List.map_append, List.append_assoc]
    exact delimited_newLine depth _
  | cons m more => exact .inr ⟨',', _, rfl, .inl rfl⟩

/-- The pretty text of a value has the tokens of the value, however deep it stands. -/
def SpellsPretty (j : Json) : Prop :=
  ∀ depth rest, Delimited rest →
    ofGlyphs ((j.prettyChars depth).map .char ++ rest) = j.tokens ++ ofGlyphs rest

theorem ofGlyphs_prettyItem {item : Json} (h : SpellsPretty item) (depth : Nat)
    {rest : List Glyph} (hRest : Delimited rest) :
    ofGlyphs ((newLine depth ++ item.prettyChars depth).map .char ++ rest) =
      item.tokens ++ ofGlyphs rest := by
  rw [List.map_append, List.append_assoc, ofGlyphs_newLine, h depth rest hRest]

theorem ofGlyphs_prettyMember {key : String} {value : Json} (h : SpellsPretty value) (depth : Nat)
    {rest : List Glyph} (hRest : Delimited rest) :
    ofGlyphs ((newLine depth ++ (escaped key ++ ':' :: ' ' :: value.prettyChars depth)).map .char ++
        rest) =
      .string (.ok key) :: .colon :: (value.tokens ++ ofGlyphs rest) := by
  have hText :
      (newLine depth ++ (escaped key ++ ':' :: ' ' :: value.prettyChars depth)).map .char ++ rest =
        (newLine depth).map .char ++ ((escaped key).map .char ++
        .char ':' :: .char ' ' :: ((value.prettyChars depth).map .char ++ rest)) := by
    simp
  rw [hText, ofGlyphs_newLine, ofGlyphs_escaped, ofGlyphs_cons (t := .colon) rfl rfl,
    ofGlyphs_space rfl, h depth rest hRest]

theorem ofGlyphs_prettyItems {items : List Json} (h : ∀ item ∈ items, SpellsPretty item)
    (depth : Nat) (rest : List Glyph) :
    ofGlyphs ((prettyItems depth items).map .char ++ rest) = moreItems items ++ ofGlyphs rest := by
  induction items with
  | nil =>
    rw [prettyItems, List.map_append, List.append_assoc, ofGlyphs_newLine]
    exact ofGlyphs_cons rfl rfl
  | cons item more ih =>
    have hText : (prettyItems depth (item :: more)).map .char ++ rest =
        .char ',' :: ((newLine (depth + 1) ++ item.prettyChars (depth + 1)).map .char ++
          ((prettyItems depth more).map .char ++ rest)) := by
      simp [prettyItems]
    rw [hText, ofGlyphs_cons (t := .comma) rfl rfl,
      ofGlyphs_prettyItem (h item List.mem_cons_self) _ (delimited_prettyItems depth more rest),
      ih fun item hItem => h item (List.mem_cons_of_mem _ hItem), moreItems, List.cons_append,
      List.append_assoc]

theorem ofGlyphs_prettyMembers {members : List (String × Json)}
    (h : ∀ m ∈ members, SpellsPretty m.2) (depth : Nat) (rest : List Glyph) :
    ofGlyphs ((prettyMembers depth members).map .char ++ rest) =
      moreMembers members ++ ofGlyphs rest := by
  induction members with
  | nil =>
    rw [prettyMembers, List.map_append, List.append_assoc, ofGlyphs_newLine]
    exact ofGlyphs_cons rfl rfl
  | cons m more ih =>
    obtain ⟨key, value⟩ := m
    have hText : (prettyMembers depth ((key, value) :: more)).map .char ++ rest =
        .char ',' :: ((newLine (depth + 1) ++
          (escaped key ++ ':' :: ' ' :: value.prettyChars (depth + 1))).map .char ++
            ((prettyMembers depth more).map .char ++ rest)) := by
      simp [prettyMembers]
    rw [hText, ofGlyphs_cons (t := .comma) rfl rfl,
      ofGlyphs_prettyMember (h _ List.mem_cons_self) _ (delimited_prettyMembers depth more rest),
      ih fun m hm => h m (List.mem_cons_of_mem _ hm), moreMembers]
    simp

theorem spellsPretty_of_whole {j : Json} (h : Whole j) : SpellsPretty j := by
  induction h with
  -- Without brackets the two texts are the same.
  | null => exact fun _ => spells_of_whole .null
  | bool b =>
    cases b
    · exact fun _ => spells_of_whole (.bool false)
    · exact fun _ => spells_of_whole (.bool true)
  | natural h => exact fun _ => spells_of_whole (.natural h)
  | string s => exact fun _ => spells_of_whole (.string s)
  | @array items _ ih =>
    intro depth rest _
    cases items with
    | nil =>
      have hClose : ofGlyphs (.char ']' :: rest) = .closeArray :: ofGlyphs rest :=
        ofGlyphs_cons rfl rfl
      exact (ofGlyphs_cons rfl rfl).trans (congrArg (Token.openArray :: ·) hClose)
    | cons item more =>
      have hText : (prettyChars depth (.array (item :: more))).map .char ++ rest =
          .char '[' :: ((newLine (depth + 1) ++ item.prettyChars (depth + 1)).map .char ++
            ((prettyItems depth more).map .char ++ rest)) := by
        simp [prettyChars]
      rw [hText, ofGlyphs_cons (t := .openArray) rfl rfl,
        ofGlyphs_prettyItem (ih item List.mem_cons_self) _ (delimited_prettyItems depth more rest),
        ofGlyphs_prettyItems fun item hItem => ih item (List.mem_cons_of_mem _ hItem), tokens,
        List.cons_append, List.append_assoc]
  | @object members _ ih =>
    intro depth rest _
    cases members with
    | nil =>
      have hClose : ofGlyphs (.char '\x7d' :: rest) = .closeObject :: ofGlyphs rest :=
        ofGlyphs_cons rfl rfl
      exact (ofGlyphs_cons rfl rfl).trans (congrArg (Token.openObject :: ·) hClose)
    | cons m more =>
      obtain ⟨key, value⟩ := m
      have hText : (prettyChars depth (.object ((key, value) :: more))).map .char ++ rest =
          .char '\x7b' :: ((newLine (depth + 1) ++
            (escaped key ++ ':' :: ' ' :: value.prettyChars (depth + 1))).map .char ++
              ((prettyMembers depth more).map .char ++ rest)) := by
        simp [prettyChars]
      rw [hText, ofGlyphs_cons (t := .openObject) rfl rfl,
        ofGlyphs_prettyMember (ih _ List.mem_cons_self) _ (delimited_prettyMembers depth more rest),
        ofGlyphs_prettyMembers fun m hm => ih m (List.mem_cons_of_mem _ hm), tokens]
      simp

end Token

/-- The pretty text of a value has the outline of the value and nothing behind it. -/
theorem Outline.ofGlyphs_pretty {j : Json} (h : Whole j) :
    ofGlyphs (Glyph.ofString j.pretty) = (ofJson j, []) := by
  have hTokens := Token.spellsPretty_of_whole h 0 [] (.inl rfl)
  have hNone : Token.ofGlyphs [] = [] := by rw [Token.ofGlyphs]
  rw [hNone] at hTokens
  rw [ofGlyphs, Glyph.ofString, pretty, String.toList_ofList, ← List.append_nil (List.map _ _),
    hTokens, outlines j]
  rfl

end Manuscript.Json
