import Manuscript.Document.Serialized
import Manuscript.Proofs.Json.Pretty
import Manuscript.Proofs.Json.Restored
import Manuscript.Proofs.Text.Glyph

/-!
# Documents read back from JSON

Reading a document undoes writing it: as a value, and from the bytes of either text of it. The parts
of equations and the runs are read by recursion on them, everything else is a record of things that
are read.
-/

namespace Manuscript

open Json (Arrangement Fields Offered Origin Outline Reader Restores Supplies Tagged Undoes Variant
  given natural)
open Json.Fields (nested nullable required)
open Text (Glyph)

theorem restores_word (g : Arrangement) : Restores g Reader.word32 wordJson :=
  .word32

theorem undoes_word {g : Arrangement} {origin : Origin} : Undoes g origin Reader.word32 wordJson :=
  Undoes.word32

/-! ## Equations -/

namespace MathAtom

def records : Tagged MathAtom :=
  ⟨"MathAtom", variants⟩

/-- The atoms inside another one are read from what they are written to. -/
def ReadInside (g : Arrangement) (atoms : List MathAtom) : Prop :=
  (Outline.ofJson (g.apply (.array (toJsonAll atoms)))).nestedList records = .ok atoms

/-- The atom is read from what it is written to, unless that nests too deep. -/
def ReadsBack (g : Arrangement) (atom : MathAtom) : Prop :=
  ∀ origin, reader origin (.ofJson (g.apply atom.toJson)) =
    (origin.limit (g.apply atom.toJson).depth).map fun _ => atom

/-- Most kinds of atoms have two lists of atoms. -/
theorem readsBack_two {g : Arrangement} {tag title first second : String} {xs ys : List MathAtom}
    (build : List MathAtom × List MathAtom → MathAtom)
    (hJson : (build (xs, ys)).toJson = .object [("type", .string tag),
      (first, .array (toJsonAll xs)), (second, .array (toJsonAll ys))])
    (hKeys : ["type", first, second].Nodup)
    (hVariant : variants.find? (·.tag == tag) =
      some (.ofFields tag title ((nested first).and (nested second)) build))
    (hFirst : ReadInside g xs) (hSecond : ReadInside g ys) : ReadsBack g (build (xs, ys)) := by
  intro origin
  rw [hJson]
  refine Tagged.reader_tagged (by simpa using hKeys) hVariant (fun ms h => ?_) origin
  have hXs : (nested first).Reads .buffered ms xs := Fields.reads_nested h hFirst (by simp)
  have hYs : (nested second).Reads .buffered ms ys := Fields.reads_nested h hSecond (by simp)
  exact Variant.read_ofFields (hXs.and hYs (List.nodup_cons.mp hKeys).2) _ _ _

mutual

theorem readsBack (g : Arrangement) : ∀ atom, ReadsBack g atom
  | .text s => by
    refine Tagged.reader_tagged (by simp) rfl fun ms h => ?_
    exact Variant.read_ofFields (Fields.reads_required h Undoes.text (by simp)) _ _ _
  | .fraction numerator denominator =>
    readsBack_two (fun (xs, ys) => fraction xs ys) rfl (by decide) rfl
      (readsInside g numerator) (readsInside g denominator)
  | .superScript base superscript =>
    readsBack_two (fun (xs, ys) => superScript xs ys) rfl (by decide) rfl
      (readsInside g base) (readsInside g superscript)
  | .subScript base subscript =>
    readsBack_two (fun (xs, ys) => subScript xs ys) rfl (by decide) rfl
      (readsInside g base) (readsInside g subscript)
  | .subSuperScript base subscript superscript => by
    refine Tagged.reader_tagged (by simp) rfl fun ms h => ?_
    have hBase : (nested "base").Reads .buffered ms base :=
      Fields.reads_nested h (readsInside g base) (by simp)
    have hSub : (nested "subscript").Reads .buffered ms subscript :=
      Fields.reads_nested h (readsInside g subscript) (by simp)
    have hSuper : (nested "superscript").Reads .buffered ms superscript :=
      Fields.reads_nested h (readsInside g superscript) (by simp)
    exact Variant.read_ofFields (hBase.and (hSub.and hSuper (by decide)) (by decide)) _ _ _
  | .radical degree children =>
    readsBack_two (fun (xs, ys) => radical xs ys) rfl (by decide) rfl
      (readsInside g degree) (readsInside g children)

theorem readsInside (g : Arrangement) : ∀ atoms, ReadInside g atoms
  | [] => Tagged.nestedList_nil
  | atom :: rest => Tagged.nestedList_cons (readsBack g atom .buffered) (readsInside g rest)

end

theorem toJsonAll_eq_map (atoms : List MathAtom) : toJsonAll atoms = atoms.map toJson := by
  induction atoms with
  | nil => rfl
  | cons atom rest ih => rw [toJsonAll, ih, List.map_cons]

theorem restores (g : Arrangement) : Restores g reader toJson :=
  .of_limited (readsBack g)

end MathAtom

/-! ## Runs -/

namespace Inline

def records : Tagged Inline :=
  ⟨"Inline", variants⟩

/-- The runs inside a hyperlink are read from what they are written to. -/
def ReadInside (g : Arrangement) (runs : List Inline) : Prop :=
  (Outline.ofJson (g.apply (.array (toJsonAll runs)))).nestedList records = .ok runs

/-- The run is read from what it is written to, unless that nests too deep. -/
def ReadsBack (g : Arrangement) (run : Inline) : Prop :=
  ∀ origin, reader origin (.ofJson (g.apply run.toJson)) =
    (origin.limit (g.apply run.toJson).depth).map fun _ => run

mutual

theorem readsBack (g : Arrangement) : ∀ run, ReadsBack g run
  | .text run => by
    refine Tagged.reader_tagged (by simp) rfl fun ms h => ?_
    have hText : (required "text" Reader.text).Reads .buffered ms run.text :=
      Fields.reads_required h Undoes.text (by simp)
    have hBold : (required "bold" Reader.flag).Reads .buffered ms run.bold :=
      Fields.reads_required h Undoes.flag (by simp)
    have hItalics : (required "italics" Reader.flag).Reads .buffered ms run.italics :=
      Fields.reads_required h Undoes.flag (by simp)
    have hStrike : (required "strike" Reader.flag).Reads .buffered ms run.strike :=
      Fields.reads_required h Undoes.flag (by simp)
    have hBreaks : (required "breaks" Reader.word32).Reads .buffered ms run.breaks :=
      Fields.reads_required h undoes_word (by simp)
    exact Variant.read_ofFields (hText.and (hBold.and (hItalics.and
      (hStrike.and hBreaks (by decide)) (by decide)) (by decide)) (by decide)) _ _ _
  | .hyperlink link children => by
    refine Tagged.reader_tagged (by simp) rfl fun ms h => ?_
    have hLink : (required "link" Reader.text).Reads .buffered ms link :=
      Fields.reads_required h Undoes.text (by simp)
    have hChildren : (nested "children").Reads .buffered ms children :=
      Fields.reads_nested h (readsInside g children) (by simp)
    exact Variant.read_ofFields (hLink.and hChildren (by decide)) _ _ _
  | .image picture => by
    refine Tagged.reader_tagged (by simp [ImageData.members]) rfl fun ms h => ?_
    have hData : (required "data" Reader.bytes).Reads .buffered ms picture.data :=
      Fields.reads_required h Restores.bytes.buffered (by simp [ImageData.members])
    have hWidth : (required "width" Reader.word32).Reads .buffered ms picture.width :=
      Fields.reads_required h undoes_word (by simp [ImageData.members])
    have hHeight : (required "height" Reader.word32).Reads .buffered ms picture.height :=
      Fields.reads_required h undoes_word (by simp [ImageData.members])
    have hPicture : (ImageData.fields Inline).Reads .buffered ms picture :=
      (hData.and (hWidth.and hHeight (by decide)) (by decide)).map _
    exact Variant.read_ofFields hPicture _ _ _
  | .math atoms => by
    refine Tagged.reader_tagged (by simp) rfl fun ms h => ?_
    have hAtoms : Undoes g .buffered MathAtom.reader.list (Json.list MathAtom.toJson) :=
      (MathAtom.restores g).list.buffered
    exact Variant.read_ofFields
      (Fields.reads_required h hAtoms (by simp [Json.list, MathAtom.toJsonAll_eq_map])) _ _ _
  | .footnoteReference id => by
    refine Tagged.reader_tagged (by simp) rfl fun ms h => ?_
    exact Variant.read_ofFields
      (Fields.reads_required h undoes_word (by simp)) _ _ _
  | .checkBox checked => by
    refine Tagged.reader_tagged (by simp) rfl fun ms h => ?_
    exact Variant.read_ofFields (Fields.reads_required h Undoes.flag (by simp)) _ _ _

theorem readsInside (g : Arrangement) : ∀ runs, ReadInside g runs
  | [] => Tagged.nestedList_nil
  | run :: rest => Tagged.nestedList_cons (readsBack g run .buffered) (readsInside g rest)

end

theorem toJsonAll_eq_map (runs : List Inline) : toJsonAll runs = runs.map toJson := by
  induction runs with
  | nil => rfl
  | cons run rest ih => rw [toJsonAll, ih, List.map_cons]

theorem restores (g : Arrangement) : Restores g reader toJson :=
  .of_limited (readsBack g)

end Inline

/-! ## Records -/

section Records

variable (g : Arrangement)

theorem ImageData.restores : Restores g reader toJson := by
  refine .record (fun image => (image.data, image.width, image.height)) (fun _ => rfl)
    (by simp [members]) fun image origin ms h => ?_
  have hData : (required "data" Reader.bytes).Reads origin ms image.data :=
    Fields.reads_given h .bytes (by simp [members])
  have hWidth : (required "width" Reader.word32).Reads origin ms image.width :=
    Fields.reads_given h (restores_word g) (by simp [members])
  have hHeight : (required "height" Reader.word32).Reads origin ms image.height :=
    Fields.reads_given h (restores_word g) (by simp [members])
  exact hData.and (hWidth.and hHeight (by decide)) (by decide)

theorem HeadingStyle.restores : Restores g reader toJson :=
  .choice fun style => by cases style <;> rfl

theorem Indent.restores : Restores g reader toJson := by
  refine .record (fun indent => (indent.start, indent.hanging)) (fun _ => rfl) (by simp)
    fun indent origin ms h => ?_
  have hStart : (required "start" Reader.word32).Reads origin ms indent.start :=
    Fields.reads_given h (restores_word g) (by simp)
  have hHanging : (nullable "hanging" Reader.word32).Reads origin ms indent.hanging :=
    Fields.reads_nullable h (restores_word g) (fun _ => g.natural_ne_null _) (by simp)
  exact hStart.and hHanging (by decide)

theorem NumberingRef.restores : Restores g reader toJson := by
  refine .record (fun ref => (ref.reference, ref.level)) (fun _ => rfl) (by simp)
    fun ref origin ms h => ?_
  have hReference : (required "reference" Reader.text).Reads origin ms ref.reference :=
    Fields.reads_given h .text (by simp)
  have hLevel : (required "level" Reader.word32).Reads origin ms ref.level :=
    Fields.reads_given h (restores_word g) (by simp)
  exact hReference.and hLevel (by decide)

theorem Paragraph.restores : Restores g reader toJson := by
  refine .record (fun p => (p.heading, p.thematicBreak, p.indent, p.numbering, p.children))
    (fun _ => rfl) (by simp) fun p origin ms h => ?_
  have hHeading : (nullable "heading" HeadingStyle.reader).Reads origin ms p.heading :=
    Fields.reads_nullable h (HeadingStyle.restores g) (fun _ => g.string_ne_null _) (by simp)
  have hBreak : (required "thematic_break" Reader.flag).Reads origin ms p.thematicBreak :=
    Fields.reads_given h .flag (by simp)
  have hIndent : (nullable "indent" Indent.reader).Reads origin ms p.indent :=
    Fields.reads_nullable h (Indent.restores g) (fun _ => g.object_ne_null (by simp)) (by simp)
  have hNumbering : (nullable "numbering" NumberingRef.reader).Reads origin ms p.numbering :=
    Fields.reads_nullable h (NumberingRef.restores g) (fun _ => g.object_ne_null (by simp))
      (by simp)
  have hChildren : (required "children" Inline.reader.list).Reads origin ms p.children :=
    Fields.reads_given h (Inline.restores g).list (by simp [Json.list, Inline.toJsonAll_eq_map])
  exact hHeading.and (hBreak.and (hIndent.and (hNumbering.and hChildren (by decide)) (by decide))
    (by decide)) (by decide)

theorem Footnote.restores : Restores g reader toJson :=
  .record Footnote.children (fun _ => rfl) (by simp) fun _ _ _ h =>
    Fields.reads_given h (Paragraph.restores g).list (by simp)

theorem Footnotes.restores : Restores g reader toJson :=
  (Footnote.restores g).table

theorem LevelFormat.restores : Restores g reader toJson := by
  intro origin format _
  cases format
  · rw [toJson, g.string]
    rfl
  · rw [toJson, g.string]
    rfl

theorem Alignment.restores : Restores g reader toJson :=
  .choice fun alignment => by cases alignment; rfl

theorem Spacing.restores : Restores g reader toJson := by
  refine .record (fun spacing => (spacing.after, spacing.line)) (fun _ => rfl) (by simp)
    fun spacing origin ms h => ?_
  have hAfter : (required "after" Reader.word32).Reads origin ms spacing.after :=
    Fields.reads_given h (restores_word g) (by simp)
  have hLine : (required "line" Reader.word32).Reads origin ms spacing.line :=
    Fields.reads_given h (restores_word g) (by simp)
  exact hAfter.and hLine (by decide)

theorem NumberingLevel.restores : Restores g reader toJson := by
  refine .record (fun l => (l.level, l.format, l.text, l.alignment, l.indent, l.spacing))
    (fun _ => rfl) (by simp) fun l origin ms h => ?_
  have hLevel : (required "level" Reader.word32).Reads origin ms l.level :=
    Fields.reads_given h (restores_word g) (by simp)
  have hFormat : (required "format" LevelFormat.reader).Reads origin ms l.format :=
    Fields.reads_given h (LevelFormat.restores g) (by simp)
  have hText : (required "text" Reader.text).Reads origin ms l.text :=
    Fields.reads_given h .text (by simp)
  have hAlignment : (required "alignment" Alignment.reader).Reads origin ms l.alignment :=
    Fields.reads_given h (Alignment.restores g) (by simp)
  have hIndent : (required "indent" Indent.reader).Reads origin ms l.indent :=
    Fields.reads_given h (Indent.restores g) (by simp)
  have hSpacing : (nullable "spacing" Spacing.reader).Reads origin ms l.spacing :=
    Fields.reads_nullable h (Spacing.restores g) (fun _ => g.object_ne_null (by simp)) (by simp)
  exact hLevel.and (hFormat.and (hText.and (hAlignment.and (hIndent.and hSpacing (by decide))
    (by decide)) (by decide)) (by decide)) (by decide)

theorem Numbering.restores : Restores g reader toJson := by
  refine .record (fun numbering => (numbering.reference, numbering.levels)) (fun _ => rfl)
    (by simp) fun numbering origin ms h => ?_
  have hReference : (required "reference" Reader.text).Reads origin ms numbering.reference :=
    Fields.reads_given h .text (by simp)
  have hLevels : (required "levels" NumberingLevel.reader.list).Reads origin ms numbering.levels :=
    Fields.reads_given h (NumberingLevel.restores g).list (by simp)
  exact hReference.and hLevels (by decide)

theorem Metadata.restores : Restores g reader toJson := by
  refine .record (fun m => (m.title, m.subject, m.creator, m.keywords, m.description,
    m.lastModifiedBy, m.revision)) (fun _ => rfl) (by simp) fun m origin ms h => ?_
  have hText : ∀ {name : String} {s : Option String},
      (name, Json.optional .string s) ∈ _ → (nullable name Reader.text).Reads origin ms s :=
    fun hMem => Fields.reads_nullable h .text g.string_ne_null hMem
  have hTitle : (nullable "title" Reader.text).Reads origin ms m.title := hText (by simp)
  have hSubject : (nullable "subject" Reader.text).Reads origin ms m.subject := hText (by simp)
  have hCreator : (nullable "creator" Reader.text).Reads origin ms m.creator := hText (by simp)
  have hKeywords : (nullable "keywords" Reader.text).Reads origin ms m.keywords := hText (by simp)
  have hDescription : (nullable "description" Reader.text).Reads origin ms m.description :=
    hText (by simp)
  have hModifier : (nullable "last_modified_by" Reader.text).Reads origin ms m.lastModifiedBy :=
    hText (by simp)
  have hRevision : (nullable "revision" Reader.word32).Reads origin ms m.revision :=
    Fields.reads_nullable h (restores_word g) (fun _ => g.natural_ne_null _) (by simp)
  exact hTitle.and (hSubject.and (hCreator.and (hKeywords.and (hDescription.and
    (hModifier.and hRevision (by decide)) (by decide)) (by decide)) (by decide)) (by decide))
    (by decide)

theorem Styles.restores : Restores g reader toJson := by
  refine .record (fun styles => (styles.font, styles.size)) (fun _ => rfl) (by simp)
    fun styles origin ms h => ?_
  have hFont : (required "font" Reader.text).Reads origin ms styles.font :=
    Fields.reads_given h .text (by simp)
  have hSize : (required "size" Reader.text).Reads origin ms styles.size :=
    Fields.reads_given h .text (by simp)
  exact hFont.and hSize (by decide)

theorem Document.restores : Restores g reader toJson := by
  refine .record (fun d => (d.metadata, d.styles, d.body, d.numbering, d.footnotes))
    (fun _ => rfl) (by simp) fun d origin ms h => ?_
  have hMetadata : (required "metadata" Metadata.reader).Reads origin ms d.metadata :=
    Fields.reads_given h (Metadata.restores g) (by simp)
  have hStyles : (required "styles" Styles.reader).Reads origin ms d.styles :=
    Fields.reads_given h (Styles.restores g) (by simp)
  have hBody : (required "body" Paragraph.reader.list).Reads origin ms d.body :=
    Fields.reads_given h (Paragraph.restores g).list (by simp)
  have hNumbering : (required "numbering" Numbering.reader.list).Reads origin ms d.numbering :=
    Fields.reads_given h (Numbering.restores g).list (by simp)
  have hFootnotes : (required "footnotes" Footnotes.reader).Reads origin ms d.footnotes :=
    Fields.reads_given h (Footnotes.restores g) (by simp)
  exact hMetadata.and (hStyles.and (hBody.and (hNumbering.and hFootnotes (by decide)) (by decide))
    (by decide)) (by decide)

end Records

/-! ## Whole numbers -/

namespace MathAtom

mutual

theorem whole_toJson : ∀ atom : MathAtom, atom.toJson.Whole
  | .text s => .object (by simp [Json.Whole.string])
  | .fraction numerator denominator =>
    .object (by simp [Json.Whole.string, whole_inside numerator, whole_inside denominator])
  | .superScript base superscript =>
    .object (by simp [Json.Whole.string, whole_inside base, whole_inside superscript])
  | .subScript base subscript =>
    .object (by simp [Json.Whole.string, whole_inside base, whole_inside subscript])
  | .subSuperScript base subscript superscript =>
    .object (by
      simp [Json.Whole.string, whole_inside base, whole_inside subscript, whole_inside superscript])
  | .radical degree children =>
    .object (by simp [Json.Whole.string, whole_inside degree, whole_inside children])

theorem whole_inside : ∀ atoms, (Json.array (toJsonAll atoms)).Whole
  | [] => .array nofun
  | atom :: rest => by
    cases whole_inside rest with
    | array hRest => exact .array (List.forall_mem_cons.mpr ⟨whole_toJson atom, hRest⟩)

end

end MathAtom

theorem whole_word (n : UInt32) : (wordJson n).Whole :=
  .word32 n

theorem ImageData.whole_members (image : ImageData) : ∀ m ∈ image.members, m.2.Whole := by
  simp [members, Json.Whole.string, whole_word]

namespace Inline

mutual

theorem whole_toJson : ∀ run : Inline, run.toJson.Whole
  | .text run => .object (by simp [Json.Whole.string, Json.Whole.bool, whole_word])
  | .hyperlink link children =>
    .object (by simp [Json.Whole.string, whole_inside children])
  | .image picture =>
    .object (List.forall_mem_cons.mpr ⟨.string "image", picture.whole_members⟩)
  | .math atoms => .object (by simp [Json.Whole.string, MathAtom.whole_inside atoms])
  | .footnoteReference id => .object (by simp [Json.Whole.string, whole_word])
  | .checkBox checked => .object (by simp [Json.Whole.string, Json.Whole.bool])

theorem whole_inside : ∀ runs, (Json.array (toJsonAll runs)).Whole
  | [] => .array nofun
  | run :: rest => by
    cases whole_inside rest with
    | array hRest => exact .array (List.forall_mem_cons.mpr ⟨whole_toJson run, hRest⟩)

end

end Inline

theorem Indent.whole_toJson (indent : Indent) : indent.toJson.Whole :=
  .object (by simp [whole_word, Json.Whole.optional whole_word])

theorem Paragraph.whole_toJson (p : Paragraph) : p.toJson.Whole := by
  have hHeading : ∀ style : HeadingStyle, style.toJson.Whole := fun style => .string style.name
  have hNumbering : ∀ ref : NumberingRef, ref.toJson.Whole :=
    fun ref => .object (by simp [whole_word, Json.Whole.string])
  exact .object (by
    simp [Json.Whole.bool, Json.Whole.optional hHeading, Json.Whole.optional Indent.whole_toJson,
      Json.Whole.optional hNumbering, Inline.whole_inside])

theorem Footnotes.whole_toJson (footnotes : Footnotes) : (Footnotes.toJson footnotes).Whole := by
  refine .object fun m hm => ?_
  obtain ⟨e, -, rfl⟩ := List.mem_map.mp hm
  exact .object (by simp [Json.Whole.list Paragraph.whole_toJson])

theorem Numbering.whole_toJson (numbering : Numbering) : numbering.toJson.Whole := by
  have hFormat : ∀ format : LevelFormat, format.toJson.Whole := by
    intro format
    cases format <;> exact .string _
  have hAlignment : ∀ alignment : Alignment, alignment.toJson.Whole := by
    intro alignment
    cases alignment
    exact .string _
  have hSpacing : ∀ spacing : Spacing, spacing.toJson.Whole :=
    fun spacing => .object (by simp [whole_word])
  have hLevel : ∀ l : NumberingLevel, l.toJson.Whole := fun l => .object (by
    simp [whole_word, Json.Whole.string, hFormat, hAlignment, Indent.whole_toJson,
      Json.Whole.optional hSpacing])
  exact .object (by simp [Json.Whole.string, Json.Whole.list hLevel])

theorem Metadata.whole_toJson (m : Metadata) : m.toJson.Whole :=
  .object (by simp [Json.Whole.optional Json.Whole.string, Json.Whole.optional whole_word])

theorem Document.whole_toJson (d : Document) : d.toJson.Whole :=
  .object (by
    simp [Metadata.whole_toJson, Styles.toJson, Json.Whole.object, Json.Whole.string,
      Json.Whole.list Paragraph.whole_toJson, Json.Whole.list Numbering.whole_toJson,
      Footnotes.whole_toJson])

/-! ## Texts -/

namespace Document

theorem ofGlyphs_serialized (pretty : Bool) (d : Document) :
    Outline.ofGlyphs (Glyph.ofBytes (Text.bytesOfText (Serializer.jsonText pretty d))) =
      (.ofJson d.toJson, []) := by
  rw [Glyph.ofBytes_bytesOfText, Serializer.jsonText]
  cases pretty
  · exact Outline.ofGlyphs_compact d.whole_toJson
  · exact Outline.ofGlyphs_pretty d.whole_toJson

/-- Reading a document undoes serializing it. As a value it is read whatever it contains; a text of
it, compact or pretty and handed back in either way, is read unless it has more brackets inside each
other than a reader follows. What any reader makes of the bytes depends neither on the layout nor on
the way. -/
theorem reading_undoes_serializing (d : Document) :
    reader.ofValue d.toJson = .ok d ∧
      ∀ pretty format, ∃ s, Serializer.json pretty d format = .ok s ∧ s.format = format ∧
        (d.toJson.depth ≤ 127 → reader.ofText (Glyph.ofBytes s.bytes) = .ok d) ∧
        ∀ (α : Type) (read : Reader α), read.ofText (Glyph.ofBytes s.bytes) =
          read.ofText (Glyph.ofString d.toJson.compact) := by
  refine ⟨restores .byKey .value d rfl, fun pretty format => ?_⟩
  have hBytes : (Serialized.wrap format "application/json"
      (Text.bytesOfText (Serializer.jsonText pretty d))).bytes =
        Text.bytesOfText (Serializer.jsonText pretty d) := by
    cases format <;> rfl
  refine ⟨_, rfl, by cases format <;> rfl, fun h => ?_, fun _ read => ?_⟩
  · have hRead := restores .same (.text Json.maxDepth) d (if_pos h)
    rw [hBytes, Reader.ofText, ofGlyphs_serialized]
    change (reader (.text Json.maxDepth) (.ofJson d.toJson) >>= _) = _
    change reader (.text Json.maxDepth) (.ofJson d.toJson) = _ at hRead
    rw [hRead]
    rfl
  · rw [hBytes, Reader.ofText, ofGlyphs_serialized, Reader.ofText,
      Outline.ofGlyphs_compact d.whole_toJson]

end Document

end Manuscript
