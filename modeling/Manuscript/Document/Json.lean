import Manuscript.Document.Basic
import Manuscript.Json.Tagged

/-!
# Documents as JSON

A record is an object of all its fields in the order of their declaration, with null for a field
that has no value. Runs and parts of equations are tagged by their kind, the bytes of images are
Base64 text, and footnotes are the members of one object in the order of their identifiers.
-/

namespace Manuscript

open Json (Fields Variant Tagged Reader Fault natural optional)
open Json.Fields (required nullable nested)
open Json.Variant (ofFields)

def wordJson (n : UInt32) : Json :=
  natural n.toNat

namespace MathAtom

mutual

def toJson : MathAtom → Json
  | .text s => .object [("type", .string "text"), ("text", .string s)]
  | .fraction numerator denominator =>
    .object
      [("type", .string "fraction"), ("numerator", .array (toJsonAll numerator)),
        ("denominator", .array (toJsonAll denominator))]
  | .superScript base superscript =>
    .object
      [("type", .string "superScript"), ("base", .array (toJsonAll base)),
        ("superscript", .array (toJsonAll superscript))]
  | .subScript base subscript =>
    .object
      [("type", .string "subScript"), ("base", .array (toJsonAll base)),
        ("subscript", .array (toJsonAll subscript))]
  | .subSuperScript base subscript superscript =>
    .object
      [("type", .string "subSuperScript"), ("base", .array (toJsonAll base)),
        ("subscript", .array (toJsonAll subscript)),
        ("superscript", .array (toJsonAll superscript))]
  | .radical degree children =>
    .object
      [("type", .string "radical"), ("degree", .array (toJsonAll degree)),
        ("children", .array (toJsonAll children))]

def toJsonAll : List MathAtom → List Json
  | [] => []
  | atom :: rest => toJson atom :: toJsonAll rest

end

def variants : List (Variant MathAtom) := [
  ofFields "text" "struct variant MathAtom::Text" (required "text" Reader.text) text,
  ofFields "fraction" "struct variant MathAtom::Fraction"
    ((nested "numerator").and (nested "denominator"))
    fun (numerator, denominator) => fraction numerator denominator,
  ofFields "superScript" "struct variant MathAtom::SuperScript"
    ((nested "base").and (nested "superscript"))
    fun (base, superscript) => superScript base superscript,
  ofFields "subScript" "struct variant MathAtom::SubScript"
    ((nested "base").and (nested "subscript"))
    fun (base, subscript) => subScript base subscript,
  ofFields "subSuperScript" "struct variant MathAtom::SubSuperScript"
    ((nested "base").and ((nested "subscript").and (nested "superscript")))
    fun (base, subscript, superscript) => subSuperScript base subscript superscript,
  ofFields "radical" "struct variant MathAtom::Radical"
    ((nested "degree").and (nested "children"))
    fun (degree, children) => radical degree children]

def reader : Reader MathAtom :=
  Tagged.reader ⟨"MathAtom", variants⟩

end MathAtom

def ImageData.members (image : ImageData) : List (String × Json) :=
  [("data", .string (Base64.encode image.data)), ("width", wordJson image.width),
    ("height", wordJson image.height)]

def ImageData.toJson (image : ImageData) : Json :=
  .object image.members

/-- The fields of an image, for any record. -/
def ImageData.fields (ν : Type) :=
  ((required "data" Reader.bytes).and
    ((required "width" Reader.word32).and (required "height" Reader.word32)) : Fields ν _ _).map
    fun (data, width, height) => ImageData.mk data width height

def ImageData.reader : Reader ImageData :=
  (ImageData.fields Unit).reader "struct ImageData"

namespace Inline

mutual

def toJson : Inline → Json
  | .text run =>
    .object
      [("type", .string "text"), ("text", .string run.text), ("bold", .bool run.bold),
        ("italics", .bool run.italics), ("strike", .bool run.strike),
        ("breaks", wordJson run.breaks)]
  | .hyperlink link children =>
    .object
      [("type", .string "hyperlink"), ("link", .string link),
        ("children", .array (toJsonAll children))]
  | .image data => .object (("type", .string "image") :: data.members)
  | .math atoms =>
    .object [("type", .string "math"), ("children", .array (MathAtom.toJsonAll atoms))]
  | .footnoteReference id =>
    .object [("type", .string "footnoteReference"), ("id", wordJson id)]
  | .checkBox checked =>
    .object [("type", .string "checkBox"), ("checked", .bool checked)]

def toJsonAll : List Inline → List Json
  | [] => []
  | run :: rest => toJson run :: toJsonAll rest

end

def variants : List (Variant Inline) := [
  ofFields "text" "struct TextRun"
    ((required "text" Reader.text).and ((required "bold" Reader.flag).and
      ((required "italics" Reader.flag).and ((required "strike" Reader.flag).and
        (required "breaks" Reader.word32)))))
    fun (s, bold, italics, strike, breaks) => text ⟨s, bold, italics, strike, breaks⟩,
  ofFields "hyperlink" "struct variant Inline::Hyperlink"
    ((required "link" Reader.text).and (nested "children"))
    fun (link, children) => hyperlink link children,
  ofFields "image" "struct ImageRun" (ImageData.fields Inline) image,
  ofFields "math" "struct MathRun" (required "children" MathAtom.reader.list) math,
  ofFields "footnoteReference" "struct variant Inline::FootnoteReference"
    (required "id" Reader.word32) footnoteReference,
  ofFields "checkBox" "struct variant Inline::CheckBox" (required "checked" Reader.flag) checkBox]

def reader : Reader Inline :=
  Tagged.reader ⟨"Inline", variants⟩

end Inline

namespace HeadingStyle

def names : List (String × HeadingStyle) :=
  [("Title", .title), ("Heading1", .heading1), ("Heading2", .heading2), ("Heading3", .heading3),
    ("Heading4", .heading4), ("Heading5", .heading5)]

def name : HeadingStyle → String
  | .title => "Title"
  | .heading1 => "Heading1"
  | .heading2 => "Heading2"
  | .heading3 => "Heading3"
  | .heading4 => "Heading4"
  | .heading5 => "Heading5"

def toJson (style : HeadingStyle) : Json :=
  .string style.name

def reader : Reader HeadingStyle :=
  Reader.choice names

end HeadingStyle

def Indent.toJson (indent : Indent) : Json :=
  .object [("start", wordJson indent.start), ("hanging", optional wordJson indent.hanging)]

def Indent.reader : Reader Indent :=
  ((required "start" Reader.word32).and (nullable "hanging" Reader.word32)
    |>.map fun (start, hanging) => Indent.mk start hanging).reader "struct Indent"

def NumberingRef.toJson (ref : NumberingRef) : Json :=
  .object [("reference", .string ref.reference), ("level", wordJson ref.level)]

def NumberingRef.reader : Reader NumberingRef :=
  ((required "reference" Reader.text).and (required "level" Reader.word32)
    |>.map fun (reference, level) => NumberingRef.mk reference level).reader "struct NumberingRef"

def Paragraph.toJson (p : Paragraph) : Json :=
  .object
    [("heading", optional HeadingStyle.toJson p.heading), ("thematic_break", .bool p.thematicBreak),
      ("indent", optional Indent.toJson p.indent),
      ("numbering", optional NumberingRef.toJson p.numbering),
      ("children", .array (Inline.toJsonAll p.children))]

def Paragraph.reader : Reader Paragraph :=
  ((nullable "heading" HeadingStyle.reader).and ((required "thematic_break" Reader.flag).and
      ((nullable "indent" Indent.reader).and ((nullable "numbering" NumberingRef.reader).and
        (required "children" Inline.reader.list))))
    |>.map fun (heading, thematicBreak, indent, numbering, children) =>
      Paragraph.mk heading thematicBreak indent numbering children).reader "struct Paragraph"

def Footnote.toJson (footnote : Footnote) : Json :=
  .object [("children", .list Paragraph.toJson footnote.children)]

def Footnote.reader : Reader Footnote :=
  ((required "children" Paragraph.reader.list).map Footnote.mk).reader "struct Footnote"

def Footnotes.toJson (footnotes : Footnotes) : Json :=
  .object (footnotes.entries.map fun (id, footnote) => (id, footnote.toJson))

def Footnotes.reader : Reader Footnotes := fun origin x =>
  (Footnote.reader.table origin x).map Keyed.ofList

def LevelFormat.toJson : LevelFormat → Json
  | .decimal => .string "decimal"
  | .lowerLetter => .string "lowerLetter"

def LevelFormat.reader : Reader LevelFormat :=
  Reader.choice [("decimal", .decimal), ("lowerLetter", .lowerLetter)]

def Alignment.toJson : Alignment → Json
  | .start => .string "start"

def Alignment.reader : Reader Alignment :=
  Reader.choice [("start", .start)]

def Spacing.toJson (spacing : Spacing) : Json :=
  .object [("after", wordJson spacing.after), ("line", wordJson spacing.line)]

def Spacing.reader : Reader Spacing :=
  ((required "after" Reader.word32).and (required "line" Reader.word32)
    |>.map fun (after, line) => Spacing.mk after line).reader "struct Spacing"

def NumberingLevel.toJson (l : NumberingLevel) : Json :=
  .object
    [("level", wordJson l.level), ("format", l.format.toJson), ("text", .string l.text),
      ("alignment", l.alignment.toJson), ("indent", l.indent.toJson),
      ("spacing", optional Spacing.toJson l.spacing)]

def NumberingLevel.reader : Reader NumberingLevel :=
  ((required "level" Reader.word32).and ((required "format" LevelFormat.reader).and
      ((required "text" Reader.text).and ((required "alignment" Alignment.reader).and
        ((required "indent" Indent.reader).and (nullable "spacing" Spacing.reader)))))
    |>.map fun (level, format, text, alignment, indent, spacing) =>
      NumberingLevel.mk level format text alignment indent spacing).reader "struct NumberingLevel"

def Numbering.toJson (numbering : Numbering) : Json :=
  .object
    [("reference", .string numbering.reference),
      ("levels", .list NumberingLevel.toJson numbering.levels)]

def Numbering.reader : Reader Numbering :=
  ((required "reference" Reader.text).and (required "levels" NumberingLevel.reader.list)
    |>.map fun (reference, levels) => Numbering.mk reference levels).reader
    "struct NumberingConfig"

def Metadata.toJson (m : Metadata) : Json :=
  .object
    [("title", optional .string m.title), ("subject", optional .string m.subject),
      ("creator", optional .string m.creator), ("keywords", optional .string m.keywords),
      ("description", optional .string m.description),
      ("last_modified_by", optional .string m.lastModifiedBy),
      ("revision", optional wordJson m.revision)]

def Metadata.reader : Reader Metadata :=
  ((nullable "title" Reader.text).and ((nullable "subject" Reader.text).and
      ((nullable "creator" Reader.text).and ((nullable "keywords" Reader.text).and
        ((nullable "description" Reader.text).and ((nullable "last_modified_by" Reader.text).and
          (nullable "revision" Reader.word32))))))
    |>.map fun (title, subject, creator, keywords, description, lastModifiedBy, revision) =>
      Metadata.mk title subject creator keywords description lastModifiedBy revision).reader
    "struct DocumentMetadata"

def Styles.toJson (styles : Styles) : Json :=
  .object [("font", .string styles.font), ("size", .string styles.size)]

def Styles.reader : Reader Styles :=
  ((required "font" Reader.text).and (required "size" Reader.text)
    |>.map fun (font, size) => Styles.mk font size).reader "struct DocumentStyles"

def Document.toJson (d : Document) : Json :=
  .object
    [("metadata", d.metadata.toJson), ("styles", d.styles.toJson),
      ("body", .list Paragraph.toJson d.body), ("numbering", .list Numbering.toJson d.numbering),
      ("footnotes", Footnotes.toJson d.footnotes)]

def Document.reader : Reader Document :=
  ((required "metadata" Metadata.reader).and ((required "styles" Styles.reader).and
      ((required "body" Paragraph.reader.list).and ((required "numbering" Numbering.reader.list).and
        (required "footnotes" Footnotes.reader))))
    |>.map fun (metadata, styles, body, numbering, footnotes) =>
      Document.mk metadata styles body numbering footnotes).reader "struct Document"

end Manuscript
