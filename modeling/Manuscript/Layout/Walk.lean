import Manuscript.Latex
import Manuscript.Layout.Content
import Manuscript.Layout.Context
import Manuscript.Layout.Noted
import Manuscript.Text.Numeral
import Manuscript.Tree.Basic

/-!
# Laying out trees

One walk over the nodes turns them into content and footnotes. A node is laid out in its context and
adds to what the nodes before it gave; footnotes go up to the whole document, and of several with one
identifier the last one stands.
-/

namespace Manuscript

structure Laid where
  content : List Content := []
  footnotes : Footnotes := .empty

namespace Laid

def addBlock (out : Laid) (p : Paragraph) : Laid :=
  { out with content := out.content ++ [.block p] }

def addBlocks (out : Laid) (ps : List Paragraph) : Laid :=
  { out with content := out.content ++ ps.map .block }

def addRun (out : Laid) (run : Inline) : Laid :=
  { out with content := out.content ++ [.inline run] }

/-- Define a footnote, in the place of one with the same identifier. -/
def define (out : Laid) (identifier : String) (footnote : Footnote) : Noted Laid := do
  if out.footnotes.has identifier then Noted.note (.redefined identifier)
  return { out with footnotes := out.footnotes.insert identifier footnote }

def defineAll (out : Laid) : List (String × Footnote) → Noted Laid
  | [] => return out
  | (identifier, footnote) :: rest => do
    let out ← out.define identifier footnote
    defineAll out rest

/-- Take over the footnotes of something inside. -/
def adopt (out : Laid) (inner : Laid) : Noted Laid :=
  out.defineAll inner.footnotes.entries

/-- Take over everything of something inside. -/
def append (out : Laid) (inner : Laid) : Noted Laid :=
  ({ out with content := out.content ++ inner.content } : Laid).adopt inner

end Laid

namespace Layout

def tablePlaceholder : Paragraph :=
  { children := [.text { text := "[TABLE]", bold := true }] }

def plainParagraph (text : String) : Paragraph :=
  { children := [.text { text }] }

/-- The style of a heading: the first depth is the title of the document. -/
def headingStyle (depth : UInt8) : Except Error HeadingStyle :=
  match depth with
  | 1 => .ok .title
  | 2 => .ok .heading1
  | 3 => .ok .heading2
  | 4 => .ok .heading3
  | 5 => .ok .heading4
  | 6 => .ok .heading5
  | depth => .error (.invalidHeadingDepth depth)

def footnoteNumber (identifier : String) : Except Error UInt32 :=
  match Text.numeral? UInt32.size identifier.toList with
  | some n => .ok (UInt32.ofNat n)
  | none => .error (.invalidFootnoteIdentifier identifier)

def imageAt (ctx : Context) (url : String) : Except Error ImageData :=
  match ctx.images.find? url with
  | some image => .ok image
  | none => .error (.imageNotResolved url)

def check {α : Type} : Except Error α → Noted α
  | .ok x => return x
  | .error e => Noted.fail e

mutual

/-- Lay out a node behind what has been laid out. -/
def layNode (parser : LatexParser) : Node → Context → Laid → Noted Laid
  | .paragraph cs, ctx, out => do
    let inner ← layAll parser cs ctx {}
    let out ← out.adopt inner
    return out.addBlock (ctx.paragraph (Content.runs inner.content))
  | .heading depth cs, ctx, out => do
    let style ← check (headingStyle depth)
    let inner ← layAll parser cs ctx {}
    let out ← out.adopt inner
    return out.addBlock { heading := some style, children := Content.runs inner.content }
  | .thematicBreak, _, out => return out.addBlock { thematicBreak := true }
  | .blockquote cs, ctx, out => do
    let inner ← layAll parser cs ctx.indented {}
    out.append inner
  | .list _ _ _ cs, ctx, out => layItems parser cs ctx.inList out
  | .listItem .., _, _ => Noted.fail (.unexpectedNode "listItem" "outside a list")
  | .table .., _, out => return out.addBlock tablePlaceholder
  | .tableRow _, _, _ => Noted.fail (.unexpectedNode "tableRow" "outside a table")
  | .tableCell _, _, _ => Noted.fail (.unexpectedNode "tableCell" "outside a table")
  | .html value, _, out => return out.addBlock (plainParagraph value)
  | .code _ _ value, _, out => return out.addBlock (plainParagraph value)
  | .yaml _, _, out => return out
  | .toml _, _, out => return out
  | .definition .., _, out => return out
  | .linkReference .., _, out => return out
  | .imageReference .., _, out => return out
  | .footnoteDefinition identifier _ cs, ctx, out => do
    let inner ← layAll parser cs ctx {}
    let out ← out.adopt inner
    out.define identifier { children := Content.paragraphs inner.content }
  | .math _ source, _, out => do
    Noted.note (.equation source)
    return out.addBlocks (Latex.blockMath parser source)
  | .text value, ctx, out => return out.addRun (.text (ctx.decoration.run value))
  | .emphasis cs, ctx, out => do
    let inner ← layAll parser cs ctx.withItalic {}
    out.append inner
  | .strong cs, ctx, out => do
    let inner ← layAll parser cs ctx.withBold {}
    out.append inner
  | .delete cs, ctx, out => do
    let inner ← layAll parser cs ctx.withStrikethrough {}
    out.append inner
  | .inlineCode value, _, out => return out.addRun (.text { text := value })
  | .lineBreak, _, out => return out.addRun (.text { breaks := 1 })
  | .link url _ cs, ctx, out => do
    let inner ← layAll parser cs ctx {}
    let out ← out.adopt inner
    return out.addRun (.hyperlink url (Content.runs inner.content))
  | .image url .., ctx, out => do
    let image ← check (imageAt ctx url)
    return out.addRun (.image image)
  | .footnoteReference identifier _, _, out => do
    let id ← check (footnoteNumber identifier)
    return out.addRun (.footnoteReference id)
  | .inlineMath source, _, out => do
    Noted.note (.equation source)
    return out.addRun (Latex.inlineMath parser source)

def layAll (parser : LatexParser) : List Node → Context → Laid → Noted Laid
  | [], _, out => return out
  | n :: rest, ctx, out => do
    let out ← layNode parser n ctx out
    layAll parser rest ctx out

def layItems (parser : LatexParser) : List Node → Context → Laid → Noted Laid
  | [], _, out => return out
  | n :: rest, ctx, out => do
    let out ← layItem parser n ctx out
    layItems parser rest ctx out

/-- Lay out an item of a list, which has to be one. -/
def layItem (parser : LatexParser) : Node → Context → Laid → Noted Laid
  | .listItem checked _ cs, ctx, out => layItemChildren parser cs ctx checked out
  | n, _, _ => Noted.fail (.unexpectedNode n.kind "directly inside a list")

/-- Lay out what an item of a list holds: the box goes to the first paragraph. -/
def layItemChildren (parser : LatexParser) :
    List Node → Context → Option Bool → Laid → Noted Laid
  | [], _, _, out => return out
  | n :: rest, ctx, checked, out => do
    let box := if n.isParagraph then checked else none
    let out ← layNode parser n (ctx.withChecked box) out
    layItemChildren parser rest ctx (if n.isParagraph then none else checked) out

end

end Layout

end Manuscript
