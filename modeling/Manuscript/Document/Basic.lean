import Manuscript.Keyed

/-!
# Documents

The model of a word-processor document: a body of paragraphs that hold runs, the numbering that
list paragraphs refer to, and the footnotes by identifier. Lengths are in twips, of which an inch
has 1440.
-/

namespace Manuscript

inductive MathAtom
  | text (text : String)
  | fraction (numerator denominator : List MathAtom)
  | superScript (base superscript : List MathAtom)
  | subScript (base subscript : List MathAtom)
  | subSuperScript (base subscript superscript : List MathAtom)
  | radical (degree children : List MathAtom)
deriving BEq, Repr

/-- A styled span of text, after the given number of line breaks. -/
structure TextRun where
  text : String := ""
  bold : Bool := false
  italics : Bool := false
  strike : Bool := false
  breaks : UInt32 := 0
deriving DecidableEq, Repr

/-- The bytes of an image and its size in pixels. -/
structure ImageData where
  data : List UInt8
  width : UInt32
  height : UInt32
deriving DecidableEq, Repr

inductive Inline
  | text (run : TextRun)
  | hyperlink (link : String) (children : List Inline)
  | image (image : ImageData)
  | math (atoms : List MathAtom)
  | footnoteReference (id : UInt32)
  | checkBox (checked : Bool)
deriving BEq, Repr

inductive HeadingStyle
  | title
  | heading1
  | heading2
  | heading3
  | heading4
  | heading5
deriving DecidableEq, Repr

structure Indent where
  start : UInt32
  hanging : Option UInt32 := none
deriving DecidableEq, Repr

structure NumberingRef where
  reference : String
  level : UInt32
deriving DecidableEq, Repr

structure Paragraph where
  heading : Option HeadingStyle := none
  thematicBreak : Bool := false
  indent : Option Indent := none
  numbering : Option NumberingRef := none
  children : List Inline := []
deriving BEq, Repr

structure Footnote where
  children : List Paragraph := []
deriving BEq, Repr

abbrev Footnotes := Keyed Footnote

abbrev ImageTable := Keyed ImageData

inductive LevelFormat
  | decimal
  | lowerLetter
deriving DecidableEq, Repr

inductive Alignment
  | start
deriving DecidableEq, Repr

structure Spacing where
  after : UInt32
  line : UInt32
deriving DecidableEq, Repr

/-- The marker and the layout of one level of a list. -/
structure NumberingLevel where
  level : UInt32
  format : LevelFormat
  text : String
  alignment : Alignment
  indent : Indent
  spacing : Option Spacing
deriving DecidableEq, Repr

structure Numbering where
  reference : String
  levels : List NumberingLevel
deriving DecidableEq, Repr

/-- The core properties of a document, which are carried along as they are. -/
structure Metadata where
  title : Option String := none
  subject : Option String := none
  creator : Option String := none
  keywords : Option String := none
  description : Option String := none
  lastModifiedBy : Option String := none
  revision : Option UInt32 := none
deriving DecidableEq, Repr

/-- The font of runs that say nothing else. -/
structure Styles where
  font : String := "Arial"
  size : String := "14pt"
deriving DecidableEq, Repr

structure Document where
  metadata : Metadata := {}
  styles : Styles := {}
  body : List Paragraph := []
  numbering : List Numbering := []
  footnotes : Footnotes := .empty
deriving BEq

mutual

/-- The text of a run, hyperlinks included. -/
def Inline.plainText : Inline → String
  | .text run => run.text
  | .hyperlink _ children => Inline.plainTextAll children
  | .image _ | .math _ | .footnoteReference _ | .checkBox _ => ""

def Inline.plainTextAll : List Inline → String
  | [] => ""
  | run :: rest => run.plainText ++ Inline.plainTextAll rest

end

def Paragraph.plainText (p : Paragraph) : String :=
  Inline.plainTextAll p.children

end Manuscript
