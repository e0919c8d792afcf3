import Manuscript.Document.Numbering

/-!
# Contexts

What the nodes around a node say about it. A context is handed down and never back up, so siblings
cannot see each other's.
-/

namespace Manuscript

structure Decoration where
  bold : Bool := false
  italic : Bool := false
  strikethrough : Bool := false
deriving DecidableEq, Repr

def Decoration.run (d : Decoration) (text : String) : TextRun :=
  { text, bold := d.bold, italics := d.italic, strike := d.strikethrough }

structure ListPlace where
  /-- How many lists are around that list. -/
  level : UInt32
  ordered : Bool
  /-- Whether the box of the item is checked, if it has a box. -/
  checked : Option Bool := none
deriving DecidableEq, Repr

structure Context where
  decoration : Decoration := {}
  /-- How many block quotes are around the node. -/
  indent : UInt32 := 0
  list : Option ListPlace := none
  images : ImageTable := .empty

namespace Context

def root (images : ImageTable) : Context :=
  { images }

def withBold (ctx : Context) : Context :=
  { ctx with decoration := { ctx.decoration with bold := true } }

def withItalic (ctx : Context) : Context :=
  { ctx with decoration := { ctx.decoration with italic := true } }

def withStrikethrough (ctx : Context) : Context :=
  { ctx with decoration := { ctx.decoration with strikethrough := true } }

def indented (ctx : Context) : Context :=
  { ctx with indent := ctx.indent + 1 }

/-- The context of the items of a list: every list is numbered, one level below the list around
it. -/
def inList (ctx : Context) : Context :=
  let level := match ctx.list with
    | none => 0
    | some outer => outer.level + 1
  { ctx with list := some { level, ordered := true } }

def withChecked (ctx : Context) (checked : Option Bool) : Context :=
  { ctx with list := ctx.list.map fun place => { place with checked } }

/-- The indentation of a paragraph: half an inch for each block quote. -/
def paragraphIndent (ctx : Context) : Option Indent :=
  if 0 < ctx.indent then some { start := twipsOfHalfInches ctx.indent.toNat } else none

def paragraphNumbering (ctx : Context) : Option NumberingRef :=
  match ctx.list with
  | none => none
  | some place =>
    if place.ordered then
      some { reference := Numbering.listName, level := min place.level Numbering.deepest }
    else none

def checkBox (ctx : Context) : List Inline :=
  match ctx.list.bind ListPlace.checked with
  | none => []
  | some checked => [.checkBox checked]

def paragraph (ctx : Context) (runs : List Inline) : Paragraph :=
  { indent := ctx.paragraphIndent
    numbering := ctx.paragraphNumbering
    children := ctx.checkBox ++ runs }

end Context

end Manuscript
