import Manuscript.Document.Basic
import Manuscript.Text.Blank

/-!
# Equations

A parser of LaTeX turns a source into groups of parts, one for each row of the equation. The plain
parser keeps the text of every row that is not blank: rows are separated by two backslashes, and a
source without any text is one empty row.
-/

namespace Manuscript

abbrev LatexParser := String → List (List MathAtom)

namespace Latex

/-- The pieces of a text between double backslashes, which are taken from the left and do not
overlap. -/
def pieces : List Char → List (List Char)
  | [] => [[]]
  | '\\' :: '\\' :: rest => [] :: pieces rest
  | c :: rest =>
    match pieces rest with
    | [] => [[c]]
    | first :: others => (c :: first) :: others

/-- The rows of a source that are not blank, without blank characters around them. -/
def rows (source : List Char) : List (List Char) :=
  ((pieces source).map Text.trim).filter (!·.isEmpty)

/-- The parser that keeps every row as text. -/
def plain : LatexParser := fun source =>
  match rows source.toList with
  | [] => [[]]
  | first :: others => (first :: others).map fun row => [.text (String.ofList row)]

/-- A paragraph for every group of an equation that stands alone. -/
def blockMath (parser : LatexParser) (source : String) : List Paragraph :=
  (parser source).map fun atoms => { children := [.math atoms] }

/-- A single run for an equation inside a paragraph, with the groups one after the other. -/
def inlineMath (parser : LatexParser) (source : String) : Inline :=
  .math (parser source).flatten

end Latex

end Manuscript
