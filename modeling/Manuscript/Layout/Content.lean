import Manuscript.Document.Basic

/-!
# Content

What nodes are laid out to: whole paragraphs, and runs that still need a paragraph around them.
-/

namespace Manuscript

inductive Content
  | block (paragraph : Paragraph)
  | inline (run : Inline)
deriving BEq, Repr

namespace Content

def wrap (runs : List Inline) : List Paragraph :=
  if runs.isEmpty then [] else [{ children := runs }]

/-- The paragraphs of some content, after the runs that wait for one. -/
def paragraphsAfter (pending : List Inline) : List Content → List Paragraph
  | [] => wrap pending
  | .block p :: rest => wrap pending ++ p :: paragraphsAfter [] rest
  | .inline run :: rest => paragraphsAfter (pending ++ [run]) rest

/-- The paragraphs of some content: runs that are next to each other share one. -/
def paragraphs (content : List Content) : List Paragraph :=
  paragraphsAfter [] content

/-- The runs of some content, those of its paragraphs in their place. -/
def runs (content : List Content) : List Inline :=
  content.flatMap fun
    | .block p => p.children
    | .inline run => [run]

end Content

end Manuscript
