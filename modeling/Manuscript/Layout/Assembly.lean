import Manuscript.Document.Numbering
import Manuscript.Layout.Walk

/-!
# Assembling documents

A document is put together from laid-out content, footnotes, properties and styles; it always has
the numbering of lists, and keeps footnotes that nothing refers to.
-/

namespace Manuscript.Document

def assemble (content : List Content) (footnotes : Footnotes) (metadata : Metadata)
    (styles : Styles) : Document :=
  { metadata
    styles
    body := Content.paragraphs content
    numbering := [Numbering.lists]
    footnotes }

/-- The document of a tree, given all its images. -/
def ofTree (tree : Tree) (images : ImageTable) (latex : LatexParser) (metadata : Metadata)
    (styles : Styles) : Noted Document := do
  let laid ← Layout.layAll latex tree.children (.root images) {}
  return assemble laid.content laid.footnotes metadata styles

end Manuscript.Document
