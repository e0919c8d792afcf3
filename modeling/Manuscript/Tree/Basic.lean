/-!
# Markdown trees

A parsed Markdown document. Block nodes come first, inline nodes second; which nodes may stand where
is not part of the type, because trees come from outside and a misplaced node is reported when the
tree is laid out.
-/

namespace Manuscript

inductive Node
  | paragraph (children : List Node)
  | heading (depth : UInt8) (children : List Node)
  | thematicBreak
  | blockquote (children : List Node)
  | list (ordered : Option Bool) (start : Option UInt32) (spread : Option Bool)
      (children : List Node)
  /-- An item of a list; `checked` is present in a task item. -/
  | listItem (checked spread : Option Bool) (children : List Node)
  | table (align : Option (List (Option String))) (children : List Node)
  | tableRow (children : List Node)
  | tableCell (children : List Node)
  | html (value : String)
  | code (lang info : Option String) (value : String)
  | yaml (value : String)
  | toml (value : String)
  | definition (identifier : String) (label : Option String) (url : String) (title : Option String)
  | footnoteDefinition (identifier : String) (label : Option String) (children : List Node)
  | math (info : Option String) (value : String)
  | text (value : String)
  | emphasis (children : List Node)
  | strong (children : List Node)
  | delete (children : List Node)
  | inlineCode (value : String)
  | lineBreak
  | link (url : String) (title : Option String) (children : List Node)
  | image (url : String) (title alt : Option String)
  | linkReference (identifier : String) (label referenceType : Option String)
      (children : List Node)
  | imageReference (identifier : String) (label referenceType alt : Option String)
  | footnoteReference (identifier : String) (label : Option String)
  | inlineMath (value : String)
deriving BEq, Repr

structure Tree where
  children : List Node
deriving BEq, Repr

namespace Node

def kind : Node → String
  | .paragraph .. => "paragraph"
  | .heading .. => "heading"
  | .thematicBreak => "thematicBreak"
  | .blockquote .. => "blockquote"
  | .list .. => "list"
  | .listItem .. => "listItem"
  | .table .. => "table"
  | .tableRow .. => "tableRow"
  | .tableCell .. => "tableCell"
  | .html .. => "html"
  | .code .. => "code"
  | .yaml .. => "yaml"
  | .toml .. => "toml"
  | .definition .. => "definition"
  | .footnoteDefinition .. => "footnoteDefinition"
  | .math .. => "math"
  | .text .. => "text"
  | .emphasis .. => "emphasis"
  | .strong .. => "strong"
  | .delete .. => "delete"
  | .inlineCode .. => "inlineCode"
  | .lineBreak => "break"
  | .link .. => "link"
  | .image .. => "image"
  | .linkReference .. => "linkReference"
  | .imageReference .. => "imageReference"
  | .footnoteReference .. => "footnoteReference"
  | .inlineMath .. => "inlineMath"

def isParagraph : Node → Bool
  | .paragraph _ => true
  | _ => false

def children : Node → List Node
  | .paragraph cs | .heading _ cs | .blockquote cs | .list _ _ _ cs | .listItem _ _ cs
  | .table _ cs | .tableRow cs | .tableCell cs | .footnoteDefinition _ _ cs | .emphasis cs
  | .strong cs | .delete cs | .link _ _ cs | .linkReference _ _ _ cs => cs
  | .thematicBreak | .html _ | .code .. | .yaml _ | .toml _ | .definition .. | .math .. | .text _
  | .inlineCode _ | .lineBreak | .image .. | .imageReference .. | .footnoteReference ..
  | .inlineMath _ => []

theorem sizeOf_children (n : Node) : sizeOf n.children ≤ sizeOf n := by
  cases n <;> simp [children] <;> omega

mutual

/-- The node and everything inside it in the order of the document, each with its depth. -/
def preorder (depth : Nat) (n : Node) : List (Nat × Node) :=
  (depth, n) :: preorderAll (depth + 1) n.children
termination_by 2 * sizeOf n + 1
decreasing_by
  have := sizeOf_children n
  omega

/-- The nodes and everything inside them in the order of the document, each with its depth. -/
def preorderAll (depth : Nat) (nodes : List Node) : List (Nat × Node) :=
  match nodes with
  | [] => []
  | n :: rest => preorder depth n ++ preorderAll depth rest
termination_by 2 * sizeOf nodes

end

def imageUrl? : Node → Option String
  | .image url .. => some url
  | _ => none

/-- The addresses of all images in the order of the document, one for each image. -/
def imageUrls (nodes : List Node) : List String :=
  (preorderAll 0 nodes).filterMap fun (_, n) => n.imageUrl?

end Node

end Manuscript
