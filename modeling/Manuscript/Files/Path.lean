import Manuscript.Text.Split

/-!
# Paths

A path is a text whose pieces stand between slashes. It is absolute if it starts with a slash. Empty
pieces and single dots stay where they are, so they are no components, except for a dot at the front.
-/

namespace Manuscript.Files

def pieces (path : String) : List String :=
  (Text.split (· == '/') path.toList).map String.ofList

def ofPieces (ps : List String) : String :=
  String.intercalate "/" ps

def isAbsolute (path : String) : Bool :=
  path.toList.head? == some '/'

/-- Whether a piece behind the first one is a component. -/
def isComponent (piece : String) : Bool :=
  piece ≠ "" && piece ≠ "."

/-- The given pieces up to each component, the longest first. -/
def upToComponents (first : List String) : List String → List (List String)
  | [] => []
  | piece :: rest =>
    let longer := upToComponents (first ++ [piece]) rest
    if isComponent piece then longer ++ [first ++ [piece]] else longer

/-- The path itself and every directory above it that it names. -/
def lineage (path : String) : List String :=
  match pieces path with
  | [] => []
  | first :: rest =>
    let top := if first ≠ "" then [[first]] else if rest = [] then [] else [["", ""]]
    (upToComponents [first] rest ++ top).map ofPieces

/-- The directory of the path and every directory above it; none if the path names no directory. -/
def parents (path : String) : List String :=
  (lineage path).tail

def join (base path : String) : String :=
  if isAbsolute path || base.isEmpty then path
  else if base.toList.getLast? == some '/' then base ++ path
  else base ++ "/" ++ path

end Manuscript.Files
