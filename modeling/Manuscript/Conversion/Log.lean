import Manuscript.Resolution.Sources

/-!
# The log of a conversion
-/

namespace Manuscript

inductive Level
  | debug
  | info
  | warn
deriving DecidableEq, Repr

def Level.name : Level → String
  | .debug => "DEBUG"
  | .info => "INFO"
  | .warn => "WARN"

inductive LogEntry
  /-- A conversion begins, of a tree with that many nodes at its top. -/
  | starting (nodes : Nat)
  | noImages
  /-- The resolution of images begins; several references may have the same address. -/
  | resolving (addresses references : Nat)
  | found (url : String) (image : ImageData)
  | notFound (error : Error)
  | resolved (images : Nat)
  /-- A footnote took the place of one with the same identifier. -/
  | redefined (identifier : String)
  | complete (blocks footnotes : Nat)
  | serialized (bytes : Nat)
  | wrote (path : String)
deriving BEq, Repr

namespace LogEntry

def level : LogEntry → Level
  | .starting _ | .resolving .. | .complete .. | .wrote _ => .info
  | .noImages | .found .. | .resolved _ | .redefined _ | .serialized _ => .debug
  | .notFound _ => .warn

/-- The text of an entry that was made some milliseconds after the beginning. -/
def message (ms : Nat) : LogEntry → String
  | .starting nodes => s!"Starting conversion: {nodes} top-level node(s)"
  | .noImages => "No image nodes; skipping resolution pass"
  | .resolving addresses references =>
    s!"Resolving {addresses} distinct image(s) ({references} references)"
  | .found url image =>
    s!"Resolved image {Resolution.shown url} → {image.data.length} bytes, " ++
      s!"{image.width}x{image.height}"
  | .notFound error => s!"Image resolution failed: {error.message}"
  | .resolved images => s!"Resolved {images} image(s) in {ms}ms"
  | .redefined identifier => s!"Footnote '{identifier}' redefined; keeping the later definition"
  | .complete blocks footnotes =>
    s!"Conversion complete: {blocks} block(s), {footnotes} footnote(s), {ms}ms total"
  | .serialized bytes => s!"Serialized document: {bytes} bytes"
  | .wrote path => s!"Wrote {path}"

def ofEvent (references : Nat) (logs : Bool) : Resolution.Event → List LogEntry
  | .began addresses => [.resolving addresses references]
  | .resolved url image => if logs then [.found url image] else []
  | .failed _ error => [.notFound error]
  | .started _ | .completed _ => []

def ofResolution (references : Nat) (logs : Bool) (events : List Resolution.Event) :
    List LogEntry :=
  if references = 0 then [.noImages] else events.flatMap (ofEvent references logs)

end LogEntry

end Manuscript
