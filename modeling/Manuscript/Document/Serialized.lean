import Manuscript.Document.Json
import Manuscript.Error
import Manuscript.Json.Printer
import Manuscript.Text.Glyph

/-!
# Serialized documents

A serializer turns a document into bytes, which are handed back as they are or together with their
media type. The standard one writes the document as JSON.
-/

namespace Manuscript

inductive OutputFormat
  | buffer
  /-- With the media type. -/
  | blob
deriving DecidableEq, Repr

namespace OutputFormat

def name : OutputFormat → String
  | .buffer => "buffer"
  | .blob => "blob"

def names : List (String × OutputFormat) :=
  [("buffer", .buffer), ("blob", .blob)]

def toJson (format : OutputFormat) : Json :=
  .string format.name

def reader : Json.Reader OutputFormat :=
  Json.Reader.choice names

end OutputFormat

structure Serialized where
  mediaType : Option String
  bytes : List UInt8
deriving DecidableEq, Repr

namespace Serialized

def wrap (format : OutputFormat) (mediaType : String) (bytes : List UInt8) : Serialized :=
  match format with
  | .buffer => ⟨none, bytes⟩
  | .blob => ⟨some mediaType, bytes⟩

def format (s : Serialized) : OutputFormat :=
  match s.mediaType with
  | none => .buffer
  | some _ => .blob

end Serialized

abbrev Serializer := Document → OutputFormat → Except Error Serialized

namespace Serializer

def jsonText (pretty : Bool) (d : Document) : String :=
  if pretty then d.toJson.pretty else d.toJson.compact

/-- The serializer that writes JSON, on one line or with a line for every member and item. -/
def json (pretty : Bool) : Serializer := fun d format =>
  .ok (.wrap format "application/json" (Text.bytesOfText (jsonText pretty d)))

end Serializer

end Manuscript
