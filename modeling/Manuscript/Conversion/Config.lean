import Manuscript.Document.Serialized
import Manuscript.Latex
import Manuscript.Resolution.Basic
import Manuscript.Text.Quoted

/-!
# Configurations

Everything that a conversion is told besides its tree. A configuration is made from settings that are
applied in their order, so that the last one of a kind stands, and is checked at the end.
-/

namespace Manuscript

structure Config where
  metadata : Metadata := {}
  styles : Styles := {}
  format : OutputFormat := .buffer
  /-- What resolves the images, which only trees with images need. -/
  resolver : Option Resolution.Resolver := none
  latex : LatexParser := Latex.plain
  /-- How many images are resolved at a time, or all of them. -/
  concurrency : Option Nat := none
  timeoutSecs : Nat := 30
  /-- Whether someone is told how the resolution goes on. -/
  progress : Bool := false

inductive Setting
  | metadata (metadata : Metadata)
  | title (text : String)
  | subject (text : String)
  | creator (text : String)
  | keywords (text : String)
  | description (text : String)
  | lastModifiedBy (text : String)
  | revision (number : UInt32)
  | styles (styles : Styles)
  | format (format : OutputFormat)
  | resolver (resolver : Resolution.Resolver)
  | latex (parser : LatexParser)
  | concurrency (count : Nat)
  | timeoutSecs (secs : Nat)
  | progress

namespace Config

def set (config : Config) : Setting → Config
  | .metadata metadata => { config with metadata }
  | .title text => { config with metadata.title := some text }
  | .subject text => { config with metadata.subject := some text }
  | .creator text => { config with metadata.creator := some text }
  | .keywords text => { config with metadata.keywords := some text }
  | .description text => { config with metadata.description := some text }
  | .lastModifiedBy text => { config with metadata.lastModifiedBy := some text }
  | .revision number => { config with metadata.revision := some number }
  | .styles styles => { config with styles }
  | .format format => { config with format }
  | .resolver resolver => { config with resolver := some resolver }
  | .latex parser => { config with latex := parser }
  | .concurrency count => { config with concurrency := some count }
  | .timeoutSecs secs => { config with timeoutSecs := secs }
  | .progress => { config with progress := true }

/-- Refuse a configuration under which no image could be resolved. -/
def check (config : Config) : Except Error Config :=
  if config.concurrency = some 0 then .error (.invalidConfig "Image concurrency must be ≥ 1")
  else if config.timeoutSecs = 0 then
    .error (.invalidConfig "Image timeout must be ≥ 1 second")
  else .ok config

def ofSettings (settings : List Setting) : Except Error Config :=
  (settings.foldl set {}).check

end Config

/-! ## Descriptions

The description of a record lists its fields. -/

namespace Describe

def record (name : String) (fields : List (String × String)) : String :=
  let inside := fields.map fun (field, value) => s!"{field}: {value}"
  name ++ " \x7b " ++ String.intercalate ", " inside ++ " \x7d"

def optional {α : Type} (describe : α → String) : Option α → String
  | none => "None"
  | some x => s!"Some({describe x})"

end Describe

open Describe in
def Metadata.describe (m : Metadata) : String :=
  record "DocumentMetadata"
    [("title", optional Text.quoted m.title), ("subject", optional Text.quoted m.subject),
      ("creator", optional Text.quoted m.creator), ("keywords", optional Text.quoted m.keywords),
      ("description", optional Text.quoted m.description),
      ("last_modified_by", optional Text.quoted m.lastModifiedBy),
      ("revision", optional (fun n => toString n.toNat) m.revision)]

open Describe in
def Styles.describe (styles : Styles) : String :=
  record "DocumentStyles" [("font", Text.quoted styles.font), ("size", Text.quoted styles.size)]

def OutputFormat.describe : OutputFormat → String
  | .buffer => "Buffer"
  | .blob => "Blob"

open Describe in
/-- The description of a configuration; of what resolves and parses it only tells that it is there. -/
def Config.describe (config : Config) : String :=
  record "ConversionConfig"
    [("metadata", config.metadata.describe), ("styles", config.styles.describe),
      ("output_format", config.format.describe),
      ("image_resolver", optional (fun _ => Text.quoted "<dyn ImageResolver>") config.resolver),
      ("latex_parser", Text.quoted "<dyn LatexParser>"),
      ("image_concurrency", optional toString config.concurrency),
      ("image_timeout_secs", toString config.timeoutSecs)]

end Manuscript
