import Manuscript.Conversion.Config
import Manuscript.Conversion.Log
import Manuscript.Conversion.Stats
import Manuscript.Layout.Assembly
import Manuscript.Resolution.Pass

/-!
# Conversions

A conversion resolves the images of a tree, lays the tree out and puts the document together. The
document may then be serialized and written to a file. Any error ends all of it without a document.
-/

namespace Manuscript

structure Run (α : Type) where
  log : List LogEntry
  /-- What happened to the images. -/
  events : List Resolution.Event
  /-- The sources that the parser of equations was given. -/
  equations : List String := []
  result : Except Error α

namespace Run

variable {α β : Type}

def calls (run : Run α) : List String :=
  Resolution.Event.calls run.events

/-- What is told to the one who follows the progress, if anyone does. -/
def told (config : Config) (run : Run α) : List Resolution.Event :=
  if config.progress then run.events else []

def andThen (run : Run α) (next : α → List LogEntry × Except Error β) : Run β :=
  match run.result with
  | .ok x =>
    let (log, result) := next x
    { run with log := run.log ++ log, result }
  | .error e => { run with result := .error e }

end Run

namespace Config

def resolveImages (config : Config) (tree : Tree) : Run ImageTable :=
  let report :=
    Resolution.resolveImages config.resolver config.concurrency config.timeoutSecs tree.children
  let references := (Node.imageUrls tree.children).length
  let logs := (config.resolver.map Resolution.Resolver.logs).getD false
  { log := LogEntry.ofResolution references logs report.events
    events := report.events
    result := report.result }

def layOut (config : Config) (tree : Tree) (images : ImageTable) : Noted Document :=
  Document.ofTree tree images config.latex config.metadata config.styles

def convert (config : Config) (tree : Tree) : Run (Document × Stats) :=
  let resolution := config.resolveImages tree
  let start := LogEntry.starting tree.children.length :: resolution.log
  match resolution.result with
  | .error e => { log := start, events := resolution.events, result := .error e }
  | .ok images =>
    let laid := config.layOut tree images
    let log := start ++ .resolved images.size :: (Noted.redefinitions laid.notes).map .redefined
    let equations := Noted.equations laid.notes
    match laid.result with
    | .error e => { log, events := resolution.events, equations, result := .error e }
    | .ok document =>
      let stats := Stats.ofDocument document images
      { log := log ++ [.complete stats.blocks stats.footnotes]
        events := resolution.events
        equations
        result := .ok (document, stats) }

def serialize (config : Config) (serializer : Serializer) (converted : Document × Stats) :
    List LogEntry × Except Error (Serialized × Stats) :=
  match serializer converted.1 config.format with
  | .ok serialized => ([.serialized serialized.bytes.length], .ok (serialized, converted.2))
  | .error e => ([], .error e)

def convertToBytes (config : Config) (serializer : Serializer) (tree : Tree) :
    Run (Serialized × Stats) :=
  (config.convert tree).andThen (config.serialize serializer)

def convertToFile (config : Config) (serializer : Serializer) (tree : Tree) (path : String)
    (files : Files.FileSystem) : Files.FileSystem × Run Stats :=
  let run := config.convertToBytes serializer tree
  match run.result with
  | .error e => (files, { run with result := .error e })
  | .ok (serialized, stats) =>
    match files.write path serialized.bytes with
    | (after, .ok ()) => (after, run.andThen fun _ => ([.wrote path], .ok stats))
    | (after, .error cause) =>
      (after, run.andThen fun _ => ([], .error (.outputWriteFailed path cause.message)))

end Config

end Manuscript
