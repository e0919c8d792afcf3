import Manuscript.Cli.Options
import Manuscript.Cli.Report
import Manuscript.Tree.Json

/-!
# The command line program

A run reads a tree, makes a configuration from the options and converts the tree. The document goes to
the standard output with a line break behind it, or to a file. Nothing of a document is written unless
all of the conversion succeeds.
-/

namespace Manuscript.Cli

structure Surroundings where
  args : List String
  env : List (String × String)
  input : List UInt8
  files : Files.FileSystem
  network : Web.Network
  headers : Image.Headers

structure Outcome where
  code : UInt8
  output : List UInt8 := []
  lines : List Line := []
  /-- The entries of the log that are shown. -/
  log : List LogEntry := []
  files : Files.FileSystem

def version : String := "md2docx 0.1.0\n"

def helpText : String :=
  "Convert a Markdown tree in JSON into the model of a word-processor document\n\n" ++
  "Usage: md2docx [OPTIONS] <INPUT>\n\n" ++
  "The input is the path of a tree, or a hyphen for the standard input.\n\n" ++
  "Options:\n" ++
  String.join (Name.all.map fun name =>
    let short := match name.short? with
      | some c => s!"-{c}, "
      | none => "    "
    let value := if name.takesValue then " <VALUE>" else ""
    s!"  {short}--{name.long}{value}\n")

def standardInput : String := "-"

def readTree (s : Surroundings) (input : String) : Except Failure Tree :=
  if input = standardInput then
    match Text.textOfBytes? s.input with
    | none => .error ⟨"Failed to read tree from stdin", ["stream did not contain valid UTF-8"]⟩
    | some text =>
      match Tree.ofText text with
      | .ok tree => .ok tree
      | .error fault =>
        .error (.ofError "Failed to decode mdast tree from stdin" (.invalidTree fault.message))
  else
    let refused (detail : String) : Except Failure Tree :=
      .error (.ofError s!"Failed to decode mdast tree from {input}" (.invalidTree detail))
    match s.files.read input with
    | .ok bytes =>
      match Tree.ofBytes bytes with
      | .ok tree => .ok tree
      | .error fault => refused fault.message
    | .error .isDirectory => refused Files.Cause.isDirectory.message
    | .error cause => .error ⟨s!"Failed to open {input}", [cause.message]⟩

/-- The directory of the input, unless it is the working directory. -/
def inputDirectory (input : String) : Option String :=
  if input = standardInput then none else (Files.parents input).head?

/-- Where the images of a command come from. -/
def Command.sources (command : Command) (s : Surroundings) : Resolution.Sources :=
  { files := s.files
    network := s.network
    headers := s.headers
    baseDir := command.options.baseDir.or (inputDirectory command.input)
    secs := command.options.timeoutSecs }

def Options.followed (o : Options) : Bool :=
  !o.quiet && !o.noProgress

def Command.settings (command : Command) (s : Surroundings) : List Setting :=
  let o := command.options
  [.resolver (command.sources s).resolver, .timeoutSecs o.timeoutSecs, .format o.format] ++
    (o.title.map .title).toList ++ (o.subject.map .subject).toList ++
    (o.creator.map .creator).toList ++ (o.keywords.map .keywords).toList ++
    (o.description.map .description).toList ++ (o.concurrency.map .concurrency).toList ++
    (if o.followed then [.progress] else [])

def Options.shows (o : Options) (entry : LogEntry) : Bool :=
  if o.verbose then true
  else if o.quiet || o.followed then false
  else entry.level != .debug

/-- What is told about a conversion while it goes on. -/
def progressLines {α : Type} (config : Config) (run : Run α) : List Line :=
  (run.told config).filterMap fun
    | .completed count => some (.imagesResolved count)
    | _ => none

def closing (o : Options) : Except Error Stats → List Line
  | .ok stats => if o.quiet then [] else [.summary stats o.output]
  | .error e => [.failure (.ofError "Conversion failed" e)]

def outcome {α : Type} (o : Options) (config : Config) (run : Run α) (stats : α → Stats)
    (output : α → List UInt8) (files : Files.FileSystem) : Outcome :=
  { code := if run.result.isOk then 0 else 1
    output := match run.result with
      | .ok x => output x
      | .error _ => []
    lines := progressLines config run ++ closing o (run.result.map stats)
    log := run.log.filter o.shows
    files }

/-- Convert a tree and write the document to where the options say. -/
def emit (s : Surroundings) (o : Options) (config : Config) (tree : Tree) : Outcome :=
  let serializer := Serializer.json o.pretty
  match o.output with
  | some path =>
    let (files, run) := config.convertToFile serializer tree path s.files
    outcome o config run id (fun _ => []) files
  | none =>
    let run := config.convertToBytes serializer tree
    outcome o config run Prod.snd (fun (serialized, _) => serialized.bytes ++ [0x0A]) s.files

def Command.run (command : Command) (s : Surroundings) : Outcome :=
  match readTree s command.input with
  | .error failure => { code := 1, lines := [.failure failure], files := s.files }
  | .ok tree =>
    match Config.ofSettings (command.settings s) with
    | .error e =>
      { code := 1, lines := [.failure (.ofError "Invalid configuration" e)], files := s.files }
    | .ok config => emit s command.options config tree

def run (s : Surroundings) : Outcome :=
  match Command.read s.args s.env with
  | .ok command => command.run s
  | .error .usage => { code := 2, files := s.files }
  | .error .help => { code := 0, output := Text.bytesOfText helpText, files := s.files }
  | .error .version => { code := 0, output := Text.bytesOfText version, files := s.files }

end Manuscript.Cli
