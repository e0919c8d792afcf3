import Manuscript.Document.Serialized
import Manuscript.Text.Numeral

/-!
# Options of the command line

An option is given on the command line, by its long or its short name and at most once, or else by a
variable of the environment. Arguments are read from the left, and the first one that is wrong, or
that asks for the help or the version, ends the reading.
-/

namespace Manuscript.Cli

inductive Name
  | output
  | title
  | subject
  | creator
  | keywords
  | description
  | outputFormat
  | pretty
  | baseDir
  | imageTimeout
  | concurrency
  | noProgress
  | verbose
  | quiet
  | help
  | version
deriving DecidableEq, Repr

namespace Name

def all : List Name :=
  [.output, .title, .subject, .creator, .keywords, .description, .outputFormat, .pretty, .baseDir,
    .imageTimeout, .concurrency, .noProgress, .verbose, .quiet, .help, .version]

/-- The long name, which stands behind two hyphens. -/
def long : Name → String
  | .output => "output"
  | .title => "title"
  | .subject => "subject"
  | .creator => "creator"
  | .keywords => "keywords"
  | .description => "description"
  | .outputFormat => "output-format"
  | .pretty => "pretty"
  | .baseDir => "base-dir"
  | .imageTimeout => "image-timeout"
  | .concurrency => "concurrency"
  | .noProgress => "no-progress"
  | .verbose => "verbose"
  | .quiet => "quiet"
  | .help => "help"
  | .version => "version"

/-- The short name, which stands behind one hyphen, also together with others. -/
def short? : Name → Option Char
  | .output => some 'o'
  | .concurrency => some 'c'
  | .verbose => some 'v'
  | .quiet => some 'q'
  | .help => some 'h'
  | .version => some 'V'
  | _ => none

def takesValue : Name → Bool
  | .pretty | .noProgress | .verbose | .quiet | .help | .version => false
  | _ => true

def envName? : Name → Option String
  | .help | .version => none
  | name =>
    let upper (c : Char) : Char := if c = '-' then '_' else c.toUpper
    some ("MD2DOCX_" ++ String.ofList (name.long.toList.map upper))

def ofLong? (s : String) : Option Name :=
  all.find? (·.long == s)

def ofShort? (c : Char) : Option Name :=
  all.find? (·.short? == some c)

end Name

structure Options where
  output : Option String := none
  title : Option String := none
  subject : Option String := none
  creator : Option String := none
  keywords : Option String := none
  description : Option String := none
  format : OutputFormat := .buffer
  pretty : Bool := false
  baseDir : Option String := none
  timeoutSecs : Nat := 30
  concurrency : Option Nat := none
  noProgress : Bool := false
  verbose : Bool := false
  quiet : Bool := false
deriving DecidableEq, Repr

def wordBound : Nat := UInt64.size

def path? (s : String) : Option String :=
  if s.isEmpty then none else some s

def switch? : String → Option Bool
  | "true" => some true
  | "false" => some false
  | _ => none

namespace Options

def set (o : Options) (name : Name) (value : String) : Option Options :=
  match name with
  | .output => (path? value).map fun path => { o with output := some path }
  | .title => some { o with title := some value }
  | .subject => some { o with subject := some value }
  | .creator => some { o with creator := some value }
  | .keywords => some { o with keywords := some value }
  | .description => some { o with description := some value }
  | .outputFormat => (OutputFormat.names.lookup value).map fun format => { o with format }
  | .pretty => (switch? value).map fun pretty => { o with pretty }
  | .baseDir => (path? value).map fun path => { o with baseDir := some path }
  | .imageTimeout =>
    ((Text.numeral? wordBound value.toList).filter (1 ≤ ·)).map fun secs =>
      { o with timeoutSecs := secs }
  | .concurrency =>
    (Text.numeral? wordBound value.toList).map fun count => { o with concurrency := some count }
  | .noProgress => (switch? value).map fun noProgress => { o with noProgress }
  | .verbose => (switch? value).map fun verbose => { o with verbose }
  | .quiet => (switch? value).map fun quiet => { o with quiet }
  | .help | .version => some o

end Options

inductive Stop
  | usage
  | help
  | version
deriving DecidableEq, Repr

structure Draft where
  options : Options := {}
  input : Option String := none
  given : List Name := []

namespace Draft

def give (d : Draft) (name : Name) (value : String) : Except Stop Draft :=
  if name ∈ d.given then .error .usage
  else
    match d.options.set name value with
    | some options => .ok { d with options, given := name :: d.given }
    | none => .error .usage

/-- Turn a switch on, or stop for what it asks. -/
def turnOn (d : Draft) (name : Name) : Except Stop Draft :=
  match name with
  | .help => .error .help
  | .version => .error .version
  | name => d.give name "true"

def take (d : Draft) (input : String) : Except Stop Draft :=
  match d.input with
  | none => .ok { d with input := some input }
  | some _ => .error .usage

/-- A value in the same argument, behind a sign of equality if there is one. -/
def attached : List Char → String
  | '=' :: cs => String.ofList cs
  | cs => String.ofList cs

/-- Read short names; the last one may wait for a value. -/
def readShort (d : Draft) : List Char → Except Stop (Draft × Option Name)
  | [] => .ok (d, none)
  | c :: rest => do
    match Name.ofShort? c with
    | none => throw .usage
    | some name =>
      if !name.takesValue then
        let d ← d.turnOn name
        readShort d rest
      else if rest.isEmpty then return (d, some name)
      else
        let d ← d.give name (attached rest)
        return (d, none)

/-- Read a long name, which may wait for a value. -/
def readLong (d : Draft) (cs : List Char) : Except Stop (Draft × Option Name) := do
  let name := cs.takeWhile (· != '=')
  let value := cs.drop name.length
  match Name.ofLong? (String.ofList name) with
  | none => throw .usage
  | some name =>
    if value.isEmpty then
      if name.takesValue then return (d, some name)
      else
        let d ← d.turnOn name
        return (d, none)
    else if name.takesValue then
      let d ← d.give name (attached value)
      return (d, none)
    else throw .usage

def readArgument (d : Draft) (arg : String) : Except Stop (Draft × Option Name) :=
  match arg.toList with
  | '-' :: '-' :: cs => d.readLong cs
  | '-' :: c :: cs => d.readShort (c :: cs)
  | _ => (d.take arg).map (·, none)

def isValue (arg : String) : Bool :=
  arg == "-" || arg.toList.head? != some '-'

/-- Read all arguments. Two hyphens alone end the options. -/
def readAll (d : Draft) : List String → Except Stop Draft
  | [] => .ok d
  | arg :: rest =>
    if arg = "--" then rest.foldlM take d
    else
      match d.readArgument arg with
      | .error stop => .error stop
      | .ok (d, none) => readAll d rest
      | .ok (d, some name) =>
        match rest with
        | [] => .error .usage
        | value :: rest =>
          if isValue value then
            match d.give name value with
            | .ok d => readAll d rest
            | .error stop => .error stop
          else .error .usage

/-- Take an option from the environment, unless it was given. -/
def complete (env : List (String × String)) (d : Draft) (name : Name) : Except Stop Draft :=
  if name ∈ d.given then .ok d
  else
    match name.envName?.bind (env.lookup ·) with
    | none => .ok d
    | some value => d.give name value

end Draft

structure Command where
  /-- The path of the tree, or a hyphen for the standard input. -/
  input : String
  options : Options
deriving DecidableEq, Repr

def Command.read (args : List String) (env : List (String × String)) : Except Stop Command := do
  let d ← ({} : Draft).readAll args
  let d ← Name.all.foldlM (Draft.complete env) d
  match d.input with
  | some input => return ⟨input, d.options⟩
  | none => throw .usage

end Manuscript.Cli
