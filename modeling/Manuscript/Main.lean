import Manuscript.Cli.Program
import Manuscript.Image.Dimensions

/-!
# The program

The outermost layer: it gathers what a run may look at, runs the program, and carries out what the run
leaves behind. There is no network.
-/

namespace Manuscript.Cli

open Files

/-- The places on the way along a path, the last one at the end. -/
def wayAlong (place : Place) : List String → List Place
  | [] => []
  | name :: rest =>
    if name = "" ∨ name = "." then wayAlong place rest
    else if name = ".." then wayAlong place.dropLast rest
    else (place ++ [name]) :: wayAlong (place ++ [name]) rest

def absolute (place : Place) : String :=
  "/" ++ ofPieces place

def entryAt (place : Place) : IO (Option Entry) := do
  try
    let path ← IO.FS.realPath (absolute place)
    if ← path.isDir then return some .directory
    let bytes ← IO.FS.readBinFile path
    return some (.file bytes.toList)
  catch _ => return none

/-- Take what is on the way along a path into a file system. -/
def look (fs : FileSystem) (path : String) : IO FileSystem := do
  let mut fs := fs
  for place in wayAlong (fs.origin path) (pieces path) do
    match ← entryAt place with
    | some entry => fs := fs.put place entry
    | none => return fs
  return fs

partial def readStream (stream : IO.FS.Stream) (sofar : ByteArray) : IO ByteArray := do
  let bytes ← stream.read 65536
  if bytes.isEmpty then return sofar else readStream stream (sofar ++ bytes)

/-- Gather what a command may look at: its input, the images of the tree in it, and what is where its
output goes. -/
def gather (command : Command) (s : Surroundings) : IO Surroundings := do
  let mut s := { s with files := ← look s.files (absolute s.files.cwd) }
  if command.input = standardInput then
    let bytes ← readStream (← IO.getStdin) .empty
    s := { s with input := bytes.toList }
  else
    s := { s with files := ← look s.files command.input }
  match readTree s command.input with
  | .error _ => return s
  | .ok tree =>
    for url in Node.imageUrls tree.children do
      s := { s with files := ← look s.files ((command.sources s).path url) }
    if let some path := command.options.output then
      s := { s with files := ← look s.files path }
    return s

/-- Carry out what changed between two file systems. A file is written beside its place first. -/
def carryOut (before after : FileSystem) : IO Unit := do
  for (place, entry) in after.entries.reverse do
    if before.at? place != some entry then
      match entry with
      | .directory => IO.FS.createDirAll (absolute place)
      | .file bytes =>
        let aside := absolute (after.unused place.dropLast)
        IO.FS.writeBinFile aside (ByteArray.mk bytes.toArray)
        IO.FS.rename aside (absolute place)

/-- The variables of the environment that stand in for options. -/
def environment : IO (List (String × String)) := do
  let mut env : List (String × String) := []
  for name in Name.all do
    if let some key := name.envName? then
      if let some value ← IO.getEnv key then
        env := (key, value) :: env
  return env

def start (args : List String) : IO UInt32 := do
  let begun ← IO.monoMsNow
  let cwd := (pieces (← IO.currentDir).toString).filter (· ≠ "")
  let env ← environment
  let s : Surroundings :=
    { args
      env
      input := []
      files := { entries := [], cwd }
      network _ := .unanswered
      headers bytes := (Image.size bytes).mapError Image.Unreadable.message }
  let s ← match Command.read args env with
    | .ok command => gather command s
    | .error _ => pure s
  let outcome := Cli.run s
  carryOut s.files outcome.files
  let ms := (← IO.monoMsNow) - begun
  for entry in outcome.log do
    IO.eprintln s!"{entry.level.name} {entry.message ms}"
  let output ← IO.getStdout
  output.write (ByteArray.mk outcome.output.toArray)
  output.flush
  for line in outcome.lines do
    IO.eprint (line.text ms)
  if outcome.code = 2 then IO.eprint helpText
  return outcome.code.toUInt32

end Manuscript.Cli

def main (args : List String) : IO UInt32 :=
  Manuscript.Cli.start args
