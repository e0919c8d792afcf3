import Manuscript.Files.Path

/-!
# File systems

A tree of directories and files as a value. Every operation gives the file system after it, also when
it fails. A file is written by way of a temporary file beside it, which takes its place in the end, so
that a failure never leaves a part of it.
-/

namespace Manuscript.Files

/-- Why an operation on files fails. -/
inductive Cause
  | notFound
  | busy
  | alreadyExists
  | notDirectory
  | isDirectory
  | invalid
  | nameTooLong
  /-- The name holds a NUL character. -/
  | nul
  /-- What the system says when it refuses something for a reason of its own. -/
  | refused (report : String)
deriving DecidableEq, Repr

def Cause.message : Cause → String
  | .notFound => "No such file or directory (os error 2)"
  | .busy => "Device or resource busy (os error 16)"
  | .alreadyExists => "File exists (os error 17)"
  | .notDirectory => "Not a directory (os error 20)"
  | .isDirectory => "Is a directory (os error 21)"
  | .invalid => "Invalid argument (os error 22)"
  | .nameTooLong => "File name too long (os error 36)"
  | .nul => "file name contained an unexpected NUL byte"
  | .refused report => report

inductive Entry
  | file (bytes : List UInt8)
  | directory
deriving DecidableEq, Repr

/-- The names on the way from the root. -/
abbrev Place := List String

/-- What the system refuses although nothing in the tree speaks against it: a permission or space is
missing, a limit is reached, a device fails. -/
structure Refusals where
  directory : Place → Option Cause := fun _ => none
  file : Place → Option Cause := fun _ => none
  /-- With the number of bytes that are written before. -/
  bytes : Place → List UInt8 → Option (Nat × Cause) := fun _ _ => none
  rename : Place → Place → Option Cause := fun _ _ => none

structure FileSystem where
  /-- Everything but the root. -/
  entries : List (Place × Entry)
  cwd : Place
  refusals : Refusals := {}

namespace FileSystem

def at? (fs : FileSystem) (place : Place) : Option Entry :=
  if place = [] then some .directory else fs.entries.lookup place

def remove (fs : FileSystem) (place : Place) : FileSystem :=
  { fs with entries := fs.entries.filter (·.1 != place) }

def put (fs : FileSystem) (place : Place) (entry : Entry) : FileSystem :=
  { fs with entries := (place, entry) :: (fs.remove place).entries }

/-- The longest name of a file, and the length from which a path is too long, in bytes. -/
def maxName : Nat := 255

def maxPath : Nat := 4096

/-- Refuse a path that cannot name anything. -/
def checkPath (path : String) : Except Cause Unit :=
  if path.toList.contains '\x00' then .error .nul
  else if path.isEmpty then .error .notFound
  else if maxPath ≤ path.utf8ByteSize then .error .nameTooLong
  else .ok ()

def checkDirectory (fs : FileSystem) (place : Place) : Except Cause Unit :=
  match fs.at? place with
  | some .directory => .ok ()
  | some (.file _) => .error .notDirectory
  | none => .error .notFound

def walk (fs : FileSystem) (place : Place) : List String → Except Cause Place
  | [] => .ok place
  | piece :: rest => do
    fs.checkDirectory place
    if piece = "" ∨ piece = "." then fs.walk place rest
    else if piece = ".." then fs.walk place.dropLast rest
    else if maxName < piece.utf8ByteSize then throw .nameTooLong
    else if (fs.at? (place ++ [piece])).isNone then throw .notFound
    else fs.walk (place ++ [piece]) rest

def origin (fs : FileSystem) (path : String) : Place :=
  if isAbsolute path then [] else fs.cwd

/-- The place that a path names, which has to exist. -/
def find (fs : FileSystem) (path : String) : Except Cause Place := do
  checkPath path
  fs.walk (fs.origin path) (pieces path)

def isDirectory (fs : FileSystem) (path : String) : Bool :=
  match fs.find path with
  | .ok place => fs.at? place == some .directory
  | .error _ => false

def read (fs : FileSystem) (path : String) : Except Cause (List UInt8) := do
  let place ← fs.find path
  match fs.at? place with
  | some (.file bytes) => return bytes
  | some .directory => throw .isDirectory
  | none => throw .notFound

structure LastName where
  before : List String
  name : String
  slashed : Bool

/-- Split the last name from the pieces of a path; there is none in a path of slashes only. -/
def lastName? (ps : List String) : Option LastName :=
  let slashes := ps.reverse.takeWhile (· == "")
  match ps.reverse.dropWhile (· == "") with
  | [] => none
  | name :: before => some ⟨before.reverse, name, !slashes.isEmpty⟩

/-- The place of an entry that need not exist yet, in a directory that has to. A path that ends in dots
or is the root fails with `dots`. -/
def newPlace (fs : FileSystem) (path : String) (dots : Cause) :
    Except Cause (Place × LastName) := do
  match lastName? (pieces path) with
  | none => throw dots
  | some last =>
    let dir ← fs.walk (fs.origin path) last.before
    fs.checkDirectory dir
    if last.name = "." ∨ last.name = ".." then throw dots
    else if maxName < last.name.utf8ByteSize then throw .nameTooLong
    else return (dir ++ [last.name], last)

def makeDirectory (fs : FileSystem) (path : String) : Except Cause FileSystem := do
  checkPath path
  let (place, _) ← fs.newPlace path .alreadyExists
  if (fs.at? place).isSome then throw .alreadyExists
  match fs.refusals.directory place with
  | some cause => throw cause
  | none => return fs.put place .directory

/-- Make the first of some directories, each of which lies in the next one, and before it those above
it that are missing. -/
def makeDirectories (fs : FileSystem) : List String → FileSystem × Except Cause Unit
  | [] => (fs, .ok ())
  | path :: above =>
    match fs.makeDirectory path with
    | .ok made => (made, .ok ())
    | .error .notFound =>
      match fs.makeDirectories above with
      | (made, .error cause) => (made, .error cause)
      | (made, .ok ()) =>
        match made.makeDirectory path with
        | .ok whole => (whole, .ok ())
        | .error cause => (made, if made.isDirectory path then .ok () else .error cause)
    | .error cause => (fs, if fs.isDirectory path then .ok () else .error cause)

/-- The place that a file takes when it is renamed to a path. -/
def target (fs : FileSystem) (path : String) : Except Cause Place := do
  if path.toList.contains '\x00' then throw .invalid
  checkPath path
  let (place, last) ← fs.newPlace path .busy
  if last.slashed then throw .notDirectory
  if fs.at? place = some .directory then throw .isDirectory
  return place

/-- A place in a directory that is longer than every name in use. -/
def unused (fs : FileSystem) (dir : Place) : Place :=
  let names := fs.entries.flatMap Prod.fst
  let longest := (names.map String.length).foldl max 0
  dir ++ [".tmp" ++ String.ofList (List.replicate (longest + 1) 'x')]

def directoryOf (fs : FileSystem) (path : String) : Except Cause Place :=
  match parents path with
  | [] => .ok fs.cwd
  | dir :: _ => fs.find dir

def create (fs : FileSystem) (place : Place) : FileSystem × Except Cause Unit :=
  match fs.refusals.file place with
  | some cause => (fs, .error cause)
  | none => (fs.put place (.file []), .ok ())

/-- Write the bytes of an empty file. What is written before a failure stays in it. -/
def fill (fs : FileSystem) (place : Place) (bytes : List UInt8) :
    FileSystem × Except Cause Unit :=
  match fs.refusals.bytes place bytes with
  | some (written, cause) => (fs.put place (.file (bytes.take written)), .error cause)
  | none => (fs.put place (.file bytes), .ok ())

def rename (fs : FileSystem) (source : Place) (path : String) : FileSystem × Except Cause Unit :=
  match fs.target path, fs.at? source with
  | .error cause, _ => (fs, .error cause)
  | .ok _, none => (fs, .error .notFound)
  | .ok place, some entry =>
    match fs.refusals.rename source place with
    | some cause => (fs, .error cause)
    | none => ((fs.remove source).put place entry, .ok ())

/-- Write bytes to a new file at a place and rename it to a path. The file goes away with a failure. -/
def replace (fs : FileSystem) (temporary : Place) (path : String) (bytes : List UInt8) :
    FileSystem × Except Cause Unit :=
  match fs.create temporary with
  | (fs, .error cause) => (fs, .error cause)
  | (fs, .ok ()) =>
    match fs.fill temporary bytes with
    | (fs, .error cause) => (fs.remove temporary, .error cause)
    | (fs, .ok ()) =>
      match fs.rename temporary path with
      | (fs, .error cause) => (fs.remove temporary, .error cause)
      | (fs, .ok ()) => (fs, .ok ())

/-- Write a file. Missing directories on the way to it are made first and stay if a later step
fails. -/
def write (fs : FileSystem) (path : String) (bytes : List UInt8) :
    FileSystem × Except Cause Unit :=
  match fs.makeDirectories (parents path) with
  | (fs, .error cause) => (fs, .error cause)
  | (fs, .ok ()) =>
    match fs.directoryOf path with
    | .error cause => (fs, .error cause)
    | .ok dir => fs.replace (fs.unused dir) path bytes

end FileSystem

end Manuscript.Files
