import Manuscript.Base64
import Manuscript.Files.FileSystem
import Manuscript.Image.Size
import Manuscript.Resolution.Basic
import Manuscript.Text.Blank
import Manuscript.Text.Word
import Manuscript.Web.Transfer

/-!
# Sources of images

The standard resolver knows three kinds of addresses: the image itself as Base64, an address of the
web, and everything else as a path of a file. The size of an image is what is read from its header.
-/

namespace Manuscript.Resolution

structure Sources where
  files : Files.FileSystem
  network : Web.Network
  headers : Image.Headers
  /-- Where relative paths start, unless that is the working directory. -/
  baseDir : Option String := none
  secs : Nat := 30

/-- How much of a long address with data in it is told. -/
def shownLength : Nat := 64

/-- An address as it is told: data are cut off. -/
def shown (url : String) : String :=
  if url.startsWith "data:" then String.ofList (url.toList.take shownLength) else url

def isTypeChar (c : Char) : Bool :=
  Text.isWordChar c || c == '.' || c == '+' || c == '-'

def behind? (front : String) (cs : List Char) : Option (List Char) :=
  if front.toList.isPrefixOf cs then some (cs.drop front.length) else none

/-- The payload of an address that holds the image itself. -/
def payload? (url : String) : Option (List Char) := do
  let cs ← behind? "data:image/" url.toList
  if (cs.takeWhile isTypeChar).isEmpty then none
  behind? ";base64," (cs.dropWhile isTypeChar)

/-- The bytes of a payload, which may have blank characters around it. -/
def decodePayload (url : String) (payload : List Char) : Except Error (List UInt8) :=
  match Base64.decode (String.ofList (Text.trim payload)) with
  | .ok bytes => .ok bytes
  | .error fault =>
    .error (.imageResolveFailed (shown url) s!"invalid base64 payload: {fault.message}")

namespace Sources

def path (sources : Sources) (url : String) : String :=
  let path := String.ofList ((behind? "file://" url.toList).getD url.toList)
  match sources.baseDir with
  | some base => Files.join base path
  | none => path

def readFile (sources : Sources) (url : String) : Except Error (List UInt8) :=
  let path := sources.path url
  match sources.files.read path with
  | .ok bytes => .ok bytes
  | .error cause => .error (.imageResolveFailed (shown url) s!"{path}: {cause.message}")

def bytes (sources : Sources) (url : String) : Except Error (List UInt8) :=
  match payload? url with
  | some payload => decodePayload url payload
  | none =>
    if Web.isWebAddress url then Web.fetch sources.network sources.secs url
    else sources.readFile url

def measured (sources : Sources) (url : String) (bytes : List UInt8) : Except Error ImageData :=
  match sources.headers bytes with
  | .ok size => .ok ⟨bytes, size.width, size.height⟩
  | .error reason => .error (.imageResolveFailed (shown url) s!"unsupported image: {reason}")

def resolve (sources : Sources) (url : String) : Except Error ImageData := do
  sources.measured url (← sources.bytes url)

/-- Whether something has to be read or fetched. -/
def reachesOut (url : String) : Bool :=
  (payload? url).isNone && !(Web.isWebAddress url && (Web.Url.ofText? url).isNone)

/-- The standard resolver. What has to be reached takes a moment, so calls that reach for nothing end
first. -/
def resolver (sources : Sources) : Resolver :=
  { reply url := ⟨if reachesOut url then 1 else 0, some (sources.resolve url)⟩
    logs := true }

end Sources

end Manuscript.Resolution
