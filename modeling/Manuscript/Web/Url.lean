import Manuscript.Web.Host

/-!
# Web addresses

An address of the web with everything in the form in which it is sent: the user's name is left out,
so is the port that the scheme stands for, dots in the path are followed, and characters that may not
stand where they are get escaped.
-/

namespace Manuscript.Web

open Text (split)

structure Url where
  secure : Bool
  host : List Char
  port : Option Nat
  /-- The steps of the path, at least one. -/
  path : List (List Char)
  query : Option (List Char)
  fragment : Option (List Char)

namespace Url

def isSlash (c : Char) : Bool :=
  c == '/' || c == '\\'

def endsAuthority (c : Char) : Bool :=
  isSlash c || c == '?' || c == '#'

/-- A text without controls and spaces at its ends, and without line breaks and tabs. -/
def cleaned (cs : List Char) : List Char :=
  let blank (c : Char) : Bool := c.toNat ≤ 0x20
  let cs := ((cs.dropWhile blank).reverse.dropWhile blank).reverse
  cs.filter fun c => c != '\t' && c != '\n' && c != '\r'

/-- Whether the scheme is the secure one, and what stands behind it. -/
def scheme? (cs : List Char) : Option (Bool × List Char) :=
  if "https:".toList.isPrefixOf cs then some (true, cs.drop 6)
  else if "http:".toList.isPrefixOf cs then some (false, cs.drop 5)
  else none

/-- The text behind the last sign in front of a host. -/
def withoutUser (cs : List Char) : List Char :=
  (cs.reverse.takeWhile (· != '@')).reverse

/-- The host, and the port behind a colon outside of brackets. -/
def cutPort (bracketed : Bool) : List Char → List Char × Option (List Char)
  | [] => ([], none)
  | c :: rest =>
    if c = ':' ∧ !bracketed then ([], some rest)
    else
      let inside := if c = '[' then true else if c = ']' then false else bracketed
      let (host, port) := cutPort inside rest
      (c :: host, port)

def schemePort (secure : Bool) : Nat :=
  if secure then 443 else 80

/-- The port, unless the scheme stands for it. -/
def port? (secure : Bool) : Option (List Char) → Option (Option Nat)
  | none | some [] => some none
  | some cs =>
    if cs.all Char.isDigit then
      let n := Nat.ofDigitChars 10 cs 0
      if n < UInt16.size then some (if n = schemePort secure then none else some n) else none
    else none

def inFragment : List Char := [' ', '"', '<', '>', '\x60']

def inQuery : List Char := [' ', '"', '#', '<', '>', '\'']

def inPath : List Char := [' ', '"', '#', '<', '>', '?', '\x60', '\x7b', '\x7d']

def dots : List Char → List Char
  | c :: d :: e :: rest =>
    if c = '%' ∧ d = '2' ∧ (e = 'e' ∨ e = 'E') then '.' :: dots rest
    else c :: dots (d :: e :: rest)
  | cs => cs

/-- Follow the steps of a path. Dots at the end leave an empty step. -/
def follow (done : List (List Char)) : List (List Char) → List (List Char)
  | [] => done
  | step :: rest =>
    if dots step = ['.', '.'] then
      let done := done.dropLast
      if rest.isEmpty then done ++ [[]] else follow done rest
    else if dots step = ['.'] then if rest.isEmpty then done ++ [[]] else follow done rest
    else follow (done ++ [escaped inPath step]) rest

def pathOf (cs : List Char) : List (List Char) :=
  follow [] (split isSlash (cs.drop 1))

/-- What stands behind a mark at the front of a text. -/
def behind (mark : Char) (special : List Char) : List Char → Option (List Char)
  | [] => none
  | c :: rest => if c = mark then some (escaped special rest) else none

def ofText? (s : String) : Option Url := do
  let (secure, rest) ← scheme? (cleaned s.toList)
  let rest := rest.dropWhile isSlash
  let (host, port) := cutPort false (withoutUser (rest.takeWhile (!endsAuthority ·)))
  let host ← Host.text? host
  let port ← port? secure port
  let rest := rest.dropWhile (!endsAuthority ·)
  let isPath (c : Char) : Bool := c != '?' && c != '#'
  let tail := rest.dropWhile isPath
  return {
    secure
    host
    port
    path := pathOf (rest.takeWhile isPath)
    query := behind '?' inQuery (tail.takeWhile (· != '#'))
    fragment := behind '#' inFragment (tail.dropWhile (· != '#')) }

def marked (mark : Char) : Option (List Char) → List Char
  | none => []
  | some cs => mark :: cs

def text (url : Url) : String :=
  String.ofList ((if url.secure then "https://" else "http://").toList ++ url.host ++
    marked ':' (url.port.map (Nat.toDigits 10)) ++ url.path.flatMap ('/' :: ·) ++
    marked '?' url.query ++ marked '#' url.fragment)

end Url

end Manuscript.Web
