import Manuscript.Json.Basic
import Manuscript.Text.Quoted
import Manuscript.Text.Shortest

/-!
# Printing JSON

The compact form has no space between tokens. The pretty form gives every item and member a line
of its own, indented by two spaces for each enclosing bracket, and leaves empty brackets closed.
Strings escape the quote, the backslash and the control characters below the space.
-/

namespace Manuscript.Json

def escapedChar (c : Char) : List Char :=
  if c = '"' then ['\\', '"']
  else if c = '\\' then ['\\', '\\']
  else if c = '\x08' then ['\\', 'b']
  else if c = '\x0c' then ['\\', 'f']
  else if c = '\n' then ['\\', 'n']
  else if c = '\r' then ['\\', 'r']
  else if c = '\t' then ['\\', 't']
  else if c.toNat < 0x20 then
    ['\\', 'u', '0', '0', Nat.digitChar (c.toNat / 16), Nat.digitChar (c.toNat % 16)]
  else [c]

def escaped (s : String) : List Char :=
  '"' :: s.toList.flatMap escapedChar ++ ['"']

def Number.text : Number → List Char
  | .natural n => Nat.toDigits 10 n
  | .negative n => '-' :: Nat.toDigits 10 n
  | .real x => (Text.floatText x).toList

mutual

def compactChars : Json → List Char
  | .null => ['n', 'u', 'l', 'l']
  | .bool true => ['t', 'r', 'u', 'e']
  | .bool false => ['f', 'a', 'l', 's', 'e']
  | .number n => n.text
  | .string s => escaped s
  | .array [] => ['[', ']']
  | .array (item :: rest) => '[' :: compactChars item ++ compactItems rest
  | .object [] => ['\x7b', '\x7d']
  | .object ((key, value) :: rest) =>
    '\x7b' :: escaped key ++ ':' :: compactChars value ++ compactMembers rest

def compactItems : List Json → List Char
  | [] => [']']
  | item :: rest => ',' :: compactChars item ++ compactItems rest

def compactMembers : List (String × Json) → List Char
  | [] => ['\x7d']
  | (key, value) :: rest => ',' :: escaped key ++ ':' :: compactChars value ++ compactMembers rest

end

/-- A new line inside the given number of brackets. -/
def newLine (depth : Nat) : List Char :=
  '\n' :: List.replicate (2 * depth) ' '

mutual

/-- The characters of the pretty form inside the given number of brackets. -/
def prettyChars (depth : Nat) : Json → List Char
  | .null => ['n', 'u', 'l', 'l']
  | .bool true => ['t', 'r', 'u', 'e']
  | .bool false => ['f', 'a', 'l', 's', 'e']
  | .number n => n.text
  | .string s => escaped s
  | .array [] => ['[', ']']
  | .array (item :: rest) =>
    '[' :: newLine (depth + 1) ++ prettyChars (depth + 1) item ++ prettyItems depth rest
  | .object [] => ['\x7b', '\x7d']
  | .object ((key, value) :: rest) =>
    '\x7b' :: newLine (depth + 1) ++ escaped key ++ ':' :: ' ' :: prettyChars (depth + 1) value ++
      prettyMembers depth rest

def prettyItems (depth : Nat) : List Json → List Char
  | [] => newLine depth ++ [']']
  | item :: rest =>
    ',' :: newLine (depth + 1) ++ prettyChars (depth + 1) item ++ prettyItems depth rest

def prettyMembers (depth : Nat) : List (String × Json) → List Char
  | [] => newLine depth ++ ['\x7d']
  | (key, value) :: rest =>
    ',' :: newLine (depth + 1) ++ escaped key ++ ':' :: ' ' :: prettyChars (depth + 1) value ++
      prettyMembers depth rest

end

/-- The text without spaces between tokens. -/
def compact (json : Json) : String :=
  String.ofList json.compactChars

/-- The text with a line for every item and member. -/
def pretty (json : Json) : String :=
  String.ofList (json.prettyChars 0)

end Manuscript.Json
