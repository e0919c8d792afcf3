import Manuscript.Base64
import Manuscript.Text.Quoted
import Manuscript.Text.Shortest

/-!
# Faults

Why a JSON text, or a value in it, cannot be taken for what is wanted. A malformation is a fault of
the text itself; the other faults are disagreements between a well-formed value and the shape that
its reader expects.
-/

namespace Manuscript.Json

inductive Malformation
  | arrayUnclosed
  | objectUnclosed
  | stringUnclosed
  | valueMissing
  | colonExpected
  | itemSeparatorExpected
  | memberSeparatorExpected
  | wordExpected
  | valueExpected
  | escapeUnknown
  | numberMalformed
  | numberTooLarge
  | characterMalformed
  | controlCharacter
  | keyNotString
  | surrogateAlone
  | surrogateUnpaired
  | commaDangling
  | trailingCharacters
  | nestingTooDeep
deriving DecidableEq, Repr

def Malformation.message : Malformation → String
  | .arrayUnclosed => "EOF while parsing a list"
  | .objectUnclosed => "EOF while parsing an object"
  | .stringUnclosed => "EOF while parsing a string"
  | .valueMissing => "EOF while parsing a value"
  | .colonExpected => "expected `:`"
  | .itemSeparatorExpected => "expected `,` or `]`"
  | .memberSeparatorExpected => "expected `,` or `\x7d`"
  | .wordExpected => "expected ident"
  | .valueExpected => "expected value"
  | .escapeUnknown => "invalid escape"
  | .numberMalformed => "invalid number"
  | .numberTooLarge => "number out of range"
  | .characterMalformed => "invalid unicode code point"
  | .controlCharacter => "control character (\\u0000-\\u001F) found while parsing a string"
  | .keyNotString => "key must be a string"
  | .surrogateAlone => "lone leading surrogate in hex escape"
  | .surrogateUnpaired => "unexpected end of hex escape"
  | .commaDangling => "trailing comma"
  | .trailingCharacters => "trailing characters"
  | .nestingTooDeep => "recursion limit exceeded"

/-- What a reader met in the place of what it wanted. -/
inductive Found
  | null
  | bool (b : Bool)
  | integer (n : Int)
  | real (x : Float)
  | string (s : String)
  | array
  | object

def Found.describe : Found → String
  | .null => "null"
  | .bool b => s!"boolean `{b}`"
  | .integer n => s!"integer `{n}`"
  | .real x => s!"floating point `{Text.floatText x}`"
  | .string s => s!"string {Text.quoted s}"
  | .array => "sequence"
  | .object => "map"

/-- Why a value cannot be read. -/
inductive Fault
  | malformed (m : Malformation)
  | wrongType (found : Found) (expected : String)
  | wrongValue (found : Found) (expected : String)
  | wrongLength (length : Nat) (expected : String)
  | unknownVariant (name : String) (known : List String)
  | missingMember (name : String)
  | repeatedMember (name : String)
  | base64 (fault : Base64.Fault)

/-- The names that were possible, in backticks. -/
def alternatives (known : List String) : String :=
  match known.map fun name => s!"`{name}`" with
  | [] => "there are no variants"
  | [a] => s!"expected {a}"
  | [a, b] => s!"expected {a} or {b}"
  | names => "expected one of " ++ String.intercalate ", " names

def Fault.message : Fault → String
  | .malformed m => m.message
  | .wrongType found expected => s!"invalid type: {found.describe}, expected {expected}"
  | .wrongValue found expected => s!"invalid value: {found.describe}, expected {expected}"
  | .wrongLength length expected => s!"invalid length {length}, expected {expected}"
  | .unknownVariant name known => s!"unknown variant `{name}`, {alternatives known}"
  | .missingMember name => s!"missing field `{name}`"
  | .repeatedMember name => s!"duplicate field `{name}`"
  | .base64 fault => fault.message

instance : Coe Malformation Fault := ⟨.malformed⟩

end Manuscript.Json
