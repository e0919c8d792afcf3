import Manuscript.Text.CharSet

/-!
# Blank characters and trimming

A character is blank when it has the property White_Space. Trimming drops the blank
characters at both ends of a text and nothing else.
-/

namespace Manuscript.Text

/-- The characters with the property White_Space. -/
def blanks : CharSet :=
  [(0x09, 0x0D), (0x20, 0x20), (0x85, 0x85), (0xA0, 0xA0), (0x1680, 0x1680), (0x2000, 0x200A),
    (0x2028, 0x2029), (0x202F, 0x202F), (0x205F, 0x205F), (0x3000, 0x3000)]

def isBlank (c : Char) : Bool :=
  blanks.has c

def trimEnd (cs : List Char) : List Char :=
  (cs.reverse.dropWhile isBlank).reverse

def trim (cs : List Char) : List Char :=
  trimEnd (cs.dropWhile isBlank)

end Manuscript.Text
