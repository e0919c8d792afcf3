import Manuscript.Document.Basic
import Manuscript.Document.Twips

/-!
# The numbering of lists

Six levels: numbers, letters in parentheses, and numbers again that start half an inch further in for
every level.
-/

namespace Manuscript.Numbering

def listName : String := "ordered"

/-- The deepest level of the numbering; deeper lists share it. -/
def deepest : UInt32 := 5

/-- The spacing of the first two levels: 0.139 in after a paragraph, lines of 0.1919 in. -/
def topSpacing : Spacing :=
  { after := 200, line := 276 }

/-- The first level starts half an inch in and hangs by 0.35 in. -/
def firstLevel : NumberingLevel :=
  { level := 0
    format := .decimal
    text := "%1."
    alignment := .start
    indent := { start := 720, hanging := some 504 }
    spacing := some topSpacing }

/-- The second level starts 0.81 in in and hangs by 0.31 in. -/
def secondLevel : NumberingLevel :=
  { level := 1
    format := .lowerLetter
    text := "(%2) "
    alignment := .start
    indent := { start := 1166, hanging := some 446 }
    spacing := some topSpacing }

def deepLevel (level : Nat) : NumberingLevel :=
  { level := UInt32.ofNat level
    format := .decimal
    text := s!"%{level + 1}."
    alignment := .start
    indent := { start := twipsOfHalfInches level }
    spacing := none }

def lists : Numbering :=
  { reference := listName
    levels := [firstLevel, secondLevel, deepLevel 2, deepLevel 3, deepLevel 4, deepLevel 5] }

end Manuscript.Numbering
