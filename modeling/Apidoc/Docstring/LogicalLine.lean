import Apidoc.Text.Line
import Apidoc.Text.Split

/-!
# Logical lines

The lines of a section are grouped into logical lines, one for each documented item.  A line with
`" -- "` in it begins a logical line, and so does the first line; all other lines continue the
one before.

* `startsItem`       whether a line begins a logical line;
* `blocks`           the lines in groups, each with its first line in front;
* `logicalLines`     the groups as single lines: trimmed and joined by spaces.
-/

namespace Apidoc

open Text (trim trimStart)

/-- what stands between an item and its description -/
def itemSeparator : List Char := " -- ".toList

def startsItem (line : List Char) : Bool := Text.contains itemSeparator (trimStart line)

/-- The continuations of the line before, and the groups after them. -/
def blocksAfter : List (List Char) → List (List Char) × List (List (List Char))
  | [] => ([], [])
  | l :: ls =>
    let (more, rest) := blocksAfter ls
    if startsItem l then ([], (l :: more) :: rest) else (l :: more, rest)

def blocks : List (List Char) → List (List (List Char))
  | [] => []
  | l :: ls => (l :: (blocksAfter ls).1) :: (blocksAfter ls).2

/-- the lines of a group on one line -/
def joinLines (ls : List (List Char)) : List Char := Text.joinWith [' '] (ls.map trim)

def logicalLines (buffer : List Char) : List (List Char) :=
  (blocks (Text.lines buffer)).map joinLines

end Apidoc
