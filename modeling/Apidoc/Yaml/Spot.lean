import Apidoc.Yaml.Scalar

/-!
# Texts with positions

YAML looks at lines and columns.  A text is read as a list of `Spot`s: characters that know
where they stand.  Every line end is a single spot, a line feed unless it is a line or paragraph
separator.

* `spots?`           the spots of a text, if all its characters may stand in YAML; a byte order
  mark at the start is left out;
* `skipToToken`      the next spot that begins a token;
* `atMarker`         a line that starts with `---` or `...`, as a word of its own.
-/

namespace Apidoc.Yaml

structure Spot where
  char : Char
  line : Nat
  column : Nat
deriving Repr, Inhabited

abbrev Spots := List Spot

/-! ## from characters -/

/-- tab, line ends, and what is printable; of the controls only the next-line character -/
def isAllowed (c : Char) : Bool :=
  c == '\t' || c == '\r' || c == '\u0085' || isPrintable c

/-- every line end but the two separators becomes a line feed -/
def joinBreaks : List Char → List Char
  | [] => []
  | '\r' :: '\n' :: s => '\n' :: joinBreaks s
  | c :: s => (if c == '\r' || c == '\u0085' then '\n' else c) :: joinBreaks s

def locate (line column : Nat) : List Char → Spots
  | [] => []
  | c :: s =>
    ⟨c, line, column⟩ :: if isBreak c then locate (line + 1) 0 s else locate line (column + 1) s

def byteOrderMark : Char := '\uFEFF'

def spots? (s : List Char) : Option Spots :=
  let s := match s with
    | c :: r => if c = byteOrderMark then r else s
    | [] => []
  if s.all isAllowed then some (locate 0 0 (joinBreaks s)) else none

/-! ## looking ahead -/

namespace Spots

def chars (s : Spots) : List Char := s.map Spot.char

/-- the first character is `c` -/
def startsWith (s : Spots) (c : Char) : Bool := s.head?.any (·.char == c)

/-- the first character is one of `cs` -/
def startsWithAny (s : Spots) (cs : List Char) : Bool := s.head?.any (cs.contains ·.char)

/-- a space, a tab, a line end or the end of the text comes first -/
def atWordEnd : Spots → Bool
  | [] => true
  | s :: _ => isSpaceOrTab s.char || isBreak s.char

def atLineEnd : Spots → Bool
  | [] => true
  | s :: _ => isBreak s.char

/-- the column of the first spot; the end of the text counts as the start of a line -/
def column (s : Spots) : Nat := (s.head?.map Spot.column).getD 0

/-- three times `c` as a word at the start of a line -/
def atTriple (c : Char) : Spots → Bool
  | a :: b :: d :: s =>
    a.column == 0 && a.char == c && b.char == c && d.char == c && atWordEnd s
  | _ => false

def atMarker (s : Spots) : Bool := atTriple '-' s || atTriple '.' s

/-! ## between tokens -/

/-- up to the line end -/
def skipComment : Spots → Spots
  | [] => []
  | s :: r => if isBreak s.char then s :: r else skipComment r

def skipBlanks : Spots → Spots
  | [] => []
  | s :: r => if isSpaceOrTab s.char then skipBlanks r else s :: r

/-- The next spot that is neither blank nor in a comment.  A tab counts as blank only inside
brackets or where no key may start.  Outside brackets a key may start on every new line, which
the second result says. -/
def skipToToken (inBrackets : Bool) (keyAllowed inComment : Bool) : Spots → Spots × Bool
  | [] => ([], keyAllowed)
  | s :: r =>
    if isBreak s.char then skipToToken inBrackets (keyAllowed || !inBrackets) false r
    else if inComment then skipToToken inBrackets keyAllowed true r
    else if s.char == ' ' || (s.char == '\t' && (inBrackets || !keyAllowed)) then
      skipToToken inBrackets keyAllowed false r
    else if s.char == '#' then skipToToken inBrackets keyAllowed true r
    else (s :: r, keyAllowed)

end Spots

end Apidoc.Yaml
