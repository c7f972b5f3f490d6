import Apidoc.Yaml.Plain

/-!
# How texts are written in YAML

A text is a scalar in one of four styles.  A text with a line feed is written as a literal block,
any other text plainly if it means itself when it is read back (`Plain.readsAsText`) and if no
mark of YAML stands in it, and else in single quotes.  What the chosen style cannot hold goes
into double quotes:

* a literal block holds no control character, no blank before a line end and no final blank;
* single quotes hold no control character and no blank beside a line end.

`Scalar.write indent s` is the text of a scalar whose further lines are indented by `indent`.
-/

namespace Apidoc.Yaml

/-! ## characters -/

/-- line feed, carriage return, next line, line and paragraph separator -/
def isBreak (c : Char) : Bool :=
  c == '\n' || c == '\r' || c == '\u0085' || c == '\u2028' || c == '\u2029'

/-- what may stand in a text as it is: line feeds and all but the controls, the byte order mark
and the two last codes of the first plane -/
def isPrintable (c : Char) : Bool :=
  let n := c.toNat
  n == 0x0A || (0x20 ≤ n && n ≤ 0x7E)
    || (0xA0 ≤ n && n != 0xFEFF && n != 0xFFFE && n != 0xFFFF)

def isSpaceOrTab (c : Char) : Bool := c == ' ' || c == '\t'

/-- what ends a word: a space, a tab, a line end or the end of the text -/
def endsWord : List Char → Bool
  | [] => true
  | c :: _ => isSpaceOrTab c || isBreak c || c == '\x00'

namespace Scalar

/-! ## what a text holds -/

/-- two neighbours with the given properties -/
def hasPair (p q : Char → Bool) (s : List Char) : Bool :=
  (s.zip s.tail).any fun (a, b) => p a && q b

def isSpace (c : Char) : Bool := c == ' '

def startsWith (p : Char → Bool) (s : List Char) : Bool := s.head?.any p
def endsWith (p : Char → Bool) (s : List Char) : Bool := s.getLast?.any p

def hasControl (s : List Char) : Bool := s.any fun c => !isPrintable c

/-- a mark of YAML after the first character: a colon at the end of a word, a number sign at
the start of one -/
def hasInnerMark : List Char → Bool
  | [] => false
  | [_] => false
  | a :: c :: s =>
    (c == ':' && endsWord s) || (c == '#' && endsWord [a]) || hasInnerMark (c :: s)

/-- a mark of YAML at the start -/
def hasLeadingMark : List Char → Bool
  | [] => false
  | c :: s =>
    "#,[]{}&*!|>'\"%@`".toList.contains c
      || ((c == '?' || c == ':' || c == '-') && endsWord s)
      || "---".toList.isPrefixOf (c :: s) || "...".toList.isPrefixOf (c :: s)

/-! ## styles -/

inductive Style where
  | plain
  | single
  | double
  | literal
deriving DecidableEq, Repr

def plainHolds (s : List Char) : Bool :=
  !(startsWith isSpace s || endsWith isSpace s || s.any isBreak || hasControl s
    || hasLeadingMark s || hasInnerMark s)

def singleHolds (s : List Char) : Bool :=
  !(hasControl s || hasPair isSpace isBreak s || hasPair isBreak isSpace s)

def literalHolds (s : List Char) : Bool :=
  !(hasControl s || hasPair isSpace isBreak s || endsWith isSpace s)

def style (s : List Char) : Style :=
  if s.contains '\n' then if literalHolds s then .literal else .double
  else if Plain.readsAsText s && plainHolds s then .plain
  else if singleHolds s then .single
  else .double

/-! ## writing -/

def indentation (n : Nat) : List Char := List.replicate n ' '

/-- The characters of a text over several lines; `fresh` says that a line starts here, which
gets its indent when something stands on it. -/
def writeLines (quote : Char → List Char) (indent : Nat) (fresh : Bool) : List Char → List Char
  | [] => []
  | c :: s =>
    if isBreak c then c :: writeLines quote indent true s
    else (if fresh then indentation indent else []) ++ quote c ++ writeLines quote indent false s

def hexDigit (n : Nat) : Char := "0123456789ABCDEF".toList.getD n '0'

/-- the last `width` hexadecimal digits of a number -/
def hex : Nat → Nat → List Char
  | 0, _ => []
  | width + 1, n => hex width (n / 16) ++ [hexDigit (n % 16)]

/-- the letter that writes a character after a backslash -/
def escapeLetter? (c : Char) : Option Char :=
  match c.toNat with
  | 0x00 => some '0'
  | 0x07 => some 'a'
  | 0x08 => some 'b'
  | 0x09 => some 't'
  | 0x0A => some 'n'
  | 0x0B => some 'v'
  | 0x0C => some 'f'
  | 0x0D => some 'r'
  | 0x1B => some 'e'
  | 0x22 => some '"'
  | 0x5C => some '\\'
  | 0x85 => some 'N'
  | 0x2028 => some 'L'
  | 0x2029 => some 'P'
  | _ => none

def writeEscaped (c : Char) : List Char :=
  if isPrintable c && !isBreak c && c != '"' && c != '\\' then [c]
  else
    match escapeLetter? c with
    | some e => ['\\', e]
    | none =>
      if c.toNat ≤ 0xFF then '\\' :: 'x' :: hex 2 c.toNat
      else if c.toNat ≤ 0xFFFF then '\\' :: 'u' :: hex 4 c.toNat
      else '\\' :: 'U' :: hex 8 c.toNat

def writeDouble (s : List Char) : List Char := '"' :: s.flatMap writeEscaped ++ ['"']

def writeSingle (indent : Nat) (s : List Char) : List Char :=
  '\'' :: writeLines (fun c => if c = '\'' then ['\'', '\''] else [c]) indent false s
    ++ (if endsWith isBreak s then indentation indent else []) ++ ['\'']

/-- a digit for the indent when the text starts with a space or a line end, and the sign for how
its last line ends: with `-` none, with `+` every line end counts -/
def literalHead (s : List Char) : List Char :=
  '|' :: (if startsWith (fun c => isSpace c || isBreak c) s then ['2'] else [])
    ++ match s.reverse with
      | [] => ['-']
      | [c] => if isBreak c then ['+'] else ['-']
      | c :: d :: _ => if isBreak c then (if isBreak d then ['+'] else []) else ['-']

def writeLiteral (indent : Nat) (s : List Char) : List Char :=
  literalHead s ++ '\n' :: writeLines (fun c => [c]) indent true s

def write (indent : Nat) (s : List Char) : List Char :=
  match style s with
  | .plain => s
  | .single => writeSingle indent s
  | .double => writeDouble s
  | .literal => writeLiteral indent s

end Scalar

end Apidoc.Yaml
