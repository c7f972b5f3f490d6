import Apidoc.Yaml.Spot

/-!
# Reading scalars

The three ways of writing a text over several lines:

* `readPlain`    words without quotation marks, up to a mark of YAML or a lesser indent;
* `readQuoted`   in single or double quotes;
* `readBlock`    a literal or folded block after `|` or `>`.

Each reads from the spot after its opening mark (`readPlain`: from its first spot) and returns
the text with the spots after it, or nothing when the scalar is not well-formed.

Line ends inside plain and quoted scalars are folded (`fold`): one becomes a space, and of
several the first is dropped.
-/

namespace Apidoc.Yaml

open Spots

/-! ## folding -/

/-- what a run of blanks and line ends inside a scalar stands for: without line ends the blanks
themselves; blanks beside a line end are dropped -/
def fold (blanks breaks : List Char) : List Char :=
  match breaks with
  | [] => blanks
  | ['\n'] => [' ']
  | '\n' :: bs => bs
  | bs => bs

/-- The blanks before the first line end and the line ends of a run, and the spots after it.  A
tab in front of column `indent` on a new line is an error. -/
def readGap (indent : Nat) (newLine : Bool) : Spots → Option (List Char × List Char × Spots)
  | [] => some ([], [], [])
  | s :: r =>
    if isBreak s.char then do
      let (_, bs, rest) ← readGap indent true r
      some ([], s.char :: bs, rest)
    else if isSpaceOrTab s.char then
      if newLine then
        if s.char == '\t' && s.column < indent then none else readGap indent true r
      else do
        let (ws, bs, rest) ← readGap indent false r
        some (s.char :: ws, bs, rest)
    else some ([], [], s :: r)

/-! ## plain scalars -/

def flowMarks : List Char := [',', '[', ']', '{', '}']

/-- one word of a plain scalar; inside brackets a colon must not stand before a flow mark or a
question mark -/
def readWord (inBrackets : Bool) : Spots → Option (List Char × Spots)
  | [] => some ([], [])
  | s :: r =>
    if isSpaceOrTab s.char || isBreak s.char then some ([], s :: r)
    else if inBrackets && s.char == ':' && startsWithAny r ('?' :: flowMarks) then none
    else if s.char == ':' && atWordEnd r then some ([], s :: r)
    else if inBrackets && flowMarks.contains s.char then some ([], s :: r)
    else do
      let (w, rest) ← readWord inBrackets r
      some (s.char :: w, rest)

/-- a scalar that was read, the spots after it, and whether a line end was passed after its
last word -/
structure PlainScalar where
  text : List Char
  rest : Spots
  newLine : Bool

/-- Word after word; `gap` is what stands between the last word and this place.  The first
number bounds the words. -/
def readWords (inBrackets : Bool) (indent : Nat) :
    Nat → List Char → Bool → Spots → Option PlainScalar
  | 0, _, _, _ => none
  | fuel + 1, gap, newLine, s =>
    if atMarker s || startsWith s '#' then some ⟨[], s, newLine⟩
    else do
      let (w, rest) ← readWord inBrackets s
      let text := if w.isEmpty then [] else gap ++ w
      let newLine := newLine && w.isEmpty
      if rest.isEmpty || !atWordEnd rest then return ⟨text, rest, newLine⟩
      let (blanks, breaks, after) ← readGap indent newLine rest
      let newLine := newLine || !breaks.isEmpty
      if !inBrackets && column after < indent then return ⟨text, after, newLine⟩
      let more ← readWords inBrackets indent fuel (fold blanks breaks) newLine after
      return ⟨text ++ more.text, more.rest, more.newLine⟩

def readPlain (inBrackets : Bool) (indent : Nat) (s : Spots) : Option PlainScalar :=
  readWords inBrackets indent (s.length + 1) [] false s

/-! ## quoted scalars -/

/-- how a run of characters in quotes ends -/
inductive RunEnd where
  /-- at the closing quote, which is passed -/
  | closed
  /-- at a blank or a line end -/
  | blank
  /-- at a line end after a backslash, which is passed and stands for nothing -/
  | joined
deriving DecidableEq

def hexDigits? (s : Spots) (n : Nat) : Option (Nat × Spots) :=
  if s.length < n then none
  else (Plain.natural? 16 (chars (s.take n))).map fun v => (v, s.drop n)

/-- the character with a code that belongs to a character -/
def charOf? (n : Nat) : Option Char :=
  if n < 0xD800 ∨ (0xE000 ≤ n ∧ n < 0x110000) then some (.ofNat n) else none

/-- the character that a letter after a backslash stands for -/
def escaped? (c : Char) : Option Char :=
  match c with
  | '0' => some '\x00'
  | 'a' => some '\x07'
  | 'b' => some '\x08'
  | 't' => some '\t'
  | '\t' => some '\t'
  | 'n' => some '\n'
  | 'v' => some '\x0b'
  | 'f' => some '\x0c'
  | 'r' => some '\r'
  | 'e' => some '\x1b'
  | ' ' => some ' '
  | '"' => some '"'
  | '/' => some '/'
  | '\\' => some '\\'
  | 'N' => some '\u0085'
  | '_' => some '\u00A0'
  | 'L' => some '\u2028'
  | 'P' => some '\u2029'
  | _ => none

/-- the number of hexadecimal digits after `x`, `u` and `U` -/
def hexWidth? (c : Char) : Option Nat :=
  if c = 'x' then some 2 else if c = 'u' then some 4 else if c = 'U' then some 8 else none

/-- the character that an escape stands for, and the spots after it -/
def readEscape? : Spots → Option (Char × Spots)
  | [] => none
  | s :: r =>
    match hexWidth? s.char with
    | some n => do
      let (v, rest) ← hexDigits? r n
      some (← charOf? v, rest)
    | none => (escaped? s.char).map fun c => (c, r)

/-- the characters up to a blank, a line end or the closing quote -/
def readRun (double : Bool) : Nat → Spots → Option (List Char × RunEnd × Spots)
  | 0, _ => none
  | _ + 1, [] => some ([], .blank, [])
  | fuel + 1, s :: r =>
    let go (c : Char) (rest : Spots) : Option (List Char × RunEnd × Spots) := do
      let (cs, e, rest) ← readRun double fuel rest
      some (c :: cs, e, rest)
    if isSpaceOrTab s.char || isBreak s.char then some ([], .blank, s :: r)
    else if double then
      if s.char == '"' then some ([], .closed, r)
      else if s.char == '\\' then
        match r with
        | b :: r' =>
          if isBreak b.char then some ([], .joined, r')
          else do
            let (c, rest) ← readEscape? r
            go c rest
        | [] => none
      else go s.char r
    else if s.char == '\'' then
      match r with
      | q :: r' => if q.char == '\'' then go '\'' r' else some ([], .closed, r)
      | [] => some ([], .closed, r)
    else go s.char r

/-- run after run; a document marker at the start of a line, or the end of the text, is an
error -/
def readRuns (double : Bool) : Nat → Spots → Option (List Char × Spots)
  | 0, _ => none
  | fuel + 1, s =>
    if atMarker s || s.isEmpty then none
    else do
      let (cs, e, rest) ← readRun double (s.length + 1) s
      match e with
      | .closed => some (cs, rest)
      | .blank =>
        let (blanks, breaks, after) ← readGap 0 false rest
        let (more, rest) ← readRuns double fuel after
        some (cs ++ fold blanks breaks ++ more, rest)
      | .joined =>
        let (_, breaks, after) ← readGap 0 true rest
        let (more, rest) ← readRuns double fuel after
        some (cs ++ breaks ++ more, rest)

def readQuoted (double : Bool) (s : Spots) : Option (List Char × Spots) :=
  readRuns double (s.length + 1) s

/-! ## block scalars -/

/-- which of the line ends after the last line count -/
inductive Chomp where
  | strip
  | clip
  | keep
deriving DecidableEq

def chompOf? (c : Char) : Option Chomp :=
  if c = '-' then some .strip else if c = '+' then some .keep else none

/-- a digit other than zero; zero is an error -/
def indentOf? (c : Char) : Option (Option Nat) :=
  if '1' ≤ c ∧ c ≤ '9' then some (some (c.toNat - '0'.toNat))
  else if c = '0' then none else some none

/-- the sign and the digit after `|` or `>`, in either order -/
def readBlockHead (s : Spots) : Option (Chomp × Option Nat × Spots) := do
  match s with
  | [] => some (.clip, none, [])
  | a :: r =>
    match chompOf? a.char with
    | some chomp =>
      match r with
      | [] => some (chomp, none, [])
      | b :: r' =>
        match ← indentOf? b.char with
        | some n => some (chomp, some n, r')
        | none => some (chomp, none, r)
    | none =>
      match ← indentOf? a.char with
      | none => some (.clip, none, s)
      | some n =>
        match r with
        | [] => some (.clip, some n, [])
        | b :: r' =>
          match chompOf? b.char with
          | some chomp => some (chomp, some n, r')
          | none => some (.clip, some n, r)

/-- The line ends of empty lines, the greatest column that their spaces reach, and the spots
after them.  With `indent` zero all leading spaces are passed.  A tab among them is an error. -/
def readEmptyLines (indent : Nat) : Spots → Option (List Char × Nat × Spots)
  | [] => some ([], 0, [])
  | s :: r =>
    if s.char == ' ' && (indent == 0 || s.column < indent) then do
      let (bs, n, rest) ← readEmptyLines indent r
      some (bs, max n (s.column + 1), rest)
    else if s.char == '\t' && (indent == 0 || s.column < indent) then none
    else if isBreak s.char then do
      let (bs, n, rest) ← readEmptyLines indent r
      some (s.char :: bs, max n s.column, rest)
    else some ([], s.column, s :: r)

/-- the rest of a line, its line end, and the spots after that -/
def readLine : Spots → List Char × List Char × Spots
  | [] => ([], [], [])
  | s :: r =>
    if isBreak s.char then ([], [s.char], r)
    else
      let (cs, b, rest) := readLine r
      (s.char :: cs, b, rest)

/-- The lines of a block that stand at column `indent`.  `lineEnd` and `empty` are the line ends
since the last line, `blank` says whether that line started with a blank. -/
def readBlockLines (folded : Bool) (chomp : Chomp) (indent : Nat) :
    Nat → List Char → List Char → Bool → Spots → Option (List Char × Spots)
  | 0, _, _, _, _ => none
  | fuel + 1, lineEnd, empty, blank, s =>
    if s.isEmpty || column s != indent then
      let tail := match chomp with
        | .strip => []
        | .clip => lineEnd
        | .keep => lineEnd ++ empty
      some (tail, s)
    else do
      let startsBlank := s.head?.any fun s => isSpaceOrTab s.char
      let lead :=
        if folded && lineEnd.head? == some '\n' && !blank && !startsBlank then
          (if empty.isEmpty then [' '] else []) ++ empty
        else lineEnd ++ empty
      let (cs, lineEnd, rest) := readLine s
      let (empty, _, rest) ← readEmptyLines indent rest
      let (more, rest) ← readBlockLines folded chomp indent fuel lineEnd empty startsBlank rest
      some (lead ++ cs ++ more, rest)

/-- A block scalar after its mark, inside a block whose indent is `parent` (less than zero at
the top).  Without a digit its indent is that of its first line that is not empty. -/
def readBlock (folded : Bool) (parent : Int) (s : Spots) : Option (List Char × Spots) := do
  let (chomp, digit, s) ← readBlockHead s
  let s := skipBlanks s
  let s := if startsWith s '#' then skipComment s else s
  if !atLineEnd s then none
  let s := s.tail
  let fixed := match digit with
    | some n => (if 0 ≤ parent then parent.toNat + n else n)
    | none => 0
  let (empty, deepest, rest) ← readEmptyLines fixed s
  let indent := if fixed = 0 then max deepest (max (parent + 1).toNat 1) else fixed
  readBlockLines folded chomp indent (s.length + 1) [] empty false rest

end Apidoc.Yaml
