import Apidoc.Yaml.Fold

/-!
# Tokens of YAML

The tokens of a text are found one after the other, by a scanner that keeps the indents of the
open blocks and, for every open bracket, the token that may turn out to be a key.

* `Token`            what a text is made of;
* `Scanner`          the text that is left, and what has to be known about the text before;
* `Scanner.fetch`    the scanner after the next token, or nothing where the text is not YAML;
* `tokens`           all tokens up to the end of the text, or up to `Token.unreadable`.

A text is a key when a colon follows it on the same line.  So a token that may be a key is held
back until this is known, and it is lost when the text turns out to be unreadable before.
-/

namespace Apidoc.Yaml

open Spots

inductive Token where
  | streamEnd
  | versionDirective (major minor : Nat)
  | tagDirective (handle expansion : List Char)
  | documentStart
  | documentEnd
  | blockListStart
  | blockTableStart
  | blockEnd
  | bracketOpen
  | bracketClose
  | braceOpen
  | braceClose
  | blockItem
  | comma
  | key
  | value
  | alias (name : List Char)
  | anchor (name : List Char)
  | tag (handle suffix : List Char)
  | scalar (plain : Bool) (text : List Char)
  | unreadable
deriving DecidableEq, Repr, Inhabited

/-! ## names and tags -/

def isNameChar (c : Char) : Bool :=
  Text.isAsciiDigit c || Text.isAsciiLetter c || c == '_' || c == '-'

def readName (s : Spots) : List Char × Spots :=
  (chars (s.takeWhile (isNameChar ·.char)), s.dropWhile (isNameChar ·.char))

/-- the name of an anchor or alias; a blank, a line end or one of a few marks follows it -/
def readAnchor? (s : Spots) : Option (List Char × Spots) :=
  let (name, rest) := readName s
  if name.isEmpty then none
  else if atWordEnd rest || startsWithAny rest ['?', ':', ',', ']', '}', '%', '@', '\x60'] then
    some (name, rest)
  else none

def isUriChar (verbatim : Bool) (c : Char) : Bool :=
  isNameChar c || ";/?:@&=+$.!~*'()".toList.contains c
    || (verbatim && [',', '[', ']'].contains c)

/-- the octet that two hexadecimal digits after a percent sign write -/
def readOctet? : Spots → Option (Nat × Spots)
  | s :: r => if s.char == '%' then hexDigits? r 2 else none
  | [] => none

/-- the number of octets that follow the first octet of a character -/
def octetsAfter? (n : Nat) : Option Nat :=
  if n < 0x80 then some 0
  else if 0xC0 ≤ n ∧ n < 0xE0 then some 1
  else if 0xE0 ≤ n ∧ n < 0xF0 then some 2
  else if 0xF0 ≤ n ∧ n < 0xF8 then some 3
  else none

/-- `n` further octets of a character, each kept as a character of its own -/
def readOctets? : Nat → Spots → Option (List Char × Spots)
  | 0, s => some ([], s)
  | n + 1, s => do
    let (o, s) ← readOctet? s
    if o / 0x40 ≠ 2 then none
    let (cs, s) ← readOctets? n s
    some (.ofNat o :: cs, s)

/-- the characters of a tag and the spots after them; the first number bounds the steps -/
def readUri? (verbatim : Bool) : Nat → Spots → Option (List Char × Spots)
  | 0, _ => none
  | _ + 1, [] => some ([], [])
  | fuel + 1, s :: r =>
    if s.char == '%' then do
      let (o, rest) ← readOctet? (s :: r)
      let (cs, rest) ← readOctets? (← octetsAfter? o) rest
      let (more, rest) ← readUri? verbatim fuel rest
      some (.ofNat o :: cs ++ more, rest)
    else if isUriChar verbatim s.char then do
      let (more, rest) ← readUri? verbatim fuel r
      some (s.char :: more, rest)
    else some ([], s :: r)

def uri? (verbatim : Bool) (s : Spots) : Option (List Char × Spots) :=
  readUri? verbatim (s.length + 1) s

/-- an exclamation mark, a name, and perhaps a second exclamation mark -/
def readHandle? : Spots → Option (List Char × Spots)
  | [] => none
  | s :: r =>
    if s.char != '!' then none
    else
      let (name, rest) := readName r
      match rest with
      | e :: rest' =>
        if e.char == '!' then some ('!' :: name ++ ['!'], rest') else some ('!' :: name, rest)
      | [] => some ('!' :: name, [])

/-- a handle that stands between two exclamation marks -/
def isNamedHandle (handle : List Char) : Bool :=
  handle.length > 1 && handle.getLast? == some '!'

/-- A tag: `!<uri>`, `!handle!suffix`, `!suffix`, or a single exclamation mark, which has an
empty handle. -/
def readTag? (inBrackets : Bool) (s : Spots) : Option (Token × Spots) := do
  let (token, rest) ←
    if startsWith s.tail '<' then do
      let (uri, rest) ← uri? true (s.drop 2)
      if uri.isEmpty || !startsWith rest '>' then none
      some (Token.tag [] uri, rest.tail)
    else do
      let (handle, rest) ← readHandle? s
      if isNamedHandle handle then
        let (suffix, rest) ← uri? false rest
        if suffix.isEmpty then none
        some (Token.tag handle suffix, rest)
      else
        let (more, rest) ← uri? false rest
        let suffix := handle.tail ++ more
        some (if suffix.isEmpty then Token.tag [] ['!'] else Token.tag ['!'] suffix, rest)
  if atWordEnd rest || (inBrackets && startsWith rest ',') then some (token, rest) else none

/-! ## directives -/

/-- a number of at most nine digits -/
def readVersionNumber? (s : Spots) : Option (Nat × Spots) :=
  let ds := s.takeWhile (Text.isAsciiDigit ·.char)
  if ds.isEmpty || ds.length > 9 then none
  else some (digitsValue (chars ds), s.drop ds.length)

def readVersion? (s : Spots) : Option (Token × Spots) := do
  let (major, s) ← readVersionNumber? s
  if !startsWith s '.' then none
  let (minor, s) ← readVersionNumber? s.tail
  some (.versionDirective major minor, s)

def readTagDirective? (s : Spots) : Option (Token × Spots) := do
  let (handle, s) ← readHandle? s
  if handle.length > 1 && handle.getLast? != some '!' then none
  if !startsWithAny s [' ', '\t'] then none
  let (expansion, s) ← uri? true (skipBlanks s)
  if expansion.isEmpty || !atWordEnd s then none
  some (.tagDirective handle expansion, s)

/-- a directive after its percent sign, up to the line end, which is passed -/
def readDirective? (s : Spots) : Option (Token × Spots) := do
  let (name, s) := readName s
  if name.isEmpty || !atWordEnd s then none
  let s := skipBlanks s
  let (token, s) ←
    if name == "YAML".toList then readVersion? s
    else if name == "TAG".toList then readTagDirective? s
    else none
  let s := skipBlanks s
  let s := if startsWith s '#' then skipComment s else s
  if !atLineEnd s then none
  some (token, s.tail)

/-! ## the scanner -/

/-- a token that may turn out to be a key -/
structure Candidate where
  /-- at this place nothing but a key may stand -/
  required : Bool
  /-- how many tokens stand before it -/
  number : Nat
  line : Nat
  column : Nat
deriving DecidableEq, Repr

structure Scanner where
  rest : Spots
  /-- the candidate at the present depth of brackets -/
  candidate : Option Candidate := none
  /-- the candidates outside the open brackets, innermost first -/
  outer : List (Option Candidate) := []
  /-- the column of the innermost open block, -1 outside of all -/
  indent : Int := -1
  indents : List Int := []
  keyAllowed : Bool := true
  /-- how many tokens have been given out -/
  released : Nat := 0
  queue : List Token := []

namespace Scanner

def inBrackets (s : Scanner) : Bool := !s.outer.isEmpty

def candidates (s : Scanner) : List Candidate := (s.candidate :: s.outer).filterMap id

/-- puts a token at the end of the queue -/
def push (s : Scanner) (t : Token) : Scanner := { s with queue := s.queue ++ [t] }

/-- goes on at `rest` -/
def goTo (s : Scanner) (rest : Spots) : Scanner := { s with rest }

/-- a key is written on one line, with at most 1024 characters up to its colon -/
def longestKeyDistance : Nat := 1024

/-- whether the candidate can no longer be a key at the present place -/
def isStale (s : Scanner) (c : Candidate) : Bool :=
  match s.rest with
  | [] => true
  | p :: _ => c.line < p.line || c.column + longestKeyDistance < p.column

/-- forgets the candidates that can no longer be keys -/
def expire? (s : Scanner) : Option Scanner :=
  let stale (c : Option Candidate) : Option Candidate := c.filter (!s.isStale ·)
  if s.candidates.any fun c => c.required && s.isStale c then none
  else some { s with candidate := stale s.candidate, outer := s.outer.map stale }

/-- forgets the candidate of the present depth -/
def dropCandidate? (s : Scanner) : Option Scanner :=
  if s.candidate.any (·.required) then none else some { s with candidate := none }

/-- makes the token that comes next a candidate, where a key may stand -/
def noteCandidate? (s : Scanner) : Option Scanner :=
  if !s.keyAllowed then some s
  else do
    let line := (s.rest.head?.map Spot.line).getD 0
    let c : Candidate :=
      { required := !s.inBrackets && s.indent == (column s.rest : Int)
        number := s.released + s.queue.length
        line := line
        column := column s.rest }
    let s ← s.dropCandidate?
    some { s with candidate := some c }

/-- the ends of all blocks that are deeper than `column`, and the indents that stay -/
def closeBlocks (column : Int) : Int → List Int → List Token × Int × List Int
  | i, [] => ([], i, [])
  | i, j :: js =>
    if column < i then
      let (ts, k, ks) := closeBlocks column j js
      (.blockEnd :: ts, k, ks)
    else ([], i, j :: js)

/-- closes the blocks that are deeper than `column` -/
def unroll (s : Scanner) (column : Int) : Scanner :=
  if s.inBrackets then s
  else
    let (ts, indent, indents) := closeBlocks column s.indent s.indents
    { s with queue := s.queue ++ ts, indent, indents }

/-- opens a block at `column` if it is deeper than the open ones; its start is put in front of
the token with the given number -/
def roll (s : Scanner) (column : Nat) (number : Nat) (start : Token) : Scanner :=
  if s.inBrackets || (column : Int) ≤ s.indent then s
  else
    { s with
      indent := column
      indents := s.indent :: s.indents
      queue := s.queue.insertIdx (number - s.released) start }

/-- the number that the next token will have -/
def nextNumber (s : Scanner) : Nat := s.released + s.queue.length

/-! ## one token -/

/-- a mark of one character; a key may follow if `keyAllowed` -/
def fetchMark (s : Scanner) (t : Token) (keyAllowed : Bool) : Scanner :=
  ({ s with keyAllowed }.push t).goTo s.rest.tail

def fetchEnd? (s : Scanner) : Option Scanner := do
  let s ← (s.unroll (-1)).dropCandidate?
  some ({ s with keyAllowed := false }.push .streamEnd)

def fetchDirective? (s : Scanner) : Option Scanner := do
  let s ← (s.unroll (-1)).dropCandidate?
  let (t, rest) ← readDirective? s.rest.tail
  some (({ s with keyAllowed := false }.push t).goTo rest)

/-- a line of three dashes or dots -/
def fetchMarker? (s : Scanner) (t : Token) : Option Scanner := do
  let s ← (s.unroll (-1)).dropCandidate?
  some (({ s with keyAllowed := false }.push t).goTo (s.rest.drop 3))

def fetchOpen? (s : Scanner) (t : Token) : Option Scanner := do
  let s ← s.noteCandidate?
  some ({ s with candidate := none, outer := s.candidate :: s.outer }.fetchMark t true)

def fetchClose? (s : Scanner) (t : Token) : Option Scanner := do
  let s ← s.dropCandidate?
  let s := match s.outer with
    | c :: cs => { s with candidate := c, outer := cs }
    | [] => s
  some (s.fetchMark t false)

def fetchComma? (s : Scanner) : Option Scanner := do
  let s ← s.dropCandidate?
  some (s.fetchMark .comma true)

/-- the start of a block at the present column, if none is open there -/
def openBlock? (s : Scanner) (start : Token) : Option Scanner :=
  if s.inBrackets then some s
  else if s.keyAllowed then some (s.roll (column s.rest) s.nextNumber start)
  else none

def fetchItem? (s : Scanner) : Option Scanner := do
  let s ← (← s.openBlock? .blockListStart).dropCandidate?
  some (s.fetchMark .blockItem true)

def fetchKey? (s : Scanner) : Option Scanner := do
  let s ← (← s.openBlock? .blockTableStart).dropCandidate?
  some (s.fetchMark .key (!s.inBrackets))

/-- a colon, which makes the candidate a key -/
def fetchValue? (s : Scanner) : Option Scanner := do
  match s.candidate with
  | some c =>
    let s := { s with
      candidate := none
      queue := s.queue.insertIdx (c.number - s.released) .key }
    some ((s.roll c.column c.number .blockTableStart).fetchMark .value false)
  | none =>
    let s ← s.openBlock? .blockTableStart
    some (s.fetchMark .value (!s.inBrackets))

/-- an alias, an anchor or a tag, which may begin a key -/
def fetchWord? (s : Scanner) (read : Spots → Option (Token × Spots)) : Option Scanner := do
  let s ← s.noteCandidate?
  let (t, rest) ← read s.rest
  some (({ s with keyAllowed := false }.push t).goTo rest)

def fetchBlock? (s : Scanner) (folded : Bool) : Option Scanner := do
  let s ← s.dropCandidate?
  let (text, rest) ← readBlock folded s.indent s.rest.tail
  some (({ s with keyAllowed := true }.push (.scalar false text)).goTo rest)

def fetchQuoted? (s : Scanner) (double : Bool) : Option Scanner :=
  s.fetchWord? fun spots => do
    let (text, rest) ← readQuoted double spots.tail
    some (.scalar false text, rest)

def fetchPlain? (s : Scanner) : Option Scanner := do
  let s ← s.noteCandidate?
  let p ← readPlain s.inBrackets (s.indent + 1).toNat s.rest
  some (({ s with keyAllowed := p.newLine }.push (.scalar true p.text)).goTo p.rest)

/-- the marks that do not begin a plain scalar -/
def marks : List Char :=
  ['-', '?', ':', ',', '[', ']', '{', '}', '#', '&', '*', '!', '|', '>', '\'', '"', '%', '@',
   '\x60']

def startsPlain (inBrackets : Bool) : Spots → Bool
  | [] => false
  | c :: r =>
    (!marks.contains c.char && !atWordEnd (c :: r))
      || (c.char == '-' && !startsWithAny r [' ', '\t'])
      || (!inBrackets && (c.char == '?' || c.char == ':') && !atWordEnd r)

/-- the scanner after the token that begins at its place -/
def fetchHere? (s : Scanner) : Option Scanner :=
  match s.rest with
  | [] => s.fetchEnd?
  | c :: r =>
    let wordEnd := atWordEnd r
    if c.column == 0 && c.char == '%' then s.fetchDirective?
    else if atTriple '-' s.rest then s.fetchMarker? .documentStart
    else if atTriple '.' s.rest then s.fetchMarker? .documentEnd
    else if c.char == '[' then s.fetchOpen? .bracketOpen
    else if c.char == '{' then s.fetchOpen? .braceOpen
    else if c.char == ']' then s.fetchClose? .bracketClose
    else if c.char == '}' then s.fetchClose? .braceClose
    else if c.char == ',' then s.fetchComma?
    else if c.char == '-' && wordEnd then s.fetchItem?
    else if c.char == '?' && (s.inBrackets || wordEnd) then s.fetchKey?
    else if c.char == ':' && (s.inBrackets || wordEnd) then s.fetchValue?
    else if c.char == '*' then
      s.fetchWord? fun p => (readAnchor? p.tail).map fun (n, rest) => (.alias n, rest)
    else if c.char == '&' then
      s.fetchWord? fun p => (readAnchor? p.tail).map fun (n, rest) => (.anchor n, rest)
    else if c.char == '!' then s.fetchWord? (readTag? s.inBrackets)
    else if c.char == '|' && !s.inBrackets then s.fetchBlock? false
    else if c.char == '>' && !s.inBrackets then s.fetchBlock? true
    else if c.char == '\'' then s.fetchQuoted? false
    else if c.char == '"' then s.fetchQuoted? true
    else if startsPlain s.inBrackets s.rest then s.fetchPlain?
    else none

/-- goes to the next token and reads it -/
def fetch? (s : Scanner) : Option Scanner := do
  let (rest, keyAllowed) := skipToToken s.inBrackets s.keyAllowed false s.rest
  let s ← ({ s with rest, keyAllowed }).expire?
  (s.unroll (column s.rest)).fetchHere?

/-! ## all tokens -/

/-- the token at the head of the queue may turn out to be a key -/
def isHeld (s : Scanner) : Bool := s.candidates.any (·.number == s.released)

def run : Nat → Scanner → List Token
  | 0, _ => [.unreadable]
  | fuel + 1, s =>
    let next (s : Scanner) : List Token := match s.fetch? with
      | some s => run fuel s
      | none => [.unreadable]
    match s.queue with
    | [] => next s
    | t :: ts =>
      match s.expire? with
      | none => [.unreadable]
      | some s =>
        if s.isHeld then next s
        else if t = .streamEnd then [t]
        else t :: run fuel { s with queue := ts, released := s.released + 1 }

end Scanner

/-- The tokens of a text.  Each character begins at most one token, with a key, the start and
the end of a block beside it, so the number of steps suffices. -/
def tokens (s : List Char) : List Token :=
  match spots? s with
  | some spots => Scanner.run (8 * spots.length + 8) { rest := spots }
  | none => [.unreadable]

end Apidoc.Yaml
