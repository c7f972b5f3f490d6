import Apidoc.Json.Numeral
import Apidoc.Text.Split
import Apidoc.Table

/-!
# Reading JSON

A text is read as far as it makes sense.  What was read is a `Json.Node`; where the text stops
being JSON stands `unreadable`, or a list or object that is `cut`.  A node so tells which of two
faults of a text comes first: one in its syntax or one in what it says.

* `Json.read`            the node at the start of a text, and whether only blanks follow it;
* `Json.Node.value?`     the value of a node, if all of it is readable;
* `Json.value?`          the value that a text writes.

Of two entries of one key the later one counts.
-/

namespace Apidoc.Json

open Text (isAsciiDigit)

inductive Node where
  | unreadable
  | null
  | bool (b : Bool)
  | number (x : Numeral)
  /-- a text, `none` if half of a surrogate pair is missing; keys likewise -/
  | text (s : Option (List Char))
  | list (items : List Node) (cut : Bool)
  | object (entries : List (Option (List Char) × Node)) (cut : Bool)
deriving Inhabited

/-! ## texts -/

def isBlank (c : Char) : Bool := c == ' ' || c == '\n' || c == '\t' || c == '\r'

def skipBlanks (s : List Char) : List Char := s.dropWhile isBlank

def hexValue? (c : Char) : Option Nat :=
  if '0' ≤ c ∧ c ≤ '9' then some (c.toNat - '0'.toNat)
  else if 'a' ≤ c ∧ c ≤ 'f' then some (c.toNat - 'a'.toNat + 10)
  else if 'A' ≤ c ∧ c ≤ 'F' then some (c.toNat - 'A'.toNat + 10)
  else none

/-- the value of hexadecimal digits -/
def hexValues? (ds : List Char) : Option Nat :=
  ds.foldlM (fun n c => (hexValue? c).map (16 * n + ·)) 0

/-- what stands for itself, or is written by one letter, after a backslash -/
def simpleEscape? (c : Char) : Option Char :=
  match c with
  | '"' => some '"'
  | '\\' => some '\\'
  | '/' => some '/'
  | 'b' => some '\x08'
  | 'f' => some '\x0c'
  | 'n' => some '\n'
  | 'r' => some '\r'
  | 't' => some '\t'
  | _ => none

/-- a character of a text, or a 16-bit unit of one -/
inductive Piece where
  | char (c : Char)
  | unit (n : Nat)
deriving DecidableEq, Repr

/-- the pieces of a text up to its closing quotation mark, and what follows -/
def readPieces? : List Char → Option (List Piece × List Char)
  | [] => none
  | '"' :: s => some ([], s)
  | '\\' :: 'u' :: a :: b :: c :: d :: s => do
    let n ← hexValues? [a, b, c, d]
    let (ps, rest) ← readPieces? s
    some (.unit n :: ps, rest)
  | '\\' :: c :: s => do
    let e ← simpleEscape? c
    let (ps, rest) ← readPieces? s
    some (.char e :: ps, rest)
  | c :: s =>
    if c.toNat < 0x20 then none
    else do
      let (ps, rest) ← readPieces? s
      some (.char c :: ps, rest)

/-- the characters of the pieces: two units that form a surrogate pair are one character, and
half of a pair is none -/
def pieceChars? : List Piece → Option (List Char)
  | [] => some []
  | .char c :: ps => (pieceChars? ps).map (c :: ·)
  | .unit n :: ps =>
    if 0xD800 ≤ n ∧ n < 0xDC00 then
      match ps with
      | .unit m :: ps =>
        if 0xDC00 ≤ m ∧ m < 0xE000 then
          (pieceChars? ps).map (.ofNat (0x10000 + (n - 0xD800) * 0x400 + (m - 0xDC00)) :: ·)
        else none
      | _ => none
    else if 0xDC00 ≤ n ∧ n < 0xE000 then none
    else (pieceChars? ps).map (.ofNat n :: ·)

/-! ## nodes -/

/-- reads past a word such as `null` -/
def word (w : String) (n : Node) (s : List Char) : Node × Option (List Char) :=
  match Text.dropStart? w.toList s with
  | some rest => (n, some rest)
  | none => (.unreadable, none)

mutual

/-- The node at the start of a text without leading blanks, and what follows it; nothing
follows a node that is not readable to its end.  The number bounds the calls. -/
def node : Nat → List Char → Node × Option (List Char)
  | 0, _ => (.unreadable, none)
  | fuel + 1, s =>
    match s with
    | [] => (.unreadable, none)
    | '"' :: s =>
      match readPieces? s with
      | some (ps, rest) => (.text (pieceChars? ps), some rest)
      | none => (.unreadable, none)
    | '[' :: s =>
      let (items, rest) := match skipBlanks s with
        | ']' :: s => ([], some s)
        | s => items fuel s
      (.list items rest.isNone, rest)
    | '{' :: s =>
      let (entries, rest) := match skipBlanks s with
        | '}' :: s => ([], some s)
        | s => entries fuel s
      (.object entries rest.isNone, rest)
    | 'n' :: _ => word "null" .null s
    | 't' :: _ => word "true" (.bool true) s
    | 'f' :: _ => word "false" (.bool false) s
    | _ =>
      match Numeral.read? s with
      | some (x, rest) => (.number x, some rest)
      | none => (.unreadable, none)

/-- the items of a list up to its bracket -/
def items : Nat → List Char → List Node × Option (List Char)
  | 0, _ => ([], none)
  | fuel + 1, s =>
    match node fuel s with
    | (n, none) => ([n], none)
    | (n, some s) =>
      match skipBlanks s with
      | ']' :: s => ([n], some s)
      | ',' :: s =>
        match skipBlanks s with
        | ']' :: _ => ([n], none)
        | s =>
          let (ns, rest) := items fuel s
          (n :: ns, rest)
      | _ => ([n], none)

/-- the entries of an object up to its brace -/
def entries : Nat → List Char → List (Option (List Char) × Node) × Option (List Char)
  | 0, _ => ([], none)
  | fuel + 1, s =>
    match s with
    | '"' :: s =>
      match readPieces? s with
      | none => ([], none)
      | some (ps, s) =>
        let k := pieceChars? ps
        match skipBlanks s with
        | ':' :: s =>
          match node fuel (skipBlanks s) with
          | (n, none) => ([(k, n)], none)
          | (n, some s) =>
            match skipBlanks s with
            | '}' :: s => ([(k, n)], some s)
            | ',' :: s =>
              let (es, rest) := entries fuel (skipBlanks s)
              ((k, n) :: es, rest)
            | _ => ([(k, n)], none)
        | _ => ([(k, .unreadable)], none)
    | _ => ([], none)

end

/-- the node that a text holds, and whether nothing but blanks follows it -/
def read (s : List Char) : Node × Bool :=
  match node (2 * s.length + 2) (skipBlanks s) with
  | (n, none) => (n, false)
  | (n, some rest) => (n, (skipBlanks rest).isEmpty)

/-! ## values -/

mutual

def Node.value? : Node → Option Value
  | .unreadable => none
  | .null => some .null
  | .bool b => some (.bool b)
  | .number x => x.value?
  | .text s => s.map fun s => .text (.ofList s)
  | .list ns cut => if cut then none else (values? ns).map .list
  | .object es cut => if cut then none else (bindings? es).map fun bs => .ofTable (.ofList bs)

def values? : List Node → Option (List Value)
  | [] => some []
  | n :: ns => do
    let v ← n.value?
    let vs ← values? ns
    some (v :: vs)

def bindings? : List (Option (List Char) × Node) → Option (List (String × Value))
  | [] => some []
  | (k, n) :: es => do
    let k ← k
    let v ← n.value?
    let bs ← bindings? es
    some ((.ofList k, v) :: bs)

end

def value? (s : String) : Option Value :=
  match read s.toList with
  | (n, true) => n.value?
  | (_, false) => none

end Apidoc.Json
