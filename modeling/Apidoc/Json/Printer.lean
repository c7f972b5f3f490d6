import Apidoc.Number.Shortest
import Apidoc.Value

/-!
# Writing JSON

* `Json.quote`     a text in quotation marks;
* `Json.pretty`    a value over several lines, two spaces deeper with each list or object;
* `Json.compact`   a value on one line without spaces.

An empty list or object is written `[]` or `\x7b\x7d` on the line it stands in.
-/

namespace Apidoc.Json

/-! ## texts and numbers -/

/-- one digit of base 16 -/
def hexDigit (n : Nat) : Char := "0123456789abcdef".toList.getD n '0'

/-- a character inside quotation marks: the short escapes, `\u00XX` for the other control
characters, and all else as it is -/
def quoteChar (c : Char) : List Char :=
  if c = '"' then ['\\', '"']
  else if c = '\\' then ['\\', '\\']
  else if c = '\n' then ['\\', 'n']
  else if c = '\r' then ['\\', 'r']
  else if c = '\t' then ['\\', 't']
  else if c = '\x08' then ['\\', 'b']
  else if c = '\x0c' then ['\\', 'f']
  else if c.toNat < 0x20 then
    ['\\', 'u', '0', '0', hexDigit (c.toNat / 16), hexDigit (c.toNat % 16)]
  else [c]

def quote (s : List Char) : List Char := '"' :: s.flatMap quoteChar ++ ['"']

/-- an exponent that is not negative has a plus sign -/
def numberLayout : NumberLayout := ⟨['+']⟩

def integer (n : Int) : List Char :=
  if n < 0 then '-' :: Nat.toDigits 10 n.natAbs else Nat.toDigits 10 n.natAbs

/-! ## values -/

/-- a line break and the indent of the given depth -/
def newline (depth : Nat) : List Char := '\n' :: List.replicate (2 * depth) ' '

mutual

def pretty (depth : Nat) : Value → List Char
  | .null => "null".toList
  | .bool true => "true".toList
  | .bool false => "false".toList
  | .integer n => integer n
  | .double x => numberLayout.double x
  | .text s => quote s.toList
  | .list [] => ['[', ']']
  | .list (v :: vs) =>
    '[' :: newline (depth + 1) ++ pretty (depth + 1) v ++ prettyItems (depth + 1) vs
      ++ newline depth ++ [']']
  | .object [] => ['{', '}']
  | .object ((k, v) :: es) =>
    '{' :: newline (depth + 1) ++ quote k.toList ++ ':' :: ' ' :: pretty (depth + 1) v
      ++ prettyEntries (depth + 1) es ++ newline depth ++ ['}']

/-- the items after the first -/
def prettyItems (depth : Nat) : List Value → List Char
  | [] => []
  | v :: vs => ',' :: newline depth ++ pretty depth v ++ prettyItems depth vs

/-- the entries after the first -/
def prettyEntries (depth : Nat) : List (String × Value) → List Char
  | [] => []
  | (k, v) :: es =>
    ',' :: newline depth ++ quote k.toList ++ ':' :: ' ' :: pretty depth v
      ++ prettyEntries depth es

end

mutual

def compact : Value → List Char
  | .null => "null".toList
  | .bool true => "true".toList
  | .bool false => "false".toList
  | .integer n => integer n
  | .double x => numberLayout.double x
  | .text s => quote s.toList
  | .list [] => ['[', ']']
  | .list (v :: vs) => '[' :: compact v ++ compactItems vs ++ [']']
  | .object [] => ['{', '}']
  | .object ((k, v) :: es) =>
    '{' :: quote k.toList ++ ':' :: compact v ++ compactEntries es ++ ['}']

def compactItems : List Value → List Char
  | [] => []
  | v :: vs => ',' :: compact v ++ compactItems vs

def compactEntries : List (String × Value) → List Char
  | [] => []
  | (k, v) :: es => ',' :: quote k.toList ++ ':' :: compact v ++ compactEntries es

end

/-- the text of a value -/
def print (v : Value) : String := .ofList (pretty 0 v)

end Apidoc.Json
