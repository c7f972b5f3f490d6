import Apidoc.Json.Printer
import Apidoc.Yaml.Scalar

/-!
# Writing YAML

`Yaml.print` writes a value in block style: one entry or item a line, deeper by two spaces with
each object, a list in an entry as deep as the entry.  A list or object inside a list item starts
on the line of its dash.  A key with a line end or of more than 128 bytes is set off by a
question mark.  Empty lists and objects are written `[]` and `\x7b\x7d`.

All functions return whole lines: the text ends with a line break.
-/

namespace Apidoc.Yaml

open Scalar (indentation)

/-! ## scalars -/

/-- an exponent that is not negative has no sign -/
def numberLayout : NumberLayout := ⟨[]⟩

/-- `s` up to the start of a new line -/
def endLine (s : List Char) : List Char :=
  match s.getLast? with
  | some c => if isBreak c then s else s ++ ['\n']
  | none => ['\n']

/-- a value that is neither list nor object -/
def scalar (indent : Nat) : Value → List Char
  | .null => "null".toList
  | .bool true => "true".toList
  | .bool false => "false".toList
  | .integer n => Json.integer n
  | .double x => numberLayout.double x
  | .text s => Scalar.write indent s.toList
  | .list _ => []
  | .object _ => []

def longestKey : Nat := 128

/-- a key that stands before its colon on one line -/
def isSimpleKey (k : String) : Bool :=
  !k.toList.any isBreak && k.utf8ByteSize ≤ longestKey

/-! ## blocks -/

/-- the indent of a further line, when there is one -/
def nextIndent {α : Type} (n : Nat) (rest : List α) : List Char :=
  if rest.isEmpty then [] else indentation n

mutual

/-- a value after a mark at column `n` -/
def afterMark (n : Nat) : Value → List Char
  | .list vs => if vs.isEmpty then " []\n".toList else ' ' :: items (n + 2) vs
  | .object es => if es.isEmpty then " \x7b\x7d\n".toList else ' ' :: entries (n + 2) es
  | v => ' ' :: endLine (scalar (n + 2) v)

/-- a value after a key at column `n` and its colon -/
def afterKey (n : Nat) : Value → List Char
  | .list vs => if vs.isEmpty then " []\n".toList else '\n' :: indentation n ++ items n vs
  | .object es =>
    if es.isEmpty then " \x7b\x7d\n".toList
    else '\n' :: indentation (n + 2) ++ entries (n + 2) es
  | v => ' ' :: endLine (scalar (n + 2) v)

/-- the items of a list whose dashes stand at column `n`; the first one follows on the line -/
def items (n : Nat) : List Value → List Char
  | [] => []
  | v :: vs => '-' :: afterMark n v ++ nextIndent n vs ++ items n vs

/-- the entries of an object whose keys stand at column `n` -/
def entries (n : Nat) : List (String × Value) → List Char
  | [] => []
  | (k, v) :: es =>
    (if isSimpleKey k then Scalar.write (n + 2) k.toList ++ ':' :: afterKey n v
      else '?' :: ' ' :: endLine (Scalar.write (n + 2) k.toList) ++ indentation n
        ++ ':' :: afterMark n v)
      ++ nextIndent n es ++ entries n es

end

/-- the lines of a value that stands alone -/
def document : Value → List Char
  | .list vs => if vs.isEmpty then "[]\n".toList else items 0 vs
  | .object es => if es.isEmpty then "\x7b\x7d\n".toList else entries 0 es
  | v => endLine (scalar 2 v)

/-- the text of a value -/
def print (v : Value) : String := .ofList (document v)

end Apidoc.Yaml
