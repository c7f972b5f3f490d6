import Apidoc.Number.Double
import Apidoc.Table

/-!
# Values

The data that is written as JSON or YAML: null, truth values, integers, doubles, texts, lists
and objects.  The entries of an object stand in the order in which they are written; an object
that was read, or made from a table, has them in key order.

* `Value.ofTable`, `Value.texts`   values from tables and from lists of strings;
* `Value.maybe`                   an entry that is there only if its value is.
-/

namespace Apidoc

inductive Value where
  | null
  | bool (b : Bool)
  | integer (n : Int)
  | double (x : Double)
  | text (s : String)
  | list (items : List Value)
  | object (entries : List (String × Value))
deriving Repr, Inhabited

namespace Value

def text? : Value → Option String
  | .text s => some s
  | _ => none

def texts (ss : List String) : Value := .list (ss.map .text)

def ofTable (t : Table Value) : Value := .object t.entries

/-- the entry that binds `k` to a value, or no entry -/
def maybe (k : String) (v : Option Value) : List (String × Value) :=
  match v with
  | some v => [(k, v)]
  | none => []

/-- an entry with a list of texts, left out when the list is empty -/
def maybeTexts (k : String) (ss : List String) : List (String × Value) :=
  maybe k (if ss.isEmpty then none else some (texts ss))

end Value

end Apidoc
