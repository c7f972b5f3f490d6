import Apidoc.Json.Node
import Apidoc.Yaml.Node

/-!
# Sources

A source is a text in JSON or YAML that was read as far as it makes sense, in a form that both
share.

* `Tree`             what the text says: leaves, lists and tables;
* `Tree.ofValue`     the tree of a value;
* `Source`           a tree, whether all of the text is in it, and what its aliases stand for;
* `Source.ofJson`, `Source.ofYaml`  the source that a text is.
-/

namespace Apidoc

/-- whether a leaf says that a value is left out -/
inductive Presence where
  | present
  | absent
  /-- it claims to be left out, but has a text -/
  | contradictory
deriving DecidableEq, Repr

inductive Tree where
  /-- here the text stops making sense -/
  | unreadable
  | alias (target : Nat)
  /-- `text` is what it means as a text, if it may be one; a `hollow` leaf also is an empty list
  and an empty table -/
  | leaf (text : Option String) (presence : Presence) (hollow : Bool)
  | list (items : List Tree) (cut : Bool)
  | table (entries : List (Tree × Tree)) (cut : Bool)
deriving Repr, Inhabited

namespace Tree

/-! ## from values -/

def ofText (s : String) : Tree := .leaf (some s) .present false

/-- a leaf that is no text -/
def other : Tree := .leaf none .present false

def null : Tree := .leaf none .absent false

mutual

def ofValue : Value → Tree
  | .null => null
  | .bool _ => other
  | .integer _ => other
  | .double _ => other
  | .text s => ofText s
  | .list vs => .list (ofValues vs) false
  | .object es => .table (ofEntries es) false

def ofValues : List Value → List Tree
  | [] => []
  | v :: vs => ofValue v :: ofValues vs

def ofEntries : List (String × Value) → List (Tree × Tree)
  | [] => []
  | (k, v) :: es => (ofText k, ofValue v) :: ofEntries es

end

theorem ofValues_eq_map (vs : List Value) : ofValues vs = vs.map ofValue := by
  induction vs with
  | nil => rfl
  | cons v vs ih => rw [ofValues, ih, List.map_cons]

/-! ## from JSON -/

/-- the leaf of a text in quotation marks -/
def ofChars? : Option (List Char) → Tree
  | some s => ofText (.ofList s)
  | none => other

mutual

def ofJson : Json.Node → Tree
  | .unreadable => .unreadable
  | .null => null
  | .bool _ => other
  | .number _ => other
  | .text s => ofChars? s
  | .list ns cut => .list (ofJsonItems ns) cut
  | .object es cut => .table (ofJsonEntries es) cut

def ofJsonItems : List Json.Node → List Tree
  | [] => []
  | n :: ns => ofJson n :: ofJsonItems ns

def ofJsonEntries : List (Option (List Char) × Json.Node) → List (Tree × Tree)
  | [] => []
  | (k, n) :: es => (ofChars? k, ofJson n) :: ofJsonEntries es

end

/-! ## from YAML -/

def nullTag : List Char := "tag:yaml.org,2002:null".toList

/-- Only plain scalars are left out: the words for null and the empty text.  With the tag for
null no other text makes sense, and any other tag means that the scalar is there. -/
def presence (tag : Option (List Char)) (plain : Bool) (s : List Char) : Presence :=
  if !plain then .present
  else
    match tag with
    | none => if s.isEmpty || Yaml.Plain.isNull s then .absent else .present
    | some t =>
      if t != nullTag then .present
      else if Yaml.Plain.isNull s then .absent else .contradictory

mutual

def ofYaml : Yaml.Node → Tree
  | .unreadable => .unreadable
  | .alias i => .alias i
  | .scalar _ tag plain s =>
    .leaf (some (.ofList s)) (presence tag plain s) (plain && s.isEmpty)
  | .list _ ns cut => .list (ofYamlItems ns) cut
  | .table _ es cut => .table (ofYamlEntries es) cut

def ofYamlItems : List Yaml.Node → List Tree
  | [] => []
  | n :: ns => ofYaml n :: ofYamlItems ns

def ofYamlEntries : List (Yaml.Node × Yaml.Node) → List (Tree × Tree)
  | [] => []
  | (k, n) :: es => (ofYaml k, ofYaml n) :: ofYamlEntries es

end

/-! ## what is passed over -/

mutual

/-- the tree makes sense to its end; what its aliases stand for does not count -/
def isReadable : Tree → Bool
  | .unreadable => false
  | .alias _ => true
  | .leaf _ _ _ => true
  | .list ts cut => areReadable ts && !cut
  | .table es cut => entriesReadable es && !cut

def areReadable : List Tree → Bool
  | [] => true
  | t :: ts => t.isReadable && areReadable ts

def entriesReadable : List (Tree × Tree) → Bool
  | [] => true
  | (k, v) :: es => k.isReadable && v.isReadable && entriesReadable es

end

end Tree

/-! ## sources -/

structure Source where
  root : Tree
  /-- the text says nothing more after the root -/
  complete : Bool
  /-- what the aliases stand for -/
  targets : List (Nat × Tree) := []
  /-- a list may stand for a record: its items are the fields in their order -/
  positional : Bool

namespace Source

def ofJson (s : List Char) : Source :=
  let (n, complete) := Json.read s
  { root := Tree.ofJson n, complete, positional := true }

def ofYaml (s : List Char) : Source :=
  let (n, complete) := Yaml.read s
  { root := Tree.ofYaml n
    complete
    targets := n.marked.reverse.map fun (i, n) => (i, Tree.ofYaml n)
    positional := false }

def ofValue (v : Value) : Source :=
  { root := Tree.ofValue v, complete := true, positional := true }

/-- the tree itself, or what it stands for as an alias -/
def follow (s : Source) : Tree → Tree
  | .alias i => (s.targets.lookup i).getD .unreadable
  | t => t

end Source

end Apidoc
