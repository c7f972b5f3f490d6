import Apidoc.Source.Tree

/-!
# Reading records

* `Fault`       why a source is not what it should be;
* `Reader`      reads a tree of a source: `text`, `optional`, `listOf`, `tableOf`;
* `Record`      the fields of a record: put together from `field` and `fieldOr`, and read with
  `Record.read`;
* `Source.decode`   reads all of a source.

Faults are found in the order of the text.  A field that is there twice is a fault at its second
key; a field that is missing is one at the end of the record, and of several the first counts.
Unknown fields are passed over.
-/

namespace Apidoc

inductive Fault where
  | missing (field : String)
  | duplicate (field : String)
  | malformed
deriving DecidableEq, Repr

abbrev Reader (α : Type) := Source → Tree → Except Fault α

namespace Reader

def text : Reader String := fun s t =>
  match s.follow t with
  | .leaf (some x) _ _ => .ok x
  | _ => .error .malformed

/-- nothing for a leaf that is left out -/
def optional {α : Type} (r : Reader α) : Reader (Option α) := fun s t =>
  match s.follow t with
  | .leaf _ .absent _ => .ok none
  | .leaf _ .contradictory _ => .error .malformed
  | t => (r s t).map some

def listOf {α : Type} (r : Reader α) : Reader (List α) := fun s t =>
  match s.follow t with
  | .list ts cut => do
    let xs ← ts.mapM (r s)
    if cut then .error .malformed else .ok xs
  | .leaf _ _ true => .ok []
  | _ => .error .malformed

/-- a table from texts; of two entries of one key the later one counts -/
def tableOf {α : Type} (r : Reader α) : Reader (Table α) := fun s t =>
  match s.follow t with
  | .table es cut => do
    let bs ← es.mapM fun (k, v) => do
      let k ← text s k
      let v ← r s v
      .ok (k, v)
    if cut then .error .malformed else .ok (.ofList bs)
  | .leaf _ _ true => .ok ∅
  | _ => .error .malformed

end Reader

/-! ## records -/

structure Record (α : Type) where
  /-- the names of the fields in their order -/
  names : List String
  /-- whether a tree can be read as the field with a name -/
  check : String → Source → Tree → Except Fault Unit
  /-- the record with the given fields -/
  build : Source → (String → Option Tree) → Except Fault α

namespace Record

/-- a field that must be there -/
def field {α : Type} (name : String) (r : Reader α) : Record α where
  names := [name]
  check _ s t := (r s t).map fun _ => ()
  build s found := match found name with
    | some t => r s t
    | none => .error (.missing name)

/-- a field that has a value when it is missing -/
def fieldOr {α : Type} (name : String) (default : α) (r : Reader α) : Record α where
  names := [name]
  check _ s t := (r s t).map fun _ => ()
  build s found := match found name with
    | some t => r s t
    | none => .ok default

instance : Applicative Record where
  pure x := { names := [], check := fun _ _ _ => .ok (), build := fun _ _ => .ok x }
  seq f x :=
    let x := x ()
    { names := f.names ++ x.names
      check := fun n => if f.names.contains n then f.check n else x.check n
      build := fun s found => do
        let g ← f.build s found
        let y ← x.build s found
        .ok (g y) }

variable {α : Type}

/-- the known fields of a table, each checked when it is met -/
def collect (r : Record α) (s : Source) (found : List (String × Tree)) :
    List (Tree × Tree) → Except Fault (List (String × Tree))
  | [] => .ok found
  | (k, v) :: es => do
    let name ← Reader.text s k
    if r.names.contains name then
      if (found.lookup name).isSome then .error (.duplicate name)
      else do
        r.check name s v
        collect r s ((name, v) :: found) es
    else if v.isReadable then collect r s found es
    else .error .malformed

/-- the fields that the items of a list are, each checked when it is met -/
def align (r : Record α) (s : Source) :
    List String → List Tree → Except Fault (List (String × Tree))
  | _, [] => .ok []
  | [], _ :: _ => .error .malformed
  | n :: ns, t :: ts => do
    r.check n s t
    let found ← align r s ns ts
    .ok ((n, t) :: found)

def read (r : Record α) : Reader α := fun s t =>
  match s.follow t with
  | .table es cut => do
    let found ← r.collect s [] es
    if cut then .error .malformed else r.build s (found.lookup ·)
  | .list ts cut => do
    if !s.positional then .error .malformed
    let found ← r.align s r.names ts
    if cut then .error .malformed
    (r.build s (found.lookup ·)).mapError fun _ => .malformed
  | .leaf _ _ true => r.build s fun _ => none
  | _ => .error .malformed

end Record

/-- what all of a source says -/
def Source.decode {α : Type} (s : Source) (r : Record α) : Except Fault α := do
  let x ← r.read s s.root
  if s.complete then .ok x else .error .malformed

end Apidoc
