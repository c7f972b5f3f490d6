import Apidoc.Text.Case
import Apidoc.Text.Split

/-!
# Paths

A path is a text with slashes between its steps.  Empty steps and steps of a single dot lead
nowhere, except for a dot at the start.

* `Path.steps`        the steps that lead somewhere;
* `Path.same`         whether two texts have the same steps;
* `Path.parent?`      the text up to the last step;
* `Path.hasExtension` whether the last step ends in a certain way.
-/

namespace Apidoc.Path

open Text (splitOn joinWith lowerAscii)

/-- the pieces between the slashes, from the last to the first -/
def backwards (path : String) : List (List Char) := (splitOn '/' path.toList).reverse

/-- drops the last pieces while they lead nowhere; the first piece counts if it is a dot -/
def dropIdle : List (List Char) → List (List Char)
  | [] => []
  | [p] => [p]
  | p :: ps => if p = [] ∨ p = ['.'] then dropIdle ps else p :: ps

/-- whether the path starts with a slash -/
def isAbsolute (path : String) : Bool := path.toList.head? == some '/'

def steps (path : String) : List String :=
  let (first, more) := match splitOn '/' path.toList with
    | [] => ([], [])
    | p :: ps => (p, ps)
  (if first.isEmpty then [] else [String.ofList first])
    ++ (more.filter fun p => p ≠ [] ∧ p ≠ ['.']).map String.ofList

def same (p q : String) : Bool := isAbsolute p == isAbsolute q && steps p == steps q

/-- the path without its last step, if it has one -/
def parent? (path : String) : Option String :=
  match dropIdle (backwards path) with
  | [] => none
  | [p] => if p.isEmpty then none else some ""
  | _ :: ps =>
    match dropIdle ps with
    | [[]] => some (if isAbsolute path then "/" else "")
    | ps => some (.ofList (joinWith ['/'] ps.reverse))

/-- the last step, unless it leads upwards -/
def name? (path : String) : Option (List Char) :=
  match dropIdle (backwards path) with
  | [] => none
  | p :: _ => if p = [] ∨ p = ['.'] ∨ p = ['.', '.'] then none else some p

/-- what follows the last dot of the name, unless the name begins with that dot -/
def extension? (path : String) : Option (List Char) := do
  let name ← name? path
  let r := name.reverse
  let ext := r.takeWhile (· ≠ '.')
  let stem := (r.drop ext.length).tail
  if stem.isEmpty then none else some ext.reverse

/-- the extension in any ASCII case -/
def hasExtension (path : String) (ext : String) : Bool :=
  (extension? path).any fun e => e.map lowerAscii == ext.toList.map lowerAscii

end Apidoc.Path
