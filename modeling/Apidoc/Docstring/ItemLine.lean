import Apidoc.DataType.Token
import Apidoc.Docstring.Constraint
import Apidoc.Docstring.Item
import Apidoc.Docstring.LogicalLine
import Apidoc.Text.Case

/-!
# The lines of a section

An item is declared by a logical line such as

    name (type) -- Required. The description. minimum: 1

in which only the name is needed.  A status code is declared in an `Errors` section by

    404 (type) -- The description.

in which only the type may be missing.  In both the closing parenthesis may be missing: the type
then ends at the last two dashes that can begin the description, and for an item, whose
description may be missing, it is preferred that all of the line is the type.

* `ItemLine.read?`, `ErrorLine.read?`   the parts of a line;
* `ItemLine.toItem`, `ErrorLine.toItem`   the item that a line declares;
* `items`, `errorItems`   the items of a section; a line that is not well-formed declares none,
  but counts for the order of those after it.

A logical line has no line feed, so the rest of a line is all of the rest.
-/

namespace Apidoc

open Text (isBlank isWord isDigit trim dropWord?)

/-! ## types in parentheses -/

def isParenthesis (c : Char) : Bool := c == '(' || c == ')'

/-- blanks and an opening parenthesis; the text up to the next parenthesis, and what follows -/
def openType? (s : List Char) : Option (List Char × List Char) :=
  if s.head?.any isBlank then
    match s.dropWhile isBlank with
    | '(' :: r => some (r.takeWhile (!isParenthesis ·), r.dropWhile (!isParenthesis ·))
    | _ => none
  else none

def skipClosing : List Char → List Char
  | ')' :: s => s
  | s => s

/-- the parts around the last two dashes with a good continuation -/
def lastDashes? (good : List Char → Bool) : List Char → Option (List Char × List Char)
  | [] => none
  | c :: s =>
    match lastDashes? good s with
    | some (a, b) => some (c :: a, b)
    | none =>
      match c, s with
      | '-', '-' :: r => if good r then some ([], r) else none
      | _, _ => none

def startsBlank (s : List Char) : Bool := s.head?.any isBlank

/-! ## items -/

inductive Marker where
  | required
  | optional
deriving DecidableEq, Repr

structure ItemLine where
  name : List Char
  /-- empty where no type is written -/
  type : List Char
  marker : Option Marker
  description : List Char
deriving DecidableEq, Repr

namespace ItemLine

def isNameChar (c : Char) : Bool := isWord c || c == '.' || c == '-'

/-- a marker in any case with a full stop, and the description -/
def readMarker (s : List Char) : Option Marker × List Char :=
  match dropWord? "required.".toList s with
  | some r => (some .required, r)
  | none =>
    match dropWord? "optional.".toList s with
    | some r => (some .optional, r)
    | none => (none, s)

/-- what follows the two dashes: nothing, or blanks and a description -/
def readDescription? (s : List Char) : Option (Option Marker × List Char) :=
  if s.isEmpty then some (none, [])
  else if startsBlank s then some (readMarker (s.dropWhile isBlank))
  else none

/-- what follows the name and the type: nothing, or two dashes and a description -/
def readTail? (s : List Char) : Option (Option Marker × List Char) :=
  match s.dropWhile isBlank with
  | [] => some (none, [])
  | '-' :: '-' :: r => readDescription? r
  | _ => none

/-- what follows the name: the type, the marker and the description -/
def readParts? (s : List Char) : Option (List Char × Option Marker × List Char) :=
  match openType? s with
  | none => (readTail? s).map fun tail => ([], tail)
  | some (type, rest) =>
    match readTail? (skipClosing rest) with
    | some tail => some (type, tail)
    | none => do
      let (type, more) ← lastDashes? startsBlank type
      let tail ← readDescription? (more ++ rest)
      some (type, tail)

/-- The name is as long as possible.  Dashes at its end are the separator if nothing else makes
sense. -/
def read? (s : List Char) : Option ItemLine :=
  let name := s.takeWhile isNameChar
  let rest := s.dropWhile isNameChar
  if !name.head?.any isWord then none
  else
    match readParts? rest with
    | some (type, marker, description) => some ⟨name, type, marker, description⟩
    | none => do
      let name ← Text.dropEnd? ['-', '-'] name
      if !startsBlank rest then none
      let (marker, description) ← readDescription? rest
      some ⟨name, [], marker, description⟩

/-- whether an item is required: a path parameter always, a body field unless it is marked as
optional, all others only if they are marked as required -/
def isRequired (place : Place) (marker : Option Marker) : Bool :=
  match place with
  | .path => true
  | .body => marker != some .optional
  | _ => marker == some .required

/-- the type of an item without one; a response without a type has no content -/
def usualType (place : Place) : List Char :=
  match place with
  | .response => []
  | _ => "string".toList

def toItem (l : ItemLine) (place : Place) (order : Nat) : Item :=
  let (description, constraints) := splitConstraints (trim l.description)
  let token := trim l.type
  { name := .ofList l.name
    type := DataType.ofToken (if token.isEmpty then usualType place else token) constraints
    place
    required := isRequired place l.marker
    description
    order }

end ItemLine

/-- the items that the lines of a section declare -/
def items (place : Place) (buffer : List Char) : List Item :=
  (logicalLines buffer).zipIdx.filterMap fun (line, order) =>
    (ItemLine.read? line).map (·.toItem place order)

theorem items_eq_filterMap (place : Place) (buffer : List Char) :
    items place buffer = (logicalLines buffer).zipIdx.filterMap fun l =>
      (ItemLine.read? l.1).map (·.toItem place l.2) := rfl

/-! ## errors -/

structure ErrorLine where
  /-- digits, or the word `default` in small letters -/
  code : List Char
  type : List Char
  description : List Char
deriving DecidableEq, Repr

namespace ErrorLine

def defaultCode : List Char := "default".toList

def readCode? (s : List Char) : Option (List Char × List Char) :=
  let ds := s.takeWhile isDigit
  if ds.isEmpty then (dropWord? defaultCode s).map fun r => (defaultCode, r)
  else some (ds, s.dropWhile isDigit)

/-- two dashes and the description -/
def readTail? (s : List Char) : Option (List Char) :=
  match s.dropWhile isBlank with
  | '-' :: '-' :: r => some (trim r)
  | _ => none

def readParts? (s : List Char) : Option (List Char × List Char) :=
  match openType? s with
  | none => (readTail? s).map fun d => ([], d)
  | some (type, rest) =>
    match readTail? (skipClosing rest) with
    | some d => some (type, d)
    | none => (lastDashes? (fun _ => true) type).map fun (type, more) =>
      (type, trim (more ++ rest))

def read? (s : List Char) : Option ErrorLine := do
  let (code, rest) ← readCode? s
  let (type, description) ← readParts? rest
  some ⟨code, type, description⟩

/-- an error is never required, and its description has no annotations -/
def toItem (l : ErrorLine) (order : Nat) : Item :=
  { name := .ofList l.code
    type := DataType.ofToken l.type ∅
    place := .response
    required := false
    description := .ofList l.description
    order }

end ErrorLine

/-- the responses that the lines of an `Errors` section declare -/
def errorItems (buffer : List Char) : List Item :=
  (logicalLines buffer).zipIdx.filterMap fun (line, order) =>
    (ErrorLine.read? line).map (·.toItem order)

end Apidoc
