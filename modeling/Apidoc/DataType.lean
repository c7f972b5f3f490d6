import Apidoc.Schema

/-!
# Types of data

The types that documented items have, each with the annotations declared for it.

* `Atom`         the types without parts;
* `DataType`     atoms, arrays, and combinations of types;
* `isAbsent`, `isPrimitive`, `model?`, `fileType?`   what kind of type it is;
* `schema?`      the schema of the data that has the type;
* `encode`       the type as a value.
-/

namespace Apidoc

/-- how a combination relates to its parts -/
inductive Operator where
  | anyOf
  | allOf
  | oneOf
  | not
deriving DecidableEq, Repr

def Operator.name : Operator → String
  | .anyOf => "anyOf"
  | .allOf => "allOf"
  | .oneOf => "oneOf"
  | .not => "not"

inductive Atom where
  /-- no data at all -/
  | absent
  | boolean
  | integer (format : Option String)
  | number (format : Option String)
  | string (format : Option String)
  | file (contentType : Option String)
  /-- one of some texts -/
  | enumeration (values : List String)
  /-- a type that is defined elsewhere, by a model with this name -/
  | model (name : String)
deriving DecidableEq, Repr

inductive DataType where
  | atom (a : Atom) (constraints : Constraints)
  | array (items : DataType) (constraints : Constraints)
  | combine (op : Operator) (types : List DataType) (constraints : Constraints)

namespace DataType

/-! ## kinds -/

def constraints : DataType → Constraints
  | atom _ c => c
  | array _ c => c
  | combine _ _ c => c

def absent : DataType := .atom .absent ∅

instance : Inhabited DataType := ⟨absent⟩

def isAbsent : DataType → Bool
  | atom .absent _ => true
  | _ => false

/-- the types of data that is a single plain text -/
def isPrimitive : DataType → Bool
  | atom .boolean _ => true
  | atom (.integer _) _ => true
  | atom (.number _) _ => true
  | atom (.string _) _ => true
  | atom (.enumeration _) _ => true
  | _ => false

def model? : DataType → Option String
  | atom (.model name) _ => some name
  | _ => none

/-- the content type of files without one of their own -/
def defaultFileType : String := "application/octet-stream"

/-- the content type of a file -/
def fileType? : DataType → Option String
  | atom (.file t) _ => some (t.getD defaultFileType)
  | _ => none

/-- a short name for the type -/
def name : DataType → String
  | atom .absent _ => "None"
  | atom .boolean _ => "boolean"
  | atom (.integer _) _ => "integer"
  | atom (.number _) _ => "number"
  | atom (.string _) _ => "string"
  | atom (.file _) _ => "file"
  | atom (.enumeration _) _ => "string"
  | atom (.model name) _ => name
  | array _ _ => "array"
  | combine op _ _ => op.name

/-! ## schemas -/

/-- the schema of an atom without annotations -/
def atomSchema? : Atom → Option Schema
  | .absent => none
  | .boolean => some (.typed "boolean" none)
  | .integer format => some (.typed "integer" format)
  | .number format => some (.typed "number" format)
  | .string format => some (.typed "string" format)
  | .file _ => some (.typed "string" (some "binary"))
  | .enumeration values => some { type := some "string", enumeration := some values }
  | .model name => some (.model name)

/-- the schema of a combination; several types can only be negated together -/
def combination (op : Operator) (ss : List Schema) : Schema :=
  match op with
  | .anyOf => { anyOf := some ss }
  | .allOf => { allOf := some ss }
  | .oneOf => { oneOf := some ss }
  | .not =>
    match ss with
    | [s] => { negated := some s }
    | ss => { negated := some { anyOf := some ss } }

mutual

/-- The schema of a type; only the absent type has none.  A model is referred to by its name
alone, all other schemas carry the annotations of the type. -/
def schema? : DataType → Option Schema
  | atom (.model name) _ => some (.model name)
  | atom a c => (atomSchema? a).map (·.withConstraints c)
  | array t c =>
    some (Schema.withConstraints { type := some "array", items := some ((schema? t).getD {}) } c)
  | combine op ts c => some ((combination op (schemas ts)).withConstraints c)

/-- the schemas of those types that have one -/
def schemas : List DataType → List Schema
  | [] => []
  | t :: ts =>
    match schema? t with
    | some s => s :: schemas ts
    | none => schemas ts

end

/-! ## values -/

/-- the name of a kind of atom, and what belongs to the kind -/
def encodeAtom : Atom → List (String × Value)
  | .absent => [("kind", .text "none")]
  | .boolean => [("kind", .text "boolean")]
  | .integer f => ("kind", .text "integer") :: Value.maybe "format" (f.map .text)
  | .number f => ("kind", .text "number") :: Value.maybe "format" (f.map .text)
  | .string f => ("kind", .text "string") :: Value.maybe "format" (f.map .text)
  | .file t => ("kind", .text "file") :: Value.maybe "contentType" (t.map .text)
  | .enumeration vs => [("kind", .text "enum"), ("values", .texts vs)]
  | .model name => [("kind", .text "model"), ("name", .text name)]

/-- annotations, if there are any -/
def encodeConstraints (c : Constraints) : List (String × Value) :=
  Value.maybe "constraints" (if c.isEmpty then none else some (.ofTable c))

mutual

def encode : DataType → Value
  | atom a c => .object (encodeAtom a ++ encodeConstraints c)
  | array t c =>
    .object (("kind", .text "array") :: ("items", encode t) :: encodeConstraints c)
  | combine op ts c =>
    .object (("kind", .text "combine") :: ("op", .text op.name)
      :: ("types", .list (encodeItems ts)) :: encodeConstraints c)

def encodeItems : List DataType → List Value
  | [] => []
  | t :: ts => encode t :: encodeItems ts

end

end DataType

end Apidoc
