import Apidoc.Json.Printer
import Apidoc.Text.Split

/-!
# Schemas

A schema describes a kind of data by keywords, each with a field of its own; keywords without
one are kept in `extra`.

* `Schema.typed`, `Schema.model`, `Schema.object`   the three common forms;
* `withDescription`   describes a schema, unless the text is blank;
* `withConstraints`   adds annotations: `format`, `description` and `enum` go into their fields,
  keywords that make up the structure of a schema are passed over, all others are extra.
-/

namespace Apidoc

structure Schema where
  type : Option String := none
  format : Option String := none
  description : Option String := none
  /-- in key order -/
  properties : Option (List (String × Schema)) := none
  required : Option (List String) := none
  items : Option Schema := none
  enumeration : Option (List String) := none
  reference : Option String := none
  allOf : Option (List Schema) := none
  anyOf : Option (List Schema) := none
  oneOf : Option (List Schema) := none
  negated : Option Schema := none
  extra : Table Value := ∅
deriving Inhabited

/-- annotations: keywords with their values -/
abbrev Constraints := Table Value

namespace Schema

/-! ## forms -/

def typed (type : String) (format : Option String) : Schema :=
  { type := some type, format }

/-- where the schemas of models stand in a document -/
def referenceRoot : String := "#/components/schemas/"

def model (name : String) : Schema := { reference := some (referenceRoot ++ name) }

/-- an object; no property is named as required if none is -/
def object (properties : Table Schema) (required : List String) : Schema :=
  { type := some "object"
    properties := some properties.entries
    required := if required.isEmpty then none else some required }

/-! ## annotations -/

def withDescription (s : Schema) (text : String) : Schema :=
  let text := Text.trimmed text
  if text.isEmpty then s else { s with description := some text }

/-- the parts of a text between commas, trimmed -/
def commaParts (s : String) : List String :=
  (Text.splitOn ',' s.toList).map fun p => .ofList (Text.trim p)

/-- a text as it is, any other value as compact JSON -/
def enumerated (v : Value) : String :=
  match v with
  | .text s => s
  | v => .ofList (Json.compact v)

/-- the values that an `enum` annotation lists -/
def enumeration? : Value → Option (List String)
  | .text s => some (commaParts s)
  | .list vs => some (vs.map enumerated)
  | _ => none

/-- the keywords that make up the structure of a schema -/
def structural : List String :=
  ["type", "items", "$ref", "properties", "required", "allOf", "anyOf", "oneOf", "not"]

def withConstraint (s : Schema) (key : String) (v : Value) : Schema :=
  if key = "format" then { s with format := v.text?.or s.format }
  else if key = "description" then { s with description := v.text?.or s.description }
  else if key = "enum" then { s with enumeration := (enumeration? v).or s.enumeration }
  else if structural.contains key then s
  else { s with extra := s.extra.insert key v }

def withConstraints (s : Schema) (cs : Constraints) : Schema :=
  cs.entries.foldl (fun s (k, v) => s.withConstraint k v) s

end Schema

end Apidoc
