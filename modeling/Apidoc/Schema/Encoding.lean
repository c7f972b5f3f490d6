import Apidoc.Schema

/-!
# Schemas as values

* `Schema.encode`     the object with one entry for each keyword of a schema: the keywords with
  fields in their order, then the others in key order;
* `Schema.decode?`    the schema that an object describes.  A keyword that is null is not there;
  one whose value is of the wrong kind spoils the whole object.
-/

namespace Apidoc.Schema

/-! ## writing -/

mutual

def encode : Schema → Value
  | ⟨type, format, description, properties, required, items, enumeration, reference, allOf, anyOf,
      oneOf, negated, extra⟩ =>
    .object <|
      Value.maybe "type" (type.map .text)
        ++ Value.maybe "format" (format.map .text)
        ++ Value.maybe "description" (description.map .text)
        ++ Value.maybe "properties" (encodeProperties? properties)
        ++ Value.maybe "required" (required.map .texts)
        ++ Value.maybe "items" (encode? items)
        ++ Value.maybe "enum" (enumeration.map .texts)
        ++ Value.maybe "$ref" (reference.map .text)
        ++ Value.maybe "allOf" (encodeList? allOf)
        ++ Value.maybe "anyOf" (encodeList? anyOf)
        ++ Value.maybe "oneOf" (encodeList? oneOf)
        ++ Value.maybe "not" (encode? negated)
        ++ extra.entries

def encode? : Option Schema → Option Value
  | none => none
  | some s => some (encode s)

def encodeList? : Option (List Schema) → Option Value
  | none => none
  | some ss => some (.list (encodeItems ss))

def encodeItems : List Schema → List Value
  | [] => []
  | s :: ss => encode s :: encodeItems ss

def encodeProperties? : Option (List (String × Schema)) → Option Value
  | none => none
  | some ps => some (.object (encodeEntries ps))

def encodeEntries : List (String × Schema) → List (String × Value)
  | [] => []
  | (k, s) :: ps => (k, encode s) :: encodeEntries ps

end

/-! ## reading -/

/-- null means that there is no value -/
def unlessNull {α : Type} (f : Value → Option α) : Value → Option (Option α)
  | .null => some none
  | v => (f v).map some

def texts? : Value → Option (List String)
  | .list vs => vs.mapM Value.text?
  | _ => none

mutual

def decode? : Value → Option Schema
  | .object es => decodeEntries? es
  | _ => none

/-- a schema from its entries -/
def decodeEntries? : List (String × Value) → Option Schema
  | [] => some {}
  | (k, v) :: es => do
    let s ← decodeEntries? es
    if k = "type" then some { s with type := ← unlessNull Value.text? v }
    else if k = "format" then some { s with format := ← unlessNull Value.text? v }
    else if k = "description" then some { s with description := ← unlessNull Value.text? v }
    else if k = "properties" then some { s with properties := ← properties? v }
    else if k = "required" then some { s with required := ← unlessNull texts? v }
    else if k = "items" then some { s with items := ← schema? v }
    else if k = "enum" then some { s with enumeration := ← unlessNull texts? v }
    else if k = "$ref" then some { s with reference := ← unlessNull Value.text? v }
    else if k = "allOf" then some { s with allOf := ← schemas? v }
    else if k = "anyOf" then some { s with anyOf := ← schemas? v }
    else if k = "oneOf" then some { s with oneOf := ← schemas? v }
    else if k = "not" then some { s with negated := ← schema? v }
    else some { s with extra := s.extra.insert k v }

/-- a schema, or none for null -/
def schema? : Value → Option (Option Schema)
  | .null => some none
  | .object es => (decodeEntries? es).map some
  | _ => none

def schemas? : Value → Option (Option (List Schema))
  | .null => some none
  | .list vs => (decodeItems? vs).map some
  | _ => none

def decodeItems? : List Value → Option (List Schema)
  | [] => some []
  | v :: vs => do
    let s ← decode? v
    let ss ← decodeItems? vs
    some (s :: ss)

def properties? : Value → Option (Option (List (String × Schema)))
  | .null => some none
  | .object es => (decodeProperties? es).map fun ps => some (Table.ofList ps).entries
  | _ => none

def decodeProperties? : List (String × Value) → Option (List (String × Schema))
  | [] => some []
  | (k, v) :: es => do
    let s ← decode? v
    let ps ← decodeProperties? es
    some ((k, s) :: ps)

end

end Apidoc.Schema
