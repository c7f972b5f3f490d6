import Apidoc.Docstring.Reading

/-!
# Documented models

* `ModelDoc`            a named model: its properties, and the models that it extends;
* `ModelDoc.ofText`     what a docstring says about a model;
* `ModelDoc.fragments`  the parts that a model is composed of.
-/

namespace Apidoc

structure ModelDoc where
  name : String
  summary : String := ""
  description : String := ""
  deprecated : Bool := false
  properties : Items := ∅
  /-- the names of the models that it extends, outermost first -/
  bases : List String := []
deriving Inhabited

namespace ModelDoc

/-- only the summary, the description, the properties and whether it is deprecated count -/
def ofText (name doc : String) : ModelDoc :=
  let d := OperationDoc.ofText doc
  { name, summary := d.summary, description := d.description, deprecated := d.deprecated,
    properties := d.properties }

/-- a part of a model -/
inductive Fragment where
  | base (name : String)
  | own (model : ModelDoc)

/-- the models that it extends, and then the model itself -/
def fragments (m : ModelDoc) : List Fragment := m.bases.map .base ++ [.own m]

def Fragment.encode : Fragment → Value
  | .base name => .object [("reference", .text name)]
  | .own m => .object [("properties", .text m.name)]

def requiredProperties (m : ModelDoc) : List String := m.properties.requiredNames

def encode (m : ModelDoc) : Value :=
  .object ([("name", .text m.name), ("summary", .text m.summary),
    ("description", .text m.description), ("deprecated", .bool m.deprecated),
    ("properties", m.properties.encode)] ++ Value.maybeTexts "bases" m.bases)

end ModelDoc

end Apidoc
