import Apidoc.Catalog

/-!
# Bodies, responses and models in a document

* `requestBody?`      the body that the body items of an operation make up;
* `responseContent?`  the content of a response;
* `modelSchema`       the schema of a model.

The media type of a body depends on the kinds of its items, see `BodyKind`: one file or one
known model alone is sent as it is, plain fields as a form, and everything else in parts.
-/

namespace Apidoc

/-- a text without the blanks around it, unless it is blank -/
def nonBlank? (s : String) : Option String :=
  let s := Text.trimmed s
  if s.isEmpty then none else some s

/-! ## schemas of items -/

/-- the schema of an item's type with its description -/
def propertySchema (i : Item) : Schema :=
  ((i.type.schema?).getD {}).withDescription i.description

/-- an object with a property for each item -/
def formSchema (is : List Item) : Schema :=
  .object (.ofList (is.map fun i => (i.name, propertySchema i)))
    ((is.filter Item.required).map Item.name)

/-! ## request bodies -/

/-- what an item is in a request body -/
inductive BodyKind where
  | file
  /-- a model that is in the catalog -/
  | model
  | field
deriving DecidableEq, Repr

def formType : String := "application/x-www-form-urlencoded"
def multipartType : String := "multipart/form-data"
def plainType : String := "text/plain"

def content (mediaType : String) (s : Schema) : Table Schema := (∅ : Table Schema).insert mediaType s

namespace Catalog

def bodyKind (c : Catalog) (t : DataType) : BodyKind :=
  if t.fileType?.isSome then .file
  else if t.model?.any c.isDefined then .model
  else .field

/-- the content of a body with the given items -/
def bodyContent (c : Catalog) (is : List Item) : Table Schema :=
  match is.map fun i => (c.bodyKind i.type, i.type) with
  | [(.file, t)] =>
    content (t.fileType?.getD DataType.defaultFileType) (.typed "string" (some "binary"))
  | [(.model, t)] => content c.jsonType (t.schema?.getD {})
  | kinds =>
    content (if kinds.all (·.1 == .field) then formType else multipartType) (formSchema is)

def requestBody? (c : Catalog) (items : Items) : Option RequestBody :=
  let is := items.sorted
  if is.isEmpty then none
  else some { required := is.any Item.required, content := c.bodyContent is }

/-! ## responses -/

/-- the media type of a response with the given type -/
def responseType (c : Catalog) (t : DataType) : String :=
  if t.isPrimitive then plainType else t.fileType?.getD c.jsonType

def responseContent? (c : Catalog) (t : DataType) : Option (Table Schema) :=
  t.schema?.map (content (c.responseType t))

def response (c : Catalog) (i : Item) : Response :=
  { description := Text.trimmed i.description, content := c.responseContent? i.type }

end Catalog

/-! ## models -/

namespace ModelDoc

/-- what describes the model: the description, or else the summary -/
def about (m : ModelDoc) : String :=
  if (Text.trimmed m.description).isEmpty then m.summary else m.description

/-- marks a schema as deprecated -/
def markDeprecated (deprecated : Bool) (s : Schema) : Schema :=
  if deprecated then { s with extra := s.extra.insert "deprecated" (.bool true) } else s

/-- the properties of the model itself -/
def ownSchema (m : ModelDoc) : Schema :=
  let properties := Table.ofList (m.properties.values.map fun i => (i.name, propertySchema i))
  markDeprecated m.deprecated
    ((Schema.object properties m.requiredProperties).withDescription m.about)

def Fragment.schema : Fragment → Schema
  | .base name => .model name
  | .own m => m.ownSchema

/-- the model itself, or, if it extends others, all of them together -/
def schema (m : ModelDoc) : Schema :=
  match m.fragments.map Fragment.schema with
  | [s] => s
  | ss => { allOf := some ss }

end ModelDoc

end Apidoc
