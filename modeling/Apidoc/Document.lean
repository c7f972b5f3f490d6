import Apidoc.Method
import Apidoc.Schema.Encoding

/-!
# OpenAPI documents

* `Document`      all that is known about an API, with its `Info`, `Server`s, `Tag`s, the
  `PathItem`s of its paths and the schemas of its models;
* `PathItem`      the operations of one path, by method;
* `Operation`     with its `Parameter`s, its `RequestBody` and its `Response`s;
* `Document.encode`, `Operation.encode`   values of them.

Content, of bodies and of responses, is a table from media types to schemas.
-/

namespace Apidoc

/-! ## the API -/

structure Info where
  title : String := "Your API"
  description : Option String := some "No description"
  version : String := "v1.0"
deriving DecidableEq, Repr

structure Server where
  url : String
  description : Option String := none
deriving DecidableEq, Repr

structure ExternalDocs where
  url : String
  description : Option String := none
deriving DecidableEq, Repr

structure Tag where
  name : String
  description : Option String := none
  externalDocs : Option ExternalDocs := none
deriving DecidableEq, Repr

/-- a tag with an address where it is documented -/
def Tag.new (name : String) (description url : Option String) : Tag :=
  { name, description, externalDocs := url.map fun url => { url } }

/-! ## operations -/

structure Parameter where
  name : String
  /-- where it stands: in the path, the query, a header or a cookie -/
  place : String
  required : Bool
  description : Option String
  schema : Option Schema

structure RequestBody where
  required : Bool
  content : Table Schema

structure Response where
  description : String
  content : Option (Table Schema)

structure Operation where
  tags : List String
  summary : Option String
  description : Option String
  /-- the handler and the method -/
  id : String
  parameters : List Parameter
  requestBody : Option RequestBody
  /-- by status code -/
  responses : Table Response
  deprecated : Bool

/-- the operations of one path -/
structure PathItem where
  operation : Method → Option Operation := fun _ => none

def PathItem.set (p : PathItem) (m : Method) (op : Operation) : PathItem :=
  ⟨fun n => if n = m then some op else p.operation n⟩

theorem PathItem.operation_set_self (p : PathItem) (m : Method) (op : Operation) :
    (p.set m op).operation m = some op := by
  simp [PathItem.set]

theorem PathItem.operation_set_of_ne (p : PathItem) {m n : Method} (op : Operation) (h : n ≠ m) :
    (p.set m op).operation n = p.operation n := by
  simp [PathItem.set, h]

/-! ## documents -/

/-- the version of the specification that documents follow -/
def openapiVersion : String := "3.0.0"

structure Document where
  info : Info
  servers : List Server
  tags : List Tag
  paths : Table PathItem
  /-- the schemas of the models, if there are any -/
  schemas : Option (Table Schema)

/-! ## values -/

open Value (maybe)

/-- an optional text -/
def maybeText (k : String) (s : Option String) : List (String × Value) :=
  maybe k (s.map .text)

/-- an entry with a list that is left out when it is empty -/
def maybeList (k : String) (vs : List Value) : List (String × Value) :=
  maybe k (if vs.isEmpty then none else some (.list vs))

def Info.encode (i : Info) : Value :=
  .object ([("title", .text i.title)] ++ maybeText "description" i.description
    ++ [("version", .text i.version)])

def Server.encode (s : Server) : Value :=
  .object (("url", .text s.url) :: maybeText "description" s.description)

def ExternalDocs.encode (d : ExternalDocs) : Value :=
  .object (("url", .text d.url) :: maybeText "description" d.description)

def Tag.encode (t : Tag) : Value :=
  .object (("name", .text t.name) :: maybeText "description" t.description
    ++ maybe "externalDocs" (t.externalDocs.map ExternalDocs.encode))

def Parameter.encode (p : Parameter) : Value :=
  .object ([("name", .text p.name), ("in", .text p.place), ("required", .bool p.required)]
    ++ maybeText "description" p.description ++ maybe "schema" (p.schema.map Schema.encode))

/-- each media type with its schema -/
def encodeContent (c : Table Schema) : Value :=
  .ofTable (c.map fun s => .object [("schema", s.encode)])

def RequestBody.encode (b : RequestBody) : Value :=
  .object [("required", .bool b.required), ("content", encodeContent b.content)]

def Response.encode (r : Response) : Value :=
  .object (("description", .text r.description) :: maybe "content" (r.content.map encodeContent))

def Operation.encode (op : Operation) : Value :=
  .object (Value.maybeTexts "tags" op.tags ++ maybeText "summary" op.summary
    ++ maybeText "description" op.description ++ [("operationId", .text op.id)]
    ++ maybeList "parameters" (op.parameters.map Parameter.encode)
    ++ maybe "requestBody" (op.requestBody.map RequestBody.encode)
    ++ [("responses", .ofTable (op.responses.map Response.encode))]
    ++ maybe "deprecated" (if op.deprecated then some (.bool true) else none))

def PathItem.encode (p : PathItem) : Value :=
  .object (Method.all.flatMap fun m => maybe m.name ((p.operation m).map Operation.encode))

def Document.encode (d : Document) : Value :=
  .object ([("openapi", .text openapiVersion), ("info", d.info.encode)]
    ++ maybeList "servers" (d.servers.map Server.encode)
    ++ maybeList "tags" (d.tags.map Tag.encode)
    ++ [("paths", .ofTable (d.paths.map PathItem.encode))]
    ++ maybe "components" (d.schemas.map fun ss =>
      .object [("schemas", .ofTable (ss.map Schema.encode))]))

end Apidoc
