import Apidoc.Docstring.ItemLine
import Apidoc.Docstring.Section

/-!
# Documented operations

* `OperationDoc`          what the docstring of an operation says;
* `OperationDoc.apply`    adds what the lines of one section say;
* `OperationDoc.encode`   the documentation as a value.
-/

namespace Apidoc

structure OperationDoc where
  summary : String := ""
  description : String := ""
  pathParams : Items := ∅
  queryParams : Items := ∅
  headerParams : Items := ∅
  cookieParams : Items := ∅
  bodyParams : Items := ∅
  /-- by status code -/
  responses : Items := ∅
  tags : Items := ∅
  deprecated : Bool := false
  /-- the properties of a model -/
  properties : Items := ∅
deriving Inhabited

namespace OperationDoc

/-- adds a section with the lines of `buffer`; of a response only the first item counts -/
def apply (sec : Section) (buffer : List Char) (d : OperationDoc) : OperationDoc :=
  match sec with
  | .query => { d with queryParams := d.queryParams.extend (items .query buffer) }
  | .path => { d with pathParams := d.pathParams.extend (items .path buffer) }
  | .body => { d with bodyParams := d.bodyParams.extend (items .body buffer) }
  | .cookie => { d with cookieParams := d.cookieParams.extend (items .cookie buffer) }
  | .header => { d with headerParams := d.headerParams.extend (items .header buffer) }
  | .errors => { d with responses := d.responses.extend (errorItems buffer) }
  | .response code =>
    match items .response buffer with
    | [] => d
    | i :: _ => { d with responses := d.responses.insert code { i with name := code } }
  | .properties => { d with properties := d.properties.extend (items .property buffer) }
  | .tags => { d with tags := d.tags.extend (items .tag buffer) }
  | .deprecated => { d with deprecated := true }

/-- a response adds at most one item, to the responses -/
theorem apply_response (code : String) (buffer : List Char) (d : OperationDoc) :
    d.apply (.response code) buffer = d ∨
      ∃ i, d.apply (.response code) buffer = { d with responses := d.responses.insert code i } := by
  rw [apply]
  split
  next => exact .inl rfl
  next i _ _ => exact .inr ⟨{ i with name := code }, rfl⟩

def tagNames (d : OperationDoc) : List String := d.tags.names

def encode (d : OperationDoc) : Value :=
  .object [("summary", .text d.summary), ("description", .text d.description),
    ("path_params", d.pathParams.encode), ("query_params", d.queryParams.encode),
    ("header_params", d.headerParams.encode), ("cookie_params", d.cookieParams.encode),
    ("body_params", d.bodyParams.encode), ("responses", d.responses.encode),
    ("tags", d.tags.encode), ("deprecated", .bool d.deprecated),
    ("properties", d.properties.encode)]

/-- the names of the items of each table in the order of declaration -/
def encodeOrder (d : OperationDoc) : Value :=
  .object [("path_params", .texts d.pathParams.names), ("query_params", .texts d.queryParams.names),
    ("header_params", .texts d.headerParams.names),
    ("cookie_params", .texts d.cookieParams.names), ("body_params", .texts d.bodyParams.names),
    ("responses", .texts d.responses.names), ("properties", .texts d.properties.names),
    ("tags", .texts d.tagNames)]

end OperationDoc

end Apidoc
