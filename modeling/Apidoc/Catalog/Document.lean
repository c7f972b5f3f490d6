import Apidoc.Catalog.Content

/-!
# The document of a catalog

* `Route.enabled`        the operations of a route that are documented;
* `Route.sharedParams?`  the path parameters that these share: the largest set of them;
* `Catalog.operation`    an operation in the document;
* `Catalog.paths`        all operations, by path and method;
* `Catalog.document`     the document.

Several routes may have the same path.  Of two operations with one path and method the later one
counts.
-/

namespace Apidoc

namespace Route

def enabled (r : Route) (methods : List Method) : List (Method × OperationDoc) :=
  r.operations.filter fun (m, _) => methods.contains m

/-- the first of the largest tables -/
def largest (t : Items) (ts : List Items) : Items :=
  ts.foldl (fun t u => if t.size < u.size then u else t) t

def sharedParams? (ops : List (Method × OperationDoc)) : Option Items :=
  match ops.map fun (_, d) => d.pathParams with
  | [] => none
  | t :: ts => some (largest t ts)

end Route

namespace Catalog

/-! ## operations -/

def parameter (i : Item) : Parameter :=
  { name := i.name
    place := i.place.name
    required := i.required
    description := nonBlank? i.description
    schema := i.type.schema? }

/-- the parameters of an operation: of the path, in headers, of the query and in cookies -/
def parameters (pathParams : Items) (d : OperationDoc) : List Parameter :=
  ([pathParams, d.headerParams, d.queryParams, d.cookieParams].flatMap Items.sorted).map parameter

def operation (c : Catalog) (handler : String) (m : Method) (d : OperationDoc)
    (pathParams : Items) : Operation :=
  { tags := d.tagNames
    summary := nonBlank? d.summary
    description := nonBlank? d.description
    id := handler ++ "." ++ m.name
    parameters := parameters pathParams d
    requestBody := c.requestBody? d.bodyParams
    responses := d.responses.map c.response
    deprecated := d.deprecated }

/-! ## paths -/

/-- adds the documented operations of a route; a route without any adds no path -/
def addPath (c : Catalog) (paths : Table PathItem) (r : Route) : Table PathItem :=
  let ops := r.enabled c.enabledMethods
  match Route.sharedParams? ops with
  | none => paths
  | some shared =>
    let path := pathTemplate r.url shared.names
    let item := (paths.get? path).getD {}
    paths.insert path
      (ops.foldl (fun p (m, d) => p.set m (c.operation r.handler m d shared)) item)

def paths (c : Catalog) : Table PathItem := c.routes.foldl c.addPath ∅

/-! ## the document -/

def document (c : Catalog) : Document :=
  { info := c.info
    servers := c.servers
    tags := c.tags
    paths := c.paths
    schemas := if c.models.isEmpty then none else some (c.models.map ModelDoc.schema) }

end Catalog

end Apidoc
