import Apidoc.Docstring.ModelDoc
import Apidoc.Document
import Apidoc.Route.Template

/-!
# Catalogs

A catalog collects all that a document is made from; `Catalog.document` (in `Catalog.Document`)
makes it.  So a body or a response may refer to a model that is added later.

* `Route`      the documented operations of one handler at one address;
* `Catalog`    routes, models, and the settings of the document;
* `addServer`, `addTag`, `addRoute`, `addModel`   add to a catalog.
-/

namespace Apidoc

structure Route where
  url : String
  handler : String
  operations : List (Method × OperationDoc)

/-- the media type of models -/
def usualJsonType : String := "application/json"

structure Catalog where
  info : Info := {}
  servers : List Server := []
  tags : List Tag := []
  jsonType : String := usualJsonType
  /-- only operations with these methods are documented -/
  enabledMethods : List Method := Method.usual
  routes : List Route := []
  models : Table ModelDoc := ∅

namespace Catalog

def addServer (c : Catalog) (s : Server) : Catalog := { c with servers := c.servers ++ [s] }

def addTag (c : Catalog) (t : Tag) : Catalog := { c with tags := c.tags ++ [t] }

def addRoute (c : Catalog) (r : Route) : Catalog := { c with routes := c.routes ++ [r] }

/-- a model takes the place of an earlier one with its name -/
def addModel (c : Catalog) (m : ModelDoc) : Catalog :=
  { c with models := c.models.insert m.name m }

def isDefined (c : Catalog) (name : String) : Bool := c.models.contains name

end Catalog

end Apidoc
