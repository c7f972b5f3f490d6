import Apidoc.Catalog.Document
import Apidoc.Source.Record

/-!
# Manifests

A manifest is a text in JSON or YAML that lists all that a document is made from.

* `Manifest`            with its `RouteEntry`s and `ModelEntry`s;
* `Manifest.record`     the fields of a manifest and what they are when they are missing;
* `Manifest.read`       the manifest that a text is;
* `Manifest.encode`     a manifest as a value;
* `Manifest.problem?`   the first thing that is wrong with what a manifest says;
* `Manifest.catalog`    the catalog that it describes.
-/

namespace Apidoc

/-- one handler at one address, with a docstring for each method -/
structure RouteEntry where
  url : String
  handler : String
  operations : Table String := ∅

structure ModelEntry where
  name : String
  /-- the models that it extends -/
  bases : List String := []
  doc : String := ""
deriving DecidableEq, Repr

structure Manifest where
  info : Info := {}
  servers : List Server := []
  tags : List Tag := []
  jsonType : String := usualJsonType
  enabledMethods : List String := Method.usual.map Method.name
  routes : List RouteEntry := []
  models : List ModelEntry := []

/-! ## reading -/

open Record (field fieldOr)
open Reader (text optional listOf tableOf)

def Info.record : Record Info :=
  Info.mk
    <$> fieldOr "title" ({} : Info).title text
    <*> fieldOr "description" ({} : Info).description (optional text)
    <*> fieldOr "version" ({} : Info).version text

def Server.record : Record Server :=
  Server.mk <$> field "url" text <*> fieldOr "description" none (optional text)

def ExternalDocs.record : Record ExternalDocs :=
  ExternalDocs.mk <$> field "url" text <*> fieldOr "description" none (optional text)

def Tag.record : Record Tag :=
  Tag.mk
    <$> field "name" text
    <*> fieldOr "description" none (optional text)
    <*> fieldOr "externalDocs" none (optional ExternalDocs.record.read)

def RouteEntry.record : Record RouteEntry :=
  RouteEntry.mk
    <$> field "url" text
    <*> field "handler" text
    <*> fieldOr "operations" ∅ (tableOf text)

def ModelEntry.record : Record ModelEntry :=
  ModelEntry.mk
    <$> field "name" text
    <*> fieldOr "bases" [] (listOf text)
    <*> fieldOr "doc" "" text

namespace Manifest

def record : Record Manifest :=
  Manifest.mk
    <$> fieldOr "info" {} Info.record.read
    <*> fieldOr "servers" [] (listOf Server.record.read)
    <*> fieldOr "tags" [] (listOf Tag.record.read)
    <*> fieldOr "json_mime_type" ({} : Manifest).jsonType text
    <*> fieldOr "enabled_methods" ({} : Manifest).enabledMethods (listOf text)
    <*> fieldOr "routes" [] (listOf RouteEntry.record.read)
    <*> fieldOr "schemas" [] (listOf ModelEntry.record.read)

/-- the source that a text in one of the languages is -/
def source (language : Syntax) (s : String) : Source :=
  match language with
  | .yaml => .ofYaml s.toList
  | .json => .ofJson s.toList

def read (language : Syntax) (s : String) : Except Error Manifest :=
  ((source language s).decode record).mapError fun f => .serialization (.fault language f)

end Manifest

/-! ## writing -/

def RouteEntry.encode (r : RouteEntry) : Value :=
  .object [("url", .text r.url), ("handler", .text r.handler),
    ("operations", .ofTable (r.operations.map .text))]

def ModelEntry.encode (m : ModelEntry) : Value :=
  .object [("name", .text m.name), ("bases", .texts m.bases), ("doc", .text m.doc)]

namespace Manifest

def encode (m : Manifest) : Value :=
  .object [("info", m.info.encode), ("servers", .list (m.servers.map Server.encode)),
    ("tags", .list (m.tags.map Tag.encode)), ("json_mime_type", .text m.jsonType),
    ("enabled_methods", .texts m.enabledMethods),
    ("routes", .list (m.routes.map RouteEntry.encode)),
    ("schemas", .list (m.models.map ModelEntry.encode))]

/-! ## checking -/

def isBlank (s : String) : Bool := Text.allBlank s.toList

/-- a route has an address and a handler -/
def routeProblem? (r : RouteEntry) : Option Problem :=
  if isBlank r.url then some (.missingUrl r.handler)
  else if isBlank r.handler then some (.missingHandler r.url)
  else none

/-- models have names, each another; `seen` are the names before -/
def modelProblem? (seen : List String) : List ModelEntry → Option Problem
  | [] => none
  | m :: ms =>
    if isBlank m.name then some .missingName
    else if seen.contains m.name then some (.repeatedName m.name)
    else modelProblem? (m.name :: seen) ms

def problem? (m : Manifest) : Option Problem :=
  (m.routes.findSome? routeProblem?).or (modelProblem? [] m.models)

/-! ## the catalog -/

def ModelEntry.model (m : ModelEntry) : ModelDoc :=
  { ModelDoc.ofText m.name m.doc with bases := m.bases }

/-- a method and a docstring -/
def readOperation (method doc : String) : Except Error (Method × OperationDoc) := do
  let m ← Method.read method
  .ok (m, OperationDoc.ofText doc)

def readRoute (r : RouteEntry) : Except Error Route := do
  let ops ← r.operations.entries.mapM fun (method, doc) => readOperation method doc
  .ok { url := r.url, handler := r.handler, operations := ops }

/-- Everything is added in the order of the manifest.  The methods that are enabled are read
first. -/
def catalog (m : Manifest) : Except Error Catalog := do
  let enabledMethods ← m.enabledMethods.mapM Method.read
  let routes ← m.routes.mapM readRoute
  let c : Catalog := { info := m.info, jsonType := m.jsonType, enabledMethods }
  let c := m.servers.foldl Catalog.addServer c
  let c := m.tags.foldl Catalog.addTag c
  let c := (m.models.map ModelEntry.model).foldl Catalog.addModel c
  .ok (routes.foldl Catalog.addRoute c)

/-- the document that a manifest describes -/
def document (m : Manifest) : Except Error Document := do
  let c ← m.catalog
  .ok c.document

end Manifest

end Apidoc
