import Apidoc.Manifest
import Apidoc.Proofs.Success

/-!
# The catalog of a manifest

A manifest is read entry by entry, and the first entry that names no method stops the reading.
Here the catalog is described without the order in which its entries are read.

* `Manifest.IsRoute`      a route that an entry of a manifest describes;
* `Manifest.IsCatalog`    a catalog with an entry for each of the manifest.

Main statement: the catalog of a manifest is the one with its entries (`catalog_eq_ok_iff`).
-/

namespace Apidoc

/-! ## adding to a catalog -/

namespace Catalog

theorem foldl_addServer (ss : List Server) (c : Catalog) :
    ss.foldl addServer c = { c with servers := c.servers ++ ss } := by
  induction ss generalizing c with
  | nil => simp
  | cons s ss ih => simp [ih, addServer]

theorem foldl_addTag (ts : List Tag) (c : Catalog) :
    ts.foldl addTag c = { c with tags := c.tags ++ ts } := by
  induction ts generalizing c with
  | nil => simp
  | cons t ts ih => simp [ih, addTag]

theorem foldl_addRoute (rs : List Route) (c : Catalog) :
    rs.foldl addRoute c = { c with routes := c.routes ++ rs } := by
  induction rs generalizing c with
  | nil => simp
  | cons r rs ih => simp [ih, addRoute]

theorem foldl_addModel (ms : List ModelDoc) (c : Catalog) :
    ms.foldl addModel c
      = { c with models := c.models.insertAll (ms.map fun m => (m.name, m)) } := by
  induction ms generalizing c with
  | nil => rfl
  | cons m ms ih => rw [List.foldl_cons, ih, List.map_cons, Table.insertAll_cons]; rfl

end Catalog

/-! ## entries -/

namespace Manifest

/-- the operation `e` is read from the method and the docstring of `b` -/
def IsOperation (b : String × String) (e : Method × OperationDoc) : Prop :=
  Method.read b.1 = .ok e.1 ∧ e.2 = OperationDoc.ofText b.2

structure IsRoute (e : RouteEntry) (r : Route) : Prop where
  url_eq : r.url = e.url
  handler_eq : r.handler = e.handler
  operations : List.Forall₂ IsOperation e.operations.entries r.operations

/-- a model is bound to its name, the last of each name -/
def modelTable (m : Manifest) : Table ModelDoc :=
  .ofList (m.models.map fun e => (e.name, ModelEntry.model e))

structure IsCatalog (m : Manifest) (c : Catalog) : Prop where
  info_eq : c.info = m.info
  servers_eq : c.servers = m.servers
  tags_eq : c.tags = m.tags
  jsonType_eq : c.jsonType = m.jsonType
  methods : List.Forall₂ (fun s n => Method.read s = .ok n) m.enabledMethods c.enabledMethods
  routes : List.Forall₂ IsRoute m.routes c.routes
  models_eq : c.models = m.modelTable

theorem readOperation_eq_ok_iff {method doc : String} {e : Method × OperationDoc} :
    readOperation method doc = .ok e ↔ IsOperation (method, doc) e := by
  rw [readOperation, bind_eq_ok_iff]
  constructor
  · rintro ⟨n, hn, he⟩
    obtain rfl := Except.ok.inj he
    exact ⟨hn, rfl⟩
  · rintro ⟨hn, hd⟩
    exact ⟨e.1, hn, congrArg (fun d => Except.ok (e.1, d)) hd.symm⟩

theorem readRoute_eq_ok_iff {e : RouteEntry} {r : Route} :
    readRoute e = .ok r ↔ IsRoute e r := by
  rw [readRoute, bind_eq_ok_iff]
  simp only [mapM_eq_ok_iff, readOperation_eq_ok_iff]
  constructor
  · rintro ⟨ops, hops, he⟩
    obtain rfl := Except.ok.inj he
    exact ⟨rfl, rfl, hops⟩
  · intro h
    refine ⟨r.operations, h.operations, ?_⟩
    rw [← h.url_eq, ← h.handler_eq]

/-- **The catalog of a manifest has an entry for each of the manifest**, and there is one if all
of them can be read. -/
theorem catalog_eq_ok_iff {m : Manifest} {c : Catalog} : m.catalog = .ok c ↔ m.IsCatalog c := by
  have hmodels : (m.models.map ModelEntry.model).map (fun d => (d.name, d))
      = m.models.map fun e => (e.name, ModelEntry.model e) := by
    rw [List.map_map]
    rfl
  rw [catalog, bind_eq_ok_iff]
  simp only [bind_eq_ok_iff, mapM_eq_ok_iff, readRoute_eq_ok_iff, Catalog.foldl_addServer,
    Catalog.foldl_addTag, Catalog.foldl_addModel, Catalog.foldl_addRoute, hmodels]
  constructor
  · rintro ⟨methods, hmethods, routes, hroutes, hc⟩
    obtain rfl := Except.ok.inj hc
    exact ⟨rfl, rfl, rfl, rfl, hmethods, hroutes, rfl⟩
  · intro h
    refine ⟨c.enabledMethods, h.methods, c.routes, h.routes, ?_⟩
    rw [← h.info_eq, ← h.servers_eq, ← h.tags_eq, ← h.jsonType_eq]
    exact congrArg (fun ms => Except.ok { c with models := ms }) h.models_eq.symm

end Manifest

end Apidoc
