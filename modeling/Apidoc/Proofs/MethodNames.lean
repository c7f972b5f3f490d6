import Apidoc.Proofs.CatalogEntries
import Apidoc.Proofs.PathOperations
import Apidoc.Proofs.RegistrationOrder

/-!
# The methods that a manifest names

* `Method.IsNamed`            texts that name a method;
* `Manifest.methodTexts`      all texts of a manifest that should name one, as they are read;
* `Manifest.registrations`    what a catalog is told about a manifest.

The texts are read before anything else can fail, so that the first one that names no method is
why there is no catalog (`error?_catalog`).  Several keys of a route may name one method, and then
the last of them counts, because the operations are in the order of the keys
(`IsRoute.isLast_operations`).

Main statement: `catalog_methods`.
-/

namespace Apidoc

/-! ## texts that name a method -/

namespace Method

def IsNamed (s : String) : Prop := ∃ n : Method, normalize s = n.name

theorem ofName?_eq_some_iff {s : String} {n : Method} : ofName? s = some n ↔ s = n.name := by
  constructor
  · intro h
    have hname := List.find?_some h
    exact (eq_of_beq hname).symm
  · rintro rfl
    exact ofName?_name n

theorem name_injective : Function.Injective name := by
  intro n n' h
  rw [← Option.some.injEq, ← ofName?_name n, ofName?_eq_some_iff.2 h]

theorem read_eq_ok_iff {s : String} {n : Method} : read s = .ok n ↔ normalize s = n.name := by
  rw [← ofName?_eq_some_iff, read]
  cases ofName? (normalize s) <;> simp

theorem read_eq_error_iff {s : String} {e : Error} :
    read s = .error e ↔ ¬IsNamed s ∧ e = .argument (.unknownMethod (normalize s)) := by
  simp only [IsNamed, ← ofName?_eq_some_iff, ← Option.isSome_iff_exists, read]
  cases ofName? (normalize s) <;> simp [eq_comm]

theorem exists_read_iff {s : String} : (∃ n, read s = .ok n) ↔ IsNamed s :=
  exists_congr fun _ => read_eq_ok_iff

end Method

open Method (IsNamed normalize)

namespace Manifest

/-! ## the first text that names none -/

/-- the enabled methods, and then the keys of each route -/
def methodTexts (m : Manifest) : List String :=
  m.enabledMethods ++ m.routes.flatMap fun e => e.operations.keys

theorem error?_readRoute (e : RouteEntry) :
    error? (readRoute e) = e.operations.keys.findSome? fun s => error? (Method.read s) := by
  have hoperation : ∀ b : String × String,
      error? (readOperation b.1 b.2) = error? (Method.read b.1) := fun b => error?_bind_ok _
  rw [readRoute, error?_bind_ok, error?_mapM, Table.keys, List.findSome?_map]
  simp only [hoperation]
  rfl

theorem error?_catalog (m : Manifest) :
    error? m.catalog = m.methodTexts.findSome? fun s => error? (Method.read s) := by
  have hroutes : error? (m.routes.mapM readRoute)
      = (m.routes.flatMap fun e => e.operations.keys).findSome?
          fun s => error? (Method.read s) := by
    rw [error?_mapM, findSome?_flatMap]
    simp only [error?_readRoute]
  rw [catalog, error?_bind fun methods => (error?_bind_ok _).trans hroutes, error?_mapM,
    methodTexts, List.findSome?_append]

/-- **There is no catalog exactly if a text names no method**, and the first such text is
reported. -/
theorem catalog_eq_error_iff {m : Manifest} {e : Error} :
    m.catalog = .error e ↔ ∃ before s after, m.methodTexts = before ++ s :: after
      ∧ (∀ t ∈ before, IsNamed t) ∧ ¬IsNamed s
      ∧ e = .argument (.unknownMethod (normalize s)) := by
  simp only [← error?_eq_some_iff, error?_catalog, List.findSome?_eq_some_iff]
  simp only [error?_eq_none_iff, error?_eq_some_iff, Method.exists_read_iff,
    Method.read_eq_error_iff, and_assoc, and_comm]

/-- there is a catalog if every text names a method -/
theorem exists_catalog_iff {m : Manifest} :
    (∃ c, m.catalog = .ok c) ↔ ∀ s ∈ m.methodTexts, IsNamed s := by
  rw [← error?_eq_none_iff, error?_catalog, List.findSome?_eq_none_iff]
  simp only [error?_eq_none_iff, Method.exists_read_iff]

/-! ## registering by hand -/

/-- everything in the order of the manifest -/
def registrations (m : Manifest) (methods : List Method) (routes : List Route) :
    List Registration :=
  [.info m.info, .jsonType m.jsonType, .enabledMethods methods] ++ m.servers.map .server
    ++ m.tags.map .tag ++ m.models.map (fun e => .model (ModelEntry.model e))
    ++ routes.map .route

/-- the catalog of a manifest is told one thing after the other -/
theorem catalog_eq_registerAll {m : Manifest} {methods : List Method} {routes : List Route}
    (hmethods : List.Forall₂ (fun s n => normalize s = n.name) m.enabledMethods methods)
    (hroutes : List.Forall₂ IsRoute m.routes routes) :
    m.catalog = .ok (({} : Catalog).registerAll (m.registrations methods routes)) := by
  have hmethods : m.enabledMethods.mapM Method.read = .ok methods :=
    mapM_eq_ok_iff.2 (hmethods.imp fun _ _ => Method.read_eq_ok_iff.2)
  have hroutes : m.routes.mapM readRoute = .ok routes :=
    mapM_eq_ok_iff.2 (hroutes.imp fun _ _ => readRoute_eq_ok_iff.2)
  rw [catalog, hmethods, hroutes]
  simp only [registrations, Catalog.registerAll, List.foldl_append, List.foldl_map,
    List.foldl_cons, List.foldl_nil, Catalog.register]
  rfl

end Manifest

/-! ## several keys for one method -/

/-- `k` is the last of the keys of a route that name the method `n` -/
structure RouteEntry.IsLastKey (e : RouteEntry) (n : Method) (k : String) : Prop where
  named : normalize k = n.name
  last : ∀ l ∈ e.operations.keys, normalize l = n.name → l = k ∨ l < k

section
variable {c : Catalog} {e : RouteEntry} {r : Route} {n : Method} {k doc : String}

/-- the operations are in the order of the keys -/
theorem Manifest.IsRoute.isLast_operations (hr : Manifest.IsRoute e r)
    (hdoc : e.operations.get? k = some doc) (hk : e.IsLastKey n k) :
    IsLast (fun o => o.1 = n) (n, OperationDoc.ofText doc) r.operations := by
  have hmem : (k, doc) ∈ e.operations.entries := (lookup_eq_some_iff e.operations.inOrder).1 hdoc
  obtain ⟨as, bs, hentries⟩ := List.append_of_mem hmem
  have hoperations := hr.operations
  rw [hentries] at hoperations
  obtain ⟨cs, ⟨n', d⟩, ds, hds, ⟨hread, rfl⟩, hrest⟩ := exists_append_of_forall₂ hoperations
  obtain rfl : n' = n := by
    rw [Method.read_eq_ok_iff, hk.named] at hread
    exact (Method.name_injective hread).symm
  refine ⟨rfl, cs, ds, hds, fun o ho => ?_⟩
  rintro rfl
  obtain ⟨b, hb, hbread, -⟩ := exists_of_mem_right hrest ho
  -- `b` follows `k` in the order of the keys, so it is greater
  have hlater : k < b.1 := by
    have horder := e.operations.inOrder
    rw [hentries] at horder
    exact List.rel_of_pairwise_cons (List.pairwise_append.1 horder).2.1 hb
  have hkey : b.1 ∈ e.operations.keys := by
    refine List.mem_map_of_mem ?_
    rw [hentries]
    exact List.mem_append_right as (List.mem_cons_of_mem _ hb)
  rcases hk.last b.1 hkey (Method.read_eq_ok_iff.1 hbread) with he | hlt
  · exact String.lt_irrefl k (he ▸ hlater)
  · exact String.lt_irrefl k (String.lt_trans hlater hlt)

namespace Catalog

/-- a route has the operation of the last key that names a method, and the document has it if no
later route documents the method there -/
theorem operationAt_lastKey (hr : Manifest.IsRoute e r) (hn : n ∈ c.enabledMethods)
    (hdoc : e.operations.get? k = some doc) (hk : e.IsLastKey n k) :
    ∃ path shared, c.HasPath r path shared
      ∧ (∀ paths, operationAt (c.addPath paths r) path n
          = some (c.operation r.handler n (.ofText doc) shared))
      ∧ (IsLast (fun r => c.Documents r path n) r c.routes →
          operationAt c.document.paths path n
            = some (c.operation r.handler n (.ofText doc) shared)) := by
  have hlast : IsLast (fun o => o.1 = n) (n, OperationDoc.ofText doc) (c.kept r) :=
    (hr.isLast_operations hdoc hk).filter (List.contains_iff_mem.2 hn)
  obtain ⟨path, shared, hpath⟩ := exists_hasPath hlast.mem
  have hrenders : c.Renders r path n (c.operation r.handler n (.ofText doc) shared) :=
    ⟨shared, _, hpath, hlast, rfl⟩
  exact ⟨path, shared, hpath, hrenders.operationAt_addPath,
    fun hroute => (operationAt_foldl_addPath c.routes _).2 ⟨r, hroute, hrenders⟩⟩

end Catalog

end

/-! ## the catalog -/

namespace Manifest

/-- **A manifest has a catalog exactly if all its texts for methods name one, and otherwise the
first that does not is reported.**  The document of the catalog is that of one which is told the
same things by hand, in any order that keeps those of one kind in theirs, and of two keys for one
method the last one counts. -/
theorem catalog_methods (m : Manifest) :
    ((∃ c, m.catalog = .ok c) ↔ ∀ s ∈ m.methodTexts, IsNamed s)
      ∧ (∀ err, m.catalog = .error err ↔ ∃ before s after, m.methodTexts = before ++ s :: after
          ∧ (∀ t ∈ before, IsNamed t) ∧ ¬IsNamed s
          ∧ err = .argument (.unknownMethod (normalize s)))
      ∧ ∀ c, m.catalog = .ok c →
          List.Forall₂ (fun s n => normalize s = n.name) m.enabledMethods c.enabledMethods
          ∧ List.Forall₂ IsRoute m.routes c.routes
          ∧ (∀ rs, Registration.SameOrder rs (m.registrations c.enabledMethods c.routes) →
              (({} : Catalog).registerAll rs).document = c.document)
          ∧ ∀ e ∈ m.routes, ∀ n ∈ c.enabledMethods, ∀ k doc, e.operations.get? k = some doc →
              e.IsLastKey n k → ∃ r ∈ c.routes, ∃ path shared, IsRoute e r ∧ c.HasPath r path shared
                ∧ (∀ paths, operationAt (c.addPath paths r) path n
                    = some (c.operation e.handler n (.ofText doc) shared))
                ∧ (IsLast (fun r => c.Documents r path n) r c.routes →
                    operationAt c.document.paths path n
                      = some (c.operation e.handler n (.ofText doc) shared)) := by
  refine ⟨exists_catalog_iff, fun err => catalog_eq_error_iff, fun c hc => ?_⟩
  have hcatalog := catalog_eq_ok_iff.1 hc
  have hmethods := hcatalog.methods.imp fun _ _ => Method.read_eq_ok_iff.1
  refine ⟨hmethods, hcatalog.routes, fun rs hrs => ?_, fun e he n hn k doc hdoc hk => ?_⟩
  · rw [catalog_eq_registerAll hmethods hcatalog.routes, Except.ok.injEq] at hc
    rw [Catalog.registerAll_congr hrs, hc]
  · obtain ⟨r, hrc, hr⟩ := exists_of_mem_right hcatalog.routes.flip he
    obtain ⟨path, shared, hpath, hop⟩ := Catalog.operationAt_lastKey hr hn hdoc hk
    rw [hr.handler_eq] at hop
    exact ⟨r, hrc, path, shared, hr, hpath, hop⟩

/-- a route with two docstrings for one method -/
def twice : RouteEntry :=
  { url := "/pets", handler := "Pets"
    operations := .ofList [("get", "List the pets."), ("GET", "Not listed.")] }

def twiceRoute : Route :=
  { url := "/pets", handler := "Pets"
    operations := [(.get, .ofText "Not listed."), (.get, .ofText "List the pets.")] }

/-- The last key counts, though the other one is written last; the route may be registered before
the settings. -/
theorem catalog_twice :
    ({ enabledMethods := ["get", " FETCH "], routes := [twice] } : Manifest).catalog
        = .error (.argument (.unknownMethod "fetch"))
      ∧ ∃ c path shared,
        ({ enabledMethods := [" Get "], routes := [twice] } : Manifest).catalog = .ok c
          ∧ (({} : Catalog).registerAll
              [.route twiceRoute, .enabledMethods [.get], .jsonType usualJsonType,
                .info {}]).document = c.document
          ∧ c.HasPath twiceRoute path shared
          ∧ operationAt c.document.paths path .get
            = some (c.operation "Pets" .get (.ofText "List the pets.") shared) := by
  constructor
  · obtain ⟨-, herror, -⟩ :=
      catalog_methods { enabledMethods := ["get", " FETCH "], routes := [twice] }
    refine (herror _).2 ⟨["get"], " FETCH ", ["GET", "get"], by decide, ?_, ?_, by decide⟩
    · simpa using ⟨.get, by decide⟩
    · rintro ⟨n, hn⟩
      revert hn
      cases n <;> decide
  · have hroutes : List.Forall₂ IsRoute [twice] [twiceRoute] :=
      .cons ⟨rfl, rfl, .cons ⟨by decide, rfl⟩ (.cons ⟨by decide, rfl⟩ .nil)⟩ .nil
    have hmethods : List.Forall₂ (fun s n => normalize s = n.name) [" Get "] [Method.get] :=
      .cons (by decide) .nil
    have hcatalog := catalog_eq_registerAll
      (m := { enabledMethods := [" Get "], routes := [twice] }) hmethods hroutes
    obtain ⟨-, -, hok⟩ := catalog_methods { enabledMethods := [" Get "], routes := [twice] }
    obtain ⟨-, -, horder, hlast⟩ := hok _ hcatalog
    obtain ⟨r, hr, path, shared, -, hpath, -, hop⟩ := hlast twice List.mem_cons_self .get
      List.mem_cons_self "get" "List the pets." (by decide) ⟨by decide, by decide⟩
    obtain rfl : r = twiceRoute := List.mem_singleton.1 hr
    refine ⟨_, path, shared, hcatalog, horder _ fun g => ?_, hpath, hop ?_⟩
    · cases g <;> rfl
    · exact ⟨⟨⟨shared, hpath⟩, _, List.mem_cons_self⟩, [], [], rfl, nofun⟩

end Manifest

end Apidoc
