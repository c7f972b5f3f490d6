import Apidoc.Proofs.CatalogEntries
import Apidoc.Proofs.DeclarationOrder
import Apidoc.Proofs.PathOperations
import Apidoc.Proofs.Trimming

/-!
# The parameters of operations

An operation has the path parameters that its route shares, and the header, query and cookie
parameters of its own docstring.

* `Listing.names`, `Listing.parameters`   what a docstring declares in one kind of section;
* `Catalog.Supplied`        the docstrings from which the parameters of an operation come;
* `WellFormedParameters`    a list of parameters that is as these docstrings declare it.

A type is never absent where the docstring may leave it out (`isSome_schema?_toItem`), and the
tables of a docstring list each name once (`sorted_map_parameter`).

Main statement: all operations in the document of a manifest have well-formed parameters
(`parameters_of_catalog`).
-/

namespace Apidoc

open Text (trim)

/-! ## types that are there -/

namespace DataType

theorem isSome_schema? (t : DataType) : t.schema?.isSome = !t.isAbsent := by
  cases t with
  | atom a c => cases a <;> rfl
  | array t c => rw [schema?]; rfl
  | combine op ts c => rw [schema?]; rfl

theorem isAbsent_atom {a : Atom} (h : a ≠ .absent) (c : Constraints) :
    (atom a c).isAbsent = false := by
  cases a <;> first | rfl | exact absurd rfl h

theorem ite_ne_absent {p : Prop} [Decidable p] {a b : Atom} (ha : a ≠ .absent)
    (hb : b ≠ .absent) : (if p then a else b) ≠ .absent := by
  split
  · exact ha
  · exact hb

theorem ofWord_ne_absent (word : String) (format : Option String) :
    Atom.ofWord word format ≠ .absent := by
  rw [Atom.ofWord]
  repeat' apply ite_ne_absent
  all_goals simp

theorem atom_ofToken_ne_absent (s : List Char) : Atom.ofToken s ≠ .absent := by
  rw [Atom.ofToken]
  split
  · exact ofWord_ne_absent _ _
  · exact ofWord_ne_absent _ _

/-- only a blank token writes the absent type -/
theorem isAbsent_ofToken {s : List Char} (hs : trim s ≠ []) (c : Constraints) :
    (ofToken s c).isAbsent = false := by
  cases ha : bracketed? [] (trim s) with
  | some t => rw [ofToken_of_array ha]; rfl
  | none =>
    cases he : bracketed? "enum".toList (trim s) with
    | some t => rw [ofToken_of_enumeration ha he]; rfl
    | none =>
      cases hc : combination? (trim s) with
      | some p => rw [ofToken_of_combination ha he hc hs]; rfl
      | none =>
        rw [ofToken_of_atom ha he hc hs]
        exact isAbsent_atom (atom_ofToken_ne_absent _) c

end DataType

/-- an item other than a response has a type, written or not -/
theorem isSome_schema?_toItem (line : ItemLine) {place : Place} (h : place ≠ .response) (n : Nat) :
    (line.toItem place n).type.schema?.isSome = true := by
  have husual : trim (ItemLine.usualType place) ≠ [] := by
    cases place <;> first | decide | exact absurd rfl h
  have htoken : trim (if (trim line.type).isEmpty then ItemLine.usualType place
      else trim line.type) ≠ [] := by
    split
    next => exact husual
    next ht =>
      rw [Text.trim_trim]
      exact fun he => ht (List.isEmpty_iff.2 he)
  rw [DataType.isSome_schema?, Bool.not_eq_true']
  exact DataType.isAbsent_ofToken htoken _

/-! ## descriptions -/

theorem nonBlank?_eq_some {s t : String} (h : nonBlank? s = some t) :
    t ≠ "" ∧ Text.trimmed t = t := by
  rw [nonBlank?] at h
  split at h
  next => cases h
  next hne =>
    obtain rfl := Option.some.inj h
    refine ⟨fun he => hne (by rw [he]; rfl), ?_⟩
    rw [Text.trimmed, Text.trimmed, String.toList_ofList, Text.trim_trim]

theorem description_parameter {i : Item} {t : String}
    (h : (Catalog.parameter i).description = some t) : t ≠ "" ∧ Text.trimmed t = t := by
  simp only [Catalog.parameter] at h
  exact nonBlank?_eq_some h

/-! ## the parameters of a docstring -/

namespace Listing

/-- the names that a docstring declares in sections of this kind, each where it comes last -/
def names (l : Listing) (s : String) : List String :=
  ((l.lines (Outline.ofText s).sections).map ItemLine.key).dedup

/-- the parameters that the last line of each name declares -/
def parameters (l : Listing) (s : String) : List Parameter :=
  (lastBy ItemLine.key (l.lines (Outline.ofText s).sections)).map fun line =>
    Catalog.parameter (line.toItem l.place 0)

theorem sorted_map_parameter (l : Listing) (s : String) :
    (l.table (OperationDoc.ofText s)).sorted.map Catalog.parameter = l.parameters s := by
  have hr := (OperationDoc.records_ofText s).tables l
  have hu : Catalog.parameter ∘ Item.unordered = Catalog.parameter := rfl
  rw [← hu, ← List.map_map, hr.sorted_eq, List.map_map]
  rfl

theorem map_name_parameters (l : Listing) (s : String) :
    (l.parameters s).map Parameter.name = l.names s := by
  rw [parameters, names, ← map_key_lastBy, List.map_map]
  rfl

theorem exists_line {l : Listing} {s : String} {p : Parameter} (h : p ∈ l.parameters s) :
    ∃ line : ItemLine, p = Catalog.parameter (line.toItem l.place 0) := by
  obtain ⟨line, -, hp⟩ := List.mem_map.1 h
  exact ⟨line, hp.symm⟩

theorem place_of_mem {l : Listing} {s : String} {p : Parameter} (h : p ∈ l.parameters s) :
    p.place = l.place.name := by
  obtain ⟨line, rfl⟩ := exists_line h
  rfl

/-- what tells the parameters of an operation apart -/
theorem map_key_parameters (l : Listing) (s : String) :
    (l.parameters s).map (fun p => (p.place, p.name)) = (l.names s).map (Prod.mk l.place.name) := by
  rw [← map_name_parameters, List.map_map]
  refine List.map_congr_left fun p hp => ?_
  rw [place_of_mem hp]
  rfl

theorem nodup_map_names (l : Listing) (s place : String) :
    ((l.names s).map (Prod.mk place)).Nodup :=
  (List.nodup_dedup _).map fun _ _ h => (Prod.mk.inj h).2

theorem eq_path_of_place {l : Listing} (h : l.place.name = "path") : l = .path := by
  revert h
  cases l <;> decide

end Listing

theorem disjoint_map_mk {a b : String} (h : a ≠ b) (xs ys : List String) :
    List.Disjoint (xs.map (Prod.mk a)) (ys.map (Prod.mk b)) := by
  intro p hx hy
  obtain ⟨x, -, rfl⟩ := List.mem_map.1 hx
  obtain ⟨y, -, he⟩ := List.mem_map.1 hy
  exact h (Prod.mk.inj he).1.symm

/-! ## the parameters of an operation -/

/-- `pathDoc` declares the path parameters, and `doc` all others -/
structure WellFormedParameters (pathDoc doc : String) (ps : List Parameter) : Prop where
  /-- place by place, and in each place in the order of the last declarations -/
  listed : ps.map (fun p => (p.place, p.name)) =
    (Listing.path.names pathDoc).map (Prod.mk "path")
      ++ (Listing.header.names doc).map (Prod.mk "header")
      ++ (Listing.query.names doc).map (Prod.mk "query")
      ++ (Listing.cookie.names doc).map (Prod.mk "cookie")
  distinct : (ps.map fun p => (p.place, p.name)).Nodup
  pathRequired : ∀ p ∈ ps, p.place = "path" → p.required = true
  hasSchema : ∀ p ∈ ps, p.schema.isSome = true
  described : ∀ p ∈ ps, ∀ t, p.description = some t → t ≠ "" ∧ Text.trimmed t = t

/-- the parameters of an operation with the docstring `doc`, on a route that shares the path
parameters of `pathDoc` -/
def docParameters (pathDoc doc : String) : List Parameter :=
  Listing.path.parameters pathDoc ++ Listing.header.parameters doc
    ++ Listing.query.parameters doc ++ Listing.cookie.parameters doc

theorem parameters_ofText (pathDoc doc : String) :
    Catalog.parameters (OperationDoc.ofText pathDoc).pathParams (OperationDoc.ofText doc)
      = docParameters pathDoc doc := by
  have hpath := Listing.path.sorted_map_parameter pathDoc
  have hheader := Listing.header.sorted_map_parameter doc
  have hquery := Listing.query.sorted_map_parameter doc
  have hcookie := Listing.cookie.sorted_map_parameter doc
  rw [docParameters, ← hpath, ← hheader, ← hquery, ← hcookie, Catalog.parameters]
  simp only [List.flatMap_cons, List.flatMap_nil, List.append_nil, List.map_append,
    List.append_assoc]
  rfl

theorem exists_listing {pathDoc doc : String} {p : Parameter} (h : p ∈ docParameters pathDoc doc) :
    ∃ (l : Listing) (line : ItemLine), p = Catalog.parameter (line.toItem l.place 0) := by
  simp only [docParameters, List.mem_append] at h
  rcases h with ((h | h) | h) | h
  · exact ⟨_, Listing.exists_line h⟩
  · exact ⟨_, Listing.exists_line h⟩
  · exact ⟨_, Listing.exists_line h⟩
  · exact ⟨_, Listing.exists_line h⟩

theorem wellFormed_docParameters (pathDoc doc : String) :
    WellFormedParameters pathDoc doc (docParameters pathDoc doc) := by
  have hlisted : (docParameters pathDoc doc).map (fun p => (p.place, p.name)) =
      (Listing.path.names pathDoc).map (Prod.mk "path")
        ++ (Listing.header.names doc).map (Prod.mk "header")
        ++ (Listing.query.names doc).map (Prod.mk "query")
        ++ (Listing.cookie.names doc).map (Prod.mk "cookie") := by
    rw [docParameters, List.map_append, List.map_append, List.map_append]
    simp only [Listing.map_key_parameters]
    rfl
  refine ⟨hlisted, ?_, ?_, ?_, ?_⟩
  -- within a place the names differ, and the places keep the groups apart
  · have hpath := Listing.path.nodup_map_names pathDoc "path"
    have hheader := Listing.header.nodup_map_names doc "header"
    have hquery := Listing.query.nodup_map_names doc "query"
    have hcookie := Listing.cookie.nodup_map_names doc "cookie"
    rw [hlisted]
    refine ((hpath.append hheader ?_).append hquery ?_).append hcookie ?_
    · exact disjoint_map_mk (by decide) _ _
    · exact List.disjoint_append_left.2
        ⟨disjoint_map_mk (by decide) _ _, disjoint_map_mk (by decide) _ _⟩
    · refine List.disjoint_append_left.2 ⟨List.disjoint_append_left.2 ⟨?_, ?_⟩, ?_⟩
      · exact disjoint_map_mk (by decide) _ _
      · exact disjoint_map_mk (by decide) _ _
      · exact disjoint_map_mk (by decide) _ _
  · intro p hp hplace
    obtain ⟨l, line, rfl⟩ := exists_listing hp
    obtain rfl := Listing.eq_path_of_place hplace
    rfl
  · intro p hp
    obtain ⟨l, line, rfl⟩ := exists_listing hp
    have hplace : l.place ≠ .response := by cases l <;> decide
    exact isSome_schema?_toItem line hplace 0
  · intro p hp t ht
    obtain ⟨l, line, rfl⟩ := exists_listing hp
    exact description_parameter ht

/-! ## the docstrings of an operation -/

/-- all operations of the route are read from docstrings with the property `p` -/
def Route.ReadFrom (p : String → Prop) (r : Route) : Prop :=
  ∀ e ∈ r.operations, ∃ s, p s ∧ e.2 = OperationDoc.ofText s

theorem Manifest.IsRoute.readFrom {e : RouteEntry} {r : Route} (h : Manifest.IsRoute e r) :
    r.ReadFrom (· ∈ e.operations.values) := by
  intro op hop
  obtain ⟨b, hb, hread⟩ := exists_of_mem_right h.operations hop
  exact ⟨b.2, List.mem_map_of_mem hb, hread.2⟩

namespace Catalog

/-- the route `r` takes the operation with the method `n` from the docstring `doc`, and its path
parameters from the docstring `pathDoc` -/
structure Supplied (c : Catalog) (r : Route) (path : String) (n : Method)
    (pathDoc doc : String) : Prop where
  hasPath : c.HasPath r path (OperationDoc.ofText pathDoc).pathParams
  isLast : IsLast (fun e => e.1 = n) (n, OperationDoc.ofText doc) (c.kept r)

variable {c : Catalog} {r : Route} {path : String} {n : Method} {op : Operation}

theorem Renders.exists_supplied (h : c.Renders r path n op) {p : String → Prop}
    (hp : r.ReadFrom p) :
    ∃ pathDoc doc, p pathDoc ∧ p doc ∧ c.Supplied r path n pathDoc doc
      ∧ op.parameters = docParameters pathDoc doc := by
  have hkept : ∀ e ∈ c.kept r, ∃ s, p s ∧ e.2 = OperationDoc.ofText s :=
    fun e he => hp e (List.mem_of_mem_filter he)
  obtain ⟨shared, d, hpath, hlast, rfl⟩ := h
  obtain ⟨e, he, rfl⟩ := List.mem_map.1 hpath.largest.mem
  obtain ⟨pathDoc, hpathDoc, hshared⟩ := hkept e he
  obtain ⟨doc, hdoc, hd⟩ := hkept _ hlast.mem
  obtain rfl : d = OperationDoc.ofText doc := hd
  rw [hshared] at hpath ⊢
  exact ⟨pathDoc, doc, hpathDoc, hdoc, ⟨hpath, hlast⟩, parameters_ofText pathDoc doc⟩

end Catalog

namespace Manifest

/-- **Every operation in the document of a manifest has well-formed parameters**: those of the
path as the docstring of the route that documents most of them declares them, and all others as
its own docstring does. -/
theorem parameters_of_catalog {m : Manifest} {c : Catalog} (h : m.catalog = .ok c)
    {path : String} {n : Method} {op : Operation}
    (hop : operationAt c.document.paths path n = some op) :
    ∃ e ∈ m.routes, ∃ r, IsRoute e r ∧ IsLast (fun r => c.Documents r path n) r c.routes
      ∧ ∃ pathDoc ∈ e.operations.values, ∃ doc ∈ e.operations.values,
        c.Supplied r path n pathDoc doc ∧ WellFormedParameters pathDoc doc op.parameters := by
  have hc := catalog_eq_ok_iff.1 h
  obtain ⟨r, hr, hrenders⟩ := (Catalog.operationAt_foldl_addPath c.routes op).1 hop
  obtain ⟨e, he, hroute⟩ := exists_of_mem_right hc.routes hr.mem
  obtain ⟨pathDoc, doc, hpathDoc, hdoc, hsupplied, hparams⟩ :=
    hrenders.exists_supplied hroute.readFrom
  refine ⟨e, he, r, hroute, hr, pathDoc, hpathDoc, doc, hdoc, hsupplied, ?_⟩
  rw [hparams]
  exact wellFormed_docParameters pathDoc doc

def findPetDoc : String := "Find a pet.\n\nPath Params:\n  id (int) -- The pet.\n"

/-- a name in two places, and one that is declared again -/
def renamePetDoc : String :=
  "Rename a pet.\n\nQuery Params:\n  q -- words\nHeaders:\n  X-Id -- an id\n  q -- no\n  X-Id -- again\n"

def petManifest : Manifest :=
  { routes := [{ url := "/pets/:id", handler := "Pet",
                 operations := .ofList [("POST", renamePetDoc), (" get", findPetDoc)] }] }

def petRoute : Route :=
  { url := "/pets/:id", handler := "Pet",
    operations := [(.get, OperationDoc.ofText findPetDoc),
      (.post, OperationDoc.ofText renamePetDoc)] }

theorem catalog_petManifest : petManifest.catalog = .ok { routes := [petRoute] } := by
  rfl

theorem parameters_of_petManifest :
    ∃ c op, petManifest.catalog = .ok c
      ∧ operationAt c.document.paths "/pets/{id}" .post = some op
      ∧ ∃ e ∈ petManifest.routes, ∃ r, IsRoute e r
        ∧ IsLast (fun r => c.Documents r "/pets/{id}" .post) r c.routes
        ∧ ∃ pathDoc ∈ e.operations.values, ∃ doc ∈ e.operations.values,
          c.Supplied r "/pets/{id}" .post pathDoc doc
            ∧ WellFormedParameters pathDoc doc op.parameters := by
  have hsome : (operationAt ({ routes := [petRoute] } : Catalog).document.paths "/pets/{id}"
      .post).isSome = true := by
    decide +kernel
  obtain ⟨op, hop⟩ := Option.isSome_iff_exists.1 hsome
  exact ⟨_, op, catalog_petManifest, hop, parameters_of_catalog catalog_petManifest hop⟩

end Manifest

end Apidoc
