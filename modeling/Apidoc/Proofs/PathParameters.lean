import Apidoc.Proofs.Parameters

/-!
# Path parameters of one path

The operations of a route share the path parameters of one of them.  When several routes meet in
one path, each brings its own.

* `Operation.pathParameters`   the path parameters of an operation;
* `Catalog.IsLargestAt`        a largest table that a route with the path documents;
* `Catalog.SharesLargest`      all operations at the path have the parameters of such a table;
* `Catalog.Serves`             the route from which an operation comes.

Main statement: an operation has the path parameters that its route shares, so the operations at a
path agree if the routes from which they come do (`pathParameters_of_fromDocstrings`).
-/

namespace Apidoc

def Operation.pathParameters (op : Operation) : List Parameter :=
  op.parameters.filter (·.place = "path")

/-! ## one operation -/

namespace Listing

theorem filter_path_parameters (l : Listing) (s : String) :
    (l.parameters s).filter (·.place = "path") = if l = .path then l.parameters s else [] := by
  split
  next h =>
    refine List.filter_eq_self.2 fun p hp => ?_
    rw [place_of_mem hp, h]
    rfl
  next h =>
    refine List.filter_eq_nil_iff.2 fun p hp hplace => h ?_
    rw [place_of_mem hp] at hplace
    exact eq_path_of_place (of_decide_eq_true hplace)

end Listing

theorem filter_path_docParameters (pathDoc doc : String) :
    (docParameters pathDoc doc).filter (·.place = "path") = Listing.path.parameters pathDoc := by
  rw [docParameters, List.filter_append, List.filter_append, List.filter_append]
  simp only [Listing.filter_path_parameters]
  simp

namespace Catalog

/-- the operations are those of docstrings -/
def FromDocstrings (c : Catalog) : Prop := ∀ r ∈ c.routes, r.ReadFrom fun _ => True

/-- no table of path parameters in a route with the path is larger than `t`, which is one -/
structure IsLargestAt (c : Catalog) (path : String) (t : Items) : Prop where
  documented : ∃ r ∈ c.routes, (∃ shared, c.HasPath r path shared)
    ∧ ∃ e ∈ c.kept r, e.2.pathParams = t
  size_le : ∀ r ∈ c.routes, (∃ shared, c.HasPath r path shared) →
    ∀ e ∈ c.kept r, e.2.pathParams.size ≤ t.size

def SharesLargest (c : Catalog) (path : String) : Prop :=
  ∃ t, c.IsLargestAt path t ∧ ∀ n op, operationAt c.document.paths path n = some op →
    op.pathParameters = t.sorted.map parameter

/-- the operation at the path with the method `n` comes from the route -/
def Serves (c : Catalog) (r : Route) (path : String) (n : Method) : Prop :=
  IsLast (fun r => c.Documents r path n) r c.routes

variable {c : Catalog} {r : Route} {path : String} {n : Method} {op : Operation}

theorem Renders.pathParameters_eq (h : c.Renders r path n op) (hr : r.ReadFrom fun _ => True)
    {shared : Items} (hpath : c.HasPath r path shared) :
    op.pathParameters = shared.sorted.map parameter := by
  obtain ⟨pathDoc, doc, -, -, hsupplied, hparams⟩ := h.exists_supplied hr
  obtain rfl := (hsupplied.hasPath.unique hpath).2
  rw [Operation.pathParameters, hparams, filter_path_docParameters]
  exact (Listing.path.sorted_map_parameter pathDoc).symm

theorem FromDocstrings.exists_serves (h : c.FromDocstrings)
    (hop : operationAt c.document.paths path n = some op) :
    ∃ r shared, c.Serves r path n ∧ c.HasPath r path shared
      ∧ op.pathParameters = shared.sorted.map parameter := by
  obtain ⟨r, hr, hrenders⟩ := (operationAt_foldl_addPath c.routes op).1 hop
  obtain ⟨⟨shared, hpath⟩, -⟩ := hr.1
  exact ⟨r, shared, hr, hpath, hrenders.pathParameters_eq (h r hr.mem) hpath⟩

theorem Serves.exists_operation (hr : c.Serves r path n) :
    ∃ op, operationAt c.document.paths path n = some op ∧ c.Renders r path n op := by
  obtain ⟨op, hrenders⟩ := exists_renders_iff.2 hr.1
  exact ⟨op, (operationAt_foldl_addPath c.routes op).2 ⟨r, hr, hrenders⟩, hrenders⟩

/-! ## all operations at a path -/

theorem FromDocstrings.sharesLargest_iff (h : c.FromDocstrings) :
    c.SharesLargest path ↔ ∃ t, c.IsLargestAt path t ∧ ∀ r n shared, c.Serves r path n →
      c.HasPath r path shared → shared.sorted.map parameter = t.sorted.map parameter := by
  refine exists_congr fun t => and_congr_right fun _ => ?_
  constructor
  · intro hall r n shared hr hpath
    obtain ⟨op, hop, hrenders⟩ := hr.exists_operation
    rw [← hrenders.pathParameters_eq (h r hr.mem) hpath]
    exact hall n op hop
  · intro hall n op hop
    obtain ⟨r, shared, hr, hpath, he⟩ := h.exists_serves hop
    rw [he]
    exact hall r n shared hr hpath

theorem isLargestAt_of_common {shared : Items} (hr : r ∈ c.routes)
    (hpath : c.HasPath r path shared)
    (hall : ∀ r ∈ c.routes, ∀ t, c.HasPath r path t → t = shared) : c.IsLargestAt path shared := by
  constructor
  · obtain ⟨e, he, hshared⟩ := List.mem_map.1 hpath.largest.mem
    exact ⟨r, hr, ⟨shared, hpath⟩, e, he, hshared⟩
  · rintro r' hr' ⟨t, ht⟩ e he
    have hle := ht.largest.size_le e.2.pathParams (List.mem_map_of_mem he)
    rwa [hall r' hr' t ht] at hle

/-- **An operation has the path parameters that its route shares**, the largest that it documents.
The operations at a path share the largest of all routes there exactly if every route from which
one of them comes shares it; so they do if the routes with the path all share one table. -/
theorem pathParameters_of_fromDocstrings (h : c.FromDocstrings) (path : String) :
    (∀ n op, operationAt c.document.paths path n = some op →
        ∃ r shared, c.Serves r path n ∧ c.HasPath r path shared
          ∧ op.pathParameters = shared.sorted.map parameter)
      ∧ (c.SharesLargest path ↔ ∃ t, c.IsLargestAt path t ∧ ∀ r n shared, c.Serves r path n →
          c.HasPath r path shared → shared.sorted.map parameter = t.sorted.map parameter)
      ∧ ∀ r ∈ c.routes, ∀ shared, c.HasPath r path shared →
          (∀ r ∈ c.routes, ∀ t, c.HasPath r path t → t = shared) → c.SharesLargest path := by
  refine ⟨fun n op hop => h.exists_serves hop, h.sharesLargest_iff, ?_⟩
  intro r hr shared hpath hall
  refine h.sharesLargest_iff.2 ⟨shared, isLargestAt_of_common hr hpath hall, ?_⟩
  intro r' n t hserves ht
  rw [hall r' hserves.mem t ht]

def docPetCatalog : Catalog := { routes := [Manifest.petRoute] }

theorem sharesLargest_docPetCatalog :
    docPetCatalog.FromDocstrings ∧ docPetCatalog.SharesLargest "/pets/{id}" := by
  have hdocs : docPetCatalog.FromDocstrings := by
    intro r hr e he
    obtain rfl := List.mem_singleton.1 hr
    rcases List.mem_cons.1 he with rfl | he
    · exact ⟨Manifest.findPetDoc, trivial, rfl⟩
    · obtain rfl := List.mem_singleton.1 he
      exact ⟨Manifest.renamePetDoc, trivial, rfl⟩
  have hsome : (operationAt docPetCatalog.document.paths "/pets/{id}" .post).isSome = true := by
    decide +kernel
  obtain ⟨op, hop⟩ := Option.isSome_iff_exists.1 hsome
  obtain ⟨hserves, -, hshares⟩ := pathParameters_of_fromDocstrings hdocs "/pets/{id}"
  obtain ⟨r, shared, hr, hpath, -⟩ := hserves .post op hop
  obtain rfl := List.mem_singleton.1 hr.mem
  refine ⟨hdocs, hshares _ hr.mem shared hpath fun r' hr' t ht => ?_⟩
  obtain rfl := List.mem_singleton.1 hr'
  exact (ht.unique hpath).2

/-- one path, documented in two places -/
def splitPetCatalog : Catalog :=
  { routes :=
      [{ url := "/pets/{id}", handler := "FindPet",
         operations := [(.get, OperationDoc.ofText Manifest.findPetDoc)] },
        { url := "/pets/{id}", handler := "DropPet",
          operations := [(.delete, OperationDoc.ofText "Drop a pet.\n")] }] }

theorem not_sharesLargest_splitPetCatalog :
    splitPetCatalog.FromDocstrings ∧ "/pets/{id}" ∈ splitPetCatalog.document.paths.keys
      ∧ ¬splitPetCatalog.SharesLargest "/pets/{id}" := by
  have hdocs : splitPetCatalog.FromDocstrings := by
    intro r hr e he
    rcases List.mem_cons.1 hr with rfl | hr
    · obtain rfl := List.mem_singleton.1 he
      exact ⟨Manifest.findPetDoc, trivial, rfl⟩
    · obtain rfl := List.mem_singleton.1 hr
      obtain rfl := List.mem_singleton.1 he
      exact ⟨"Drop a pet.\n", trivial, rfl⟩
  have hkeys : "/pets/{id}" ∈ splitPetCatalog.document.paths.keys := by decide +kernel
  have hget : (operationAt splitPetCatalog.document.paths "/pets/{id}" .get).map
      (fun op => op.pathParameters.map Parameter.name) = some ["id"] := by
    decide +kernel
  have hdelete : (operationAt splitPetCatalog.document.paths "/pets/{id}" .delete).map
      (fun op => op.pathParameters.map Parameter.name) = some [] := by
    decide +kernel
  refine ⟨hdocs, hkeys, ?_⟩
  rintro ⟨t, -, hall⟩
  obtain ⟨op, hop, hnames⟩ := Option.map_eq_some_iff.1 hget
  obtain ⟨op', hop', hnames'⟩ := Option.map_eq_some_iff.1 hdelete
  rw [hall _ op hop] at hnames
  rw [hall _ op' hop', hnames] at hnames'
  exact absurd hnames' (by decide)

end Catalog

end Apidoc
