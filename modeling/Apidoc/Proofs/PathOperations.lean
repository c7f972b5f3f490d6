import Mathlib.Data.List.Basic
import Mathlib.Data.List.Induction
import Apidoc.Catalog.Document

/-!
# The operations of a document

Routes are added to a document one after the other.  Here the document is described without the
order in which this is done.

* `IsLast`           the last of the elements of a list with a property;
* `IsFirstLargest`   the first of the largest tables of a list;
* `Catalog.kept`         the operations of a route with enabled methods;
* `Catalog.HasPath`      the path of a route, and the path parameters that its operations share;
* `Catalog.Documents`    whether a route documents a method at a path;
* `Catalog.Renders`      the operation that the route documents there;
* `operationAt`          the operation that paths have for a method.

`operationAt_addPath_of_documents` and `operationAt_addPath_of_not` say what one route does to the
operation of one path and method, and `operationAt_foldl_addPath` what all routes do.

Main statement: `Catalog.document_operations`.
-/

namespace Apidoc

universe u

/-! ## the last element with a property -/

/-- no element behind `x` has the property that `x` has -/
def IsLast {α : Type u} (p : α → Prop) (x : α) (xs : List α) : Prop :=
  p x ∧ ∃ as bs, xs = as ++ x :: bs ∧ ∀ y ∈ bs, ¬p y

section
variable {α : Type u} {p : α → Prop} {x : α} {xs : List α}

theorem not_isLast_nil : ¬IsLast p x [] := by
  rintro ⟨-, as, bs, he, -⟩
  exact absurd he.symm (by simp)

theorem isLast_concat (y : α) :
    IsLast p x (xs ++ [y]) ↔ p y ∧ x = y ∨ ¬p y ∧ IsLast p x xs := by
  constructor
  · rintro ⟨hx, as, bs, he, hbs⟩
    rcases List.eq_nil_or_concat bs with rfl | ⟨cs, z, rfl⟩
    · obtain ⟨-, rfl⟩ := List.append_singleton_inj.1 he
      exact .inl ⟨hx, rfl⟩
    · rw [List.concat_eq_append, ← List.cons_append, ← List.append_assoc] at he
      obtain ⟨hxs, rfl⟩ := List.append_singleton_inj.1 he
      refine .inr ⟨hbs y (by simp), hx, as, cs, hxs, fun z hz => hbs z (by simp [hz])⟩
  · rintro (⟨hy, rfl⟩ | ⟨hy, hx, as, bs, rfl, hbs⟩)
    · exact ⟨hy, xs, [], rfl, fun _ hz => absurd hz List.not_mem_nil⟩
    · refine ⟨hx, as, bs ++ [y], by simp, fun z hz => ?_⟩
      rcases List.mem_append.1 hz with hz | hz
      · exact hbs z hz
      · rwa [List.mem_singleton.1 hz]

theorem IsLast.mem (h : IsLast p x xs) : x ∈ xs := by
  obtain ⟨-, as, bs, rfl, -⟩ := h
  simp

theorem exists_isLast_iff : (∃ x, IsLast p x xs) ↔ ∃ x ∈ xs, p x := by
  refine ⟨fun ⟨x, h⟩ => ⟨x, h.mem, h.1⟩, ?_⟩
  induction xs using List.reverseRecOn with
  | nil => rintro ⟨x, hx, -⟩; cases hx
  | append_singleton xs y ih =>
    rintro ⟨x, hx, hp⟩
    by_cases hy : p y
    · exact ⟨y, (isLast_concat y).2 (.inl ⟨hy, rfl⟩)⟩
    · have hxs : x ∈ xs := by
        rcases List.mem_append.1 hx with hx | hx
        · exact hx
        · exact absurd (List.mem_singleton.1 hx ▸ hp) hy
      obtain ⟨z, hz⟩ := ih ⟨x, hxs, hp⟩
      exact ⟨z, (isLast_concat y).2 (.inr ⟨hy, hz⟩)⟩

theorem IsLast.filter (h : IsLast p x xs) {q : α → Bool} (hx : q x = true) :
    IsLast p x (xs.filter q) := by
  obtain ⟨hp, as, bs, rfl, hbs⟩ := h
  refine ⟨hp, as.filter q, bs.filter q, ?_, fun y hy => hbs y (List.mem_of_mem_filter hy)⟩
  rw [List.filter_append, List.filter_cons_of_pos hx]

/-- of the elements with one key the last is bound to it, and all other keys stay bound -/
theorem get?_insertAll_map {β : Type u} (t : Table β) (key : α → String) (f : α → β) (xs : List α)
    (k : String) (y : β) : (t.insertAll (xs.map fun x => (key x, f x))).get? k = some y
      ↔ (∃ x, IsLast (fun x => key x = k) x xs ∧ f x = y)
        ∨ (∀ x ∈ xs, key x ≠ k) ∧ t.get? k = some y := by
  induction xs using List.reverseRecOn with
  | nil => simp [not_isLast_nil, Table.insertAll_nil]
  | append_singleton xs x ih =>
    rw [List.map_append, Table.insertAll_append, List.map_singleton, Table.insertAll_cons,
      Table.insertAll_nil, Table.get?_insert]
    by_cases hk : key x = k
    · simp [isLast_concat, hk, or_imp, forall_and]
    · simp [isLast_concat, hk, Ne.symm hk, ih, or_imp, forall_and]

theorem get?_ofList_map {β : Type u} (key : α → String) (f : α → β) (xs : List α) (k : String)
    (y : β) : (Table.ofList (xs.map fun x => (key x, f x))).get? k = some y
      ↔ ∃ x, IsLast (fun x => key x = k) x xs ∧ f x = y := by
  have hempty : (∅ : Table β).get? k ≠ some y := nofun
  rw [Table.ofList, get?_insertAll_map]
  exact or_iff_left fun h => hempty h.2

end

/-! ## the first largest table -/

/-- all tables before `t` are smaller, and none behind it is larger -/
def IsFirstLargest (t : Items) (ts : List Items) : Prop :=
  ∃ as bs, ts = as ++ t :: bs ∧ (∀ u ∈ as, u.size < t.size) ∧ ∀ u ∈ bs, u.size ≤ t.size

theorem IsFirstLargest.size_le {t : Items} {ts : List Items} (h : IsFirstLargest t ts) :
    ∀ u ∈ ts, u.size ≤ t.size := by
  obtain ⟨as, bs, rfl, has, hbs⟩ := h
  intro u hu
  rcases List.mem_append.1 hu with hu | hu
  · exact Nat.le_of_lt (has u hu)
  · rcases List.mem_cons.1 hu with rfl | hu
    · exact Nat.le_refl _
    · exact hbs u hu

theorem IsFirstLargest.mem {t : Items} {ts : List Items} (h : IsFirstLargest t ts) : t ∈ ts := by
  obtain ⟨as, bs, rfl, -⟩ := h
  simp

theorem IsFirstLargest.unique {t u : Items} {ts : List Items} (ht : IsFirstLargest t ts)
    (hu : IsFirstLargest u ts) : t = u := by
  have hsize : t.size = u.size := by
    have htu := hu.size_le t (by obtain ⟨as, bs, rfl, -⟩ := ht; simp)
    have hut := ht.size_le u (by obtain ⟨as, bs, rfl, -⟩ := hu; simp)
    exact Nat.le_antisymm htu hut
  obtain ⟨as, bs, rfl, has, -⟩ := ht
  obtain ⟨cs, ds, he, hcs, -⟩ := hu
  rcases List.append_eq_append_iff.1 he with ⟨es, rfl, h⟩ | ⟨es, rfl, h⟩
  · cases es with
    | nil => exact (List.cons.inj h).1
    | cons e es =>
      obtain ⟨rfl, -⟩ := List.cons.inj h
      exact absurd hsize (Nat.ne_of_lt (hcs t (by simp)))
  · cases es with
    | nil => exact (List.cons.inj h).1.symm
    | cons e es =>
      obtain ⟨rfl, -⟩ := List.cons.inj h
      exact absurd hsize.symm (Nat.ne_of_lt (has u (by simp)))

theorem isFirstLargest_largest (t : Items) (ts : List Items) :
    IsFirstLargest (Route.largest t ts) (t :: ts) := by
  -- from the back: a table replaces the largest of those before it only if it is larger
  induction ts using List.reverseRecOn with
  | nil => exact ⟨[], [], rfl, by simp, by simp⟩
  | append_singleton ts u ih =>
    have hle := ih.size_le
    obtain ⟨as, bs, he, has, hbs⟩ := ih
    rw [Route.largest, List.foldl_concat]
    show IsFirstLargest (if (Route.largest t ts).size < u.size then u else Route.largest t ts) _
    split
    next hu => exact ⟨t :: ts, [], rfl, fun w hw => Nat.lt_of_le_of_lt (hle w hw) hu, by simp⟩
    next hu =>
      refine ⟨as, bs ++ [u], ?_, has, fun w hw => ?_⟩
      · rw [← List.cons_append, he]
        simp
      · rcases List.mem_append.1 hw with hw | hw
        · exact hbs w hw
        · rw [List.mem_singleton.1 hw]
          exact Nat.le_of_not_lt hu

theorem Route.sharedParams?_eq_some_iff {ops : List (Method × OperationDoc)} {t : Items} :
    Route.sharedParams? ops = some t ↔ IsFirstLargest t (ops.map fun e => e.2.pathParams) := by
  cases ops with
  | nil =>
    refine ⟨fun h => (by cases h), fun ⟨as, bs, he, _⟩ => absurd he.symm (by simp)⟩
  | cons e ops =>
    have hl := isFirstLargest_largest e.2.pathParams (ops.map fun e => e.2.pathParams)
    show some (Route.largest _ _) = some t ↔ _
    rw [Option.some.injEq]
    exact ⟨fun h => h ▸ hl, fun h => hl.unique h⟩

/-! ## the entries of a route -/

def operationAt (paths : Table PathItem) (path : String) (m : Method) : Option Operation :=
  (paths.get? path).bind fun p => p.operation m

namespace Catalog

def kept (c : Catalog) (r : Route) : List (Method × OperationDoc) := r.enabled c.enabledMethods

/-- A route that keeps no operation has no path. -/
structure HasPath (c : Catalog) (r : Route) (path : String) (shared : Items) : Prop where
  largest : IsFirstLargest shared ((c.kept r).map fun e => e.2.pathParams)
  template : pathTemplate r.url shared.names = path

/-- whether the route keeps an operation with the method `m`, and has the path -/
def Documents (c : Catalog) (r : Route) (path : String) (m : Method) : Prop :=
  (∃ shared, c.HasPath r path shared) ∧ ∃ d, (m, d) ∈ c.kept r

/-- `op` is what the last operation of the route with the method `m` looks like in the document -/
def Renders (c : Catalog) (r : Route) (path : String) (m : Method) (op : Operation) : Prop :=
  ∃ shared d, c.HasPath r path shared ∧ IsLast (fun e => e.1 = m) (m, d) (c.kept r)
    ∧ op = c.operation r.handler m d shared

/-- what the operations of a route make of a path -/
def setAll (c : Catalog) (r : Route) (shared : Items) (p : PathItem) : PathItem :=
  (c.kept r).foldl (fun p e => p.set e.1 (c.operation r.handler e.1 e.2 shared)) p

section
variable {c : Catalog} {r : Route} {path : String} {m : Method} {shared : Items}
  {paths : Table PathItem}

theorem HasPath.addPath (h : c.HasPath r path shared) (paths : Table PathItem) :
    c.addPath paths r = paths.insert path (c.setAll r shared ((paths.get? path).getD {})) := by
  have hs := Route.sharedParams?_eq_some_iff.2 h.largest
  rw [kept] at hs
  simp only [Catalog.addPath, hs, h.template]
  rfl

theorem HasPath.unique {path' : String} {shared' : Items} (h : c.HasPath r path shared)
    (h' : c.HasPath r path' shared') : path = path' ∧ shared = shared' := by
  have hs := h.largest.unique h'.largest
  exact ⟨by rw [← h.template, ← h'.template, hs], hs⟩

/-- A route has a path, or it keeps no operation and is passed over. -/
theorem hasPath_or (c : Catalog) (r : Route) :
    (∃ path shared, c.HasPath r path shared)
      ∨ (∀ path shared, ¬c.HasPath r path shared) ∧ ∀ paths, c.addPath paths r = paths := by
  cases hs : Route.sharedParams? (c.kept r) with
  | some shared =>
    exact .inl ⟨_, shared, Route.sharedParams?_eq_some_iff.1 hs, rfl⟩
  | none =>
    refine .inr ⟨fun path shared h => ?_, fun paths => ?_⟩
    · rw [Route.sharedParams?_eq_some_iff.2 h.largest] at hs
      cases hs
    · rw [kept] at hs
      simp only [Catalog.addPath, hs]

theorem exists_hasPath {o : Method × OperationDoc} (h : o ∈ c.kept r) :
    ∃ path shared, c.HasPath r path shared := by
  cases hops : c.kept r with
  | nil => rw [hops] at h; cases h
  | cons o os =>
    have hlargest := isFirstLargest_largest o.2.pathParams (os.map fun o => o.2.pathParams)
    exact ⟨_, _, by rw [hops]; exact hlargest, rfl⟩

/-! ### one route -/

theorem operation_foldl_set_of_isLast {f : Method → OperationDoc → Operation}
    {ops : List (Method × OperationDoc)} {d : OperationDoc}
    (h : IsLast (fun e => e.1 = m) (m, d) ops) (p : PathItem) :
    (ops.foldl (fun p e => p.set e.1 (f e.1 e.2)) p).operation m = some (f m d) := by
  induction ops using List.reverseRecOn with
  | nil => exact absurd h not_isLast_nil
  | append_singleton ops e ih =>
    rw [List.foldl_concat]
    rcases (isLast_concat e).1 h with ⟨-, rfl⟩ | ⟨he, h⟩
    · exact PathItem.operation_set_self _ m _
    · rw [PathItem.operation_set_of_ne _ _ (Ne.symm he), ih h]

theorem operation_foldl_set_of_ne {f : Method → OperationDoc → Operation}
    {ops : List (Method × OperationDoc)} (h : ∀ e ∈ ops, e.1 ≠ m) (p : PathItem) :
    (ops.foldl (fun p e => p.set e.1 (f e.1 e.2)) p).operation m = p.operation m := by
  induction ops generalizing p with
  | nil => rfl
  | cons e ops ih =>
    rw [List.foldl_cons, ih fun e' he' => h e' (List.mem_cons_of_mem e he'),
      PathItem.operation_set_of_ne _ _ (h e List.mem_cons_self).symm]

theorem Renders.operationAt_addPath {op : Operation} (h : c.Renders r path m op)
    (paths : Table PathItem) : operationAt (c.addPath paths r) path m = some op := by
  obtain ⟨shared, d, hpath, hlast, rfl⟩ := h
  rw [operationAt, hpath.addPath, Table.get?_insert_self]
  exact operation_foldl_set_of_isLast (f := fun m d => c.operation r.handler m d shared) hlast _

theorem exists_renders_iff : (∃ op, c.Renders r path m op) ↔ c.Documents r path m := by
  constructor
  · rintro ⟨op, shared, d, hpath, hlast, -⟩
    exact ⟨⟨shared, hpath⟩, d, hlast.mem⟩
  · rintro ⟨⟨shared, hpath⟩, d, hd⟩
    obtain ⟨⟨n, e⟩, hlast⟩ := (exists_isLast_iff (p := fun e => e.1 = m)).2 ⟨(m, d), hd, rfl⟩
    obtain rfl : n = m := hlast.1
    exact ⟨_, shared, e, hpath, hlast, rfl⟩

theorem operationAt_addPath_of_documents (h : c.Documents r path m) (paths : Table PathItem)
    (op : Operation) :
    operationAt (c.addPath paths r) path m = some op ↔ c.Renders r path m op := by
  obtain ⟨op', hop'⟩ := exists_renders_iff.2 h
  refine ⟨fun ho => ?_, fun ho => ho.operationAt_addPath paths⟩
  rw [hop'.operationAt_addPath, Option.some.injEq] at ho
  exact ho ▸ hop'

theorem operationAt_addPath_of_not (h : ¬c.Documents r path m) (paths : Table PathItem) :
    operationAt (c.addPath paths r) path m = operationAt paths path m := by
  rcases c.hasPath_or r with ⟨own, shared, hown⟩ | ⟨-, hsame⟩
  · rw [operationAt, hown.addPath, operationAt]
    by_cases he : own = path
    · subst he
      have hops : ∀ e ∈ c.kept r, e.1 ≠ m := by
        rintro e he rfl
        exact h ⟨⟨shared, hown⟩, e.2, he⟩
      have hitem : ((paths.get? own).getD {}).operation m
          = (paths.get? own).bind fun p => p.operation m := by
        cases paths.get? own <;> rfl
      rw [Table.get?_insert_self, ← hitem]
      exact operation_foldl_set_of_ne (f := fun m d => c.operation r.handler m d shared) hops _
    · rw [Table.get?_insert_of_ne _ _ (Ne.symm he)]
  · rw [hsame]

theorem mem_keys_addPath (paths : Table PathItem) (r : Route) (path : String) :
    path ∈ (c.addPath paths r).keys ↔ path ∈ paths.keys ∨ ∃ shared, c.HasPath r path shared := by
  rcases c.hasPath_or r with ⟨own, shared, hown⟩ | ⟨hno, hsame⟩
  · rw [hown.addPath, Table.mem_keys_insert, or_comm]
    refine or_congr_right ⟨?_, fun ⟨_, h⟩ => (h.unique hown).1⟩
    rintro rfl
    exact ⟨shared, hown⟩
  · rw [hsame, or_iff_left]
    rintro ⟨shared, h⟩
    exact hno path shared h

/-! ### all routes -/

theorem operationAt_foldl_addPath (rs : List Route) (op : Operation) :
    operationAt (rs.foldl c.addPath ∅) path m = some op ↔
      ∃ r, IsLast (fun r => c.Documents r path m) r rs ∧ c.Renders r path m op := by
  -- from the back: the last route decides, or else those before it
  induction rs using List.reverseRecOn with
  | nil =>
    refine ⟨fun h => (by cases h), fun ⟨r, hr, _⟩ => absurd hr not_isLast_nil⟩
  | append_singleton rs r ih =>
    rw [List.foldl_concat]
    by_cases h : c.Documents r path m
    · simp [operationAt_addPath_of_documents h, isLast_concat, h]
    · simp [operationAt_addPath_of_not h, ih, isLast_concat, h]

theorem mem_keys_foldl_addPath (rs : List Route) :
    path ∈ (rs.foldl c.addPath ∅).keys ↔ ∃ r ∈ rs, ∃ shared, c.HasPath r path shared := by
  induction rs using List.reverseRecOn with
  | nil => exact ⟨fun h => absurd h List.not_mem_nil, fun ⟨_, hr, _⟩ => absurd hr List.not_mem_nil⟩
  | append_singleton rs r ih =>
    rw [List.foldl_concat, mem_keys_addPath, ih]
    simp [or_and_right, exists_or]

end

/-! ## catalogs with one document -/

/-- catalogs have the same paths when their routes keep the same operations -/
theorem paths_congr {c c' : Catalog} {f : Route → Route} (hroutes : c'.routes = c.routes.map f)
    (hurl : ∀ r, (f r).url = r.url) (hhandler : ∀ r, (f r).handler = r.handler)
    (hkept : ∀ r, c'.kept (f r) = c.kept r) (hop : c'.operation = c.operation) :
    c'.paths = c.paths := by
  have hadd : ∀ paths r, c'.addPath paths (f r) = c.addPath paths r := by
    intro paths r
    have hr := hkept r
    rw [kept, kept] at hr
    rw [addPath, addPath, hr, hurl, hhandler, hop]
  rw [paths, paths, hroutes, List.foldl_map]
  simp only [hadd]

/-- the catalog without the operations that are not documented -/
def withoutDisabled (c : Catalog) : Catalog :=
  { c with routes := c.routes.map fun r => { r with operations := c.kept r } }

theorem document_withoutDisabled (c : Catalog) : c.withoutDisabled.document = c.document := by
  have hkept : ∀ r : Route,
      c.withoutDisabled.kept { r with operations := c.kept r } = c.kept r := by
    intro r
    show List.filter _ (List.filter _ r.operations) = List.filter _ r.operations
    rw [List.filter_filter]
    exact List.filter_congr fun e _ => Bool.and_self _
  have hpaths : c.withoutDisabled.paths = c.paths :=
    paths_congr (c := c) rfl (fun _ => rfl) (fun _ => rfl) hkept rfl
  rw [document, hpaths]
  rfl

theorem document_enabledMethods (c : Catalog) {methods : List Method}
    (h : ∀ m, m ∈ methods ↔ m ∈ c.enabledMethods) :
    ({ c with enabledMethods := methods } : Catalog).document = c.document := by
  have hkept : ∀ r, ({ c with enabledMethods := methods } : Catalog).kept r = c.kept r := by
    intro r
    refine List.filter_congr fun e _ => ?_
    rw [Bool.eq_iff_iff, List.contains_iff_mem, List.contains_iff_mem, h]
  have hpaths : ({ c with enabledMethods := methods } : Catalog).paths = c.paths :=
    paths_congr (c := c) (f := id) (List.map_id _).symm (fun _ => rfl) (fun _ => rfl) hkept rfl
  rw [document, hpaths]
  rfl

/-! ## the document -/

/-- **The paths of a document are those of the routes that keep an operation, and each path has
for each method the operation of the last route that documents it there.**  Operations that are
not enabled do not show, and neither does the order of the enabled methods. -/
theorem document_operations (c : Catalog) :
    (∀ path, path ∈ c.document.paths.keys ↔ ∃ r ∈ c.routes, ∃ shared, c.HasPath r path shared)
      ∧ (∀ path m, (operationAt c.document.paths path m).isSome ↔
          ∃ r ∈ c.routes, c.Documents r path m)
      ∧ (∀ path m op, operationAt c.document.paths path m = some op ↔
          ∃ r shared d, IsLast (fun r => c.Documents r path m) r c.routes
            ∧ c.HasPath r path shared ∧ IsLast (fun e => e.1 = m) (m, d) (c.kept r)
            ∧ op = c.operation r.handler m d shared
            ∧ op.id = r.handler ++ "." ++ m.name
            ∧ op.parameters = (shared.sorted ++ d.headerParams.sorted ++ d.queryParams.sorted
                ++ d.cookieParams.sorted).map parameter
            ∧ op.responses.keys = d.responses.keys)
      ∧ c.withoutDisabled.document = c.document
      ∧ ∀ methods : List Method, (∀ m, m ∈ methods ↔ m ∈ c.enabledMethods) →
          ({ c with enabledMethods := methods } : Catalog).document = c.document := by
  refine ⟨fun path => mem_keys_foldl_addPath c.routes, fun path m => ?_, fun path m op => ?_,
    document_withoutDisabled c, fun methods h => document_enabledMethods c h⟩
  · rw [Option.isSome_iff_exists, ← exists_isLast_iff]
    constructor
    · rintro ⟨op, hop⟩
      obtain ⟨r, hr, -⟩ := (operationAt_foldl_addPath c.routes op).1 hop
      exact ⟨r, hr⟩
    · rintro ⟨r, hr⟩
      obtain ⟨op, hop⟩ := exists_renders_iff.2 hr.1
      exact ⟨op, (operationAt_foldl_addPath c.routes op).2 ⟨r, hr, hop⟩⟩
  · refine (operationAt_foldl_addPath c.routes op).trans ?_
    constructor
    · rintro ⟨r, hr, shared, d, hpath, hlast, rfl⟩
      refine ⟨r, shared, d, hr, hpath, hlast, rfl, rfl, ?_, Table.keys_map _ _⟩
      simp [operation, parameters]
    · rintro ⟨r, shared, d, hr, hpath, hlast, rfl, -⟩
      exact ⟨r, hr, shared, d, hpath, hlast, rfl⟩

/-- two routes with one path, and a method that is not enabled -/
def petCatalog : Catalog :=
  { routes :=
      [{ url := "/pets/:id", handler := "Pet", operations := [(.get, {}), (.head, {})] },
        { url := "/pets/(?P<id>[0-9]+)$", handler := "PetById",
          operations := [(.get, { summary := "Find a pet." })] }] }

theorem document_petCatalog_repeated :
    ({ petCatalog with
        enabledMethods := [.get, .delete, .patch, .put, .post, .get] } : Catalog).document
      = petCatalog.document :=
  (document_operations petCatalog).2.2.2.2 _ fun m => by cases m <;> decide

end Catalog

end Apidoc
