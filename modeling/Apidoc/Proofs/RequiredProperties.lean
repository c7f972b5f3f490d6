import Apidoc.Proofs.Parameters
import Apidoc.Proofs.SchemaParts

/-!
# Required properties

The properties of an object are bound in key order, and those that it requires are listed in the
order of declaration.  Here both are traced to the lines of one docstring.

* `Schema.IsObject`      an object that a docstring declares;
* `Schema.IsSound`       a schema that names required properties only as such an object;
* `Document.HasSchema`   the schemas that stand in a document.

Main statement: everything at any depth in the schemas of a manifest's document is sound, and its
models are such objects, alone or behind the models that they extend (`required_of_catalog`).
-/

namespace Apidoc

/-! ## objects -/

namespace Listing

/-- the names that are required by their last lines, in order -/
def requiredNames (l : Listing) (s : String) : List String :=
  Items.requiredKeys l.place (l.lines (Outline.ofText s).sections)

/-- a property for each name, as its last line declares it -/
def propertySchemas (l : Listing) (s : String) : List (String × Schema) :=
  (lastBy ItemLine.key (l.lines (Outline.ofText s).sections)).map fun line =>
    (line.key, propertySchema (line.toItem l.place 0))

theorem map_fst_propertySchemas (l : Listing) (s : String) :
    (l.propertySchemas s).map Prod.fst = l.names s := by
  rw [propertySchemas, names, ← map_key_lastBy, List.map_map]
  rfl

theorem requiredNames_sublist (l : Listing) (s : String) :
    (l.requiredNames s).Sublist (l.names s) := by
  rw [requiredNames, Items.requiredKeys, names, ← map_key_lastBy]
  exact List.filter_sublist.map _

theorem nodup_requiredNames (l : Listing) (s : String) : (l.requiredNames s).Nodup :=
  Items.nodup_requiredKeys _ _

theorem lax_of_mem_propertySchemas {l : Listing} {s name : String} {q : Schema}
    (h : (name, q) ∈ l.propertySchemas s) : q.Everywhere Schema.IsLax := by
  simp only [propertySchemas, List.mem_map, Prod.mk.injEq] at h
  obtain ⟨line, -, -, hq⟩ := h
  rw [← hq]
  exact lax_propertySchema (line.toItem l.place 0)

theorem sorted_map_propertySchema (l : Listing) (s : String) :
    (l.table (OperationDoc.ofText s)).sorted.map (fun i => (i.name, propertySchema i))
      = l.propertySchemas s := by
  have hr := (OperationDoc.records_ofText s).tables l
  have hu : (fun i : Item => (i.name, propertySchema i)) ∘ Item.unordered
      = fun i => (i.name, propertySchema i) := rfl
  rw [← hu, ← List.map_map, hr.sorted_eq, List.map_map]
  rfl

end Listing

namespace Schema

/-- an object with the properties `ps`, one for each name that the docstring `s` declares in
sections of the kind `l` -/
structure IsObject (n : Schema) (l : Listing) (s : String) (ps : List (String × Schema)) :
    Prop where
  type_eq : n.type = some "object"
  properties_eq : n.properties = some ps
  parts_eq : n.parts = ps.map Prod.snd
  perm : ps.Perm (l.propertySchemas s)
  required_eq : n.required
    = if (l.requiredNames s).isEmpty then none else some (l.requiredNames s)

namespace IsObject

variable {n n' : Schema} {l : Listing} {s : String} {ps : List (String × Schema)}

theorem names_perm (h : n.IsObject l s ps) : (ps.map Prod.fst).Perm (l.names s) := by
  rw [← Listing.map_fst_propertySchemas]
  exact h.perm.map _

theorem of_required (h : n.IsObject l s ps) {rs : List String} (hrs : n.required = some rs) :
    rs = l.requiredNames s ∧ rs ≠ [] := by
  have he := h.required_eq
  rw [hrs] at he
  split at he
  next => cases he
  next hne =>
    have hrs := Option.some.inj he
    exact ⟨hrs, fun h => hne (by rw [← hrs, h]; rfl)⟩

theorem required_subset (h : n.IsObject l s ps) {rs : List String} (hrs : n.required = some rs) :
    rs ⊆ ps.map Prod.fst := by
  rw [(h.of_required hrs).1]
  exact fun k hk => h.names_perm.mem_iff.2 ((l.requiredNames_sublist s).subset hk)

theorem of_skeleton_eq (h : n.IsObject l s ps) (he : n'.skeleton = n.skeleton) :
    n'.IsObject l s ps := by
  have htype : n'.skeleton.type = n.skeleton.type := congrArg Schema.type he
  have hproperties : n'.skeleton.properties = n.skeleton.properties :=
    congrArg Schema.properties he
  exact ⟨htype.trans h.type_eq, hproperties.trans h.properties_eq,
    (parts_of_skeleton_eq he).trans h.parts_eq, h.perm,
    (required_of_skeleton_eq he).trans h.required_eq⟩

end IsObject

theorem isObject_object {l : Listing} {s : String} {t : Table Schema} {rs : List String}
    (ht : t.entries.Perm (l.propertySchemas s)) (hrs : rs = l.requiredNames s) :
    (Schema.object t rs).IsObject l s t.entries := by
  refine ⟨rfl, rfl, by simp [object, parts], ht, ?_⟩
  rw [← hrs]
  rfl

/-- the items may come in any order -/
theorem exists_isObject_object (l : Listing) (s : String) {is : List Item}
    (h : is.Perm (l.table (OperationDoc.ofText s)).sorted) :
    ∃ ps, (Schema.object (.ofList (is.map fun i => (i.name, propertySchema i)))
      (l.table (OperationDoc.ofText s)).requiredNames).IsObject l s ps := by
  have hperm : (is.map fun i => (i.name, propertySchema i)).Perm (l.propertySchemas s) := by
    rw [← l.sorted_map_propertySchema]
    exact h.map _
  have hnodup : ((is.map fun i => (i.name, propertySchema i)).map Prod.fst).Nodup := by
    rw [(hperm.map _).nodup_iff, Listing.map_fst_propertySchemas]
    exact List.nodup_dedup _
  have hrequired : (l.table (OperationDoc.ofText s)).requiredNames = l.requiredNames s :=
    ((OperationDoc.records_ofText s).tables l).requiredNames_eq
  exact ⟨_, isObject_object ((Table.entries_ofList_perm hnodup).trans hperm) hrequired⟩

/-! ## sound schemas -/

/-- If the schema names required properties, it is an object that is declared; `p` tells where. -/
structure IsSound (p : Listing → String → Prop) (n : Schema) : Prop where
  annotated : n.IsAnnotated
  object : n.required.isSome → ∃ l s ps, p l s ∧ n.IsObject l s ps

variable {p : Listing → String → Prop} {s : Schema}

theorem Everywhere.sound (h : s.Everywhere IsLax) : s.Everywhere (IsSound p) := by
  refine h.imp fun n hn => ⟨hn.annotated, fun hr => ?_⟩
  rw [hn.required_eq] at hr
  cases hr

theorem IsObject.sound {l : Listing} {d : String} {ps : List (String × Schema)}
    (h : s.IsObject l d ps) (hp : p l d) (ha : s.IsAnnotated) : s.Everywhere (IsSound p) := by
  refine everywhere_iff.2 ⟨⟨ha, fun _ => ⟨l, d, ps, hp, h⟩⟩, ?_⟩
  intro q hq
  rw [h.parts_eq] at hq
  obtain ⟨⟨name, q⟩, he, rfl⟩ := List.mem_map.1 hq
  exact (Listing.lax_of_mem_propertySchemas (h.perm.subset he)).sound

end Schema

open Schema (IsSound IsLax)

/-! ## models -/

namespace ModelDoc

theorem skeleton_markDeprecated (deprecated : Bool) (s : Schema) :
    (markDeprecated deprecated s).skeleton = s.skeleton := by
  cases deprecated <;> rfl

theorem isAnnotated_markDeprecated {s : Schema} (h : s.IsAnnotated) (deprecated : Bool) :
    (markDeprecated deprecated s).IsAnnotated := by
  cases deprecated with
  | false => exact h
  | true => exact h.insert (by decide) _

theorem isAnnotated_ownSchema (m : ModelDoc) : m.ownSchema.IsAnnotated := by
  have h : (Schema.object (.ofList (m.properties.values.map fun i => (i.name, propertySchema i)))
      m.requiredProperties).IsAnnotated := Schema.isAnnotated_of_extra_eq rfl
  exact isAnnotated_markDeprecated (h.withDescription m.about) m.deprecated

theorem schema_of_nil {m : ModelDoc} (h : m.bases = []) : m.schema = m.ownSchema := by
  rw [schema, fragments, h]
  rfl

theorem schema_of_ne_nil {m : ModelDoc} (h : m.bases ≠ []) :
    m.schema = { allOf := some (m.bases.map Schema.model ++ [m.ownSchema]) } := by
  have hmap : m.fragments.map Fragment.schema = m.bases.map Schema.model ++ [m.ownSchema] := by
    rw [fragments, List.map_append, List.map_map]
    rfl
  rw [schema, hmap]
  split
  -- one part alone would be too few for a model with bases
  next s hs =>
    have hlength := congrArg List.length hs
    simp only [List.length_append, List.length_map, List.length_singleton] at hlength
    have hpos : 0 < m.bases.length := List.length_pos_iff.2 h
    omega
  next => rfl

theorem sound_schema {p : Listing → String → Prop} {m : ModelDoc}
    (h : m.ownSchema.Everywhere (IsSound p)) : m.schema.Everywhere (IsSound p) := by
  by_cases hb : m.bases = []
  · rw [schema_of_nil hb]
    exact h
  · rw [schema_of_ne_nil hb]
    refine Schema.everywhere_iff.2 ⟨⟨Schema.isAnnotated_of_extra_eq rfl, fun hr => ?_⟩, ?_⟩
    · cases hr
    · intro q hq
      have hq' : q ∈ m.bases.map Schema.model ++ [m.ownSchema] := by
        simpa [Schema.parts] using hq
      rcases List.mem_append.1 hq' with hq' | hq'
      · obtain ⟨name, -, rfl⟩ := List.mem_map.1 hq'
        exact (Schema.lax_model name).sound
      · rw [List.mem_singleton.1 hq']
        exact h

end ModelDoc

namespace Manifest

theorem exists_isObject_ownSchema (e : ModelEntry) :
    ∃ ps, (ModelEntry.model e).ownSchema.IsObject .properties e.doc ps := by
  have hperm : (OperationDoc.ofText e.doc).properties.values.Perm
      (OperationDoc.ofText e.doc).properties.sorted := (List.mergeSort_perm _ _).symm
  obtain ⟨ps, hps⟩ := Schema.exists_isObject_object .properties e.doc hperm
  refine ⟨ps, hps.of_skeleton_eq ?_⟩
  rw [ModelDoc.ownSchema, ModelDoc.skeleton_markDeprecated, Schema.skeleton_withDescription]
  rfl

end Manifest

/-! ## operations -/

inductive Operation.HasSchema (op : Operation) (s : Schema) : Prop
  | parameter {p : Parameter} (hp : p ∈ op.parameters) (hs : p.schema = some s)
  | body {b : RequestBody} {mediaType : String} (hb : op.requestBody = some b)
      (hs : b.content.get? mediaType = some s)
  | response {code : String} {r : Response} {t : Table Schema} {mediaType : String}
      (hr : op.responses.get? code = some r) (ht : r.content = some t)
      (hs : t.get? mediaType = some s)

theorem eq_of_get?_content {mediaType k : String} {s s' : Schema}
    (h : (content mediaType s).get? k = some s') : s' = s := by
  rw [content, Table.get?_insert] at h
  split at h
  · exact (Option.some.inj h).symm
  · cases h

namespace Catalog

theorem lax_or_form_of_bodyContent {c : Catalog} {is : List Item} {mediaType : String}
    {s : Schema} (h : (c.bodyContent is).get? mediaType = some s) :
    s.Everywhere IsLax ∨ s = formSchema is := by
  rw [bodyContent] at h
  split at h
  next =>
    rw [eq_of_get?_content h]
    exact .inl (Schema.lax_typed _ _)
  next t _ =>
    rw [eq_of_get?_content h]
    exact .inl (lax_schema_getD t)
  next => exact .inr (eq_of_get?_content h)

theorem sound_formSchema {p : Listing → String → Prop} {doc : String} (hp : p .body doc) :
    (formSchema (OperationDoc.ofText doc).bodyParams.sorted).Everywhere (IsSound p) := by
  obtain ⟨ps, hps⟩ := Schema.exists_isObject_object .body doc (.refl _)
  have ha : (formSchema (OperationDoc.ofText doc).bodyParams.sorted).IsAnnotated :=
    Schema.isAnnotated_of_extra_eq rfl
  exact hps.sound hp ha

theorem sound_operation {p : Listing → String → Prop} {c : Catalog} {doc : String}
    (hp : p .body doc) {handler : String} {n : Method} {shared : Items} {s : Schema}
    (h : (c.operation handler n (OperationDoc.ofText doc) shared).HasSchema s) :
    s.Everywhere (IsSound p) := by
  cases h with
  | parameter hq hs =>
    obtain ⟨i, -, rfl⟩ := List.mem_map.1 hq
    simp only [parameter] at hs
    exact (DataType.lax_schema? hs).sound
  | body hb hs =>
    simp only [operation, requestBody?] at hb
    split at hb
    next => cases hb
    next =>
      obtain rfl := Option.some.inj hb
      rcases lax_or_form_of_bodyContent hs with h | rfl
      · exact h.sound
      · exact sound_formSchema hp
  | response hr ht hs =>
    simp only [operation, Table.get?_map] at hr
    obtain ⟨i, -, rfl⟩ := Option.map_eq_some_iff.1 hr
    obtain ⟨s', hs', rfl⟩ := Option.map_eq_some_iff.1 ht
    rw [eq_of_get?_content hs]
    exact (DataType.lax_schema? hs').sound

end Catalog

/-! ## documents -/

inductive Document.HasSchema (d : Document) (s : Schema) : Prop
  | model {ss : Table Schema} {name : String} (hss : d.schemas = some ss)
      (hs : ss.get? name = some s)
  | operation {path : String} {n : Method} {op : Operation}
      (hop : operationAt d.paths path n = some op) (hs : op.HasSchema s)

namespace Manifest

/-- a docstring of the manifest, where it declares body fields or the properties of a model -/
def Declares (m : Manifest) : Listing → String → Prop
  | .body, s => ∃ e ∈ m.routes, s ∈ e.operations.values
  | .properties, s => ∃ e ∈ m.models, e.doc = s
  | _, _ => False

theorem get?_schemas {m : Manifest} {c : Catalog} (hc : m.IsCatalog c) {ss : Table Schema}
    (hss : c.document.schemas = some ss) {name : String} {s : Schema} :
    ss.get? name = some s ↔
      ∃ e, IsLast (fun e => e.name = name) e m.models ∧ (ModelEntry.model e).schema = s := by
  have he : ss = m.modelTable.map ModelDoc.schema := by
    simp only [Catalog.document] at hss
    split at hss
    next => cases hss
    next => rw [← hc.models_eq, Option.some.inj hss]
  rw [he, Table.get?_map, Option.map_eq_some_iff, modelTable]
  simp only [get?_ofList_map]
  constructor
  · rintro ⟨d, ⟨e, hlast, rfl⟩, hs⟩
    exact ⟨e, hlast, hs⟩
  · rintro ⟨e, hlast, hs⟩
    exact ⟨_, ⟨e, hlast, rfl⟩, hs⟩

theorem sound_of_hasSchema {m : Manifest} {c : Catalog} (hc : m.IsCatalog c) {s : Schema}
    (h : c.document.HasSchema s) : s.Everywhere (IsSound m.Declares) := by
  cases h with
  | model hss hs =>
    obtain ⟨e, hlast, rfl⟩ := (get?_schemas hc hss).1 hs
    obtain ⟨ps, hps⟩ := exists_isObject_ownSchema e
    have hp : m.Declares .properties e.doc := ⟨e, hlast.mem, rfl⟩
    exact ModelDoc.sound_schema (hps.sound hp (ModelDoc.isAnnotated_ownSchema _))
  | operation hop hs =>
    obtain ⟨r, hr, shared, d, -, hlast, rfl⟩ := (Catalog.operationAt_foldl_addPath c.routes _).1 hop
    obtain ⟨e, he, hroute⟩ := exists_of_mem_right hc.routes hr.mem
    obtain ⟨doc, hdoc, hd⟩ := hroute.readFrom _ (List.mem_of_mem_filter hlast.mem)
    obtain rfl : d = OperationDoc.ofText doc := hd
    exact Catalog.sound_operation ⟨e, he, hdoc⟩ hs

/-- **Wherever a schema in the document of a manifest names required properties, it is an object
with these properties**, declared by one docstring of the manifest and in its order.  A model is
such an object alone, or behind the models that it extends. -/
theorem required_of_catalog {m : Manifest} {c : Catalog} (h : m.catalog = .ok c) :
    (∀ s, c.document.HasSchema s → s.Everywhere fun n =>
        n.IsAnnotated ∧ ∀ rs, n.required = some rs →
          ∃ l doc ps, m.Declares l doc ∧ n.IsObject l doc ps ∧ rs = l.requiredNames doc
            ∧ rs ≠ [] ∧ rs.Nodup ∧ rs.Sublist (l.names doc) ∧ rs ⊆ ps.map Prod.fst)
      ∧ ∀ ss, c.document.schemas = some ss → ∀ name s, ss.get? name = some s →
          ∃ e b ps, IsLast (fun e => e.name = name) e m.models
            ∧ b.IsObject .properties e.doc ps
            ∧ (ps.map Prod.fst).Perm (Listing.properties.names e.doc)
            ∧ (e.bases = [] → s = b)
            ∧ (e.bases ≠ [] → s = { allOf := some (e.bases.map Schema.model ++ [b]) }) := by
  have hc := catalog_eq_ok_iff.1 h
  constructor
  · intro s hs
    refine (sound_of_hasSchema hc hs).imp fun n hn => ⟨hn.annotated, fun rs hrs => ?_⟩
    obtain ⟨l, doc, ps, hp, ho⟩ := hn.object (by rw [hrs]; rfl)
    obtain ⟨he, hne⟩ := ho.of_required hrs
    refine ⟨l, doc, ps, hp, ho, he, hne, ?_, ?_, ho.required_subset hrs⟩
    · rw [he]
      exact l.nodup_requiredNames doc
    · rw [he]
      exact l.requiredNames_sublist doc
  · intro ss hss name s hs
    obtain ⟨e, hlast, rfl⟩ := (get?_schemas hc hss).1 hs
    obtain ⟨ps, hps⟩ := exists_isObject_ownSchema e
    exact ⟨e, _, ps, hlast, hps, hps.names_perm, fun hb => ModelDoc.schema_of_nil hb,
      fun hb => ModelDoc.schema_of_ne_nil hb⟩

def dogDoc : String :=
  "A dog.\n\nProperties:\n  name -- Required. How to call it.\n  age (int) -- required: no\n"

def petEntry : ModelEntry := { name := "Pet", doc := "A pet.\n" }

def dogEntry : ModelEntry := { name := "Dog", bases := ["Pet"], doc := dogDoc }

theorem required_of_dogEntry :
    ∃ c ss s b, ({ models := [petEntry, dogEntry] } : Manifest).catalog = .ok c
      ∧ c.document.schemas = some ss ∧ ss.get? "Dog" = some s
      ∧ s = { allOf := some [Schema.model "Pet", b] } ∧ b.required = some ["name"]
      ∧ ∃ l doc ps, ({ models := [petEntry, dogEntry] } : Manifest).Declares l doc
        ∧ b.IsObject l doc ps ∧ ["name"] = l.requiredNames doc := by
  obtain ⟨c, hc⟩ : ∃ c, ({ models := [petEntry, dogEntry] } : Manifest).catalog = .ok c :=
    ⟨_, rfl⟩
  obtain ⟨ss, hss⟩ : ∃ ss, c.document.schemas = some ss := by
    obtain rfl := Except.ok.inj hc
    exact ⟨_, rfl⟩
  have hdog : IsLast (fun e : ModelEntry => e.name = "Dog") dogEntry [petEntry, dogEntry] :=
    ⟨rfl, [petEntry], [], rfl, by simp⟩
  have hs := (get?_schemas (catalog_eq_ok_iff.1 hc) hss).2 ⟨dogEntry, hdog, rfl⟩
  obtain ⟨hsound, hmodel⟩ := required_of_catalog hc
  obtain ⟨e, b, ps, hlast, hb, -, -, hbases⟩ := hmodel ss hss "Dog" _ hs
  obtain rfl : e = dogEntry := by
    rcases List.mem_cons.1 hlast.mem with rfl | he
    · exact absurd hlast.1 (by decide)
    · exact List.mem_singleton.1 he
  have hrequired : b.required = some ["name"] := by
    have hnames : Listing.properties.requiredNames dogEntry.doc = ["name"] := by
      decide +kernel
    rw [hb.required_eq, hnames]
    rfl
  have hs' := hbases (by decide)
  have hwithin : b.Within (ModelEntry.model dogEntry).schema := by
    rw [hs']
    exact .part (p := b) (by simp [Schema.parts]) (.self b)
  obtain ⟨l, doc, qs, hp, ho, hrs, -⟩ :=
    (hsound _ (.model hss hs) b hwithin).2 _ hrequired
  exact ⟨c, ss, _, b, hc, hss, hs, hs', hrequired, l, doc, qs, hp, ho, hrs⟩

end Manifest

end Apidoc
