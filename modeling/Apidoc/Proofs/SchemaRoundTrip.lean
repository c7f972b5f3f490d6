import Apidoc.DataType
import Apidoc.Proofs.NullKeywords
import Mathlib.Data.List.Perm.Basic

/-!
# Schemas that are written and read again

* `Schema.Reachable`   the schemas that can be made: by the common forms, from types, by reading,
  and with descriptions and annotations.

A proper schema is read again however the entries of its value are rearranged
(`decode?_rearranged`), and all schemas that can be made are proper at any depth
(`Reachable.everywhere_isProper`).

Main statement: a schema that can be made is written without a key twice and read again as it was,
and what was read is written again as it was, up to null keywords (`round_trip`).
-/

namespace Apidoc

namespace Schema

open Value (Rearranges InOrder)

variable {s : Schema} {f : Value → Value}

/-! ## reading what was written -/

theorem unlessNull_text (hf : Rearranges f) (o : Option String) :
    unlessNull Value.text? (((o.map Value.text).map f).getD .null) = some o := by
  cases o with
  | none => rfl
  | some t =>
    rw [Option.map_some, Option.map_some, hf.text]
    rfl

theorem unlessNull_texts (hf : Rearranges f) (o : Option (List String)) :
    unlessNull texts? (((o.map Value.texts).map f).getD .null) = some o := by
  cases o with
  | none => rfl
  | some ss =>
    rw [Option.map_some, Option.map_some, hf.texts]
    exact congrArg (Option.map some) (texts?_eq_some_iff.2 rfl)

theorem schema?_encode {o : Option Schema}
    (h : ∀ p, o = some p → decode? (f p.encode) = some p) :
    schema? (((o.map encode).map f).getD .null) = some o := by
  cases o with
  | none => rfl
  | some p => exact schema?_eq_some_iff.2 (h p rfl)

theorem schemas?_encode (hf : Rearranges f) {o : Option (List Schema)}
    (h : ∀ p ∈ o.getD [], decode? (f p.encode) = some p) :
    schemas? (((o.map fun ss => .list (ss.map encode)).map f).getD .null) = some o := by
  cases o with
  | none => rfl
  | some ss =>
    refine schemas?_eq_some_iff.2 ⟨_, hf.list _, ?_⟩
    rw [List.map_map, List.forall₂_map_left_iff, List.forall₂_same]
    exact h

theorem properties?_encode (hf : Rearranges f) {o : Option (List (String × Schema))}
    (ho : ∀ ps, o = some ps → InKeyOrder ps)
    (h : ∀ p ∈ (o.getD []).map Prod.snd, decode? (f p.encode) = some p) :
    properties? (((o.map fun ps => .object (ps.map fun p => (p.1, p.2.encode))).map f).getD .null)
      = some o := by
  cases o with
  | none => rfl
  | some ps =>
    have hps : InKeyOrder ps := ho ps rfl
    obtain ⟨es, hes, hperm⟩ := hf.object (ps.map fun p => (p.1, p.2.encode)) (hps.map encode).nodup
    have hread : List.Forall₂ (fun e p => e.1 = p.1 ∧ decode? e.2 = some p.2)
        ((ps.map fun p => (p.1, p.2.encode)).map fun e => (e.1, f e.2)) ps := by
      rw [List.map_map, List.forall₂_map_left_iff, List.forall₂_same]
      exact fun p hp => ⟨rfl, h p.2 (List.mem_map_of_mem hp)⟩
    obtain ⟨qs, hqs, hpermed⟩ := List.perm_comp_forall₂ hperm hread
    have htable : Table.ofList ps = Table.ofList qs := Table.ofList_perm hpermed.symm hps.nodup
    refine properties?_eq_some_iff.2 ⟨es, qs, hes, hqs, ?_⟩
    rw [← htable, Table.entries_ofList hps]

theorem decode?_rearranged (hf : Rearranges f) (hs : s.Everywhere IsProper)
    (hextra : s.Everywhere fun n => ∀ v ∈ n.extra.values, f v = v) :
    decode? (f s.encode) = some s := by
  induction s using inductionOnParts with
  | whole s ih =>
    obtain ⟨hproper, hproperParts⟩ := everywhere_iff.1 hs
    obtain ⟨hfixed, hfixedParts⟩ := everywhere_iff.1 hextra
    have hpart : ∀ p ∈ s.parts, decode? (f p.encode) = some p :=
      fun p hp => ih p hp (hproperParts p hp) (hfixedParts p hp)
    obtain ⟨es, hobject, hperm⟩ := hf.object s.entries (nodup_entries hproper)
    have hkeys : (es.map Prod.fst).Nodup := by
      rw [(hperm.map Prod.fst).nodup_iff, map_fst_map]
      exact nodup_entries hproper
    have hlookup : ∀ k, es.lookup k = (s.entries.lookup k).map f := by
      intro k
      rw [lookup_perm hperm hkeys, lookup_map]
    have hvalue : ∀ b ∈ s.keywordValues, valueOf es b.1 = (b.2.map f).getD .null := by
      intro b hb
      rw [valueOf, hlookup, lookup_entries hproper hb]
    simp only [keywordValues, List.forall_mem_cons, List.not_mem_nil, false_implies, implies_true,
      and_true] at hvalue
    obtain ⟨h1, h2, h3, h4, h5, h6, h7, h8, h9, h10, h11, h12⟩ := hvalue
    rw [encode_eq, hobject]
    refine (decodeEntries?_eq_some_iff hkeys).2 ?_
    exact
      { type := h1 ▸ unlessNull_text hf s.type
        format := h2 ▸ unlessNull_text hf s.format
        description := h3 ▸ unlessNull_text hf s.description
        properties := h4 ▸ properties?_encode hf hproper.inOrder
          fun p hp => hpart p (by simp [parts, hp])
        required := h5 ▸ unlessNull_texts hf s.required
        items := h6 ▸ schema?_encode fun p hp => hpart p (by simp [parts, hp])
        enumeration := h7 ▸ unlessNull_texts hf s.enumeration
        reference := h8 ▸ unlessNull_text hf s.reference
        allOf := h9 ▸ schemas?_encode hf fun p hp => hpart p (by simp [parts, hp])
        anyOf := h10 ▸ schemas?_encode hf fun p hp => hpart p (by simp [parts, hp])
        oneOf := h11 ▸ schemas?_encode hf fun p hp => hpart p (by simp [parts, hp])
        negated := h12 ▸ schema?_encode fun p hp => hpart p (by simp [parts, hp])
        extra := by
          intro k
          split
          next hk => exact hproper.extra_eq k hk
          next hk =>
            rw [hlookup, lookup_entries_of_not_mem hk]
            cases hx : s.extra.get? k with
            | none => rfl
            | some v =>
              have hv : v ∈ s.extra.values :=
                List.mem_map.2 ⟨(k, v), (s.extra.get?_eq_some_iff k v).1 hx, rfl⟩
              rw [Option.map_some, hfixed v hv] }

/-! ## schemas that can be made -/

inductive Reachable : Schema → Prop
  | typed (type : String) (format : Option String) : Reachable (.typed type format)
  | model (name : String) : Reachable (.model name)
  | object (properties : Table Schema) (required : List String)
      (h : ∀ p ∈ properties.values, Reachable p) : Reachable (.object properties required)
  | empty : Reachable {}
  | decoded {v : Value} {s : Schema} (h : decode? v = some s) : Reachable s
  | ofType {t : DataType} {s : Schema} (h : t.schema? = some s) : Reachable s
  | withDescription {s : Schema} (h : Reachable s) (text : String) :
      Reachable (s.withDescription text)
  | withConstraints {s : Schema} (h : Reachable s) (cs : Constraints) :
      Reachable (s.withConstraints cs)

theorem Reachable.everywhere_isProper (h : Reachable s) : s.Everywhere IsProper := by
  induction h with
  | typed type format => exact everywhere_typed isLasting_isProper type format
  | model name => exact everywhere_model isLasting_isProper name
  | object properties required _ ih =>
    have hproper : (Schema.object properties required).IsProper := by
      refine ⟨fun k _ => Table.get?_empty k, fun ps hps => ?_⟩
      obtain rfl := Option.some.inj hps
      exact properties.inOrder
    refine everywhere_iff.2 ⟨hproper, fun p hp => ih p ?_⟩
    simpa [parts, Schema.object, Table.values] using hp
  | empty => exact everywhere_empty isLasting_isProper
  | decoded h => exact everywhere_isProper_of_decode? h
  | @ofType t s h => exact t.everywhere_schema? isLasting_isProper h
  | withDescription _ text ih => exact everywhere_withDescription isLasting_isProper ih text
  | withConstraints _ cs ih => exact everywhere_withConstraints isLasting_isProper ih cs

/-- **Schemas are read again as they were written, and written again as they were read.**  No
schema that can be made has an extra keyword with a field of its own, so that no key is written
twice, at any depth.  It is read again as it was, and so it is when the entries were put in key
order in between, if the extra values are in that order.  What was read is written again without
the keywords that were null. -/
theorem round_trip :
    (∀ s : Schema, s.Reachable →
      (s.Everywhere fun n => (∀ k ∈ keywords, n.extra.get? k = none)
        ∧ ∃ es, n.encode = .object es ∧ (es.map Prod.fst).Nodup)
      ∧ decode? s.encode = some s
      ∧ ((s.Everywhere fun n => ∀ v ∈ n.extra.values, v.InOrder) →
        decode? s.encode.sorted = some s))
    ∧ ∀ (v : Value) (s : Schema), v.InOrder → decode? v = some s → s.encode.sorted = pruned v := by
  refine ⟨fun s hs => ?_, fun v s hv h => sorted_encode_of_decode? hv h⟩
  have hproper : s.Everywhere IsProper := hs.everywhere_isProper
  refine ⟨hproper.imp fun n hn => ⟨hn.extra_eq, n.entries, n.encode_eq, nodup_entries hn⟩, ?_, ?_⟩
  · exact decode?_rearranged Value.rearranges_id hproper fun n _ v _ => rfl
  · intro hextra
    refine decode?_rearranged Value.rearranges_sorted hproper (hextra.imp fun n hn v hv => ?_)
    exact Value.sorted_of_inOrder (hn v hv)

/-- a described object with a property, an enumeration and an extra keyword -/
def petSchema : Schema :=
  ((object (.ofList [("id", typed "integer" (some "int64"))]) ["id"]).withDescription
    " a pet ").withConstraints (.ofList [("enum", .text "cat, dog"), ("minProperties", .integer 1)])

/-- an array that is no text, with two keywords that are null -/
def nestedValue : Value :=
  .object [("description", .null), ("maxItems", .integer 3),
    ("not", .object [("format", .null), ("type", .text "string")]), ("type", .text "array")]

theorem reachable_petSchema : petSchema.Reachable := by
  refine .withConstraints (.withDescription (.object _ _ fun p hp => ?_) _) _
  obtain rfl := List.mem_singleton.1 hp
  exact .typed _ _

theorem inOrder_petSchema : petSchema.Everywhere fun n => ∀ v ∈ n.extra.values, v.InOrder := by
  have hextra : petSchema.extra.values = [.integer 1] := rfl
  have hparts : petSchema.parts = [typed "integer" (some "int64")] := rfl
  refine everywhere_iff.2 ⟨fun v hv => ?_, fun p hp => ?_⟩
  · rw [hextra] at hv
    obtain rfl := List.mem_singleton.1 hv
    exact .integer 1
  · rw [hparts] at hp
    obtain rfl := List.mem_singleton.1 hp
    refine everywhere_iff.2 ⟨fun v hv => absurd hv List.not_mem_nil, fun p hp => ?_⟩
    exact absurd hp List.not_mem_nil

theorem inOrder_nestedValue : nestedValue.InOrder := by
  refine .object (by decide) ?_
  simp only [List.forall_mem_cons, List.not_mem_nil, false_implies, implies_true, and_true]
  refine ⟨.null, .integer 3, .object (by decide) ?_, .text "array"⟩
  simp only [List.forall_mem_cons, List.not_mem_nil, false_implies, implies_true, and_true]
  exact ⟨.null, .text "string"⟩

theorem round_trip_pet :
    petSchema.Reachable ∧ decode? petSchema.encode.sorted = some petSchema ∧ nestedValue.InOrder
    ∧ ∃ s : Schema, decode? nestedValue = some s ∧ s.encode.sorted = .object [
      ("maxItems", .integer 3), ("not", .object [("type", .text "string")]),
      ("type", .text "array")] := by
  have hread : decode? nestedValue = some {
      type := some "array"
      negated := some { type := some "string" }
      extra := .ofList [("maxItems", .integer 3)] } := rfl
  refine ⟨reachable_petSchema, (round_trip.1 petSchema reachable_petSchema).2.2 inOrder_petSchema,
    inOrder_nestedValue, _, hread, ?_⟩
  rw [round_trip.2 nestedValue _ inOrder_nestedValue hread]
  rfl

end Schema

end Apidoc
