import Apidoc.Schema.Encoding
import Apidoc.Proofs.SchemaParts
import Apidoc.Proofs.Success
import Apidoc.Proofs.ValueOrder

/-!
# The entries of schemas

* `Schema.keywords`        the keywords that have fields of their own;
* `Schema.IsProper`        no extra keyword has a field, and the properties are in key order;
* `Schema.keywordValues`   what the fields are written as, and `Schema.entries`, all that is
  written;
* `Schema.Describes`       what the fields of a schema are read from, in any order;
* `Schema.Reads`           what is read from one entry.

Main statements: a proper schema is written without a key twice (`nodup_entries`), and entries
with distinct keys are read as a schema exactly when they describe it
(`decodeEntries?_eq_some_iff`).
-/

namespace Apidoc

namespace Schema

variable {s t : Schema} {es : List (String × Value)}

/-! ## keywords -/

def keywords : List String :=
  ["type", "format", "description", "properties", "required", "items", "enum", "$ref", "allOf",
    "anyOf", "oneOf", "not"]

structure IsProper (s : Schema) : Prop where
  extra_eq : ∀ k ∈ keywords, s.extra.get? k = none
  inOrder : ∀ ps, s.properties = some ps → InKeyOrder ps

theorem mem_keywords_iff {k : String} :
    k ∈ keywords ↔ k = "format" ∨ k = "description" ∨ k = "enum" ∨ k ∈ structural := by
  simp only [keywords, structural, List.mem_cons, List.not_mem_nil, or_false]
  tauto

theorem isLasting_isProper : IsLasting IsProper where
  plain s hp _ he :=
    ⟨fun k _ => by rw [he, Table.get?_empty], fun ps h => by rw [hp] at h; cases h⟩
  constraint s k v h := by
    rcases s.withConstraint_cases k v with ⟨_, _, _, he⟩ | ⟨hk, he⟩
    · rw [he]
      exact ⟨h.extra_eq, h.inOrder⟩
    · have hnew : k ∉ keywords := by
        rw [mem_keywords_iff]
        simp [hk]
      rw [he]
      refine ⟨fun l hl => ?_, h.inOrder⟩
      have hne : l ≠ k := fun he => hnew (he ▸ hl)
      exact (Table.get?_insert_of_ne _ _ hne).trans (h.extra_eq l hl)
  description s text h := by
    rw [withDescription]
    split
    · exact h
    · exact ⟨h.extra_eq, h.inOrder⟩

/-! ## what is written -/

def keywordValues (s : Schema) : List (String × Option Value) :=
  [("type", s.type.map .text), ("format", s.format.map .text),
    ("description", s.description.map .text),
    ("properties", s.properties.map fun ps => .object (ps.map fun p => (p.1, p.2.encode))),
    ("required", s.required.map .texts), ("items", s.items.map encode),
    ("enum", s.enumeration.map .texts), ("$ref", s.reference.map .text),
    ("allOf", s.allOf.map fun ss => .list (ss.map encode)),
    ("anyOf", s.anyOf.map fun ss => .list (ss.map encode)),
    ("oneOf", s.oneOf.map fun ss => .list (ss.map encode)), ("not", s.negated.map encode)]

def entries (s : Schema) : List (String × Value) :=
  s.keywordValues.flatMap (fun b => Value.maybe b.1 b.2) ++ s.extra.entries

theorem encodeItems_eq_map (ss : List Schema) : encodeItems ss = ss.map encode := by
  induction ss with
  | nil => rfl
  | cons s ss ih => rw [encodeItems, ih, List.map_cons]

theorem encodeEntries_eq_map (ps : List (String × Schema)) :
    encodeEntries ps = ps.map fun p => (p.1, p.2.encode) := by
  induction ps with
  | nil => rfl
  | cons p ps ih => rw [encodeEntries, ih, List.map_cons]

theorem encode_eq (s : Schema) : s.encode = .object s.entries := by
  have hone : ∀ o : Option Schema, encode? o = o.map encode := by rintro (_ | _) <;> rfl
  have hlist : ∀ o : Option (List Schema),
      encodeList? o = o.map fun ss => .list (ss.map encode) := by
    rintro (_ | ss)
    · rfl
    · rw [encodeList?, encodeItems_eq_map, Option.map_some]
  have hproperties : ∀ o : Option (List (String × Schema)),
      encodeProperties? o = o.map fun ps => .object (ps.map fun p => (p.1, p.2.encode)) := by
    rintro (_ | ps)
    · rfl
    · rw [encodeProperties?, encodeEntries_eq_map, Option.map_some]
  cases s
  rw [encode, hone, hone, hlist, hlist, hlist, hproperties]
  simp only [entries, keywordValues, List.flatMap_cons, List.flatMap_nil, List.append_assoc,
    List.append_nil]

theorem keys_keywordValues (s : Schema) : s.keywordValues.map Prod.fst = keywords := rfl

theorem nodup_keywordValues (s : Schema) : (s.keywordValues.map Prod.fst).Nodup := by
  rw [keys_keywordValues]
  decide

theorem lookup_entries (h : s.IsProper) {b : String × Option Value} (hb : b ∈ s.keywordValues) :
    s.entries.lookup b.1 = b.2 := by
  have hk : b.1 ∈ keywords := s.keys_keywordValues ▸ List.mem_map_of_mem hb
  have hvalue : s.keywordValues.lookup b.1 = some b.2 :=
    (lookup_eq_some_iff_of_nodup s.nodup_keywordValues).2 hb
  have hextra : s.extra.entries.lookup b.1 = none := h.extra_eq b.1 hk
  rw [entries, List.lookup_append, lookup_flatMap_maybe s.nodup_keywordValues, hvalue, hextra,
    Option.or_none, Option.join_some]

theorem lookup_entries_of_not_mem {k : String} (hk : k ∉ keywords) :
    s.entries.lookup k = s.extra.get? k := by
  have hvalue : s.keywordValues.lookup k = none := lookup_eq_none_of_not_mem hk
  rw [entries, List.lookup_append, lookup_flatMap_maybe s.nodup_keywordValues, hvalue,
    Option.join_none, Option.none_or]
  rfl

theorem nodup_entries (h : s.IsProper) : (s.entries.map Prod.fst).Nodup := by
  have hsub := keys_flatMap_maybe_sublist s.keywordValues
  rw [entries, List.map_append, List.nodup_append]
  refine ⟨s.nodup_keywordValues.sublist hsub, s.extra.nodup_keys, ?_⟩
  rintro k hk _ hl rfl
  obtain ⟨v, hv⟩ := (s.extra.mem_keys_iff k).1 hl
  rw [h.extra_eq k (hsub.subset hk)] at hv
  cases hv

/-! ## what is read -/

/-- the value of a keyword, null if it has none -/
def valueOf (es : List (String × Value)) (k : String) : Value := (es.lookup k).getD .null

structure Describes (es : List (String × Value)) (s : Schema) : Prop where
  type : unlessNull Value.text? (valueOf es "type") = some s.type
  format : unlessNull Value.text? (valueOf es "format") = some s.format
  description : unlessNull Value.text? (valueOf es "description") = some s.description
  properties : properties? (valueOf es "properties") = some s.properties
  required : unlessNull texts? (valueOf es "required") = some s.required
  items : schema? (valueOf es "items") = some s.items
  enumeration : unlessNull texts? (valueOf es "enum") = some s.enumeration
  reference : unlessNull Value.text? (valueOf es "$ref") = some s.reference
  allOf : schemas? (valueOf es "allOf") = some s.allOf
  anyOf : schemas? (valueOf es "anyOf") = some s.anyOf
  oneOf : schemas? (valueOf es "oneOf") = some s.oneOf
  negated : schema? (valueOf es "not") = some s.negated
  extra : ∀ k, s.extra.get? k = if k ∈ keywords then none else es.lookup k

theorem valueOf_cons (k : String) (v : Value) (es : List (String × Value)) (l : String) :
    valueOf ((k, v) :: es) l = if l = k then v else valueOf es l := by
  rw [valueOf, List.lookup_cons]
  by_cases h : l = k
  · rw [h, BEq.rfl, if_pos rfl]
    rfl
  · rw [beq_false_of_ne h, if_neg h]
    rfl

/-- what one entry makes of a schema -/
inductive Reads (v : Value) : String → Schema → Schema → Prop
  | type {s x} (h : unlessNull Value.text? v = some x) : Reads v "type" s { s with type := x }
  | format {s x} (h : unlessNull Value.text? v = some x) :
      Reads v "format" s { s with format := x }
  | description {s x} (h : unlessNull Value.text? v = some x) :
      Reads v "description" s { s with description := x }
  | properties {s x} (h : properties? v = some x) :
      Reads v "properties" s { s with properties := x }
  | required {s x} (h : unlessNull texts? v = some x) :
      Reads v "required" s { s with required := x }
  | items {s x} (h : schema? v = some x) : Reads v "items" s { s with items := x }
  | enumeration {s x} (h : unlessNull texts? v = some x) :
      Reads v "enum" s { s with enumeration := x }
  | reference {s x} (h : unlessNull Value.text? v = some x) :
      Reads v "$ref" s { s with reference := x }
  | allOf {s x} (h : schemas? v = some x) : Reads v "allOf" s { s with allOf := x }
  | anyOf {s x} (h : schemas? v = some x) : Reads v "anyOf" s { s with anyOf := x }
  | oneOf {s x} (h : schemas? v = some x) : Reads v "oneOf" s { s with oneOf := x }
  | negated {s x} (h : schema? v = some x) : Reads v "not" s { s with negated := x }
  | extra {s k} (hk : k ∉ keywords) : Reads v k s { s with extra := s.extra.insert k v }

theorem decodeEntries?_cons_iff {k : String} {v : Value} :
    decodeEntries? ((k, v) :: es) = some t ↔ ∃ s, decodeEntries? es = some s ∧ Reads v k s t := by
  rw [decodeEntries?]
  refine Option.bind_eq_some_iff.trans (exists_congr fun s => and_congr_right fun _ => ?_)
  constructor
  · intro h
    by_cases hk : k ∈ keywords
    · simp only [keywords, List.mem_cons, List.not_mem_nil, or_false] at hk
      rcases hk with rfl | rfl | rfl | rfl | rfl | rfl | rfl | rfl | rfl | rfl | rfl | rfl
      all_goals
        simp only [String.reduceEq, reduceIte, Option.bind_eq_bind, Option.bind_eq_some_iff,
          Option.some.injEq] at h
        obtain ⟨x, hx, rfl⟩ := h
        constructor
        exact hx
    · have hnew := hk
      simp only [keywords, List.mem_cons, List.not_mem_nil, or_false, not_or] at hnew
      simp only [hnew, reduceIte, Option.some.injEq] at h
      exact h ▸ .extra hk
  · intro h
    cases h with
    | extra hk =>
      simp only [keywords, List.mem_cons, List.not_mem_nil, or_false, not_or] at hk
      simp only [hk, reduceIte]
    | _ hx => simp [hx]

theorem Describes.cons {k : String} {v : Value} (h : Describes es s) (hread : Reads v k s t) :
    Describes ((k, v) :: es) t := by
  -- one field is read from the new entry, the others are read as before
  have hextra : ∀ l, s.extra.get? l = if l ∈ keywords then none else es.lookup l := h.extra
  obtain ⟨h1, h2, h3, h4, h5, h6, h7, h8, h9, h10, h11, h12, -⟩ := h
  cases hread with
  | extra hk =>
    have hother : ∀ l ∈ keywords, valueOf ((k, v) :: es) l = valueOf es l := by
      intro l hl
      have hne : l ≠ k := fun he => hk (he ▸ hl)
      rw [valueOf_cons, if_neg hne]
    constructor
    case extra =>
      intro l
      rw [Table.get?_insert, List.lookup_cons, hextra]
      by_cases hl : l = k
      · simp [hl, hk]
      · rw [if_neg hl, beq_false_of_ne hl]
    all_goals
      rw [hother _ (by decide)]
      assumption
  | _ hx =>
    constructor
    case extra =>
      intro l
      rw [List.lookup_cons, hextra]
      split
      next => rfl
      next hl =>
        rw [beq_false_of_ne]
        rintro rfl
        exact hl (by decide)
    all_goals
      rw [valueOf_cons]
      simp only [String.reduceEq, reduceIte]
      assumption

theorem describes_of_decodeEntries? (h : decodeEntries? es = some s) : Describes es s := by
  induction es generalizing s with
  | nil =>
    obtain rfl := Option.some.inj h
    constructor
    case extra =>
      intro k
      simp [Table.get?_empty]
    all_goals rfl
  | cons e es ih =>
    obtain ⟨t, ht, hread⟩ := decodeEntries?_cons_iff.1 h
    exact (ih ht).cons hread

theorem Describes.unique (hs : Describes es s) (ht : Describes es t) : s = t := by
  have hextra : s.extra = t.extra := Table.ext_get? fun k => (hs.extra k).trans (ht.extra k).symm
  have htype := Option.some.inj (hs.type.symm.trans ht.type)
  have hformat := Option.some.inj (hs.format.symm.trans ht.format)
  have hdescription := Option.some.inj (hs.description.symm.trans ht.description)
  have hproperties := Option.some.inj (hs.properties.symm.trans ht.properties)
  have hrequired := Option.some.inj (hs.required.symm.trans ht.required)
  have hitems := Option.some.inj (hs.items.symm.trans ht.items)
  have henumeration := Option.some.inj (hs.enumeration.symm.trans ht.enumeration)
  have hreference := Option.some.inj (hs.reference.symm.trans ht.reference)
  have hallOf := Option.some.inj (hs.allOf.symm.trans ht.allOf)
  have hanyOf := Option.some.inj (hs.anyOf.symm.trans ht.anyOf)
  have honeOf := Option.some.inj (hs.oneOf.symm.trans ht.oneOf)
  have hnegated := Option.some.inj (hs.negated.symm.trans ht.negated)
  cases s
  cases t
  simp only [mk.injEq]
  exact ⟨htype, hformat, hdescription, hproperties, hrequired, hitems, henumeration, hreference,
    hallOf, hanyOf, honeOf, hnegated, hextra⟩

theorem Describes.exists_reads (h : Describes es s) {k : String} (hk : k ∈ keywords) :
    ∃ t, Reads (valueOf es k) k s t := by
  simp only [keywords, List.mem_cons, List.not_mem_nil, or_false] at hk
  rcases hk with rfl | rfl | rfl | rfl | rfl | rfl | rfl | rfl | rfl | rfl | rfl | rfl
  exacts [⟨_, .type h.type⟩, ⟨_, .format h.format⟩, ⟨_, .description h.description⟩,
    ⟨_, .properties h.properties⟩, ⟨_, .required h.required⟩, ⟨_, .items h.items⟩,
    ⟨_, .enumeration h.enumeration⟩, ⟨_, .reference h.reference⟩, ⟨_, .allOf h.allOf⟩,
    ⟨_, .anyOf h.anyOf⟩, ⟨_, .oneOf h.oneOf⟩, ⟨_, .negated h.negated⟩]

/-- whether a value can be read does not depend on what was read before -/
theorem Reads.exists_reads {k : String} {v : Value} (h : Reads v k s t) (s' : Schema) :
    ∃ t', Reads v k s' t' := by
  cases h with
  | extra hk => exact ⟨_, .extra hk⟩
  | _ hx =>
    apply Exists.intro
    constructor
    exact hx

theorem exists_decodeEntries? (h : ∀ e ∈ es, ∃ s t, Reads e.2 e.1 s t) :
    ∃ s, decodeEntries? es = some s := by
  induction es with
  | nil => exact ⟨{}, rfl⟩
  | cons e es ih =>
    obtain ⟨s, hs⟩ := ih fun e he => h e (List.mem_cons_of_mem _ he)
    obtain ⟨_, _, hread⟩ := h e List.mem_cons_self
    obtain ⟨t, ht⟩ := hread.exists_reads s
    exact ⟨t, decodeEntries?_cons_iff.2 ⟨s, hs, ht⟩⟩

theorem decodeEntries?_eq_some_iff (hes : (es.map Prod.fst).Nodup) :
    decodeEntries? es = some s ↔ Describes es s := by
  refine ⟨describes_of_decodeEntries?, fun h => ?_⟩
  have hreads : ∀ e ∈ es, ∃ s t, Reads e.2 e.1 s t := by
    intro e he
    by_cases hk : e.1 ∈ keywords
    · have hvalue : valueOf es e.1 = e.2 := by
        rw [valueOf, (lookup_eq_some_iff_of_nodup hes).2 he, Option.getD_some]
      exact ⟨s, hvalue ▸ h.exists_reads hk⟩
    · exact ⟨s, _, .extra hk⟩
  obtain ⟨t, ht⟩ := exists_decodeEntries? hreads
  rw [ht, (describes_of_decodeEntries? ht).unique h]

/-! ## parts that are read -/

theorem decodeItems?_eq_some_iff {vs : List Value} {ss : List Schema} :
    decodeItems? vs = some ss ↔ List.Forall₂ (fun v s => decode? v = some s) vs ss := by
  induction vs generalizing ss with
  | nil =>
    rw [List.forall₂_nil_left_iff]
    exact ⟨fun h => (Option.some.inj h).symm, fun h => congrArg some h.symm⟩
  | cons v vs ih =>
    rw [decodeItems?, List.forall₂_cons_left_iff]
    simp only [Option.bind_eq_bind, Option.bind_eq_some_iff, Option.some.injEq, ih]
    exact exists_congr fun s =>
      ⟨fun ⟨hv, ss', hvs, he⟩ => ⟨ss', hv, hvs, he.symm⟩,
        fun ⟨ss', hv, hvs, he⟩ => ⟨hv, ss', hvs, he.symm⟩⟩

theorem decodeProperties?_eq_some_iff {ps : List (String × Schema)} :
    decodeProperties? es = some ps
      ↔ List.Forall₂ (fun e p => e.1 = p.1 ∧ decode? e.2 = some p.2) es ps := by
  induction es generalizing ps with
  | nil =>
    rw [List.forall₂_nil_left_iff]
    exact ⟨fun h => (Option.some.inj h).symm, fun h => congrArg some h.symm⟩
  | cons e es ih =>
    obtain ⟨k, v⟩ := e
    rw [decodeProperties?, List.forall₂_cons_left_iff]
    simp only [Option.bind_eq_bind, Option.bind_eq_some_iff, Option.some.injEq, ih]
    constructor
    · rintro ⟨s, hv, qs, hqs, rfl⟩
      exact ⟨(k, s), qs, ⟨rfl, hv⟩, hqs, rfl⟩
    · rintro ⟨⟨l, s⟩, qs, ⟨rfl, hv⟩, hqs, rfl⟩
      exact ⟨s, hv, qs, hqs, rfl⟩

theorem schema?_eq_some_iff {v : Value} : schema? v = some (some s) ↔ decode? v = some s := by
  cases v with
  | object es => simp [schema?, decode?]
  | _ => simp [schema?, decode?]

theorem schemas?_eq_some_iff {v : Value} {ss : List Schema} :
    schemas? v = some (some ss)
      ↔ ∃ vs, v = .list vs ∧ List.Forall₂ (fun v s => decode? v = some s) vs ss := by
  cases v with
  | list vs => simp [schemas?, decodeItems?_eq_some_iff]
  | _ => simp [schemas?]

theorem properties?_eq_some_iff {v : Value} {ps : List (String × Schema)} :
    properties? v = some (some ps) ↔ ∃ es qs, v = .object es
      ∧ List.Forall₂ (fun e p => e.1 = p.1 ∧ decode? e.2 = some p.2) es qs
      ∧ (Table.ofList qs).entries = ps := by
  cases v with
  | object es => simp [properties?, decodeProperties?_eq_some_iff]
  | _ => simp [properties?]

theorem texts?_eq_some_iff {v : Value} {ss : List String} : texts? v = some ss ↔ v = .texts ss := by
  have hlist : ∀ vs : List Value, vs.mapM Value.text? = some ss ↔ vs = ss.map Value.text := by
    intro vs
    induction vs generalizing ss with
    | nil => cases ss <;> simp
    | cons v vs ih =>
      cases ss <;> cases v <;> simp [Value.text?, Option.bind_eq_some_iff, ih, and_comm]
  cases v with
  | list vs => simp [texts?, hlist, Value.texts]
  | _ => simp [texts?, Value.texts]

theorem Describes.isProper (h : Describes es s) : s.IsProper where
  extra_eq k hk := (h.extra k).trans (if_pos hk)
  inOrder ps hps := by
    obtain ⟨_, qs, -, -, rfl⟩ := properties?_eq_some_iff.1 (h.properties.trans (congrArg some hps))
    exact (Table.ofList qs).inOrder

/-- the parts of a schema were read as schemas -/
theorem Describes.exists_of_mem_parts (h : Describes es s) {p : Schema} (hp : p ∈ s.parts) :
    ∃ v, decode? v = some p := by
  have hlist : ∀ {v : Value} {o : Option (List Schema)}, schemas? v = some o → p ∈ o.getD [] →
      ∃ v, decode? v = some p := by
    rintro v (_ | ss) hv hp
    · cases hp
    · obtain ⟨vs, -, hvs⟩ := schemas?_eq_some_iff.1 hv
      obtain ⟨w, -, hw⟩ := exists_of_mem_right hvs hp
      exact ⟨w, hw⟩
  have hone : ∀ {v : Value} {o : Option Schema}, schema? v = some o → p ∈ o.toList →
      ∃ v, decode? v = some p := by
    rintro v (_ | t) hv hp
    · cases hp
    · obtain rfl := List.mem_singleton.1 hp
      exact ⟨v, schema?_eq_some_iff.1 hv⟩
  simp only [parts, List.mem_append] at hp
  rcases hp with ((((hp | hp) | hp) | hp) | hp) | hp
  · cases hps : s.properties with
    | none => rw [hps] at hp; cases hp
    | some ps =>
      rw [hps] at hp
      obtain ⟨_, qs, -, hqs, rfl⟩ :=
        properties?_eq_some_iff.1 (h.properties.trans (congrArg some hps))
      rcases Table.mem_values_insertAll hp with hp | hp
      · cases hp
      · obtain ⟨q, hq, rfl⟩ := List.mem_map.1 hp
        obtain ⟨e, -, -, he⟩ := exists_of_mem_right hqs hq
        exact ⟨e.2, he⟩
  · exact hone h.items hp
  · exact hlist h.allOf hp
  · exact hlist h.anyOf hp
  · exact hlist h.oneOf hp
  · exact hone h.negated hp

/-- what was read is proper at any depth -/
theorem everywhere_isProper_of_decode? {v : Value} (h : decode? v = some s) :
    s.Everywhere IsProper := by
  induction s using inductionOnParts generalizing v with
  | whole s ih =>
    cases v with
    | object es =>
      have hs := describes_of_decodeEntries? h
      refine everywhere_iff.2 ⟨hs.isProper, fun p hp => ?_⟩
      obtain ⟨w, hw⟩ := hs.exists_of_mem_parts hp
      exact ih p hp hw
    | _ => cases h

end Schema

end Apidoc
