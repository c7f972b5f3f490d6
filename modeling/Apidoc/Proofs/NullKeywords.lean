import Apidoc.Proofs.SchemaEntries

/-!
# Schemas that are read and written again

* `Schema.pruned`   the value of a schema without its keywords that are null, at any depth;
* `Schema.kept`     what is left of the value of one keyword.

Each field is written as what is kept of the value that it was read from (`sorted_text`,
`sorted_texts`, `sorted_schema`, `sorted_schemas`, `sorted_properties`).

Main statement: a schema that was read is written as the pruned value, up to the order of entries
(`sorted_encode_of_decode?`).
-/

namespace Apidoc

namespace Schema

variable {s : Schema}

/-! ## null keywords -/

def isNull : Value → Bool
  | .null => true
  | _ => false

mutual

def pruned : Value → Value
  | .object es => .object (prunedEntries es)
  | v => v

def prunedEntries : List (String × Value) → List (String × Value)
  | [] => []
  | (k, v) :: es =>
    if k ∈ keywords ∧ isNull v then prunedEntries es
    else (k, prunedPart k v) :: prunedEntries es

/-- the value of a keyword, with the schemas in it pruned -/
def prunedPart (k : String) : Value → Value
  | .object es =>
    if k = "items" ∨ k = "not" then .object (prunedEntries es)
    else if k = "properties" then .object (prunedProperties es)
    else .object es
  | .list vs =>
    if k = "allOf" ∨ k = "anyOf" ∨ k = "oneOf" then .list (prunedItems vs) else .list vs
  | v => v

def prunedItems : List Value → List Value
  | [] => []
  | v :: vs => pruned v :: prunedItems vs

def prunedProperties : List (String × Value) → List (String × Value)
  | [] => []
  | (k, v) :: es => (k, pruned v) :: prunedProperties es

end

/-- the value of a keyword, unless it is null -/
def kept (k : String) (v : Value) : Option Value := if isNull v then none else some (prunedPart k v)

theorem prunedItems_eq_map (vs : List Value) : prunedItems vs = vs.map pruned := by
  induction vs with
  | nil => rfl
  | cons v vs ih => rw [prunedItems, ih, List.map_cons]

theorem prunedProperties_eq_map (es : List (String × Value)) :
    prunedProperties es = es.map fun e => (e.1, pruned e.2) := by
  induction es with
  | nil => rfl
  | cons e es ih => rw [prunedProperties, ih, List.map_cons]

theorem prunedPart_of_not_mem {k : String} (hk : k ∉ keywords) (v : Value) :
    prunedPart k v = v := by
  simp only [keywords, List.mem_cons, List.not_mem_nil, or_false, not_or] at hk
  cases v with
  | object es => simp [prunedPart, hk]
  | list vs => simp [prunedPart, hk]
  | _ => rfl

theorem keys_prunedEntries_sublist (es : List (String × Value)) :
    ((prunedEntries es).map Prod.fst).Sublist (es.map Prod.fst) := by
  induction es with
  | nil => exact .slnil
  | cons e es ih =>
    rw [prunedEntries]
    split
    · exact ih.cons e.1
    · exact ih.cons_cons e.1

theorem inKeyOrder_prunedEntries {es : List (String × Value)} (h : InKeyOrder es) :
    InKeyOrder (prunedEntries es) := by
  have hkeys : (es.map Prod.fst).Pairwise (· < ·) := List.pairwise_map.2 h
  exact List.pairwise_map.1 (hkeys.sublist (keys_prunedEntries_sublist es))

theorem lookup_prunedEntries {es : List (String × Value)} (h : (es.map Prod.fst).Nodup)
    (k : String) : (prunedEntries es).lookup k
      = if k ∈ keywords then kept k (valueOf es k) else es.lookup k := by
  induction es with
  | nil => simp [prunedEntries, valueOf, kept, isNull]
  | cons e es ih =>
    obtain ⟨l, v⟩ := e
    obtain ⟨hl, hes⟩ := List.nodup_cons.1 h
    rw [prunedEntries, valueOf_cons, List.lookup_cons]
    by_cases hkl : k = l
    · subst hkl
      have hnone : es.lookup k = none := lookup_eq_none_of_not_mem hl
      rw [if_pos rfl, BEq.rfl, kept]
      by_cases hk : k ∈ keywords
      · cases hv : isNull v with
        | true =>
          rw [if_pos ⟨hk, rfl⟩, ih hes, valueOf, hnone, if_pos hk, if_pos hk]
          rfl
        | false => simp [hk]
      · simp [hk, prunedPart_of_not_mem hk]
    · rw [if_neg hkl, beq_false_of_ne hkl, ← ih hes]
      split
      · rfl
      · rw [List.lookup_cons, beq_false_of_ne hkl]

/-! ## writing the fields that were read -/

section
variable {k : String} {v : Value}

theorem sorted_text {o : Option String} (h : unlessNull Value.text? v = some o) :
    (o.map Value.text).map Value.sorted = kept k v := by
  cases v with
  | null =>
    obtain rfl := Option.some.inj h
    rfl
  | text t =>
    obtain rfl := Option.some.inj h
    rfl
  | _ => cases h

theorem sorted_texts (hk : k = "required" ∨ k = "enum") {o : Option (List String)}
    (h : unlessNull texts? v = some o) : (o.map Value.texts).map Value.sorted = kept k v := by
  cases v with
  | null =>
    obtain rfl := Option.some.inj h
    rfl
  | list vs =>
    obtain ⟨ss, hss, rfl⟩ := Option.map_eq_some_iff.1 h
    have hpart : prunedPart k (.list vs) = .list vs := by
      rcases hk with rfl | rfl <;> simp [prunedPart]
    rw [Option.map_some, Option.map_some, Value.rearranges_sorted.texts,
      ← texts?_eq_some_iff.1 hss]
    exact congrArg some hpart.symm
  | _ => cases h

theorem sorted_schema (hk : k = "items" ∨ k = "not") {o : Option Schema}
    (h : schema? v = some o)
    (hp : ∀ p, o = some p → decode? v = some p → p.encode.sorted = pruned v) :
    (o.map encode).map Value.sorted = kept k v := by
  cases v with
  | null =>
    obtain rfl := Option.some.inj h
    rfl
  | object es =>
    obtain ⟨p, hes, rfl⟩ := Option.map_eq_some_iff.1 h
    have hpart : prunedPart k (.object es) = pruned (.object es) := by
      rw [prunedPart, if_pos hk, pruned]
    rw [Option.map_some, Option.map_some, hp p rfl hes, ← hpart]
    rfl
  | _ => cases h

theorem map_eq_map_of_forall₂ {α β γ : Type} {R : α → β → Prop} {g : β → γ} {f : α → γ}
    {as : List α} {bs : List β} (h : List.Forall₂ R as bs)
    (hfg : ∀ a ∈ as, ∀ b ∈ bs, R a b → g b = f a) : bs.map g = as.map f := by
  induction h with
  | nil => rfl
  | cons hr _ ih =>
    rw [List.map_cons, List.map_cons, hfg _ List.mem_cons_self _ List.mem_cons_self hr,
      ih fun a ha b hb => hfg a (List.mem_cons_of_mem _ ha) b (List.mem_cons_of_mem _ hb)]

theorem sorted_schemas (hk : k = "allOf" ∨ k = "anyOf" ∨ k = "oneOf") {o : Option (List Schema)}
    (hv : v.InOrder) (h : schemas? v = some o)
    (hp : ∀ p ∈ o.getD [], ∀ w : Value, w.InOrder → decode? w = some p →
      p.encode.sorted = pruned w) :
    (o.map fun ss => Value.list (ss.map encode)).map Value.sorted = kept k v := by
  cases o with
  | none =>
    cases v with
    | null => rfl
    | list vs => cases hvs : decodeItems? vs <;> simp [schemas?, hvs] at h
    | _ => cases h
  | some ss =>
    obtain ⟨vs, rfl, hvs⟩ := schemas?_eq_some_iff.1 h
    cases hv with
    | list hv =>
      have hmap : (ss.map encode).map Value.sorted = vs.map pruned := by
        rw [List.map_map]
        exact map_eq_map_of_forall₂ hvs fun w hw p hmem => hp p hmem w (hv w hw)
      have hpart : prunedPart k (.list vs) = .list (vs.map pruned) := by
        rw [prunedPart, if_pos hk, prunedItems_eq_map]
      rw [Option.map_some, Option.map_some, Value.sorted_list, hmap, ← hpart]
      rfl

theorem sorted_properties {o : Option (List (String × Schema))} (hv : v.InOrder)
    (h : properties? v = some o)
    (hp : ∀ p ∈ (o.getD []).map Prod.snd, ∀ w : Value, w.InOrder → decode? w = some p →
      p.encode.sorted = pruned w) :
    (o.map fun ps => Value.object (ps.map fun p => (p.1, p.2.encode))).map Value.sorted
      = kept "properties" v := by
  cases o with
  | none =>
    cases v with
    | null => rfl
    | object es => cases hes : decodeProperties? es <;> simp [properties?, hes] at h
    | _ => cases h
  | some ps =>
    obtain ⟨es, qs, rfl, hqs, rfl⟩ := properties?_eq_some_iff.1 h
    cases hv with
    | object hkeys hvalues =>
      have hfst : qs.map Prod.fst = es.map Prod.fst :=
        map_eq_map_of_forall₂ hqs fun _ _ _ _ hr => hr.1.symm
      have hqsOrder : InKeyOrder qs := List.pairwise_map.1 (hfst ▸ List.pairwise_map.2 hkeys)
      rw [Table.entries_ofList hqsOrder] at hp ⊢
      have hmap : (qs.map fun p => (p.1, p.2.encode)).map (fun e => (e.1, e.2.sorted))
          = es.map fun e => (e.1, pruned e.2) := by
        rw [List.map_map]
        refine map_eq_map_of_forall₂ hqs fun e he p hmem hr => ?_
        exact Prod.ext hr.1.symm (hp p.2 (List.mem_map_of_mem hmem) e.2 (hvalues e he) hr.2)
      have hpart : prunedPart "properties" (.object es)
          = .object (es.map fun e => (e.1, pruned e.2)) := by
        rw [prunedPart, if_neg (by decide), if_pos rfl, prunedProperties_eq_map]
      rw [Option.map_some, Option.map_some, Value.sorted_object,
        Table.entries_ofList ((hqsOrder.map encode).map Value.sorted), hmap, ← hpart]
      rfl

end

/-! ## writing what was read -/

theorem inOrder_valueOf {es : List (String × Value)} (hkeys : InKeyOrder es)
    (h : ∀ e ∈ es, e.2.InOrder) (k : String) : (valueOf es k).InOrder := by
  rw [valueOf]
  cases hk : es.lookup k with
  | none => exact .null
  | some v => exact h (k, v) ((lookup_eq_some_iff hkeys).1 hk)

/-- what was read is written again as it was, up to null keywords and the order of entries -/
theorem sorted_encode_of_decode? {v : Value} (hv : v.InOrder) (h : decode? v = some s) :
    s.encode.sorted = pruned v := by
  induction s using inductionOnParts generalizing v with
  | whole s ih =>
    cases v with
    | object es =>
      have hs := describes_of_decodeEntries? h
      have hproper := hs.isProper
      cases hv with
      | object hkeys hvalues =>
        have hpart : ∀ p ∈ s.parts, ∀ w : Value, w.InOrder → decode? w = some p →
            p.encode.sorted = pruned w := fun p hp w hw => ih p hp hw
        have hat : ∀ k, (valueOf es k).InOrder := inOrder_valueOf hkeys hvalues
        have hfield : ∀ b ∈ s.keywordValues, b.2.map Value.sorted = kept b.1 (valueOf es b.1) := by
          simp only [keywordValues, List.forall_mem_cons, List.not_mem_nil, false_implies,
            implies_true, and_true]
          exact ⟨sorted_text hs.type, sorted_text hs.format, sorted_text hs.description,
            sorted_properties (hat _) hs.properties fun p hp => hpart p (by simp [parts, hp]),
            sorted_texts (.inl rfl) hs.required,
            sorted_schema (.inl rfl) hs.items fun p hp => hpart p (by simp [parts, hp]) _ (hat _),
            sorted_texts (.inr rfl) hs.enumeration, sorted_text hs.reference,
            sorted_schemas (by decide) (hat _) hs.allOf fun p hp => hpart p (by simp [parts, hp]),
            sorted_schemas (by decide) (hat _) hs.anyOf fun p hp => hpart p (by simp [parts, hp]),
            sorted_schemas (by decide) (hat _) hs.oneOf fun p hp => hpart p (by simp [parts, hp]),
            sorted_schema (.inr rfl) hs.negated fun p hp => hpart p (by simp [parts, hp]) _ (hat _)⟩
        have hnodup : ((s.entries.map fun e => (e.1, e.2.sorted)).map Prod.fst).Nodup := by
          rw [map_fst_map]
          exact nodup_entries hproper
        rw [encode_eq, Value.sorted_object, pruned]
        refine congrArg Value.object (eq_of_lookup_eq (Table.ofList _).inOrder
          (inKeyOrder_prunedEntries hkeys) fun k => ?_)
        refine (Table.get?_ofList hnodup k).trans ?_
        rw [lookup_map, lookup_prunedEntries hkeys.nodup]
        split
        next hk =>
          obtain ⟨b, hb, rfl⟩ := List.mem_map.1 (s.keys_keywordValues ▸ hk)
          rw [lookup_entries hproper hb, hfield b hb]
        next hk =>
          rw [lookup_entries_of_not_mem hk, hs.extra, if_neg hk]
          cases hx : es.lookup k with
          | none => rfl
          | some x =>
            have hmem : (k, x) ∈ es := (lookup_eq_some_iff hkeys).1 hx
            rw [Option.map_some, Value.sorted_of_inOrder (hvalues _ hmem)]
    | _ => cases h

end Schema

end Apidoc
