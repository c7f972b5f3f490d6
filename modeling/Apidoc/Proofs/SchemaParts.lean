import Apidoc.Catalog.Content

/-!
# The parts of schemas

* `Schema.parts`        the schemas that stand directly in a schema;
* `Schema.Within`       the schemas at any depth in it, and itself;
* `Schema.Everywhere`   a property of all of them, proved part by part (`everywhere_iff`);
* `Schema.skeleton`     the keywords that make up the structure of a schema;
* `Schema.IsLasting`    a property of plain schemas that annotations and descriptions keep;
* `Schema.HoldsOfTypes`   a property of references, and of all other plain schemas with annotations;
* `Schema.IsLax`        a schema that names no required properties.

Annotations and descriptions leave the skeleton as it is (`skeleton_withConstraints`,
`skeleton_withDescription`), and no annotation is a keyword of the skeleton
(`IsAnnotated.withConstraint`).

Main statements: the schema of a type has every property that holds of types, and so every lasting
one, at any depth (`everywhere_schema?_of_types`, `everywhere_schema?`); one of them is to be lax
(`lax_schema?`, `lax_propertySchema`).
-/

namespace Apidoc

namespace Schema

/-! ## parts -/

def parts (s : Schema) : List Schema :=
  (s.properties.getD []).map Prod.snd ++ s.items.toList ++ s.allOf.getD [] ++ s.anyOf.getD []
    ++ s.oneOf.getD [] ++ s.negated.toList

inductive Within : Schema → Schema → Prop
  | self (s : Schema) : Within s s
  | part {n p s : Schema} (hp : p ∈ s.parts) (h : Within n p) : Within n s

def Everywhere (P : Schema → Prop) (s : Schema) : Prop := ∀ n, Within n s → P n

variable {P Q : Schema → Prop} {s t : Schema}

theorem everywhere_iff : s.Everywhere P ↔ P s ∧ ∀ p ∈ s.parts, p.Everywhere P := by
  constructor
  · intro h
    exact ⟨h s (.self s), fun p hp n hn => h n (.part hp hn)⟩
  · rintro ⟨hs, hparts⟩ n hn
    cases hn with
    | self => exact hs
    | part hp hn => exact hparts _ hp n hn

theorem sizeOf_lt_of_mem_parts {p : Schema} (hp : p ∈ s.parts) : sizeOf p < sizeOf s := by
  have hlist : ∀ ss : Option (List Schema), p ∈ ss.getD [] → sizeOf p < sizeOf ss := by
    rintro (_ | ss) h
    · cases h
    · have := List.sizeOf_lt_of_mem h
      simp only [Option.some.sizeOf_spec, Option.getD_some] at *
      omega
  have hone : ∀ o : Option Schema, p ∈ o.toList → sizeOf p < sizeOf o := by
    rintro (_ | t) h
    · cases h
    · obtain rfl := List.mem_singleton.1 h
      simp only [Option.some.sizeOf_spec]
      omega
  have hentries : ∀ ps : Option (List (String × Schema)), p ∈ (ps.getD []).map Prod.snd →
      sizeOf p < sizeOf ps := by
    rintro (_ | ps) h
    · cases h
    · obtain ⟨⟨k, q⟩, hq, rfl⟩ := List.mem_map.1 h
      have := List.sizeOf_lt_of_mem hq
      simp only [Option.some.sizeOf_spec, Prod.mk.sizeOf_spec, Option.getD_some] at *
      omega
  cases s
  simp only [parts, List.mem_append] at hp
  simp only [mk.sizeOf_spec]
  rcases hp with ((((hp | hp) | hp) | hp) | hp) | hp
  · have := hentries _ hp
    omega
  · have := hone _ hp
    omega
  · have := hlist _ hp
    omega
  · have := hlist _ hp
    omega
  · have := hlist _ hp
    omega
  · have := hone _ hp
    omega

/-- a property that a schema has whenever its parts do -/
@[elab_as_elim]
theorem inductionOnParts {P : Schema → Prop} (whole : ∀ s : Schema, (∀ p ∈ s.parts, P p) → P s)
    (s : Schema) : P s :=
  whole s fun p hp =>
    have := sizeOf_lt_of_mem_parts hp
    inductionOnParts whole p
termination_by sizeOf s

theorem Everywhere.imp (h : ∀ s, P s → Q s) (hs : s.Everywhere P) : s.Everywhere Q :=
  fun n hn => h n (hs n hn)

/-! ## the skeleton -/

def skeleton (s : Schema) : Schema :=
  { s with format := none, description := none, enumeration := none, extra := ∅ }

theorem parts_of_skeleton_eq (h : t.skeleton = s.skeleton) : t.parts = s.parts := by
  have hparts : ∀ s : Schema, s.skeleton.parts = s.parts := fun _ => rfl
  rw [← hparts t, h, hparts s]

theorem required_of_skeleton_eq (h : t.skeleton = s.skeleton) : t.required = s.required := by
  have hrequired : ∀ s : Schema, s.skeleton.required = s.required := fun _ => rfl
  rw [← hrequired t, h, hrequired s]

theorem reference_of_skeleton_eq (h : t.skeleton = s.skeleton) : t.reference = s.reference := by
  have hreference : ∀ s : Schema, s.skeleton.reference = s.reference := fun _ => rfl
  rw [← hreference t, h, hreference s]

/-- an annotation sets one of three fields, or it is kept under a keyword without a field -/
theorem withConstraint_cases (s : Schema) (k : String) (v : Value) :
    (∃ format description enumeration,
        s.withConstraint k v = { s with format, description, enumeration })
      ∨ (k ≠ "format" ∧ k ≠ "description" ∧ k ≠ "enum" ∧ k ∉ structural)
        ∧ s.withConstraint k v = { s with extra := s.extra.insert k v } := by
  rw [withConstraint]
  split
  next => exact .inl ⟨_, _, _, rfl⟩
  next hformat =>
    split
    next => exact .inl ⟨_, _, _, rfl⟩
    next hdescription =>
      split
      next => exact .inl ⟨_, _, _, rfl⟩
      next henum =>
        split
        next => exact .inl ⟨s.format, s.description, s.enumeration, by cases s; rfl⟩
        next hk =>
          have hother : k ∉ structural := fun hm => hk (List.contains_iff_mem.2 hm)
          exact .inr ⟨⟨hformat, hdescription, henum, hother⟩, rfl⟩

theorem skeleton_withConstraint (s : Schema) (k : String) (v : Value) :
    (s.withConstraint k v).skeleton = s.skeleton := by
  rcases s.withConstraint_cases k v with ⟨_, _, _, he⟩ | ⟨-, he⟩
  · rw [he]
    rfl
  · rw [he]
    rfl

/-- what one annotation preserves, many do -/
theorem withConstraints_preserves (h : ∀ s k v, P s → P (s.withConstraint k v)) (hs : P s)
    (cs : Constraints) : P (s.withConstraints cs) := by
  have hfold : ∀ (es : List (String × Value)) (s : Schema), P s →
      P (es.foldl (fun s e => s.withConstraint e.1 e.2) s) := by
    intro es
    induction es with
    | nil => exact fun s hs => hs
    | cons e es ih => exact fun s hs => ih _ (h s e.1 e.2 hs)
  exact hfold cs.entries s hs

theorem skeleton_withConstraints (s : Schema) (cs : Constraints) :
    (s.withConstraints cs).skeleton = s.skeleton := by
  refine withConstraints_preserves (P := fun t => t.skeleton = s.skeleton) ?_ rfl cs
  intro t k v ht
  rw [skeleton_withConstraint, ht]

theorem skeleton_withDescription (s : Schema) (text : String) :
    (s.withDescription text).skeleton = s.skeleton := by
  rw [withDescription]
  split
  · rfl
  · rfl

/-! ## annotations -/

/-- no annotation of the schema has a structural keyword -/
def IsAnnotated (s : Schema) : Prop := ∀ k ∈ structural, s.extra.get? k = none

theorem isAnnotated_of_extra_eq (h : s.extra = ∅) : s.IsAnnotated := by
  intro k _
  rw [h, Table.get?_empty]

namespace IsAnnotated

theorem insert (h : s.IsAnnotated) {k : String} (hk : k ∉ structural) (v : Value) :
    ({ s with extra := s.extra.insert k v } : Schema).IsAnnotated := by
  intro l hl
  have hne : l ≠ k := fun he => hk (he ▸ hl)
  exact (Table.get?_insert_of_ne _ _ hne).trans (h l hl)

theorem withConstraint (h : s.IsAnnotated) (k : String) (v : Value) :
    (s.withConstraint k v).IsAnnotated := by
  rcases s.withConstraint_cases k v with ⟨_, _, _, he⟩ | ⟨⟨-, -, -, hk⟩, he⟩
  · rw [he]
    exact h
  · rw [he]
    exact h.insert hk v

theorem withDescription (h : s.IsAnnotated) (text : String) :
    (s.withDescription text).IsAnnotated := by
  rw [Schema.withDescription]
  split
  · exact h
  · exact h

end IsAnnotated

/-! ## lasting properties -/

/-- a property of the schemas without properties and extra keywords that annotations keep -/
structure IsLasting (P : Schema → Prop) : Prop where
  plain : ∀ s, s.properties = none → s.required = none → s.extra = ∅ → P s
  constraint : ∀ s k v, P s → P (s.withConstraint k v)
  description : ∀ s text, P s → P (s.withDescription text)

theorem everywhere_of_skeleton_eq (hs : s.Everywhere P) (he : t.skeleton = s.skeleton) (ht : P t) :
    t.Everywhere P := by
  obtain ⟨-, hparts⟩ := everywhere_iff.1 hs
  rw [← parts_of_skeleton_eq he] at hparts
  exact everywhere_iff.2 ⟨ht, hparts⟩

theorem everywhere_withConstraints (hP : IsLasting P) (hs : s.Everywhere P) (cs : Constraints) :
    (s.withConstraints cs).Everywhere P :=
  everywhere_of_skeleton_eq hs (skeleton_withConstraints s cs)
    (withConstraints_preserves hP.constraint (hs s (.self s)) cs)

theorem everywhere_withDescription (hP : IsLasting P) (hs : s.Everywhere P) (text : String) :
    (s.withDescription text).Everywhere P :=
  everywhere_of_skeleton_eq hs (skeleton_withDescription s text)
    (hP.description s text (hs s (.self s)))

theorem everywhere_typed (hP : IsLasting P) (type : String) (format : Option String) :
    (typed type format).Everywhere P :=
  everywhere_iff.2 ⟨hP.plain _ rfl rfl rfl, fun _ hp => absurd hp List.not_mem_nil⟩

theorem everywhere_model (hP : IsLasting P) (name : String) : (model name).Everywhere P :=
  everywhere_iff.2 ⟨hP.plain _ rfl rfl rfl, fun _ hp => absurd hp List.not_mem_nil⟩

theorem everywhere_empty (hP : IsLasting P) : ({} : Schema).Everywhere P :=
  everywhere_iff.2 ⟨hP.plain _ rfl rfl rfl, fun _ hp => absurd hp List.not_mem_nil⟩

/-- a property of references to models, and of all other plain schemas with any annotations -/
structure HoldsOfTypes (P : Schema → Prop) : Prop where
  annotated : ∀ (s : Schema) (cs : Constraints), s.reference = none → s.properties = none →
    s.required = none → s.extra = ∅ → P (s.withConstraints cs)
  model : ∀ name, P (model name)

theorem IsLasting.holdsOfTypes (hP : IsLasting P) : HoldsOfTypes P where
  annotated s cs _ hp hr he := withConstraints_preserves hP.constraint (hP.plain s hp hr he) cs
  model name := everywhere_model hP name _ (.self _)

end Schema

/-! ## the schemas of types -/

namespace DataType

open Schema (HoldsOfTypes IsLasting everywhere_iff)

variable {P : Schema → Prop}

/-- it is enough to look at the parts without the annotations -/
theorem everywhere_annotated (hP : HoldsOfTypes P) {s : Schema} (hf : s.reference = none)
    (hp : s.properties = none) (hr : s.required = none) (he : s.extra = ∅)
    (hparts : ∀ p ∈ s.parts, p.Everywhere P) (cs : Constraints) :
    (s.withConstraints cs).Everywhere P := by
  refine everywhere_iff.2 ⟨hP.annotated s cs hf hp hr he, ?_⟩
  rw [Schema.parts_of_skeleton_eq (s.skeleton_withConstraints cs)]
  exact hparts

theorem everywhere_atomSchema? (hP : HoldsOfTypes P) {a : Atom} {s : Schema}
    (ha : ∀ name, a ≠ .model name) (h : atomSchema? a = some s) (cs : Constraints) :
    (s.withConstraints cs).Everywhere P := by
  cases a with
  | absent => cases h
  | model name => exact absurd rfl (ha name)
  | _ =>
    obtain rfl := Option.some.inj h
    exact everywhere_annotated hP rfl rfl rfl rfl (fun _ hp => absurd hp List.not_mem_nil) cs

theorem everywhere_combination (hP : HoldsOfTypes P) (op : Operator) {ss : List Schema}
    (h : ∀ s ∈ ss, s.Everywhere P) (cs : Constraints) :
    ((combination op ss).withConstraints cs).Everywhere P := by
  cases op with
  | not =>
    have hnot : ∀ s : Schema, s.Everywhere P →
        (({ negated := some s } : Schema).withConstraints cs).Everywhere P := by
      intro s hs
      refine everywhere_annotated hP rfl rfl rfl rfl (fun p hp => ?_) cs
      obtain rfl : p = s := by simpa [Schema.parts] using hp
      exact hs
    have hany : ({ anyOf := some ss } : Schema).Everywhere P :=
      everywhere_annotated hP rfl rfl rfl rfl (fun p hp => h p (by simpa [Schema.parts] using hp)) ∅
    -- one schema is negated by itself, several together
    rcases ss with _ | ⟨s, _ | ⟨t, ss⟩⟩
    · exact hnot _ hany
    · exact hnot s (h s List.mem_cons_self)
    · exact hnot _ hany
  | _ =>
    exact everywhere_annotated hP rfl rfl rfl rfl
      (fun p hp => h p (by simpa [Schema.parts, combination] using hp)) cs

-- along the recursion of `schema?` and `schemas`; a part without a schema stands as the empty one
mutual

theorem everywhere_schema?_of_types (hP : HoldsOfTypes P) :
    ∀ (t : DataType) {s : Schema}, t.schema? = some s → s.Everywhere P
  | .atom a c, s, h => by
    cases a with
    | model name =>
      obtain rfl := Option.some.inj h
      exact everywhere_iff.2 ⟨hP.model name, fun _ hp => absurd hp List.not_mem_nil⟩
    | _ =>
      obtain ⟨s, hs, rfl⟩ := Option.map_eq_some_iff.1 h
      exact everywhere_atomSchema? hP (by simp) hs c
  | .array t c, s, h => by
    rw [schema?] at h
    obtain rfl := Option.some.inj h
    refine everywhere_annotated hP rfl rfl rfl rfl (fun p hp => ?_) c
    obtain rfl : p = t.schema?.getD {} := by simpa [Schema.parts] using hp
    cases ht : t.schema? with
    | none =>
      exact everywhere_annotated hP rfl rfl rfl rfl (fun _ hp => absurd hp List.not_mem_nil) ∅
    | some s => exact everywhere_schema?_of_types hP t ht
  | .combine op ts c, s, h => by
    rw [schema?] at h
    obtain rfl := Option.some.inj h
    exact everywhere_combination hP op (everywhere_schemas hP ts) c

theorem everywhere_schemas (hP : HoldsOfTypes P) :
    ∀ (ts : List DataType), ∀ s ∈ schemas ts, s.Everywhere P
  | [], s, h => by
    rw [schemas] at h
    exact absurd h List.not_mem_nil
  | t :: ts, s, h => by
    rw [schemas] at h
    cases ht : t.schema? with
    | none =>
      rw [ht] at h
      exact everywhere_schemas hP ts s h
    | some s' =>
      rw [ht] at h
      rcases List.mem_cons.1 h with rfl | h
      · exact everywhere_schema?_of_types hP t ht
      · exact everywhere_schemas hP ts s h

end

theorem everywhere_schema? (hP : IsLasting P) (t : DataType) {s : Schema}
    (h : t.schema? = some s) : s.Everywhere P :=
  everywhere_schema?_of_types hP.holdsOfTypes t h

end DataType

/-! ## lax schemas -/

namespace Schema

structure IsLax (s : Schema) : Prop where
  required_eq : s.required = none
  annotated : s.IsAnnotated

theorem isLasting_isLax : IsLasting IsLax where
  plain _ _ hr he := ⟨hr, isAnnotated_of_extra_eq he⟩
  constraint s k v h :=
    ⟨(required_of_skeleton_eq (skeleton_withConstraint s k v)).trans h.required_eq,
      h.annotated.withConstraint k v⟩
  description s text h :=
    ⟨(required_of_skeleton_eq (skeleton_withDescription s text)).trans h.required_eq,
      h.annotated.withDescription text⟩

theorem lax_typed (type : String) (format : Option String) :
    (typed type format).Everywhere IsLax :=
  everywhere_typed isLasting_isLax type format

theorem lax_model (name : String) : (model name).Everywhere IsLax :=
  everywhere_model isLasting_isLax name

end Schema

theorem DataType.lax_schema? {t : DataType} {s : Schema} (h : t.schema? = some s) :
    s.Everywhere Schema.IsLax :=
  everywhere_schema? Schema.isLasting_isLax t h

theorem lax_schema_getD (t : DataType) : (t.schema?.getD {}).Everywhere Schema.IsLax := by
  cases h : t.schema? with
  | none => exact Schema.everywhere_empty Schema.isLasting_isLax
  | some s => exact DataType.lax_schema? h

theorem lax_propertySchema (i : Item) : (propertySchema i).Everywhere Schema.IsLax :=
  Schema.everywhere_withDescription Schema.isLasting_isLax (lax_schema_getD i.type) i.description

end Apidoc
