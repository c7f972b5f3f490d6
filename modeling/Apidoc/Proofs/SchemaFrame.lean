import Apidoc.Proofs.Parameters
import Apidoc.Proofs.SchemaParts

/-!
# What annotations cannot change

The annotations of a type, whichever of its parts they stand at, show in the schema only beside
its structure.

* `Schema.frame`         a schema without annotations at any depth: what is left of it are the
  keywords that make up its structure;
* `Schema.references`    what the references in a schema point to, from left to right;
* `DataType.plain`       a type without the annotations of all its parts;
* `DataType.models`      the names of the models in a type, from left to right;
* `withConstraint_comm`  annotations with different keywords may be added in any order.

Main statement: the schema of a type has the frame that the plain type has, and its references are
the models of the type, each alone in its schema (`schema?_frame`).
-/

namespace Apidoc

/-! ## frames -/

namespace Schema

mutual

def frame : Schema → Schema
  | ⟨type, _, _, properties, required, items, _, reference, allOf, anyOf, oneOf, negated, _⟩ =>
    { type
      properties := frameProperties? properties
      required
      items := frame? items
      reference
      allOf := frameList? allOf
      anyOf := frameList? anyOf
      oneOf := frameList? oneOf
      negated := frame? negated }

def frame? : Option Schema → Option Schema
  | none => none
  | some s => some (frame s)

def frameList? : Option (List Schema) → Option (List Schema)
  | none => none
  | some ss => some (frameItems ss)

def frameItems : List Schema → List Schema
  | [] => []
  | s :: ss => frame s :: frameItems ss

def frameProperties? : Option (List (String × Schema)) → Option (List (String × Schema))
  | none => none
  | some ps => some (frameEntries ps)

def frameEntries : List (String × Schema) → List (String × Schema)
  | [] => []
  | (k, s) :: ps => (k, frame s) :: frameEntries ps

end

variable {s t : Schema}

theorem frameItems_eq_map (ss : List Schema) : frameItems ss = ss.map frame := by
  induction ss with
  | nil => rfl
  | cons s ss ih => rw [frameItems, ih, List.map_cons]

theorem frame_skeleton (s : Schema) : s.skeleton.frame = s.frame := by
  cases s
  rw [skeleton, frame, frame]

theorem frame_withConstraints (s : Schema) (cs : Constraints) :
    (s.withConstraints cs).frame = s.frame := by
  rw [← frame_skeleton, skeleton_withConstraints, frame_skeleton]

/-! ## references -/

/-- a schema that is a reference has no parts, so its own target may be put in front -/
def references (s : Schema) : List String :=
  s.reference.toList ++ s.parts.attach.flatMap fun ⟨p, hp⟩ =>
    have := sizeOf_lt_of_mem_parts hp
    references p
termination_by sizeOf s

theorem references_eq (s : Schema) :
    s.references = s.reference.toList ++ s.parts.flatMap references := by
  rw [references, List.flatMap_subtype (g := references) fun _ _ => rfl, List.unattach_attach]

theorem references_model (name : String) : (model name).references = [referenceRoot ++ name] := by
  rw [references_eq]
  rfl

theorem references_of_skeleton_eq (h : t.skeleton = s.skeleton) : t.references = s.references := by
  rw [references_eq, references_eq, reference_of_skeleton_eq h, parts_of_skeleton_eq h]

theorem references_withConstraints (s : Schema) (cs : Constraints) :
    (s.withConstraints cs).references = s.references :=
  references_of_skeleton_eq (s.skeleton_withConstraints cs)

/-- a reference stands alone in its schema -/
def IsBareReference (s : Schema) : Prop :=
  ∀ target, s.reference = some target → s = { reference := some target }

theorem holdsOfTypes_isBareReference : HoldsOfTypes IsBareReference where
  annotated s cs hs _ _ _ := by
    intro target h
    rw [reference_of_skeleton_eq (s.skeleton_withConstraints cs), hs] at h
    cases h
  model name := by
    intro target h
    rw [← h]
    rfl

/-! ## annotations, again -/

/-- a keyword has a field of its own to go to, or it is structural and passed over, or it is
extra -/
theorem withConstraint_eq (s : Schema) (k : String) (v : Value) :
    s.withConstraint k v =
      { s with
        format := if k = "format" then v.text?.or s.format else s.format
        description := if k = "description" then v.text?.or s.description else s.description
        enumeration := if k = "enum" then (enumeration? v).or s.enumeration else s.enumeration
        extra := if k ∈ "format" :: "description" :: "enum" :: structural then s.extra
          else s.extra.insert k v } := by
  cases s
  unfold withConstraint
  split
  next h => subst h; rfl
  next =>
    split
    next h => subst h; rfl
    next =>
      split
      next h => subst h; rfl
      next => split <;> simp_all

/-- annotations with different keywords do not meet in one field -/
theorem withConstraint_comm (s : Schema) {k l : String} (h : k ≠ l) (v w : Value) :
    (s.withConstraint k v).withConstraint l w = (s.withConstraint l w).withConstraint k v := by
  simp only [withConstraint_eq, mk.injEq, true_and]
  refine ⟨?_, ?_, ?_, ?_⟩
  · split_ifs <;> simp_all
  · split_ifs <;> simp_all
  · split_ifs <;> simp_all
  · split_ifs
    · rfl
    · rfl
    · rfl
    · exact s.extra.insert_comm h v w

theorem withConstraint_withConstraint (s : Schema) (k : String) (v : Value) :
    (s.withConstraint k v).withConstraint k v = s.withConstraint k v := by
  simp only [withConstraint_eq, mk.injEq, true_and]
  refine ⟨?_, ?_, ?_, ?_⟩
  · split_ifs <;> simp [← Option.or_assoc]
  · split_ifs <;> simp [← Option.or_assoc]
  · split_ifs <;> simp [← Option.or_assoc]
  · split_ifs <;> simp [Table.insert_insert_self]

/-- annotations one after the other -/
def withEntries (s : Schema) (es : List (String × Value)) : Schema :=
  es.foldl (fun s e => s.withConstraint e.1 e.2) s

theorem withEntries_cons (s : Schema) (e : String × Value) (es : List (String × Value)) :
    s.withEntries (e :: es) = (s.withConstraint e.1 e.2).withEntries es := rfl

theorem withEntries_withConstraint {es : List (String × Value)} {k : String}
    (h : k ∉ es.map Prod.fst) (s : Schema) (v : Value) :
    (s.withConstraint k v).withEntries es = (s.withEntries es).withConstraint k v := by
  induction es generalizing s with
  | nil => rfl
  | cons e es ih =>
    rw [List.map_cons, List.mem_cons, not_or] at h
    rw [withEntries_cons, withConstraint_comm s h.1, ih h.2, withEntries_cons]

theorem withEntries_withEntries {es : List (String × Value)} (h : (es.map Prod.fst).Nodup)
    (s : Schema) : (s.withEntries es).withEntries es = s.withEntries es := by
  induction es generalizing s with
  | nil => rfl
  | cons e es ih =>
    obtain ⟨he, hes⟩ := List.nodup_cons.1 h
    calc (s.withEntries (e :: es)).withEntries (e :: es)
        = (((s.withConstraint e.1 e.2).withConstraint e.1 e.2).withEntries es).withEntries es := by
          rw [withEntries_cons, withEntries_cons, ← withEntries_withConstraint he]
      _ = ((s.withConstraint e.1 e.2).withEntries es).withEntries es := by
          rw [withConstraint_withConstraint]
      _ = s.withEntries (e :: es) := by
          rw [ih hes, withEntries_cons]

theorem withConstraints_withConstraints (s : Schema) (cs : Constraints) :
    (s.withConstraints cs).withConstraints cs = s.withConstraints cs :=
  withEntries_withEntries cs.nodup_keys s

end Schema

/-! ## types without annotations -/

namespace DataType

mutual

def plain : DataType → DataType
  | atom a _ => atom a ∅
  | array t _ => array (plain t) ∅
  | combine op ts _ => combine op (plains ts) ∅

def plains : List DataType → List DataType
  | [] => []
  | t :: ts => plain t :: plains ts

end

mutual

def models : DataType → List String
  | atom (.model name) _ => [name]
  | atom _ _ => []
  | array t _ => models t
  | combine _ ts _ => modelsOf ts

def modelsOf : List DataType → List String
  | [] => []
  | t :: ts => models t ++ modelsOf ts

end

/-! ## frames of types -/

theorem frame_combination_congr (op : Operator) {ss ts : List Schema}
    (h : ss.map Schema.frame = ts.map Schema.frame) :
    (combination op ss).frame = (combination op ts).frame := by
  have hany : ({ anyOf := some ss } : Schema).frame = ({ anyOf := some ts } : Schema).frame := by
    simp only [Schema.frame, Schema.frameList?, Schema.frameItems_eq_map, h]
  have hnot : ∀ {s t : Schema}, s.frame = t.frame →
      ({ negated := some s } : Schema).frame = ({ negated := some t } : Schema).frame := by
    intro s t h
    simp only [Schema.frame, Schema.frame?, h]
  cases op with
  | not =>
    -- the lists have the same length, so either both hold one schema or neither does
    match ss, ts, h with
    | [], [], _ => rfl
    | [s], [t], h => exact hnot (List.cons.inj h).1
    | [_], _ :: _ :: _, h => simp at h
    | _ :: _ :: _, [_], h => simp at h
    | _ :: _ :: _, _ :: _ :: _, _ => exact hnot hany
  | anyOf => exact hany
  | _ => simp only [combination, Schema.frame, Schema.frameList?, Schema.frameItems_eq_map, h]

mutual

theorem frame_schema? : ∀ t : DataType,
    t.schema?.map Schema.frame = t.plain.schema?.map Schema.frame
  | .atom a c => by
    cases a with
    | absent => rfl
    | model name => rfl
    | _ => exact congrArg some (Schema.frame_withConstraints _ c)
  | .array t c => by
    have hitems : (t.schema?.getD {}).frame = (t.plain.schema?.getD {}).frame := by
      have h := frame_schema? t
      cases ht : t.schema? <;> cases hp : t.plain.schema? <;> simp_all
    rw [schema?, plain, schema?, Option.map_some, Option.map_some, Schema.frame_withConstraints,
      Schema.frame_withConstraints]
    simp only [Schema.frame, Schema.frame?, hitems]
  | .combine op ts c => by
    rw [schema?, plain, schema?, Option.map_some, Option.map_some, Schema.frame_withConstraints,
      Schema.frame_withConstraints, frame_combination_congr op (frame_schemas ts)]

theorem frame_schemas : ∀ ts : List DataType,
    (schemas ts).map Schema.frame = (schemas (plains ts)).map Schema.frame
  | [] => rfl
  | t :: ts => by
    have h := frame_schema? t
    have hs := frame_schemas ts
    rw [schemas, plains, schemas]
    cases ht : t.schema? <;> cases hp : t.plain.schema? <;> simp_all

end

/-! ## references of types -/

theorem models_of_absent {t : DataType} (h : t.schema? = none) : t.models = [] := by
  have habsent : t.isAbsent = true := by
    rw [← Bool.not_eq_false', ← isSome_schema?, h]
    rfl
  rcases t with ⟨a, c⟩ | ⟨t, c⟩ | ⟨op, ts, c⟩
  · cases a with
    | absent => simp [models]
    | _ => cases habsent
  · cases habsent
  · cases habsent

theorem references_combination (op : Operator) (ss : List Schema) :
    (combination op ss).references = ss.flatMap Schema.references := by
  have hany : ({ anyOf := some ss } : Schema).references = ss.flatMap Schema.references := by
    rw [Schema.references_eq]
    simp [Schema.parts]
  have hnot : ∀ s : Schema, ({ negated := some s } : Schema).references = s.references := by
    intro s
    rw [Schema.references_eq]
    simp [Schema.parts]
  cases op with
  | not =>
    rcases ss with _ | ⟨s, _ | ⟨t, ss⟩⟩
    · exact (hnot _).trans hany
    · exact (hnot s).trans (by simp)
    · exact (hnot _).trans hany
  | anyOf => exact hany
  | _ =>
    rw [Schema.references_eq]
    simp [combination, Schema.parts]

mutual

theorem references_schema? : ∀ (t : DataType) {s : Schema}, t.schema? = some s →
    s.references = t.models.map (Schema.referenceRoot ++ ·)
  | .atom a c, s, h => by
    cases a with
    | absent => cases h
    | model name =>
      obtain rfl := Option.some.inj h
      exact Schema.references_model name
    | _ =>
      obtain rfl := Option.some.inj h
      rw [Schema.references_withConstraints, Schema.references_eq]
      rfl
  | .array t c, s, h => by
    rw [schema?] at h
    obtain rfl := Option.some.inj h
    have hitems : (t.schema?.getD {}).references = t.models.map (Schema.referenceRoot ++ ·) := by
      cases ht : t.schema? with
      | none =>
        rw [models_of_absent ht, Schema.references_eq]
        rfl
      | some s => exact references_schema? t ht
    rw [Schema.references_withConstraints, Schema.references_eq, models, ← hitems]
    simp [Schema.parts]
  | .combine op ts c, s, h => by
    rw [schema?] at h
    obtain rfl := Option.some.inj h
    rw [Schema.references_withConstraints, references_combination, references_schemas ts, models]

theorem references_schemas : ∀ ts : List DataType,
    (schemas ts).flatMap Schema.references = (modelsOf ts).map (Schema.referenceRoot ++ ·)
  | [] => rfl
  | t :: ts => by
    rw [schemas, modelsOf, List.map_append, ← references_schemas ts]
    cases ht : t.schema? with
    | none => rw [models_of_absent ht, List.map_nil, List.nil_append]
    | some s => rw [← references_schema? t ht, List.flatMap_cons]

end

/-! ## absent parts -/

theorem schema?_eq_none_iff (t : DataType) : t.schema? = none ↔ t.isAbsent = true := by
  rw [← Option.isNone_iff_eq_none, ← Option.not_isSome, isSome_schema?, Bool.not_not]

/-- the parts that are there have one schema each, in their order -/
theorem forall₂_schemas (ts : List DataType) :
    List.Forall₂ (fun t s => t.schema? = some s) (ts.filter fun t => !t.isAbsent) (schemas ts) := by
  induction ts with
  | nil => exact .nil
  | cons t ts ih =>
    rw [schemas]
    cases ht : t.schema? with
    | none =>
      have habsent := (schema?_eq_none_iff t).1 ht
      rw [List.filter_cons_of_neg (by simp [habsent])]
      exact ih
    | some s =>
      have hpresent : t.isAbsent = false := by
        rw [← Bool.not_eq_true', ← isSome_schema?, ht]
        rfl
      rw [List.filter_cons_of_pos (by simp [hpresent])]
      exact .cons ht ih

/-- **Annotations do not change the structure of a schema**, wherever in a type they stand, and
neither do those that are added again.  A schema refers to the models of its type and to nothing
else, by references that stand alone.  Absent types have no schema: a combination leaves them out,
and an array of nothing has items without any keyword. -/
theorem schema?_frame :
    (∀ t : DataType, t.schema? = none ↔ t.isAbsent = true)
      ∧ (∀ t : DataType, t.schema?.map Schema.frame = t.plain.schema?.map Schema.frame)
      ∧ (∀ (t : DataType) (s : Schema), t.schema? = some s →
          s.references = t.models.map ("#/components/schemas/" ++ ·)
            ∧ s.Everywhere Schema.IsBareReference)
      ∧ (∀ (name : String) (c : Constraints), (atom (.model name) c).schema?
          = some { reference := some ("#/components/schemas/" ++ name) })
      ∧ (∀ (op : Operator) (ts : List DataType) (c : Constraints), ∃ ss,
          List.Forall₂ (fun t s => t.schema? = some s) (ts.filter fun t => !t.isAbsent) ss
            ∧ (combine op ts c).schema? = some ((combination op ss).withConstraints c))
      ∧ (∀ (t : DataType) (c : Constraints) (s : Schema),
          t.schema? = some s ∨ t.isAbsent = true ∧ s = {} →
          (array t c).schema?
            = some (Schema.withConstraints { type := some "array", items := some s } c))
      ∧ ∀ (s : Schema) (cs : Constraints),
          (s.withConstraints cs).withConstraints cs = s.withConstraints cs := by
  refine ⟨schema?_eq_none_iff, frame_schema?, fun t s h => ⟨references_schema? t h, ?_⟩,
    fun _ _ => rfl, fun op ts c => ⟨schemas ts, forall₂_schemas ts, by rw [schema?]⟩, ?_,
    Schema.withConstraints_withConstraints⟩
  · exact everywhere_schema?_of_types Schema.holdsOfTypes_isBareReference t h
  · rintro t c s (h | ⟨h, rfl⟩)
    · rw [schema?, h, Option.getD_some]
    · rw [schema?, (schema?_eq_none_iff t).2 h, Option.getD_none]

/-- neither a pet nor a list of nothing, with annotations that would change this -/
def neither : DataType :=
  .combine .not
    [.atom .absent ∅, .array (.atom .absent ∅) (.ofList [("items", .text "string")]),
      .atom (.model "Pet") (.ofList [("$ref", .text "#"), ("example", .text "Rex")])]
    (.ofList [("not", .null), ("description", .text "No pet.")])

theorem schema?_frame_neither :
    (∃ s, neither.schema? = some s ∧ s.references = ["#/components/schemas/Pet"]
        ∧ s.Everywhere Schema.IsBareReference)
      ∧ (array (.atom .absent ∅) ∅).schema?
        = some (Schema.withConstraints { type := some "array", items := some {} } ∅) := by
  obtain ⟨-, -, hreferences, -, -, hitems, -⟩ := schema?_frame
  refine ⟨⟨_, rfl, ?_⟩, hitems _ ∅ {} (.inr ⟨rfl, rfl⟩)⟩
  exact hreferences neither _ rfl

end DataType

end Apidoc
