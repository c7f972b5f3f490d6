import Apidoc.Catalog.Document

/-!
# The order of registration

A catalog is made by telling it one thing after the other.

* `Registration`            a thing that a catalog is told: a setting, a server, a tag, a route or
  a model;
* `Catalog.registerAll`     the catalog after several of them;
* `Registration.Group`      those of one kind, where each name of a model is a kind of its own;
* `Registration.SameOrder`  the same things, those of one group in the same order.

Things of different groups may be told in either order (`register_comm`), so that the one that is
told first can be brought to the front of any sequence with the same groups.

Main statement: the order of the groups does not show in the document, and a body refers to a
model whether that is told before or after the route (`document_registerAll`).
-/

namespace Apidoc

inductive Registration where
  | info (i : Info)
  | jsonType (mediaType : String)
  | enabledMethods (methods : List Method)
  | server (s : Server)
  | tag (t : Tag)
  | route (r : Route)
  | model (m : ModelDoc)

namespace Registration

/-! ## groups -/

inductive Group where
  | info
  | jsonType
  | enabledMethods
  | servers
  | tags
  | routes
  | model (name : String)
deriving DecidableEq, Repr

def group : Registration → Group
  | info _ => .info
  | jsonType _ => .jsonType
  | enabledMethods _ => .enabledMethods
  | server _ => .servers
  | tag _ => .tags
  | route _ => .routes
  | model m => .model m.name

def SameOrder (as bs : List Registration) : Prop :=
  ∀ g : Group, as.filter (·.group = g) = bs.filter (·.group = g)

section
variable {a : Registration} {as bs : List Registration}

theorem SameOrder.eq_nil (h : SameOrder [] bs) : bs = [] := by
  refine List.eq_nil_iff_forall_not_mem.2 fun b hb => ?_
  have hmem : b ∈ bs.filter (·.group = b.group) := List.mem_filter.2 ⟨hb, by simp⟩
  rw [← h b.group] at hmem
  exact List.not_mem_nil hmem

/-- what comes first on one side follows only things of other groups on the other -/
theorem SameOrder.exists_append (h : SameOrder (a :: as) bs) :
    ∃ us vs, bs = us ++ a :: vs ∧ (∀ u ∈ us, u.group ≠ a.group) ∧ SameOrder as (us ++ vs) := by
  have hfirst : bs.filter (·.group = a.group) = a :: as.filter (·.group = a.group) := by
    rw [← h a.group, List.filter_cons_of_pos (by simp)]
  obtain ⟨us, vs, rfl, hus, -, hvs⟩ := List.filter_eq_cons_iff.1 hfirst
  have hother : ∀ u ∈ us, u.group ≠ a.group := fun u hu => by simpa using hus u hu
  refine ⟨us, vs, rfl, hother, fun g => ?_⟩
  rw [List.filter_append]
  by_cases hg : a.group = g
  · subst hg
    rw [List.filter_eq_nil_iff.2 hus, List.nil_append, hvs]
  · have hall := h g
    rw [List.filter_append, List.filter_cons_of_neg (by simpa using hg),
      List.filter_cons_of_neg (by simpa using hg)] at hall
    exact hall

end

end Registration

namespace Catalog

open Registration (SameOrder)

/-! ## registering -/

def register (c : Catalog) : Registration → Catalog
  | .info i => { c with info := i }
  | .jsonType mediaType => { c with jsonType := mediaType }
  | .enabledMethods methods => { c with enabledMethods := methods }
  | .server s => c.addServer s
  | .tag t => c.addTag t
  | .route r => c.addRoute r
  | .model m => c.addModel m

def registerAll (c : Catalog) (rs : List Registration) : Catalog := rs.foldl register c

theorem registerAll_nil (c : Catalog) : c.registerAll [] = c := rfl

theorem registerAll_cons (c : Catalog) (r : Registration) (rs : List Registration) :
    c.registerAll (r :: rs) = (c.register r).registerAll rs := rfl

section
variable {a b : Registration}

theorem register_comm (h : a.group ≠ b.group) (c : Catalog) :
    (c.register a).register b = (c.register b).register a := by
  cases a with
  | model m =>
    cases b with
    | model n =>
      have hname : m.name ≠ n.name := fun he => h (congrArg Registration.Group.model he)
      have hmodels : (c.models.insert m.name m).insert n.name n
          = (c.models.insert n.name n).insert m.name m := Table.insert_comm c.models hname m n
      exact congrArg (fun models => ({ c with models } : Catalog)) hmodels
    | _ => rfl
  -- two of one kind are of one group, two of different kinds change different fields
  | _ => cases b <;> first | rfl | exact absurd rfl h

/-- what follows only things of other groups may come first -/
theorem registerAll_append_cons {us : List Registration} (h : ∀ u ∈ us, u.group ≠ a.group)
    (vs : List Registration) (c : Catalog) :
    c.registerAll (us ++ a :: vs) = (c.register a).registerAll (us ++ vs) := by
  induction us generalizing c with
  | nil => rfl
  | cons u us ih =>
    have hu : u.group ≠ a.group := h u List.mem_cons_self
    rw [List.cons_append, List.cons_append, registerAll_cons, registerAll_cons,
      ih fun u' hu' => h u' (List.mem_cons_of_mem u hu'), register_comm hu]

theorem registerAll_congr {as bs : List Registration} (h : SameOrder as bs) (c : Catalog) :
    c.registerAll as = c.registerAll bs := by
  induction as generalizing bs c with
  | nil => rw [h.eq_nil]
  | cons a as ih =>
    obtain ⟨us, vs, rfl, hus, hrest⟩ := h.exists_append
    rw [registerAll_cons, registerAll_append_cons hus, ih hrest]

end

/-! ## models -/

theorem isDefined_addModel (c : Catalog) (m : ModelDoc) (name : String) :
    (c.addModel m).isDefined name = true ↔ m.name = name ∨ c.isDefined name = true := by
  show ((c.models.insert m.name m).get? name).isSome = true ↔ _
  rw [Table.get?_insert]
  split
  next h => simp [h]
  next h => simp [isDefined, Table.contains, Ne.symm h]

theorem isDefined_register (c : Catalog) (r : Registration) (name : String) :
    (c.register r).isDefined name = true
      ↔ (∃ m, r = .model m ∧ m.name = name) ∨ c.isDefined name = true := by
  cases r with
  | model m => simp [register, isDefined_addModel]
  | _ => simp [register, isDefined, addServer, addTag, addRoute]

theorem isDefined_registerAll (c : Catalog) (rs : List Registration) (name : String) :
    (c.registerAll rs).isDefined name = true
      ↔ (∃ m, .model m ∈ rs ∧ m.name = name) ∨ c.isDefined name = true := by
  induction rs generalizing c with
  | nil => simp [registerAll_nil]
  | cons r rs ih =>
    rw [registerAll_cons, ih, isDefined_register]
    constructor
    · rintro (⟨m, hm, hname⟩ | ⟨m, rfl, hname⟩ | h)
      · exact .inl ⟨m, List.mem_cons_of_mem r hm, hname⟩
      · exact .inl ⟨m, List.mem_cons_self, hname⟩
      · exact .inr h
    · rintro (⟨m, hm, hname⟩ | h)
      · rcases List.mem_cons.1 hm with hm | hm
        · exact .inr (.inl ⟨m, hm.symm, hname⟩)
        · exact .inl ⟨m, hm, hname⟩
      · exact .inr (.inr h)

theorem bodyKind_eq_model_iff (c : Catalog) (t : DataType) :
    c.bodyKind t = .model ↔ ∃ name, t.model? = some name ∧ c.isDefined name = true := by
  have hfile : t.fileType?.isSome = true → t.model? = none := by
    rcases t with ⟨a, cs⟩ | ⟨t, cs⟩ | ⟨op, ts, cs⟩
    · cases a <;> simp [DataType.fileType?, DataType.model?]
    · simp [DataType.fileType?]
    · simp [DataType.fileType?]
  rw [bodyKind]
  split
  next h => simp [hfile h]
  next =>
    split
    next h => simpa [Option.any_eq_true] using h
    next h => simpa [Option.any_eq_true] using h

/-! ## the document -/

/-- **The document does not show in which order independent things were registered**: things of
one group keep their order, and those of different groups may stand anywhere.  What makes an item
of a body a model is that its model is registered at some time. -/
theorem document_registerAll (c : Catalog) :
    (∀ as bs : List Registration, SameOrder as bs →
        (c.registerAll as).document = (c.registerAll bs).document)
      ∧ ∀ (rs : List Registration) (t : DataType), (c.registerAll rs).bodyKind t = .model ↔
          ∃ name, t.model? = some name
            ∧ ((∃ m, .model m ∈ rs ∧ m.name = name) ∨ c.isDefined name = true) := by
  refine ⟨fun as bs h => congrArg document (registerAll_congr h c), fun rs t => ?_⟩
  simp only [bodyKind_eq_model_iff, isDefined_registerAll]

/-- a route with a body that is a pet -/
def addPet : Route :=
  { url := "/pets", handler := "Pets"
    operations := [(.post, .ofText "Add a pet.\n\nBody:\n  pet (Pet) -- The pet.\n")] }

def pet : ModelDoc := .ofText "Pet" "A pet.\n\nProperties:\n  name -- Its name.\n"

/-- the model may be registered before the route that needs it, or long after it -/
theorem document_registerAll_pet :
    SameOrder [.route addPet, .jsonType "text/json", .model pet]
        [.model pet, .jsonType "text/json", .route addPet]
      ∧ (({} : Catalog).registerAll [.route addPet, .jsonType "text/json", .model pet]).document
        = (({} : Catalog).registerAll [.model pet, .jsonType "text/json", .route addPet]).document
      ∧ (({} : Catalog).registerAll [.route addPet, .jsonType "text/json", .model pet]).bodyKind
        (.atom (.model "Pet") ∅) = .model := by
  have horder : SameOrder [.route addPet, .jsonType "text/json", .model pet]
      [.model pet, .jsonType "text/json", .route addPet] := by
    intro g
    cases g <;> rfl
  obtain ⟨hdocument, hkind⟩ := document_registerAll {}
  have hmem : .model pet ∈ [Registration.route addPet, .jsonType "text/json", .model pet] := by simp
  exact ⟨horder, hdocument _ _ horder, (hkind _ _).2 ⟨"Pet", rfl, .inl ⟨pet, hmem, rfl⟩⟩⟩

end Catalog

end Apidoc
