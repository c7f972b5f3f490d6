import Apidoc.Proofs.Layout

/-!
# The order of sections

* `Field`, `Field.value`      what a documentation is made of;
* `Section.field`             the field to which a section adds;
* `Section.Independent`       sections that add to different fields, or responses with different
  codes;
* `Layout.withSections`       a docstring with other sections in the place of its own.

A section leaves all fields but its own alone (`value_apply_of_ne`), and what it makes of its own
depends on that field only (`value_apply_congr`).

Main statement: in a docstring that ends with a line break, neighbouring sections that are
independent may be exchanged, and a section that is not in the vocabulary may be moved or left
out (`ofText_exchange`).
-/

namespace Apidoc

/-! ## fields -/

inductive Field where
  | listing (l : Listing)
  | responses
  | deprecated
  | summary
  | description
deriving DecidableEq, Repr

inductive FieldValue where
  | items (t : Items)
  | flag (b : Bool)
  | text (s : String)

def Field.value : Field → OperationDoc → FieldValue
  | listing l, d => .items (l.table d)
  | responses, d => .items d.responses
  | deprecated, d => .flag d.deprecated
  | summary, d => .text d.summary
  | description, d => .text d.description

def Section.field : Section → Field
  | .query => .listing .query
  | .path => .listing .path
  | .body => .listing .body
  | .cookie => .listing .cookie
  | .header => .listing .header
  | .errors => .responses
  | .response _ => .responses
  | .properties => .listing .properties
  | .tags => .listing .tags
  | .deprecated => .deprecated

theorem Listing.field_sec (l : Listing) : l.sec.field = .listing l := by cases l <;> rfl

theorem Section.eq_sec_or (sec : Section) :
    (∃ l : Listing, sec = l.sec) ∨ sec = .errors ∨ (∃ code, sec = .response code)
      ∨ sec = .deprecated := by
  cases sec with
  | query => exact .inl ⟨.query, rfl⟩
  | path => exact .inl ⟨.path, rfl⟩
  | body => exact .inl ⟨.body, rfl⟩
  | cookie => exact .inl ⟨.cookie, rfl⟩
  | header => exact .inl ⟨.header, rfl⟩
  | errors => exact .inr (.inl rfl)
  | response code => exact .inr (.inr (.inl ⟨code, rfl⟩))
  | properties => exact .inl ⟨.properties, rfl⟩
  | tags => exact .inl ⟨.tags, rfl⟩
  | deprecated => exact .inr (.inr (.inr rfl))

/-- a documentation is nothing but its fields -/
theorem OperationDoc.ext_field {d e : OperationDoc} (h : ∀ f : Field, f.value d = f.value e) :
    d = e := by
  have htable : ∀ l : Listing, l.table d = l.table e :=
    fun l => FieldValue.items.inj (h (.listing l))
  have hpath : d.pathParams = e.pathParams := htable .path
  have hquery : d.queryParams = e.queryParams := htable .query
  have hheader : d.headerParams = e.headerParams := htable .header
  have hcookie : d.cookieParams = e.cookieParams := htable .cookie
  have hbody : d.bodyParams = e.bodyParams := htable .body
  have htags : d.tags = e.tags := htable .tags
  have hproperties : d.properties = e.properties := htable .properties
  have hresponses : d.responses = e.responses := FieldValue.items.inj (h .responses)
  have hdeprecated : d.deprecated = e.deprecated := FieldValue.flag.inj (h .deprecated)
  have hsummary : d.summary = e.summary := FieldValue.text.inj (h .summary)
  have hdescription : d.description = e.description := FieldValue.text.inj (h .description)
  cases d
  cases e
  simp_all

section
variable {sec : Section} {f : Field}

theorem Field.value_apply_of_ne (h : f ≠ sec.field) (buffer : List Char) (d : OperationDoc) :
    f.value (d.apply sec buffer) = f.value d := by
  cases f with
  | listing l =>
    have hl : sec ≠ l.sec := fun he => h (by rw [he, l.field_sec])
    exact congrArg FieldValue.items (l.table_apply_of_ne hl buffer d)
  | _ =>
    cases sec with
    | response code =>
      rcases OperationDoc.apply_response code buffer d with he | ⟨i, he⟩
      · rw [he]
      · rw [he]
        first | rfl | exact absurd rfl h
    | _ => first | rfl | exact absurd rfl h

theorem Field.value_apply_congr {d e : OperationDoc} (h : f.value d = f.value e)
    (buffer : List Char) : f.value (d.apply sec buffer) = f.value (e.apply sec buffer) := by
  by_cases hf : f = sec.field
  · subst hf
    rcases sec.eq_sec_or with ⟨l, rfl⟩ | rfl | ⟨code, rfl⟩ | rfl
    · rw [l.field_sec] at h ⊢
      have ht : l.table d = l.table e := FieldValue.items.inj h
      show FieldValue.items (l.table _) = FieldValue.items (l.table _)
      rw [l.table_apply_self, l.table_apply_self, ht]
    · have ht : d.responses = e.responses := FieldValue.items.inj h
      show FieldValue.items (d.responses.extend _) = FieldValue.items (e.responses.extend _)
      rw [ht]
    · have ht : d.responses = e.responses := FieldValue.items.inj h
      show FieldValue.items _ = FieldValue.items _
      rw [OperationDoc.apply, OperationDoc.apply]
      split
      · rw [ht]
      · rw [ht]
    · rfl
  · rw [Field.value_apply_of_ne hf, Field.value_apply_of_ne hf, h]

end

/-! ## independent sections -/

namespace Section

def Independent (a b : Section) : Prop :=
  a.field ≠ b.field ∨ ∃ c e : String, a = .response c ∧ b = .response e ∧ c ≠ e

end Section

namespace OperationDoc

theorem apply_comm_of_field_ne {a b : Section} (h : a.field ≠ b.field) (x y : List Char)
    (d : OperationDoc) : (d.apply a x).apply b y = (d.apply b y).apply a x := by
  refine ext_field fun f => ?_
  by_cases hb : f = b.field
  · have ha : f ≠ a.field := fun he => h (he.symm.trans hb)
    have hd : f.value (d.apply a x) = f.value d := Field.value_apply_of_ne ha x d
    rw [Field.value_apply_congr hd, Field.value_apply_of_ne ha]
  · have hd : f.value (d.apply b y) = f.value d := Field.value_apply_of_ne hb y d
    rw [Field.value_apply_of_ne hb, Field.value_apply_congr hd]

/-- responses with different codes bind different keys of one table -/
theorem apply_comm_of_code_ne {c e : String} (h : c ≠ e) (x y : List Char) (d : OperationDoc) :
    (d.apply (.response c) x).apply (.response e) y
      = (d.apply (.response e) y).apply (.response c) x := by
  cases hx : items .response x with
  | nil =>
    cases hy : items .response y with
    | nil => simp only [apply, hx, hy]
    | cons j js => simp only [apply, hx, hy]
  | cons i is =>
    cases hy : items .response y with
    | nil => simp only [apply, hx, hy]
    | cons j js => simp only [apply, hx, hy, Table.insert_comm _ h]

theorem apply_comm {a b : Section} (h : a.Independent b) (x y : List Char) (d : OperationDoc) :
    (d.apply a x).apply b y = (d.apply b y).apply a x := by
  rcases h with h | ⟨c, e, rfl, rfl, h⟩
  · exact apply_comm_of_field_ne h x y d
  · exact apply_comm_of_code_ne h x y d

theorem applyAll_append (d : OperationDoc) (ss ts : List (Section × List Char)) :
    d.applyAll (ss ++ ts) = (d.applyAll ss).applyAll ts := List.foldl_append

theorem applyAll_swap {a b : Section} (h : a.Independent b) (x y : List Char)
    (ss ts : List (Section × List Char)) (d : OperationDoc) :
    d.applyAll (ss ++ (b, y) :: (a, x) :: ts) = d.applyAll (ss ++ (a, x) :: (b, y) :: ts) := by
  rw [applyAll_append, applyAll_append, applyAll_cons, applyAll_cons, applyAll_cons, applyAll_cons,
    apply_comm h]

end OperationDoc

/-! ## docstrings with other sections -/

namespace Layout

def withSections (s : String) (ps : List (List Char × List (List Char))) : String :=
  ({ ofText s with sections := ps } : Layout).text

def EndsLine (s : String) : Prop := s.toList.getLast? = some '\n'

/-- In a docstring that ends with a line break, sections may be taken out and put in any order. -/
theorem ofText_withSections {s : String} (hs : EndsLine s)
    {ps : List (List Char × List (List Char))} (hps : ps ⊆ (ofText s).sections) :
    OperationDoc.ofText (withSections s ps)
      = (ofText s).prose.applyAll (ps.filterMap readSection) := by
  have hp : ({ ofText s with sections := ps } : Layout).Proper :=
    (proper_ofLines _).of_parts fun p h => ⟨p, hps h, rfl, List.Subset.refl _⟩
  have hended : ∀ k ∈ ({ ofText s with sections := ps } : Layout).lines, Text.IsEnded k := by
    intro k hk
    refine Text.isEnded_of_mem_rawLines hs k ?_
    rw [← lines_ofText]
    rcases List.mem_append.1 hk with hk | hk
    · exact List.mem_append_left _ hk
    · obtain ⟨p, hp, hkp⟩ := List.mem_flatMap.1 hk
      exact List.mem_append_right _ (List.mem_flatMap.2 ⟨p, hps hp, hkp⟩)
  exact hp.ofText_text (Text.rawLines_flatten hended)

section
variable {s : String} (hs : EndsLine s) {as bs : List (List Char × List (List Char))}
  {p q : List Char × List (List Char)}
include hs

theorem ofText_swap (h : (ofText s).sections = as ++ p :: q :: bs) {a b : Section}
    (hp : Section.ofHeader? p.1 = some a) (hq : Section.ofHeader? q.1 = some b)
    (hab : a.Independent b) :
    OperationDoc.ofText (withSections s (as ++ q :: p :: bs)) = OperationDoc.ofText s := by
  have hperm : as ++ q :: p :: bs ⊆ (ofText s).sections := by
    rw [h]
    exact ((List.Perm.swap p q bs).append_left as).subset
  have hrp := readSection_of_header hp
  have hrq := readSection_of_header hq
  rw [ofText_withSections hs hperm, ofText_eq_applyAll, h, List.filterMap_append,
    List.filterMap_append, List.filterMap_cons_some hrp, List.filterMap_cons_some hrq,
    List.filterMap_cons_some hrq, List.filterMap_cons_some hrp, OperationDoc.applyAll_swap hab]

/-- only the sections that are in the vocabulary count, and their order -/
theorem ofText_of_filter_eq {ps : List (List Char × List (List Char))}
    (hps : ps ⊆ (ofText s).sections)
    (h : ps.filter (fun p => (Section.ofHeader? p.1).isSome)
      = (ofText s).sections.filter fun p => (Section.ofHeader? p.1).isSome) :
    OperationDoc.ofText (withSections s ps) = OperationDoc.ofText s := by
  have hread : ∀ qs : List (List Char × List (List Char)), qs.filterMap readSection
      = (qs.filter fun p => (Section.ofHeader? p.1).isSome).filterMap readSection := by
    intro qs
    rw [List.filterMap_filter]
    refine List.filterMap_congr fun q _ => ?_
    cases hq : Section.ofHeader? q.1 <;> simp [readSection, hq]
  rw [ofText_withSections hs hps, ofText_eq_applyAll, hread ps, h, ← hread]

end

/-- **Independent neighbours may be exchanged, and unknown sections do not count**, wherever they
stand.  A section changes nothing but its own field. -/
theorem ofText_exchange :
    (∀ (s : String) (as bs : List (List Char × List (List Char)))
        (p q : List Char × List (List Char)) (a b : Section), EndsLine s →
      (ofText s).sections = as ++ p :: q :: bs →
      Section.ofHeader? p.1 = some a → Section.ofHeader? q.1 = some b → a.Independent b →
      OperationDoc.ofText (withSections s (as ++ q :: p :: bs)) = OperationDoc.ofText s)
    ∧ (∀ (s : String) (as bs : List (List Char × List (List Char)))
        (p : List Char × List (List Char)), EndsLine s →
      (ofText s).sections = as ++ p :: bs → Section.ofHeader? p.1 = none →
      OperationDoc.ofText (withSections s (as ++ bs)) = OperationDoc.ofText s
        ∧ ∀ cs ds : List (List Char × List (List Char)), cs ++ ds = as ++ bs →
          OperationDoc.ofText (withSections s (cs ++ p :: ds)) = OperationDoc.ofText s)
    ∧ ∀ (sec : Section) (buffer : List Char) (d : OperationDoc) (f : Field), f ≠ sec.field →
      f.value (d.apply sec buffer) = f.value d := by
  refine ⟨fun s as bs p q a b hs h hp hq hab => ofText_swap hs h hp hq hab,
    fun s as bs p hs h hp => ?_, fun sec buffer d f hf => Field.value_apply_of_ne hf buffer d⟩
  have hfilter : ∀ cs ds : List (List Char × List (List Char)),
      (cs ++ p :: ds).filter (fun p => (Section.ofHeader? p.1).isSome)
        = (cs ++ ds).filter fun p => (Section.ofHeader? p.1).isSome := by
    intro cs ds
    rw [List.filter_append, List.filter_append, List.filter_cons_of_neg (by simp [hp])]
  refine ⟨ofText_of_filter_eq hs ?_ ?_, fun cs ds he => ofText_of_filter_eq hs ?_ ?_⟩
  · rw [h]
    exact ((List.sublist_cons_self p bs).append_left as).subset
  · rw [h, hfilter]
  · rw [h]
    have hcs : (cs ++ p :: ds).Perm (p :: (cs ++ ds)) := List.perm_middle
    rw [he] at hcs
    exact (hcs.trans List.perm_middle.symm).subset
  · rw [h, hfilter, hfilter, he]

/-- two sections, with either line break, and one that is not in the vocabulary -/
def findPets : String :=
  "Find pets.\n\nQuery Params:\n  q -- words\nErrors:\r\n  404 -- none\nNotes:\n  q -- no\n"

def querySection : List Char × List (List Char) :=
  ("Query Params:\n".toList, ["  q -- words\n".toList])

def errorSection : List Char × List (List Char) :=
  ("Errors:\r\n".toList, ["  404 -- none\n".toList])

def noteSection : List Char × List (List Char) := ("Notes:\n".toList, ["  q -- no\n".toList])

theorem sections_findPets :
    EndsLine findPets
      ∧ (ofText findPets).sections = [] ++ querySection :: errorSection :: [noteSection]
      ∧ (ofText findPets).sections = [querySection, errorSection] ++ noteSection :: [] := by
  refine ⟨?_, by decide, by decide⟩
  rw [EndsLine]
  decide

theorem headers_findPets :
    Section.ofHeader? querySection.1 = some .query
      ∧ Section.ofHeader? errorSection.1 = some .errors
      ∧ Section.ofHeader? noteSection.1 = none := by
  decide

theorem ofText_findPets_exchanged :
    OperationDoc.ofText (withSections findPets [errorSection, querySection, noteSection])
        = OperationDoc.ofText findPets
      ∧ OperationDoc.ofText (withSections findPets [querySection, errorSection])
        = OperationDoc.ofText findPets
      ∧ OperationDoc.ofText (withSections findPets [noteSection, querySection, errorSection])
        = OperationDoc.ofText findPets
      ∧ Field.responses.value (({} : OperationDoc).apply .query "q -- words".toList)
        = Field.responses.value {} := by
  obtain ⟨hend, hpair, hlast⟩ := sections_findPets
  obtain ⟨hquery, herrors, hnote⟩ := headers_findPets
  have hunknown := ofText_exchange.2.1 findPets [querySection, errorSection] [] noteSection hend
    hlast hnote
  refine ⟨?_, hunknown.1, hunknown.2 [] [querySection, errorSection] rfl, ?_⟩
  · exact ofText_exchange.1 findPets [] [noteSection] querySection errorSection .query .errors hend
      hpair hquery herrors (.inl (by decide))
  · exact ofText_exchange.2.2 .query _ {} .responses (by decide)

end Layout

end Apidoc
