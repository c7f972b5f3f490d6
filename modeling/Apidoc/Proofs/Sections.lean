import Apidoc.Docstring.OperationDoc

/-!
# Applying sections

* `OperationDoc.applyAll`   sections with their buffers, one after the other;
* `Listing`                 the seven kinds of sections that list items, each with its table;
* `Listing.buffers`         the buffers of one kind among those of many sections.

A section extends the table of its own kind by the items of its buffer and leaves the tables of
all other kinds alone (`table_apply_self`, `table_apply_of_ne`), so a table is what the buffers of
its kind make of it (`table_applyAll`).
-/

namespace Apidoc

namespace OperationDoc

def applyAll (d : OperationDoc) (ss : List (Section × List Char)) : OperationDoc :=
  ss.foldl (fun d (sec, buffer) => d.apply sec buffer) d

theorem applyAll_nil (d : OperationDoc) : d.applyAll [] = d := rfl

theorem applyAll_cons (d : OperationDoc) (sec : Section) (buffer : List Char)
    (ss : List (Section × List Char)) :
    d.applyAll ((sec, buffer) :: ss) = (d.apply sec buffer).applyAll ss := rfl

end OperationDoc

/-! ## listings -/

inductive Listing where
  | path
  | query
  | header
  | cookie
  | body
  | tags
  | properties
deriving DecidableEq, Repr

namespace Listing

def sec : Listing → Section
  | path => .path
  | query => .query
  | header => .header
  | cookie => .cookie
  | body => .body
  | tags => .tags
  | properties => .properties

def place : Listing → Place
  | path => .path
  | query => .query
  | header => .header
  | cookie => .cookie
  | body => .body
  | tags => .tag
  | properties => .property

def table : Listing → OperationDoc → Items
  | path, d => d.pathParams
  | query, d => d.queryParams
  | header, d => d.headerParams
  | cookie, d => d.cookieParams
  | body, d => d.bodyParams
  | tags, d => d.tags
  | properties, d => d.properties

/-- the buffers of the sections of this kind -/
def buffers (l : Listing) (ss : List (Section × List Char)) : List (List Char) :=
  (ss.filter (·.1 = l.sec)).map Prod.snd

/-! ### one section -/

theorem table_apply_self (l : Listing) (buffer : List Char) (d : OperationDoc) :
    l.table (d.apply l.sec buffer) = (l.table d).extend (items l.place buffer) := by
  cases l <;> rfl

theorem table_apply_of_ne (l : Listing) {sec : Section} (h : sec ≠ l.sec) (buffer : List Char)
    (d : OperationDoc) : l.table (d.apply sec buffer) = l.table d := by
  cases sec with
  | response code =>
    have hr : ∀ i : Item,
        l.table { d with responses := d.responses.insert code i } = l.table d := by
      intro i
      cases l <;> rfl
    rcases OperationDoc.apply_response code buffer d with he | ⟨i, he⟩
    · rw [he]
    · rw [he, hr]
  | _ => cases l <;> first | rfl | exact absurd rfl h

/-! ### many sections -/

theorem buffers_cons_self (l : Listing) (buffer : List Char) (ss : List (Section × List Char)) :
    l.buffers ((l.sec, buffer) :: ss) = buffer :: l.buffers ss := by
  simp [buffers]

theorem buffers_cons_of_ne (l : Listing) {sec : Section} (h : sec ≠ l.sec) (buffer : List Char)
    (ss : List (Section × List Char)) : l.buffers ((sec, buffer) :: ss) = l.buffers ss := by
  simp [buffers, h]

theorem table_applyAll (l : Listing) (ss : List (Section × List Char)) (d : OperationDoc) :
    l.table (d.applyAll ss)
      = (l.buffers ss).foldl (fun t buffer => t.extend (items l.place buffer)) (l.table d) := by
  induction ss generalizing d with
  | nil => rfl
  | cons s ss ih =>
    obtain ⟨sec, buffer⟩ := s
    rw [OperationDoc.applyAll_cons, ih]
    by_cases h : sec = l.sec
    · subst h
      rw [table_apply_self, buffers_cons_self, List.foldl_cons]
    · rw [table_apply_of_ne l h, buffers_cons_of_ne l h]

end Listing

end Apidoc
