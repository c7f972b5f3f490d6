import Apidoc.Proofs.RequestBodies

/-!
# Counting the items of a body

How a body is sent can be told from how many of its items are files, models and fields.

* `BodyCounts`                 the three numbers, and `BodyCounts.add`, which counts one more item;
* `Catalog.bodyCounts`         the numbers of a list of items;
* `Catalog.countedContent`     the content of a body by these numbers; the first case that fits.

Counting goes by the kinds of the items (`count_bodyCounts`), so each item is counted once
(`sum_bodyCounts`).  The cases for a single item look at the first one.  They do not apply to
longer lists, since the numbers add up to more than one there.

Main statement: the numbers lead to the same body (`requestBody?_eq_counted`).
-/

namespace Apidoc

/-! ## counting -/

structure BodyCounts where
  files : Nat := 0
  models : Nat := 0
  fields : Nat := 0

namespace BodyCounts

/-- A file is counted as one before it can be a model; a model that is not in the catalog is a
field. -/
def add (n : BodyCounts) (c : Catalog) (t : DataType) : BodyCounts :=
  if t.fileType?.isSome then { n with files := n.files + 1 }
  else
    match t.model? with
    | some name =>
      if c.isDefined name then { n with models := n.models + 1 }
      else { n with fields := n.fields + 1 }
    | none => { n with fields := n.fields + 1 }

def count (n : BodyCounts) : BodyKind → Nat
  | .file => n.files
  | .model => n.models
  | .field => n.fields

end BodyCounts

namespace Catalog

def bodyCounts (c : Catalog) (is : List Item) : BodyCounts :=
  is.foldl (fun n i => n.add c i.type) {}

/-- the content of a body with the items `is`, of which `first` is the first -/
def countedContent (c : Catalog) (first : Item) (is : List Item) : Table Schema :=
  let n := c.bodyCounts is
  match n.files, n.models, n.fields with
  | 0, 0, _ => content formType (formSchema is)
  | 1, 0, 0 =>
    content (first.type.fileType?.getD DataType.defaultFileType) (.typed "string" (some "binary"))
  | 0, 1, 0 => content c.jsonType (first.type.schema?.getD {})
  | _, _, _ => content multipartType (formSchema is)

/-! ## what is counted -/

section
variable (c : Catalog)

/-- the step: one item more of its kind -/
theorem count_add (n : BodyCounts) (t : DataType) (k : BodyKind) :
    (n.add c t).count k = n.count k + if c.bodyKind t = k then 1 else 0 := by
  rw [BodyCounts.add, bodyKind]
  cases t.fileType?.isSome with
  | true => cases k <;> rfl
  | false =>
    cases t.model? with
    | none => cases k <;> rfl
    | some name =>
      cases hname : c.isDefined name with
      | true => cases k <;> simp [BodyCounts.count, hname]
      | false => cases k <;> simp [BodyCounts.count, hname]

theorem count_bodyCounts (is : List Item) (k : BodyKind) :
    (c.bodyCounts is).count k = is.countP fun i => c.bodyKind i.type = k := by
  have hfold : ∀ n : BodyCounts, (is.foldl (fun n i => n.add c i.type) n).count k
      = n.count k + is.countP fun i => c.bodyKind i.type = k := by
    induction is with
    | nil => exact fun n => rfl
    | cons i is ih =>
      intro n
      rw [List.foldl_cons, ih, count_add, List.countP_cons]
      simp only [decide_eq_true_eq]
      omega
  rw [bodyCounts, hfold]
  cases k <;> exact Nat.zero_add _

/-- each item is counted once -/
theorem sum_bodyCounts (is : List Item) :
    (c.bodyCounts is).files + (c.bodyCounts is).models + (c.bodyCounts is).fields = is.length := by
  have hkinds : is.countP (c.bodyKind ·.type = .file) + is.countP (c.bodyKind ·.type = .model)
      + is.countP (c.bodyKind ·.type = .field) = is.length := by
    induction is with
    | nil => rfl
    | cons i is ih =>
      simp only [List.countP_cons, List.length_cons]
      cases c.bodyKind i.type <;> simp <;> omega
  rw [← hkinds, ← count_bodyCounts, ← count_bodyCounts, ← count_bodyCounts]
  rfl

theorem all_field_iff (is : List Item) : is.all (c.bodyKind ·.type == .field) = true
    ↔ (c.bodyCounts is).files = 0 ∧ (c.bodyCounts is).models = 0 := by
  have hfields : (c.bodyCounts is).fields = is.length
      ↔ is.all (c.bodyKind ·.type == .field) = true := by
    have hcount : (c.bodyCounts is).fields = is.countP (c.bodyKind ·.type = .field) :=
      c.count_bodyCounts is .field
    rw [hcount, List.countP_eq_length, List.all_eq_true]
    simp only [decide_eq_true_eq, beq_iff_eq]
  have hsum := c.sum_bodyCounts is
  rw [← hfields]
  omega

/-! ## bodies by their counts -/

theorem countedContent_singleton (i : Item) : c.countedContent i [i] = c.bodyContent [i] := by
  have hcount : ∀ k, (c.bodyCounts [i]).count k = if c.bodyKind i.type = k then 1 else 0 := by
    intro k
    rw [count_bodyCounts, List.countP_singleton]
    simp only [decide_eq_true_eq]
  have hfiles : (c.bodyCounts [i]).files = _ := hcount .file
  have hmodels : (c.bodyCounts [i]).models = _ := hcount .model
  have hfields : (c.bodyCounts [i]).fields = _ := hcount .field
  rw [countedContent, hfiles, hmodels, hfields]
  cases hkind : c.bodyKind i.type with
  | file => exact (bodyContent_of_file hkind).symm
  | model => exact (bodyContent_of_model hkind).symm
  | field => exact (bodyContent_of_field hkind).symm

theorem countedContent_of_several (first : Item) {is : List Item} (h : 2 ≤ is.length) :
    c.countedContent first is = c.bodyContent is := by
  have hsum := c.sum_bodyCounts is
  have hall := c.all_field_iff is
  rw [bodyContent_of_several c h, countedContent]
  split
  next hfiles hmodels => rw [if_pos (hall.2 ⟨hfiles, hmodels⟩)]
  -- one file, or one model, and nothing else: there would be one item only
  next hfiles hmodels hfields => omega
  next hfiles hmodels hfields => omega
  next hother _ _ =>
    rw [if_neg fun hfields => ?_]
    exact hother (hall.1 hfields).1 (hall.1 hfields).2

/-- **The three numbers of the items lead to the same body as their kinds.** -/
theorem requestBody?_eq_counted (items : Items) :
    c.requestBody? items = match items.sorted with
      | [] => none
      | first :: rest => some
        { required := (first :: rest).any Item.required
          content := c.countedContent first (first :: rest) } := by
  rw [requestBody?]
  cases items.sorted with
  | nil => rfl
  | cons first rest =>
    have hcontent : c.countedContent first (first :: rest) = c.bodyContent (first :: rest) := by
      cases rest with
      | nil => exact c.countedContent_singleton first
      | cons second rest => exact c.countedContent_of_several first (by simp)
    exact congrArg (fun t => some (RequestBody.mk _ t)) hcontent.symm

end

end Catalog

end Apidoc
