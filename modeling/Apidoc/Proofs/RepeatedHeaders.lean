import Apidoc.Proofs.LogicalLines
import Apidoc.Proofs.Renumbering
import Apidoc.Proofs.SectionOrder

/-!
# Repeated headers

A section may be split in two before a line that begins an item, with its header repeated in front
of that line.  Only the numbers for the order of the items then change.

* `OperationDoc.unordered`   a documentation without these numbers;
* `FieldValue.Alike`         the values of a field in two documentations of which the items have
  other numbers in the same order;
* `itemSections`             the sections that may be split.

`alike_apply` is the step of two runs side by side and `alike_applyAll` the whole run.  Responses
are numbered by themselves, so of a run with responses only `unordered_applyAll` holds.

Main statement: `ofText_repeatHeader`.
-/

namespace Apidoc

open Text (trimStart unixBreaks IsEnded)

/-! ## items of a text in two parts -/

section
variable {g : List Char → Nat → Option Item}

/-- the items of further lines are numbered on from those of the first -/
theorem filterMap_zipIdx_append (hg : ∀ l m n, g l (m + n) = (g l m).map (Items.shift n))
    (ls ks : List (List Char)) :
    ((ls ++ ks).zipIdx.filterMap fun l => g l.1 l.2)
      = (ls.zipIdx.filterMap fun l => g l.1 l.2)
        ++ (ks.zipIdx.filterMap fun l => g l.1 l.2).map (Items.shift ls.length) := by
  have hks : ∀ (ks : List (List Char)) (m n : Nat),
      ((ks.zipIdx (m + n)).filterMap fun l => g l.1 l.2)
        = ((ks.zipIdx m).filterMap fun l => g l.1 l.2).map (Items.shift n) := by
    intro ks
    induction ks with
    | nil => intro m n; rfl
    | cons k ks ih =>
      intro m n
      have hnext : m + n + 1 = m + 1 + n := by omega
      rw [List.zipIdx_cons, List.zipIdx_cons, hnext, List.filterMap_cons, List.filterMap_cons, ih,
        hg k m n]
      cases g k m <;> rfl
  rw [List.zipIdx_append, List.filterMap_append, hks]

theorem order_lt_of_mem_filterMap (hg : ∀ l n, ∀ i ∈ g l n, i.order = n)
    {ls : List (List Char)} {i : Item} (hi : i ∈ ls.zipIdx.filterMap fun l => g l.1 l.2) :
    i.order < ls.length := by
  obtain ⟨l, hl, he⟩ := List.mem_filterMap.1 hi
  rw [hg l.1 l.2 i he]
  simpa using List.snd_lt_of_mem_zipIdx hl

end

/-- a reader of items whose items in `y` only have other numbers when they come after `x` -/
def SplitsAt (x y : List Char) (read : List Char → List Item) : Prop :=
  ∃ k, (∀ i ∈ read x, i.order < k) ∧ read (x ++ y) = read x ++ (read y).map (Items.shift k)

/-- A reader reads each logical line by itself, and numbers what it reads by the lines. -/
theorem splitsAt_of_filterMap {α : Type} {x y : List Char}
    (h : logicalLines (x ++ y) = logicalLines x ++ logicalLines y)
    {readLine : List Char → Option α} {toItem : α → Nat → Item}
    (horder : ∀ a n, (toItem a n).order = n)
    (hshift : ∀ a m n, toItem a (m + n) = Items.shift n (toItem a m))
    {read : List Char → List Item}
    (hread : ∀ b, read b = (logicalLines b).zipIdx.filterMap fun l =>
      (readLine l.1).map (toItem · l.2)) :
    SplitsAt x y read := by
  refine ⟨(logicalLines x).length, fun i hi => ?_, ?_⟩
  · rw [hread] at hi
    refine order_lt_of_mem_filterMap (g := fun l n => (readLine l).map (toItem · n)) ?_ hi
    rintro l n j hj
    obtain ⟨a, -, rfl⟩ := Option.map_eq_some_iff.1 hj
    exact horder a n
  · rw [hread, hread, hread, h]
    refine filterMap_zipIdx_append (g := fun l n => (readLine l).map (toItem · n)) ?_ _ _
    intro l m n
    rw [Option.map_map]
    exact congrArg (Option.map · _) (funext fun a => hshift a m n)

section
variable {x y : List Char} (h : logicalLines (x ++ y) = logicalLines x ++ logicalLines y)
include h

theorem splitsAt_items (place : Place) : SplitsAt x y (items place) :=
  splitsAt_of_filterMap h (fun _ _ => rfl) (fun _ _ _ => rfl) (items_eq_filterMap place)

theorem splitsAt_errorItems : SplitsAt x y errorItems :=
  splitsAt_of_filterMap h (fun _ _ => rfl) (fun _ _ _ => rfl) fun _ => rfl

end

theorem SplitsAt.renumbered {x y : List Char} {read : List Char → List Item}
    (h : SplitsAt x y read) (t : Items) :
    Items.Renumbered (t.extend (read (x ++ y))) ((t.extend (read x)).extend (read y)) := by
  obtain ⟨k, hk, he⟩ := h
  rw [he]
  exact Items.renumbered_extend_append t hk (read y)

/-! ## alike documentations -/

/-- a documentation without the numbers of its items -/
def OperationDoc.unordered (d : OperationDoc) : OperationDoc :=
  { d with
    pathParams := d.pathParams.map Item.unordered
    queryParams := d.queryParams.map Item.unordered
    headerParams := d.headerParams.map Item.unordered
    cookieParams := d.cookieParams.map Item.unordered
    bodyParams := d.bodyParams.map Item.unordered
    responses := d.responses.map Item.unordered
    tags := d.tags.map Item.unordered
    properties := d.properties.map Item.unordered }

namespace FieldValue

def unordered : FieldValue → FieldValue
  | items t => items (t.map Item.unordered)
  | v => v

def Alike : FieldValue → FieldValue → Prop
  | items t, items u => Items.Renumbered t u
  | v, w => v = w

theorem Alike.refl (v : FieldValue) : Alike v v := by
  cases v with
  | items t => exact Items.Renumbered.refl t
  | flag b => rfl
  | text s => rfl

theorem Alike.unordered_eq {v w : FieldValue} (h : Alike v w) : w.unordered = v.unordered := by
  cases v with
  | items t =>
    cases w with
    | items u =>
      obtain ⟨f, hf⟩ := h
      exact congrArg items hf.unordered_eq
    | flag c => cases h
    | text s => cases h
  | flag b => exact congrArg FieldValue.unordered (show _ = w from h).symm
  | text s => exact congrArg FieldValue.unordered (show _ = w from h).symm

end FieldValue

theorem Field.value_unordered (f : Field) (d : OperationDoc) :
    f.value d.unordered = (f.value d).unordered := by
  cases f with
  | listing l => cases l <;> rfl
  | _ => rfl

theorem Listing.names_eq_of_alike {l : Listing} {d e : OperationDoc}
    (h : ((Field.listing l).value d).Alike ((Field.listing l).value e)) :
    (l.table e).names = (l.table d).names := by
  obtain ⟨f, hf⟩ := h
  exact hf.names_eq

section
variable {sec : Section} {f : Field} {d e : OperationDoc}

/-- alike fields stay alike, but for the responses when a response is added -/
theorem alike_apply (h : (f.value d).Alike (f.value e))
    (hsec : f = .responses → ∀ code, sec ≠ .response code) (buffer : List Char) :
    (f.value (d.apply sec buffer)).Alike (f.value (e.apply sec buffer)) := by
  by_cases hf : f = sec.field
  · subst hf
    rcases sec.eq_sec_or with ⟨l, rfl⟩ | rfl | ⟨code, rfl⟩ | rfl
    · rw [l.field_sec] at h ⊢
      show Items.Renumbered (l.table _) (l.table _)
      rw [l.table_apply_self, l.table_apply_self]
      exact Items.Renumbered.extend h _
    · exact Items.Renumbered.extend h _
    · exact absurd rfl (hsec rfl code)
    · rfl
  · rw [Field.value_apply_of_ne hf, Field.value_apply_of_ne hf]
    exact h

theorem alike_applyAll (h : (f.value d).Alike (f.value e)) (ss : List (Section × List Char))
    (hss : f = .responses → ∀ s ∈ ss, ∀ code, s.1 ≠ .response code) :
    (f.value (d.applyAll ss)).Alike (f.value (e.applyAll ss)) := by
  induction ss generalizing d e with
  | nil => exact h
  | cons s ss ih =>
    refine ih (alike_apply h (fun hf => hss hf s List.mem_cons_self) s.2) ?_
    exact fun hf p hp => hss hf p (List.mem_cons_of_mem s hp)

/-- what a section makes of a field without its numbers does not depend on them -/
theorem unordered_value_apply (h : (f.value d).unordered = (f.value e).unordered)
    (buffer : List Char) :
    (f.value (d.apply sec buffer)).unordered = (f.value (e.apply sec buffer)).unordered := by
  by_cases hf : f = sec.field
  · subst hf
    rcases sec.eq_sec_or with ⟨l, rfl⟩ | rfl | ⟨code, rfl⟩ | rfl
    · rw [l.field_sec] at h ⊢
      have ht : (l.table d).map Item.unordered = (l.table e).map Item.unordered :=
        FieldValue.items.inj h
      refine congrArg FieldValue.items ?_
      rw [l.table_apply_self, l.table_apply_self, Items.unordered_extend, ht,
        ← Items.unordered_extend]
    · have ht : d.responses.map Item.unordered = e.responses.map Item.unordered :=
        FieldValue.items.inj h
      show FieldValue.items ((d.responses.extend _).map _)
        = FieldValue.items ((e.responses.extend _).map _)
      rw [Items.unordered_extend, ht, ← Items.unordered_extend]
    · have ht : d.responses.map Item.unordered = e.responses.map Item.unordered :=
        FieldValue.items.inj h
      show FieldValue.items (Table.map _ _) = FieldValue.items (Table.map _ _)
      rw [OperationDoc.apply, OperationDoc.apply]
      split
      · rw [ht]
      · rw [Table.map_insert, Table.map_insert, ht]
    · rfl
  · rw [Field.value_apply_of_ne hf, Field.value_apply_of_ne hf, h]

theorem unordered_applyAll (h : d.unordered = e.unordered) (ss : List (Section × List Char)) :
    (d.applyAll ss).unordered = (e.applyAll ss).unordered := by
  induction ss generalizing d e with
  | nil => exact h
  | cons s ss ih =>
    refine ih (OperationDoc.ext_field fun f => ?_)
    rw [Field.value_unordered, Field.value_unordered]
    refine unordered_value_apply ?_ s.2
    rw [← Field.value_unordered, ← Field.value_unordered, h]

end

/-! ## splitting a section -/

/-- all sections that list items or errors -/
def itemSections : List Section :=
  [.query, .path, .body, .cookie, .header, .properties, .tags, .errors]

theorem alike_apply_append {sec : Section} (hsec : sec ∈ itemSections) {x y : List Char}
    (h : logicalLines (x ++ y) = logicalLines x ++ logicalLines y) (d : OperationDoc) (f : Field) :
    (f.value (d.apply sec (x ++ y))).Alike (f.value ((d.apply sec x).apply sec y)) := by
  by_cases hf : f = sec.field
  · subst hf
    rcases sec.eq_sec_or with ⟨l, rfl⟩ | rfl | ⟨code, rfl⟩ | rfl
    · rw [l.field_sec]
      show Items.Renumbered (l.table _) (l.table _)
      rw [l.table_apply_self, l.table_apply_self, l.table_apply_self]
      exact (splitsAt_items h l.place).renumbered (l.table d)
    · exact (splitsAt_errorItems h).renumbered d.responses
    · exact absurd hsec (by simp [itemSections])
    · exact absurd hsec (by decide)
  · rw [Field.value_apply_of_ne hf, Field.value_apply_of_ne hf, Field.value_apply_of_ne hf]
    exact FieldValue.Alike.refl _

theorem joined_append (ls ks : List (List Char)) : joined (ls ++ ks) = joined ls ++ joined ks := by
  rw [joined, List.map_append, List.flatten_append, joined, joined]

theorem endsWhole_joined {ls : List (List Char)} (h : ∀ l ∈ ls, IsEnded l) :
    Text.EndsWhole (joined ls) := by
  induction ls with
  | nil => exact .inl rfl
  | cons l ls ih =>
    have hline : Text.EndsWhole (trimStart l) := by
      obtain ⟨k, -, rfl⟩ := h l List.mem_cons_self
      cases hk : Text.allBlank k with
      | true =>
        have hb : Text.allBlank (k ++ ['\n']) = true := by
          rw [Text.allBlank, List.all_append, Bool.and_eq_true]
          exact ⟨hk, rfl⟩
        exact .inl ((Text.trimStart_eq_nil_iff _).2 hb)
      | false =>
        rw [Text.trimStart_append hk]
        exact .inr (by simp)
    rw [joined_cons]
    exact hline.append (ih fun k hk => h k (List.mem_cons_of_mem l hk))

/-- the lines of a body are cut into logical lines in front of a line that begins one -/
theorem logicalLines_joined_append {s : List Char} {xs ys : List (List Char)} {l : List Char}
    (hxs : ∀ k ∈ xs, IsEnded k) (hl : l ∈ Text.rawLines s) (hstart : startsItem l = true) :
    logicalLines (joined (xs.map unixBreaks) ++ joined ((l :: ys).map unixBreaks))
      = logicalLines (joined (xs.map unixBreaks))
        ++ logicalLines (joined ((l :: ys).map unixBreaks)) := by
  have hended : ∀ k ∈ xs.map unixBreaks, IsEnded k := by
    intro k hk
    obtain ⟨j, hj, rfl⟩ := List.mem_map.1 hk
    exact (hxs j hj).unixBreaks
  refine logicalLines_append (endsWhole_joined hended) ?_
  rw [List.map_cons, joined_cons]
  refine head_lines_startsItem ?_ ?_ _
  · have hline : IsEnded (unixBreaks l) ∨ '\n' ∉ unixBreaks l := by
      rcases Text.isEnded_or_of_mem_rawLines hl with h | h
      · exact .inl h.unixBreaks
      · rw [Text.unixBreaks_of_no_feed h]
        exact .inr h
    rcases hline with ⟨k, hk, he⟩ | h
    · have hb : Text.allBlank k = false := by
        cases hb : Text.allBlank k with
        | false => rfl
        | true =>
          rw [← startsItem_unixBreaks hl, he, startsItem_append_break (.inl rfl),
            startsItem_of_allBlank hb] at hstart
          cases hstart
      rw [he, Text.trimStart_append hb]
      refine .inl (Text.isEnded_concat fun hm => hk ?_)
      exact (List.dropWhile_sublist _).subset hm
    · exact .inr fun hm => h ((List.dropWhile_sublist _).subset hm)
  · rw [startsItem_trimStart, startsItem_unixBreaks hl, hstart]

namespace Layout

section
variable {s : String} {as bs : List (List Char × List (List Char))} {h l : List Char}
  {xs ys : List (List Char)}

/-- the lines of the docstring up to where the header is repeated, and from there on -/
theorem rawLines_at_split (hs : (ofText s).sections = as ++ (h, xs ++ l :: ys) :: bs) :
    (∀ k ∈ (ofText s).front ++ as.flatMap (fun p => p.1 :: p.2) ++ h :: xs, IsEnded k)
      ∧ Text.rawLines (l :: ys ++ bs.flatMap fun p => p.1 :: p.2).flatten
        = l :: ys ++ bs.flatMap fun p => p.1 :: p.2 := by
  have hraw : Text.rawLines s.toList
      = ((ofText s).front ++ as.flatMap (fun p => p.1 :: p.2) ++ h :: xs)
        ++ (l :: ys ++ bs.flatMap fun p => p.1 :: p.2) := by
    rw [← lines_ofText, lines, hs]
    simp
  exact Text.rawLines_eq_append hraw (by simp)

theorem ofText_withSections_repeated
    (hs : (ofText s).sections = as ++ (h, xs ++ l :: ys) :: bs) :
    OperationDoc.ofText (withSections s (as ++ (h, xs) :: (h, l :: ys) :: bs))
      = (ofText s).prose.applyAll
          ((as ++ (h, xs) :: (h, l :: ys) :: bs).filterMap readSection) := by
  obtain ⟨hfront, hback⟩ := rawLines_at_split hs
  have hp :
      ({ ofText s with sections := as ++ (h, xs) :: (h, l :: ys) :: bs } : Layout).Proper := by
    refine (proper_ofLines _).of_parts fun p hp => ?_
    have hsplit : (h, xs ++ l :: ys) ∈ (ofText s).sections := by simp [hs]
    simp only [List.mem_append, List.mem_cons] at hp
    rcases hp with hp | rfl | rfl | hp
    · exact ⟨p, by rw [← ofText, hs]; exact List.mem_append_left _ hp, rfl, List.Subset.refl _⟩
    · exact ⟨_, hsplit, rfl, List.subset_append_left _ _⟩
    · exact ⟨_, hsplit, rfl, List.subset_append_right _ _⟩
    · exact ⟨p, by rw [← ofText, hs]; simp [hp], rfl, List.Subset.refl _⟩
  refine hp.ofText_text ?_
  have hlines : ({ ofText s with sections := as ++ (h, xs) :: (h, l :: ys) :: bs } : Layout).lines
      = ((ofText s).front ++ as.flatMap (fun p => p.1 :: p.2) ++ h :: xs ++ [h])
        ++ (l :: ys ++ bs.flatMap fun p => p.1 :: p.2) := by
    simp [lines]
  have hended : ∀ k ∈ (ofText s).front ++ as.flatMap (fun p => p.1 :: p.2) ++ h :: xs ++ [h],
      IsEnded k := by
    intro k hk
    rcases List.mem_append.1 hk with hk | hk
    · exact hfront k hk
    · rw [List.mem_singleton.1 hk]
      exact hfront h (by simp)
  rw [hlines, List.flatten_append, Text.rawLines_flatten_append hended, hback]

/-- Both docstrings say the same before the section and have the same sections behind it.  There
the one applies the section at once, and the other in two parts. -/
theorem ofText_in_parts (hs : (ofText s).sections = as ++ (h, xs ++ l :: ys) :: bs) {sec : Section}
    (hh : Section.ofHeader? h = some sec) (hl : startsItem l = true) :
    ∃ (c : OperationDoc) (x y : List Char), logicalLines (x ++ y) = logicalLines x ++ logicalLines y
      ∧ OperationDoc.ofText s = (c.apply sec (x ++ y)).applyAll (bs.filterMap readSection)
      ∧ OperationDoc.ofText (withSections s (as ++ (h, xs) :: (h, l :: ys) :: bs))
        = ((c.apply sec x).apply sec y).applyAll (bs.filterMap readSection) := by
  have hread : ∀ body, readSection (h, body) = some (sec, joined (body.map unixBreaks)) :=
    fun body => readSection_of_header hh
  have hline : l ∈ Text.rawLines s.toList := by
    rw [← lines_ofText, lines, hs]
    simp
  have hxs : ∀ k ∈ xs, IsEnded k := by
    intro k hk
    exact (rawLines_at_split hs).1 k (by simp [hk])
  refine ⟨(ofText s).prose.applyAll (as.filterMap readSection), joined (xs.map unixBreaks),
    joined ((l :: ys).map unixBreaks), logicalLines_joined_append hxs hline hl, ?_, ?_⟩
  · rw [ofText_eq_applyAll, hs, List.filterMap_append, List.filterMap_cons_some (hread _),
      OperationDoc.applyAll_append, OperationDoc.applyAll_cons, List.map_append, joined_append]
  · rw [ofText_withSections_repeated hs, List.filterMap_append,
      List.filterMap_cons_some (hread _), List.filterMap_cons_some (hread _),
      OperationDoc.applyAll_append, OperationDoc.applyAll_cons, OperationDoc.applyAll_cons]

theorem no_response_of_headers
    (hbs : ∀ p ∈ bs, ∀ code, Section.ofHeader? p.1 ≠ some (.response code)) :
    ∀ q ∈ bs.filterMap readSection, ∀ code, q.1 ≠ .response code := by
  intro q hq code hc
  obtain ⟨p, hp, hpq⟩ := List.mem_filterMap.1 hq
  obtain ⟨sec, hsec, rfl⟩ := Option.map_eq_some_iff.1 hpq
  obtain rfl : sec = .response code := hc
  exact hbs p hp code hsec

end

/-- **A section may be split by repeating its header** in front of a line that begins an item: all
items stay as they are but for their numbers, and in the same order. -/
theorem ofText_repeatHeader (s : String) (as bs : List (List Char × List (List Char)))
    (h l : List Char) (xs ys : List (List Char)) (sec : Section)
    (hs : (ofText s).sections = as ++ (h, xs ++ l :: ys) :: bs)
    (hh : Section.ofHeader? h = some sec) (hsec : sec ∈ itemSections)
    (hl : startsItem l = true) :
    let d := OperationDoc.ofText s
    let e := OperationDoc.ofText (withSections s (as ++ (h, xs) :: (h, l :: ys) :: bs))
    e.unordered = d.unordered
      ∧ (∀ k : Listing, (k.table e).names = (k.table d).names)
      ∧ ((∀ p ∈ bs, ∀ code, Section.ofHeader? p.1 ≠ some (.response code)) →
          e.responses.names = d.responses.names) := by
  intro d e
  obtain ⟨c, x, y, hsplit, hd, he⟩ := ofText_in_parts hs hh hl
  have halike := alike_apply_append hsec hsplit c
  have hunordered : (c.apply sec (x ++ y)).unordered = ((c.apply sec x).apply sec y).unordered := by
    refine OperationDoc.ext_field fun f => ?_
    rw [Field.value_unordered, Field.value_unordered, (halike f).unordered_eq]
  refine ⟨?_, fun k => ?_, fun hbs => ?_⟩
  · show (OperationDoc.ofText _).unordered = (OperationDoc.ofText s).unordered
    rw [hd, he, unordered_applyAll hunordered]
  · show (k.table (OperationDoc.ofText _)).names = (k.table (OperationDoc.ofText s)).names
    rw [hd, he]
    exact Listing.names_eq_of_alike (alike_applyAll (halike (.listing k)) _ fun hf => by cases hf)
  · obtain ⟨f, hf⟩ := alike_applyAll (halike .responses) _ fun _ => no_response_of_headers hbs
    show (OperationDoc.ofText _).responses.names = (OperationDoc.ofText s).responses.names
    rw [hd, he]
    exact hf.names_eq

def petErrors : String :=
  "Find pets.\n\nErrors:\n  404 -- none\n  500 -- down\n    for now\nQuery Params:\n  q -- words\n"

def petErrorsRepeated : String :=
  "Find pets.\n\nErrors:\n  404 -- none\nErrors:\n  500 -- down\n    for now\nQuery Params:\n  q -- words\n"

theorem sections_petErrors :
    (ofText petErrors).sections
        = [] ++ ("Errors:\n".toList,
            ["  404 -- none\n".toList] ++ "  500 -- down\n".toList :: ["    for now\n".toList])
          :: [querySection]
      ∧ withSections petErrors
          ([] ++ ("Errors:\n".toList, ["  404 -- none\n".toList])
            :: ("Errors:\n".toList, "  500 -- down\n".toList :: ["    for now\n".toList])
            :: [querySection])
        = petErrorsRepeated := by
  decide

theorem ofText_petErrors_repeated :
    (OperationDoc.ofText petErrorsRepeated).unordered = (OperationDoc.ofText petErrors).unordered
      ∧ (OperationDoc.ofText petErrorsRepeated).responses.names
        = (OperationDoc.ofText petErrors).responses.names := by
  obtain ⟨hsections, htext⟩ := sections_petErrors
  obtain ⟨hunordered, -, hnames⟩ := ofText_repeatHeader petErrors [] [querySection]
    "Errors:\n".toList "  500 -- down\n".toList ["  404 -- none\n".toList]
    ["    for now\n".toList] .errors hsections (by decide) (by decide) (by decide)
  have hlater : ∀ p ∈ [querySection], ∀ code, Section.ofHeader? p.1 ≠ some (.response code) := by
    intro p hp code
    rw [List.mem_singleton.1 hp, headers_findPets.1]
    simp
  rw [htext] at hunordered hnames
  exact ⟨hunordered, hnames hlater⟩

end Layout

end Apidoc
