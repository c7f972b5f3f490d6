import Apidoc.Docstring.ModelDoc
import Apidoc.Proofs.LastOfEach
import Apidoc.Proofs.Outline

/-!
# The order of declaration

A table of items is extended section by section.  The items of a section count from zero, with a
gap for every line that is not well-formed, and are shifted behind the items that the table holds;
an item replaces the one of its name.

* `itemLines`       the well-formed lines of a buffer, `Listing.lines` those of one kind of section;
* `Items.Lists`     the items of a table are those of a list, and their order is that of the list;
* `Items.Records`   what a table says about the lines from which it was made.

Main statement: whatever sections are applied, the sorted items of a table are those of the
well-formed lines of its kind in order, without all but the last of each name
(`applyAll_records`).
-/

namespace Apidoc

/-! ## item lines -/

def ItemLine.key (l : ItemLine) : String := .ofList l.name

def itemLines (buffer : List Char) : List ItemLine :=
  (logicalLines buffer).filterMap ItemLine.read?

/-- an item without its place in the order -/
def Item.unordered (i : Item) : Item := { i with order := 0 }

theorem unordered_toItem (l : ItemLine) (place : Place) (order : Nat) :
    (l.toItem place order).unordered = l.toItem place 0 := rfl

theorem unordered_items (place : Place) (buffer : List Char) :
    (items place buffer).map Item.unordered = (itemLines buffer).map (·.toItem place 0) := by
  have h : ∀ (ls : List (List Char)) (n : Nat),
      ((ls.zipIdx n).filterMap fun l =>
        (ItemLine.read? l.1).map (·.toItem place l.2)).map Item.unordered
        = (ls.filterMap ItemLine.read?).map (·.toItem place 0) := by
    intro ls
    induction ls with
    | nil => intro n; rfl
    | cons l ls ih =>
      intro n
      rw [List.zipIdx_cons]
      cases hl : ItemLine.read? l with
      | none => simpa [hl] using ih (n + 1)
      | some line => simpa [hl, unordered_toItem] using ih (n + 1)
  rw [items_eq_filterMap]
  exact h (logicalLines buffer) 0

theorem increasing_zipIdx {α : Type} (xs : List α) : xs.zipIdx.Pairwise (·.2 < ·.2) := by
  rw [← List.pairwise_map (f := Prod.snd) (R := (· < ·)), List.zipIdx_map_snd]
  exact List.pairwise_lt_range'

/-- the items of a buffer count upwards, with gaps -/
theorem increasing_items (place : Place) (buffer : List Char) :
    (items place buffer).Pairwise (·.order < ·.order) := by
  refine (increasing_zipIdx (logicalLines buffer)).filterMap _ ?_
  rintro ⟨k, m⟩ ⟨l, n⟩ hmn i hi j hj
  obtain ⟨a, -, rfl⟩ := Option.map_eq_some_iff.1 hi
  obtain ⟨b, -, rfl⟩ := Option.map_eq_some_iff.1 hj
  exact hmn

/-! ## tables and lists -/

namespace Items

/-- the items of the table are those of the list, which is in increasing order -/
structure Lists (t : Items) (ds : List Item) : Prop where
  /-- every item is bound to its name -/
  named : ∀ b ∈ t.entries, b.2.name = b.1
  perm : t.values.Perm ds
  increasing : ds.Pairwise (·.order < ·.order)

theorem lists_empty : Lists ∅ [] :=
  ⟨fun _ hb => absurd hb List.not_mem_nil, .nil, .nil⟩

namespace Lists

variable {t : Items} {ds : List Item}

theorem map_name_values (h : Lists t ds) : t.values.map Item.name = t.keys := by
  rw [Table.values, Table.keys, List.map_map]
  exact List.map_congr_left h.named

theorem nodup_names (h : Lists t ds) : (ds.map Item.name).Nodup :=
  ((h.perm.map Item.name).nodup_iff).1 (h.map_name_values ▸ t.nodup_keys)

/-- there is one way only to put the items in order -/
theorem eq_of_perm (h : Lists t ds) {is : List Item} (hp : is.Perm t.values)
    (hi : is.Pairwise fun a b => a.order ≤ b.order) : is = ds := by
  have hinj : ∀ a ∈ ds, ∀ b ∈ ds, a.order = b.order → a = b := by
    have hn : (ds.map Item.order).Nodup :=
      List.pairwise_map.2 (h.increasing.imp fun hab => Nat.ne_of_lt hab)
    exact fun a ha b hb => List.inj_on_of_nodup_map hn ha hb
  have hmem : ∀ a ∈ is, a ∈ ds := fun a ha => (hp.trans h.perm).subset ha
  have hds : ds.Pairwise fun a b => a.order ≤ b.order := h.increasing.imp Nat.le_of_lt
  refine List.Perm.eq_of_pairwise ?_ hi hds (hp.trans h.perm)
  exact fun a b ha hb hab hba => hinj a (hmem a ha) b hb (Nat.le_antisymm hab hba)

theorem sorted_eq (h : Lists t ds) : t.sorted = ds := by
  refine h.eq_of_perm (List.mergeSort_perm _ _) ?_
  have htrans : ∀ a b c : Item, decide (a.order ≤ b.order) = true →
      decide (b.order ≤ c.order) = true → decide (a.order ≤ c.order) = true := by
    intro a b c hab hbc
    exact decide_eq_true (Nat.le_trans (of_decide_eq_true hab) (of_decide_eq_true hbc))
  have htotal : ∀ a b : Item,
      (decide (a.order ≤ b.order) || decide (b.order ≤ a.order)) = true := by
    intro a b
    simpa using Nat.le_total a.order b.order
  exact (List.pairwise_mergeSort htrans htotal t.values).imp fun hab => of_decide_eq_true hab

/-- an item that comes after all others takes the place of the one of its name -/
theorem insert (h : Lists t ds) {i : Item} (hi : ∀ d ∈ ds, d.order < i.order) :
    Lists (t.insert i.name i) (ds.filter (·.name ≠ i.name) ++ [i]) := by
  refine ⟨?_, ?_, ?_⟩
  · intro b hb
    rcases mem_insertBinding hb with rfl | hb
    · rfl
    · exact h.named b hb
  · have hf : (t.entries.filter (·.1 ≠ i.name)).map Prod.snd =
        t.values.filter (·.name ≠ i.name) := by
      rw [Table.values, List.filter_map]
      refine congrArg (List.map Prod.snd) (List.filter_congr fun b hb => ?_)
      simp [h.named b hb]
    have hins : (t.insert i.name i).values.Perm (i :: t.values.filter (·.name ≠ i.name)) :=
      hf ▸ (insertBinding_perm t.inOrder).map Prod.snd
    have hds : (i :: t.values.filter (·.name ≠ i.name)).Perm (i :: ds.filter (·.name ≠ i.name)) :=
      (h.perm.filter _).cons i
    exact (hins.trans hds).trans (List.perm_append_singleton i _).symm
  · refine List.pairwise_append.2 ⟨h.increasing.filter _, List.pairwise_singleton _ i, ?_⟩
    intro d hd j hj
    rw [List.mem_singleton.1 hj]
    exact hi d (List.mem_of_mem_filter hd)

theorem insertAll (is : List Item) (h : Lists t ds)
    (hi : (ds ++ is).Pairwise (·.order < ·.order)) :
    Lists (t.insertAll (is.map fun i => (i.name, i))) (lastBy Item.name (ds ++ is)) := by
  induction is generalizing t ds with
  | nil =>
    rw [List.append_nil, lastBy_of_nodup _ h.nodup_names]
    exact h
  | cons i is ih =>
    obtain ⟨-, -, hlt⟩ := List.pairwise_append.1 hi
    have hins := h.insert fun d hd => hlt d hd i List.mem_cons_self
    have hsub : (ds.filter (·.name ≠ i.name) ++ [i] ++ is).Sublist (ds ++ i :: is) := by
      rw [List.append_assoc]
      exact List.filter_sublist.append_right _
    have hrun := ih hins (hi.sublist hsub)
    rw [List.append_assoc, List.singleton_append, lastBy_filter_append] at hrun
    exact hrun

end Lists

/-! ### extending -/

theorem lt_nextOrder {t : Items} {i : Item} (h : i ∈ t.values) : i.order < nextOrder t := by
  have hmax : ∀ (is : List Item) (n : Nat),
      n ≤ is.foldl (fun n i => max n (i.order + 1)) n
        ∧ ∀ i ∈ is, i.order < is.foldl (fun n i => max n (i.order + 1)) n := by
    intro is
    induction is with
    | nil => exact fun n => ⟨Nat.le_refl n, by simp⟩
    | cons j is ih =>
      intro n
      obtain ⟨hn, his⟩ := ih (max n (j.order + 1))
      rw [List.foldl_cons]
      refine ⟨by omega, fun i hi => ?_⟩
      rcases List.mem_cons.1 hi with rfl | hi
      · omega
      · exact his i hi
  exact (hmax t.values 0).2 i h

def shift (n : Nat) (i : Item) : Item := { i with order := i.order + n }

/-- **Extending a table keeps the last item of each name**, and puts the new ones behind. -/
theorem Lists.extend {t : Items} {ds : List Item} (h : Lists t ds) {is : List Item}
    (his : is.Pairwise (·.order < ·.order)) :
    Lists (t.extend is) (lastBy Item.name (ds ++ is.map (shift (nextOrder t)))) := by
  have he : t.extend is
      = t.insertAll ((is.map (shift (nextOrder t))).map fun i => (i.name, i)) := by
    rw [Items.extend, List.map_map]
    rfl
  rw [he]
  refine h.insertAll _ (List.pairwise_append.2 ⟨h.increasing, ?_, ?_⟩)
  · exact his.map _ fun a b hab => Nat.add_lt_add_right hab _
  · intro d hd j hj
    obtain ⟨i, -, rfl⟩ := List.mem_map.1 hj
    exact Nat.lt_of_lt_of_le (lt_nextOrder (h.perm.symm.subset hd)) (Nat.le_add_left _ _)

/-! ### tables and lines -/

/-- the items of the table are those of the last line of each name, in order -/
def Traces (t : Items) (place : Place) (ls : List ItemLine) : Prop :=
  ∃ ds, Lists t ds ∧ ds.map Item.unordered = (lastBy ItemLine.key ls).map (·.toItem place 0)

namespace Traces

variable {t : Items} {place : Place} {ls : List ItemLine}

theorem empty (place : Place) : Traces ∅ place [] := ⟨[], lists_empty, rfl⟩

/-- one more section -/
theorem extend (h : Traces t place ls) (buffer : List Char) :
    Traces (t.extend (items place buffer)) place (ls ++ itemLines buffer) := by
  obtain ⟨ds, hds, he⟩ := h
  refine ⟨_, hds.extend (increasing_items place buffer), ?_⟩
  have hname : Item.name ∘ Item.unordered = Item.name := rfl
  have hkey : Item.name ∘ (fun l : ItemLine => l.toItem place 0) = ItemLine.key := rfl
  have hshift : Item.unordered ∘ shift (nextOrder t) = Item.unordered := rfl
  calc (lastBy Item.name (ds ++ (items place buffer).map (shift (nextOrder t)))).map Item.unordered
      = lastBy Item.name ((ds ++ (items place buffer).map (shift (nextOrder t))).map
          Item.unordered) := by
        rw [lastBy_map, hname]
    _ = lastBy Item.name ((lastBy ItemLine.key ls ++ itemLines buffer).map
          fun l => l.toItem place 0) := by
        rw [List.map_append, List.map_append, List.map_map, hshift, he, unordered_items]
    _ = (lastBy ItemLine.key (ls ++ itemLines buffer)).map fun l => l.toItem place 0 := by
        rw [lastBy_map, hkey, lastBy_lastBy_append]

/-- many sections -/
theorem extendAll (buffers : List (List Char)) (h : Traces t place ls) :
    Traces (buffers.foldl (fun t buffer => t.extend (items place buffer)) t) place
      (ls ++ buffers.flatMap itemLines) := by
  induction buffers generalizing t ls with
  | nil =>
    rw [List.flatMap_nil, List.append_nil]
    exact h
  | cons buffer buffers ih =>
    rw [List.foldl_cons, List.flatMap_cons, ← List.append_assoc]
    exact ih (h.extend buffer)

end Traces

/-- What a table of items says about the well-formed lines from which it was made. -/
structure Records (t : Items) (place : Place) (ls : List ItemLine) : Prop where
  named : ∀ k i, t.get? k = some i → i.name = k ∧ i.place = place
  /-- no two items have the same order, so that sorting never has to break a tie -/
  distinct : (t.values.map Item.order).Nodup
  /-- the items are those of the last line of each name -/
  sorted_eq : t.sorted.map Item.unordered = (lastBy ItemLine.key ls).map (·.toItem place 0)
  /-- all names, each where it occurs last -/
  names_eq : t.names = (ls.map ItemLine.key).dedup
  /-- however the items are put in order, it is the same order -/
  sorted_unique : ∀ is : List Item, is.Perm t.values →
    is.Pairwise (fun a b => a.order ≤ b.order) → is = t.sorted

theorem Traces.records {t : Items} {place : Place} {ls : List ItemLine} (h : Traces t place ls) :
    Records t place ls := by
  obtain ⟨ds, hds, he⟩ := h
  have hkey : Item.name ∘ (fun l : ItemLine => l.toItem place 0) = ItemLine.key := rfl
  refine ⟨?_, ?_, ?_, ?_, ?_⟩
  · intro k i hi
    have hm : (k, i) ∈ t.entries := (t.get?_eq_some_iff k i).1 hi
    have hv : i ∈ ds := hds.perm.subset (List.mem_map_of_mem hm)
    have hu : i.unordered ∈ (lastBy ItemLine.key ls).map (·.toItem place 0) :=
      he ▸ List.mem_map_of_mem hv
    obtain ⟨l, -, hl⟩ := List.mem_map.1 hu
    exact ⟨hds.named _ hm, (congrArg Item.place hl).symm⟩
  · have hn : (ds.map Item.order).Nodup :=
      List.pairwise_map.2 (hds.increasing.imp fun hab => Nat.ne_of_lt hab)
    exact ((hds.perm.map Item.order).nodup_iff).2 hn
  · rw [hds.sorted_eq, he]
  · have hu : ds.map Item.name = (ds.map Item.unordered).map Item.name := by
      rw [List.map_map]
      rfl
    rw [names, hds.sorted_eq, hu, he, List.map_map, hkey, map_key_lastBy]
  · intro is hp hi
    rw [hds.sorted_eq]
    exact hds.eq_of_perm hp hi

/-- the names of those items that are required by the last line of their name -/
def requiredKeys (place : Place) (ls : List ItemLine) : List String :=
  ((lastBy ItemLine.key ls).filter (ItemLine.isRequired place ·.marker)).map ItemLine.key

theorem Records.requiredNames_eq {t : Items} {place : Place} {ls : List ItemLine}
    (h : Records t place ls) : t.requiredNames = requiredKeys place ls := by
  have hu : t.requiredNames
      = ((t.sorted.map Item.unordered).filter Item.required).map Item.name := by
    rw [requiredNames, List.filter_map, List.map_map]
    rfl
  rw [hu, h.sorted_eq, List.filter_map, List.map_map]
  rfl

theorem nodup_requiredKeys (place : Place) (ls : List ItemLine) :
    (requiredKeys place ls).Nodup := by
  have hd : ((lastBy ItemLine.key ls).map ItemLine.key).Nodup := by
    rw [map_key_lastBy]
    exact List.nodup_dedup _
  exact hd.sublist (List.filter_sublist.map _)

end Items

/-! ## documentations -/

/-- the well-formed lines of all sections of one kind -/
def Listing.lines (l : Listing) (ss : List (Section × List Char)) : List ItemLine :=
  (l.buffers ss).flatMap itemLines

/-- What a documentation says about the sections from which it was made. -/
structure OperationDoc.Records (d : OperationDoc) (ss : List (Section × List Char)) : Prop where
  tables : ∀ l : Listing, (l.table d).Records l.place (l.lines ss)
  tagNames_eq : d.tagNames = ((Listing.tags.lines ss).map ItemLine.key).dedup
  required_eq : d.properties.requiredNames
    = Items.requiredKeys .property (Listing.properties.lines ss)
  required_nodup : d.properties.requiredNames.Nodup

/-- the summary and the description do not matter -/
theorem records_of_prose (summary description : List Char) (ss : List (Section × List Char)) :
    ((Outline.prose summary description).applyAll ss).Records ss := by
  have ht : ∀ l : Listing, (l.table ((Outline.prose summary description).applyAll ss)).Records
      l.place (l.lines ss) := by
    intro l
    have h0 : l.table (Outline.prose summary description) = ∅ := by cases l <;> rfl
    have h := (Items.Traces.empty l.place).extendAll (l.buffers ss)
    rw [Listing.table_applyAll, h0]
    exact h.records
  have hr : ((Outline.prose summary description).applyAll ss).properties.requiredNames
      = Items.requiredKeys .property (Listing.properties.lines ss) :=
    (ht .properties).requiredNames_eq
  refine ⟨ht, (ht .tags).names_eq, hr, ?_⟩
  rw [hr]
  exact Items.nodup_requiredKeys _ _

theorem OperationDoc.records_ofText (s : String) :
    (OperationDoc.ofText s).Records (Outline.ofText s).sections := by
  rw [OperationDoc.ofText, OperationDoc.ofChars, reading_eq_outline]
  exact records_of_prose _ _ _

/-- **Tables list the last declaration of each name in order**: for any sections that are applied
to an empty documentation, and for any docstring. -/
theorem applyAll_records :
    (∀ ss : List (Section × List Char), (OperationDoc.applyAll {} ss).Records ss)
      ∧ (∀ s : String, (OperationDoc.ofText s).Records (Outline.ofText s).sections)
      ∧ ∀ name s : String, (ModelDoc.ofText name s).requiredProperties
          = Items.requiredKeys .property
              (Listing.properties.lines (Outline.ofText s).sections) := by
  refine ⟨fun ss => ?_, OperationDoc.records_ofText,
    fun name s => (OperationDoc.records_ofText s).required_eq⟩
  have h := records_of_prose [] [] ss
  rw [prose_nil] at h
  exact h

end Apidoc
