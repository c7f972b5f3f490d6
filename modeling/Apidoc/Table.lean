/-!
# Tables: maps from strings, in key order

A `Table α` binds strings to values.  It is held as the list of its bindings in increasing key
order (code point order, which is also the byte order of UTF-8), so two tables with the same
bindings are equal (`Table.ext_get?`) and every listing of a table is sorted.

* `get?`, `contains`, `keys`, `values`, `size`, `isEmpty`   looking;
* `insert`      binds a key, replacing what it was bound to;
* `insertAll`   binds one pair after the other, so the last one of a key stays;
* `ofList`      `insertAll` into the empty table;
* `map`         changes the values and keeps the keys.
-/

namespace Apidoc

universe u v

/-! ## binding lists -/

/-- binds `k` in a list that is in key order -/
def insertBinding {α : Type u} (k : String) (x : α) : List (String × α) → List (String × α)
  | [] => [(k, x)]
  | (l, y) :: bs =>
    if k < l then (k, x) :: (l, y) :: bs
    else if k = l then (k, x) :: bs
    else (l, y) :: insertBinding k x bs

abbrev InKeyOrder {α : Type u} (bs : List (String × α)) : Prop :=
  bs.Pairwise fun a b => a.1 < b.1

section
variable {α : Type u} {k l : String} {x : α} {bs : List (String × α)}

theorem mem_insertBinding {b : String × α} (h : b ∈ insertBinding k x bs) :
    b = (k, x) ∨ b ∈ bs := by
  induction bs with
  | nil => simpa [insertBinding] using h
  | cons c bs ih =>
    rw [insertBinding] at h
    split at h
    next => simpa using h
    next =>
      split at h
      next => simp only [List.mem_cons] at h ⊢; exact h.imp_right .inr
      next =>
        rcases List.mem_cons.1 h with rfl | h
        · simp
        · exact (ih h).imp_right (List.mem_cons_of_mem _)

theorem inKeyOrder_insertBinding (h : InKeyOrder bs) : InKeyOrder (insertBinding k x bs) := by
  induction bs with
  | nil => simp [insertBinding]
  | cons c bs ih =>
    obtain ⟨hc, hbs⟩ := List.pairwise_cons.1 h
    rw [insertBinding]
    split
    next hk =>
      refine List.pairwise_cons.2 ⟨fun b hb => ?_, h⟩
      rcases List.mem_cons.1 hb with rfl | hb
      · exact hk
      · exact String.lt_trans hk (hc b hb)
    next hk =>
      split
      next he => exact List.pairwise_cons.2 ⟨fun b hb => by simpa [he] using hc b hb, hbs⟩
      next he =>
        refine List.pairwise_cons.2 ⟨fun b hb => ?_, ih hbs⟩
        rcases mem_insertBinding hb with rfl | hb
        · exact Std.lt_of_le_of_ne (String.not_lt.1 hk) (Ne.symm he)
        · exact hc b hb

/-- up to the order of the bindings, the new one takes the place of the old one of its key -/
theorem insertBinding_perm (h : InKeyOrder bs) :
    (insertBinding k x bs).Perm ((k, x) :: bs.filter (·.1 ≠ k)) := by
  induction bs with
  | nil => simp [insertBinding]
  | cons c bs ih =>
    obtain ⟨hc, hbs⟩ := List.pairwise_cons.1 h
    have hlater : ∀ b ∈ bs, ¬c.1 = b.1 := fun b hb he => String.lt_irrefl _ (he ▸ hc b hb)
    rw [insertBinding]
    split
    next hk =>
      have hne : ∀ b ∈ c :: bs, decide (b.1 ≠ k) = true := by
        intro b hb
        have hlt : k < b.1 := by
          rcases List.mem_cons.1 hb with rfl | hb
          · exact hk
          · exact String.lt_trans hk (hc b hb)
        exact decide_eq_true fun he => String.lt_irrefl _ (he ▸ hlt)
      rw [List.filter_eq_self.2 hne]
    next =>
      split
      next he =>
        have hne : ∀ b ∈ bs, decide (b.1 ≠ k) = true :=
          fun b hb => decide_eq_true fun hbk => hlater b hb (he ▸ hbk.symm)
        rw [List.filter_cons_of_neg (by simp [he]), List.filter_eq_self.2 hne]
      next he =>
        rw [List.filter_cons_of_pos (by simpa using Ne.symm he)]
        exact ((ih hbs).cons c).trans (List.Perm.swap (k, x) c _)

theorem lookup_insertBinding_self : (insertBinding k x bs).lookup k = some x := by
  induction bs with
  | nil => simp [insertBinding]
  | cons c bs ih =>
    rw [insertBinding]
    split
    next => exact List.lookup_cons_self
    next =>
      split
      next => exact List.lookup_cons_self
      next he => rw [List.lookup_cons, beq_false_of_ne he]; exact ih

theorem lookup_insertBinding_of_ne (hl : l ≠ k) :
    (insertBinding k x bs).lookup l = bs.lookup l := by
  induction bs with
  | nil => simp [insertBinding, List.lookup_cons, beq_false_of_ne hl]
  | cons c bs ih =>
    obtain ⟨m, y⟩ := c
    rw [insertBinding]
    split
    next => rw [List.lookup_cons, beq_false_of_ne hl]
    next =>
      split
      next he => rw [List.lookup_cons, List.lookup_cons, ← he, beq_false_of_ne hl]
      next => rw [List.lookup_cons, List.lookup_cons, ih]

/-- a binding list in key order looks up exactly what it holds -/
theorem lookup_eq_some_iff (h : InKeyOrder bs) : bs.lookup k = some x ↔ (k, x) ∈ bs := by
  induction bs with
  | nil => simp
  | cons c bs ih =>
    obtain ⟨hc, hbs⟩ := List.pairwise_cons.1 h
    obtain ⟨l, y⟩ := c
    by_cases hk : k = l
    · subst hk
      have : (k, x) ∉ bs := fun hm => String.lt_irrefl _ (hc (k, x) hm)
      simp [this, eq_comm]
    · simp [List.lookup_cons, beq_false_of_ne hk, ih hbs, hk]

theorem eq_of_lookup_eq {bs cs : List (String × α)} (hb : InKeyOrder bs) (hc : InKeyOrder cs)
    (h : ∀ k, bs.lookup k = cs.lookup k) : bs = cs := by
  have mem : ∀ b, b ∈ bs ↔ b ∈ cs := fun ⟨k, x⟩ => by
    rw [← lookup_eq_some_iff hb, h k, lookup_eq_some_iff hc]
  clear h
  induction bs generalizing cs with
  | nil =>
    cases cs with
    | nil => rfl
    | cons c cs => exact absurd ((mem c).2 List.mem_cons_self) (by simp)
  | cons b bs ih =>
    cases cs with
    | nil => exact absurd ((mem b).1 List.mem_cons_self) (by simp)
    | cons c cs =>
      obtain ⟨hb1, hb2⟩ := List.pairwise_cons.1 hb
      obtain ⟨hc1, hc2⟩ := List.pairwise_cons.1 hc
      have hbc : b = c := by
        rcases List.mem_cons.1 ((mem b).1 List.mem_cons_self) with h | h
        · exact h
        · rcases List.mem_cons.1 ((mem c).2 List.mem_cons_self) with h' | h'
          · exact h'.symm
          · exact absurd (String.lt_trans (hc1 b h) (hb1 c h')) (String.lt_irrefl _)
      subst hbc
      rw [ih hb2 hc2 fun a => ?_]
      constructor
      · intro ha
        rcases List.mem_cons.1 ((mem a).1 (List.mem_cons_of_mem _ ha)) with rfl | h
        · exact absurd (hb1 a ha) (String.lt_irrefl _)
        · exact h
      · intro ha
        rcases List.mem_cons.1 ((mem a).2 (List.mem_cons_of_mem _ ha)) with rfl | h
        · exact absurd (hc1 a ha) (String.lt_irrefl _)
        · exact h

end

theorem lookup_map {α : Type u} {β : Type v} (f : α → β) (bs : List (String × α)) (k : String) :
    (bs.map fun b => (b.1, f b.2)).lookup k = (bs.lookup k).map f := by
  induction bs with
  | nil => rfl
  | cons b bs ih =>
    rw [List.map_cons, List.lookup_cons, List.lookup_cons, ih]
    cases k == b.1 <;> rfl

/-! ## the type -/

structure Table (α : Type u) where
  entries : List (String × α) := []
  inOrder : InKeyOrder entries := by exact .nil

namespace Table

variable {α : Type u} {β : Type v}

def empty : Table α := {}

instance : EmptyCollection (Table α) := ⟨empty⟩
instance : Inhabited (Table α) := ⟨∅⟩

def get? (t : Table α) (k : String) : Option α := t.entries.lookup k

def contains (t : Table α) (k : String) : Bool := (t.get? k).isSome

def keys (t : Table α) : List String := t.entries.map Prod.fst

def values (t : Table α) : List α := t.entries.map Prod.snd

def size (t : Table α) : Nat := t.entries.length

def isEmpty (t : Table α) : Bool := t.entries.isEmpty

def insert (t : Table α) (k : String) (x : α) : Table α :=
  ⟨insertBinding k x t.entries, inKeyOrder_insertBinding t.inOrder⟩

def insertAll (t : Table α) (bs : List (String × α)) : Table α :=
  bs.foldl (fun t (k, x) => t.insert k x) t

def ofList (bs : List (String × α)) : Table α := (∅ : Table α).insertAll bs

def map (f : α → β) (t : Table α) : Table β :=
  ⟨t.entries.map fun (k, x) => (k, f x), List.pairwise_map.2 t.inOrder⟩

/-! ## laws -/

@[ext] theorem ext {s t : Table α} (h : s.entries = t.entries) : s = t := by
  cases s; cases t; simp_all

/-- tables with the same bindings are equal -/
theorem ext_get? {s t : Table α} (h : ∀ k, s.get? k = t.get? k) : s = t :=
  ext (eq_of_lookup_eq s.inOrder t.inOrder h)

theorem get?_empty (k : String) : (∅ : Table α).get? k = none := rfl

theorem get?_insert_self (t : Table α) (k : String) (x : α) : (t.insert k x).get? k = some x :=
  lookup_insertBinding_self

theorem get?_insert_of_ne (t : Table α) {k l : String} (x : α) (h : l ≠ k) :
    (t.insert k x).get? l = t.get? l :=
  lookup_insertBinding_of_ne h

theorem get?_insert (t : Table α) (k l : String) (x : α) :
    (t.insert k x).get? l = if l = k then some x else t.get? l := by
  split
  next h => rw [h, get?_insert_self]
  next h => exact get?_insert_of_ne t x h

theorem get?_eq_some_iff (t : Table α) (k : String) (x : α) :
    t.get? k = some x ↔ (k, x) ∈ t.entries :=
  lookup_eq_some_iff t.inOrder

/-- of two bindings of one key the later one stays -/
theorem insert_insert_self (t : Table α) (k : String) (x y : α) :
    (t.insert k x).insert k y = t.insert k y :=
  ext_get? fun l => by simp only [get?_insert]; split <;> rfl

/-- bindings of different keys commute -/
theorem insert_comm (t : Table α) {k l : String} (h : k ≠ l) (x y : α) :
    (t.insert k x).insert l y = (t.insert l y).insert k x :=
  ext_get? fun m => by
    simp only [get?_insert]
    split
    next hm => subst hm; simp [Ne.symm h]
    next => rfl

theorem insertAll_nil (t : Table α) : t.insertAll [] = t := rfl

theorem insertAll_cons (t : Table α) (k : String) (x : α) (bs : List (String × α)) :
    t.insertAll ((k, x) :: bs) = (t.insert k x).insertAll bs := rfl

theorem insertAll_append (t : Table α) (bs cs : List (String × α)) :
    t.insertAll (bs ++ cs) = (t.insertAll bs).insertAll cs :=
  List.foldl_append

/-- the last binding of a key counts -/
theorem get?_insertAll (t : Table α) (bs : List (String × α)) (k : String) :
    (t.insertAll bs).get? k = ((bs.reverse.find? (·.1 = k)).map Prod.snd).or (t.get? k) := by
  induction bs generalizing t with
  | nil => rfl
  | cons b bs ih =>
    obtain ⟨l, x⟩ := b
    rw [insertAll_cons, ih, get?_insert, List.reverse_cons, List.find?_append]
    cases bs.reverse.find? (·.1 = k) with
    | some b => rfl
    | none =>
      by_cases hk : k = l
      · rw [if_pos hk, List.find?_cons_of_pos (by simp [hk])]
        rfl
      · rw [if_neg hk, List.find?_cons_of_neg (by simp [Ne.symm hk])]
        rfl

theorem mem_keys_iff (t : Table α) (k : String) : k ∈ t.keys ↔ ∃ x, t.get? k = some x := by
  simp only [keys, List.mem_map, get?_eq_some_iff, Prod.exists, exists_and_right, exists_eq_right]

theorem mem_keys_insert (t : Table α) (k l : String) (x : α) :
    l ∈ (t.insert k x).keys ↔ l = k ∨ l ∈ t.keys := by
  rw [mem_keys_iff, mem_keys_iff, get?_insert]
  by_cases h : l = k
  · simp [h]
  · simp [h]

/-- bindings of new keys are put between those of the table -/
theorem entries_insertAll_perm {t : Table α} {bs : List (String × α)}
    (h : ((t.entries ++ bs).map Prod.fst).Nodup) :
    (t.insertAll bs).entries.Perm (t.entries ++ bs) := by
  induction bs generalizing t with
  | nil => rw [List.append_nil]; rfl
  | cons b bs ih =>
    have hb : ∀ e ∈ t.entries, decide (e.1 ≠ b.1) = true := by
      intro e he
      rw [List.map_append, List.nodup_append] at h
      exact decide_eq_true (h.2.2 e.1 (List.mem_map_of_mem he) b.1 (List.mem_map_of_mem (by simp)))
    have hinsert : (t.insert b.1 b.2).entries.Perm (b :: t.entries) := by
      have hp := insertBinding_perm (k := b.1) (x := b.2) t.inOrder
      rwa [List.filter_eq_self.2 hb] at hp
    have hperm : ((t.insert b.1 b.2).entries ++ bs).Perm (t.entries ++ b :: bs) :=
      (hinsert.append_right bs).trans List.perm_middle.symm
    rw [insertAll_cons]
    exact (ih ((hperm.map Prod.fst).nodup_iff.2 h)).trans hperm

theorem entries_ofList_perm {bs : List (String × α)} (h : (bs.map Prod.fst).Nodup) :
    (ofList bs).entries.Perm bs :=
  entries_insertAll_perm (t := ∅) h

/-- every value was in the table or is bound -/
theorem mem_values_insertAll {t : Table α} {bs : List (String × α)} {x : α}
    (h : x ∈ (t.insertAll bs).values) : x ∈ t.values ∨ x ∈ bs.map Prod.snd := by
  induction bs generalizing t with
  | nil => exact .inl h
  | cons b bs ih =>
    rcases ih (t := t.insert b.1 b.2) h with h | h
    · obtain ⟨c, hc, rfl⟩ := List.mem_map.1 h
      rcases mem_insertBinding hc with rfl | hc
      · exact .inr List.mem_cons_self
      · exact .inl (List.mem_map_of_mem hc)
    · exact .inr (List.mem_cons_of_mem _ h)

theorem values_map (f : α → β) (t : Table α) : (t.map f).values = t.values.map f := by
  simp [values, map]

theorem keys_map (f : α → β) (t : Table α) : (t.map f).keys = t.keys := by
  simp [keys, map]

theorem get?_map (f : α → β) (t : Table α) (k : String) : (t.map f).get? k = (t.get? k).map f :=
  lookup_map f t.entries k

theorem map_insert (f : α → β) (t : Table α) (k : String) (x : α) :
    (t.insert k x).map f = (t.map f).insert k (f x) :=
  ext_get? fun l => by
    rw [get?_map, get?_insert, get?_insert, get?_map]
    split <;> rfl

theorem map_insertAll (f : α → β) (t : Table α) (bs : List (String × α)) :
    (t.insertAll bs).map f = (t.map f).insertAll (bs.map fun b => (b.1, f b.2)) := by
  induction bs generalizing t with
  | nil => rfl
  | cons b bs ih =>
    obtain ⟨k, x⟩ := b
    rw [insertAll_cons, ih, map_insert, List.map_cons, insertAll_cons]

theorem nodup_keys (t : Table α) : t.keys.Nodup := by
  rw [keys, List.Nodup, List.pairwise_map]
  refine t.inOrder.imp fun {a b} h he => ?_
  rw [he] at h
  exact String.lt_irrefl _ h

theorem ofList_entries (t : Table α) : ofList t.entries = t := by
  have hperm : (ofList t.entries).entries.Perm t.entries := entries_ofList_perm t.nodup_keys
  refine ext (List.Perm.eq_of_pairwise ?_ (ofList t.entries).inOrder t.inOrder hperm)
  exact fun a b _ _ hab hba => absurd (String.lt_trans hab hba) (String.lt_irrefl _)

end Table

end Apidoc
