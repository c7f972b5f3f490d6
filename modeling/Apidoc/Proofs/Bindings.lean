import Apidoc.Value
import Mathlib.Data.List.Nodup

/-!
# Bindings with distinct keys

What a key is bound to does not depend on the order of the bindings if no key is bound twice
(`lookup_perm`), and neither does the table of the bindings (`Table.ofList_perm`).  A list in key
order is the list of its own table (`Table.entries_ofList`).  Entries that may be missing are
looked up as their values are (`lookup_maybe`, `lookup_flatMap_maybe`).
-/

namespace Apidoc

universe u v

variable {α : Type u} {β : Type v} {bs cs : List (String × α)}

theorem lookup_eq_some_iff_of_nodup (h : (bs.map Prod.fst).Nodup) {k : String} {x : α} :
    bs.lookup k = some x ↔ (k, x) ∈ bs := by
  induction bs with
  | nil => simp
  | cons b bs ih =>
    obtain ⟨l, y⟩ := b
    obtain ⟨hl, hbs⟩ := List.nodup_cons.1 h
    by_cases hk : k = l
    · subst hk
      have hx : (k, x) ∉ bs := fun hm => hl (List.mem_map.2 ⟨_, hm, rfl⟩)
      simp [hx, eq_comm]
    · simp [List.lookup_cons, beq_false_of_ne hk, ih hbs, hk]

theorem lookup_perm (h : bs.Perm cs) (hbs : (bs.map Prod.fst).Nodup) (k : String) :
    bs.lookup k = cs.lookup k := by
  have hcs : (cs.map Prod.fst).Nodup := (h.map Prod.fst).nodup_iff.1 hbs
  refine Option.ext fun x => ?_
  rw [lookup_eq_some_iff_of_nodup hbs, lookup_eq_some_iff_of_nodup hcs, h.mem_iff]

theorem lookup_eq_none_of_not_mem {k : String} (h : k ∉ bs.map Prod.fst) :
    bs.lookup k = none := by
  induction bs with
  | nil => rfl
  | cons b bs ih =>
    rw [List.map_cons, List.mem_cons, not_or] at h
    rw [List.lookup_cons, beq_false_of_ne h.1]
    exact ih h.2

theorem map_fst_map (f : α → β) (bs : List (String × α)) :
    (bs.map fun b => (b.1, f b.2)).map Prod.fst = bs.map Prod.fst := by
  rw [List.map_map]
  rfl

/-! ## tables -/

theorem InKeyOrder.nodup (h : InKeyOrder bs) : (bs.map Prod.fst).Nodup :=
  Table.nodup_keys ⟨bs, h⟩

theorem InKeyOrder.map (f : α → β) (h : InKeyOrder bs) :
    InKeyOrder (bs.map fun b => (b.1, f b.2)) :=
  List.pairwise_map.2 h

namespace Table

theorem entries_ofList (h : InKeyOrder bs) : (ofList bs).entries = bs :=
  congrArg entries (ofList_entries ⟨bs, h⟩)

theorem get?_ofList (h : (bs.map Prod.fst).Nodup) (k : String) :
    (ofList bs).get? k = bs.lookup k :=
  lookup_perm (entries_ofList_perm h) (nodup_keys _) k

/-- the order of bindings of different keys does not matter -/
theorem ofList_perm (h : bs.Perm cs) (hbs : (bs.map Prod.fst).Nodup) : ofList bs = ofList cs := by
  have hcs : (cs.map Prod.fst).Nodup := (h.map Prod.fst).nodup_iff.1 hbs
  refine ext_get? fun k => ?_
  rw [get?_ofList hbs, get?_ofList hcs, lookup_perm h hbs]

end Table

/-! ## entries that may be missing -/

@[simp] theorem lookup_maybe (k l : String) (v : Option Value) :
    (Value.maybe k v).lookup l = if l = k then v else none := by
  cases v with
  | none => simp [Value.maybe]
  | some v =>
    by_cases h : l = k
    · simp [Value.maybe, h]
    · simp [Value.maybe, List.lookup_cons, beq_false_of_ne h, h]

theorem keys_maybe_sublist (k : String) (v : Option Value) :
    ((Value.maybe k v).map Prod.fst).Sublist [k] := by
  cases v with
  | none => exact List.nil_sublist _
  | some v => exact .refl _

theorem keys_flatMap_maybe_sublist (bs : List (String × Option Value)) :
    ((bs.flatMap fun b => Value.maybe b.1 b.2).map Prod.fst).Sublist (bs.map Prod.fst) := by
  induction bs with
  | nil => exact .slnil
  | cons b bs ih =>
    rw [List.flatMap_cons, List.map_append]
    exact (keys_maybe_sublist b.1 b.2).append ih

theorem lookup_flatMap_maybe {bs : List (String × Option Value)} (h : (bs.map Prod.fst).Nodup)
    (k : String) : (bs.flatMap fun b => Value.maybe b.1 b.2).lookup k = (bs.lookup k).join := by
  induction bs with
  | nil => rfl
  | cons b bs ih =>
    obtain ⟨hb, hbs⟩ := List.nodup_cons.1 h
    rw [List.flatMap_cons, List.lookup_append, lookup_maybe, ih hbs, List.lookup_cons]
    by_cases hk : k = b.1
    · rw [if_pos hk, hk, lookup_eq_none_of_not_mem hb, BEq.rfl]
      exact Option.or_none
    · rw [if_neg hk, beq_false_of_ne hk, Option.none_or]

end Apidoc
