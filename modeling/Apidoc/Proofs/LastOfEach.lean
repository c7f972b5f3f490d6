import Mathlib.Data.List.Dedup
import Mathlib.Data.List.Sort

/-!
# The last element of each key

`lastBy key xs` drops every element of `xs` whose key comes again later in the list.

* `map_key_lastBy`          its keys are those of the list without duplicates;
* `lastBy_map`              it depends on the keys only;
* `lastBy_filter_append`, `lastBy_lastBy_append`   what a later element makes superfluous may be
  dropped at once.
-/

namespace Apidoc

universe u v

variable {α : Type u} {β : Type v}

def lastBy (key : α → String) : List α → List α
  | [] => []
  | x :: xs => if key x ∈ xs.map key then lastBy key xs else x :: lastBy key xs

variable (key : α → String)

theorem lastBy_cons_of_mem {x : α} {xs : List α} (h : key x ∈ xs.map key) :
    lastBy key (x :: xs) = lastBy key xs := by
  rw [lastBy, if_pos h]

theorem lastBy_cons_of_not_mem {x : α} {xs : List α} (h : key x ∉ xs.map key) :
    lastBy key (x :: xs) = x :: lastBy key xs := by
  rw [lastBy, if_neg h]

theorem map_key_lastBy (xs : List α) : (lastBy key xs).map key = (xs.map key).dedup := by
  induction xs with
  | nil => rfl
  | cons x xs ih =>
    by_cases h : key x ∈ xs.map key
    · rw [lastBy_cons_of_mem key h, ih, List.map_cons, List.dedup_cons_of_mem h]
    · rw [lastBy_cons_of_not_mem key h, List.map_cons, List.map_cons, ih,
        List.dedup_cons_of_notMem h]

theorem lastBy_of_nodup {xs : List α} (h : (xs.map key).Nodup) : lastBy key xs = xs := by
  induction xs with
  | nil => rfl
  | cons x xs ih =>
    obtain ⟨hx, hxs⟩ := List.nodup_cons.1 h
    rw [lastBy_cons_of_not_mem key hx, ih hxs]

theorem lastBy_map (f : β → α) (ys : List β) :
    lastBy key (ys.map f) = (lastBy (key ∘ f) ys).map f := by
  induction ys with
  | nil => rfl
  | cons y ys ih =>
    have hm : (ys.map f).map key = ys.map (key ∘ f) := List.map_map
    by_cases h : key (f y) ∈ ys.map (key ∘ f)
    · rw [List.map_cons, lastBy_cons_of_mem key (hm ▸ h), ih, lastBy_cons_of_mem (key ∘ f) h]
    · rw [List.map_cons, lastBy_cons_of_not_mem key (hm ▸ h), ih,
        lastBy_cons_of_not_mem (key ∘ f) h, List.map_cons]

theorem mem_map_filter_append {k : String} {x : α} (hk : k ≠ key x) (xs ys : List α) :
    k ∈ (xs.filter (key · ≠ key x) ++ x :: ys).map key ↔ k ∈ (xs ++ x :: ys).map key := by
  simp only [List.map_append, List.mem_append, List.mem_map, List.mem_filter, decide_eq_true_eq]
  refine or_congr_left ⟨?_, ?_⟩
  · rintro ⟨y, ⟨hy, -⟩, he⟩
    exact ⟨y, hy, he⟩
  · rintro ⟨y, hy, he⟩
    exact ⟨y, ⟨hy, fun h => hk (he ▸ h)⟩, he⟩

/-- elements with the key of a later one may be dropped -/
theorem lastBy_filter_append (x : α) (xs ys : List α) :
    lastBy key (xs.filter (key · ≠ key x) ++ x :: ys) = lastBy key (xs ++ x :: ys) := by
  induction xs with
  | nil => rfl
  | cons z xs ih =>
    by_cases hz : key z = key x
    · have hm : key z ∈ (xs ++ x :: ys).map key := by
        rw [hz]
        exact List.mem_map_of_mem (List.mem_append_right xs List.mem_cons_self)
      rw [List.filter_cons_of_neg (by simpa using hz), List.cons_append,
        lastBy_cons_of_mem key hm, ih]
    · rw [List.filter_cons_of_pos (by simpa using hz), List.cons_append, List.cons_append, lastBy,
        lastBy, ih]
      simp only [mem_map_filter_append key hz]

theorem mem_map_lastBy_append {k : String} (xs ys : List α) :
    k ∈ (lastBy key xs ++ ys).map key ↔ k ∈ (xs ++ ys).map key := by
  rw [List.map_append, List.map_append, List.mem_append, List.mem_append, map_key_lastBy,
    List.mem_dedup]

theorem lastBy_lastBy_append (xs ys : List α) :
    lastBy key (lastBy key xs ++ ys) = lastBy key (xs ++ ys) := by
  induction xs with
  | nil => rfl
  | cons x xs ih =>
    by_cases hx : key x ∈ xs.map key
    · have hm : key x ∈ (xs ++ ys).map key := by
        rw [List.map_append]
        exact List.mem_append_left _ hx
      rw [lastBy_cons_of_mem key hx, ih, List.cons_append, lastBy_cons_of_mem key hm]
    · rw [lastBy_cons_of_not_mem key hx, List.cons_append, List.cons_append, lastBy, lastBy, ih]
      simp only [mem_map_lastBy_append]

end Apidoc
