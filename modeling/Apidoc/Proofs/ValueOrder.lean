import Apidoc.Value
import Apidoc.Proofs.Bindings

/-!
# The order of entries

* `Value.InOrder`        the entries of every object are in key order, as in values that were read;
* `Value.sorted`         a value with the entries of every object put in key order;
* `Value.Rearranges`     functions that change nothing but the order of entries.

Main statements: sorting rearranges (`rearranges_sorted`), and leaves what is in order as it is
(`sorted_of_inOrder`).
-/

namespace Apidoc

namespace Value

/-! ## values in order -/

inductive InOrder : Value → Prop
  | null : InOrder .null
  | bool (b : Bool) : InOrder (.bool b)
  | integer (n : Int) : InOrder (.integer n)
  | double (x : Double) : InOrder (.double x)
  | text (s : String) : InOrder (.text s)
  | list {vs : List Value} (h : ∀ v ∈ vs, InOrder v) : InOrder (.list vs)
  | object {es : List (String × Value)} (hkeys : InKeyOrder es) (h : ∀ e ∈ es, InOrder e.2) :
      InOrder (.object es)

mutual

def sorted : Value → Value
  | .list vs => .list (sortedItems vs)
  | .object es => .object (Table.ofList (sortedEntries es)).entries
  | v => v

def sortedItems : List Value → List Value
  | [] => []
  | v :: vs => sorted v :: sortedItems vs

def sortedEntries : List (String × Value) → List (String × Value)
  | [] => []
  | (k, v) :: es => (k, sorted v) :: sortedEntries es

end

theorem sortedItems_eq_map (vs : List Value) : sortedItems vs = vs.map sorted := by
  induction vs with
  | nil => rfl
  | cons v vs ih => rw [sortedItems, ih, List.map_cons]

theorem sortedEntries_eq_map (es : List (String × Value)) :
    sortedEntries es = es.map fun e => (e.1, e.2.sorted) := by
  induction es with
  | nil => rfl
  | cons e es ih => rw [sortedEntries, ih, List.map_cons]

theorem sorted_object (es : List (String × Value)) :
    (object es).sorted = .object (Table.ofList (es.map fun e => (e.1, e.2.sorted))).entries := by
  rw [sorted, sortedEntries_eq_map]

theorem sorted_list (vs : List Value) : (list vs).sorted = .list (vs.map sorted) := by
  rw [sorted, sortedItems_eq_map]

theorem sorted_of_inOrder {v : Value} (h : v.InOrder) : v.sorted = v := by
  induction h with
  | list _ ih => rw [sorted_list, List.map_congr_left ih, List.map_id']
  | @object es hkeys _ ih =>
    have hsame : ∀ e ∈ es, (e.1, e.2.sorted) = id e := fun e he => Prod.ext rfl (ih e he)
    rw [sorted_object, List.map_congr_left hsame, List.map_id, Table.entries_ofList hkeys]
  | _ => rfl

/-! ## rearrangements -/

structure Rearranges (f : Value → Value) : Prop where
  text : ∀ s, f (.text s) = .text s
  list : ∀ vs, f (.list vs) = .list (vs.map f)
  object : ∀ es : List (String × Value), (es.map Prod.fst).Nodup →
    ∃ es', f (.object es) = .object es' ∧ es'.Perm (es.map fun e => (e.1, f e.2))

theorem rearranges_id : Rearranges id where
  text _ := rfl
  list vs := by rw [List.map_id, id]
  object es _ := ⟨es, rfl, by simp⟩

theorem rearranges_sorted : Rearranges sorted where
  text _ := rfl
  list := sorted_list
  object es hes := by
    refine ⟨_, sorted_object es, Table.entries_ofList_perm ?_⟩
    rwa [map_fst_map]

theorem Rearranges.texts {f : Value → Value} (h : Rearranges f) (ss : List String) :
    f (.texts ss) = .texts ss := by
  refine (h.list _).trans ?_
  rw [List.map_map]
  exact congrArg Value.list (List.map_congr_left fun s _ => h.text s)

end Value

end Apidoc
