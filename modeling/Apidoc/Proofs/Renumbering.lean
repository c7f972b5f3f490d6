import Apidoc.Proofs.DeclarationOrder

/-!
# Tables with other numbers for the order

The numbers of the items in a table matter only for the order that they make.

* `Item.renumber`         an item with another number;
* `Items.RenumberedBy`    a table with other numbers, which are in the same order;
* `Items.extendFrom`      adds items with their numbers counted from a given one.

Tables that differ in their numbers only have their items in the same order
(`RenumberedBy.names_eq`) and stay so when they are extended (`Renumbered.extend`); and a table may
be extended at once or in two steps (`renumbered_extend_append`).
-/

namespace Apidoc

def Item.renumber (f : Nat → Nat) (i : Item) : Item := { i with order := f i.order }

namespace Items

/-- `u` is `t` with the numbers changed by `f`, which keeps their order -/
structure RenumberedBy (f : Nat → Nat) (t u : Items) : Prop where
  strict : ∀ i ∈ t.values, ∀ j ∈ t.values, i.order < j.order → f i.order < f j.order
  eq_map : u = t.map (Item.renumber f)

def Renumbered (t u : Items) : Prop := ∃ f, RenumberedBy f t u

/-! ## what stays -/

namespace RenumberedBy

variable {f : Nat → Nat} {t u : Items}

theorem values_eq (h : RenumberedBy f t u) : u.values = t.values.map (Item.renumber f) := by
  rw [h.eq_map, Table.values_map]

theorem le_iff (h : RenumberedBy f t u) {i j : Item} (hi : i ∈ t.values) (hj : j ∈ t.values) :
    i.order ≤ j.order ↔ f i.order ≤ f j.order := by
  rcases Nat.lt_trichotomy i.order j.order with hlt | heq | hgt
  · have := h.strict i hi j hj hlt
    omega
  · rw [heq]
    simp
  · have := h.strict j hj i hi hgt
    omega

theorem sorted_eq (h : RenumberedBy f t u) : u.sorted = t.sorted.map (Item.renumber f) := by
  rw [sorted, sorted, h.values_eq]
  refine (List.map_mergeSort fun i hi j hj => ?_).symm
  exact decide_eq_decide.2 (h.le_iff hi hj)

theorem names_eq (h : RenumberedBy f t u) : u.names = t.names := by
  rw [names, names, h.sorted_eq, List.map_map]
  rfl

theorem unordered_eq (h : RenumberedBy f t u) :
    u.map Item.unordered = t.map Item.unordered := by
  refine Table.ext_get? fun k => ?_
  rw [h.eq_map, Table.get?_map, Table.get?_map, Table.get?_map, Option.map_map]
  rfl

end RenumberedBy

theorem Renumbered.refl (t : Items) : Renumbered t t :=
  ⟨id, fun _ _ _ _ h => h, Table.ext_get? fun k => by
    have hid : Item.renumber id = id := rfl
    rw [Table.get?_map, hid, Option.map_id, id]⟩

/-! ## extending -/

/-- adds items with their numbers counted from `n` -/
def extendFrom (n : Nat) (t : Items) (is : List Item) : Items :=
  t.insertAll (is.map fun i => (i.name, shift n i))

theorem extend_eq_extendFrom (t : Items) (is : List Item) :
    t.extend is = extendFrom (nextOrder t) t is := rfl

theorem extendFrom_append (n : Nat) (t : Items) (is js : List Item) :
    extendFrom n t (is ++ js) = extendFrom n (extendFrom n t is) js := by
  rw [extendFrom, List.map_append, Table.insertAll_append]
  rfl

theorem extendFrom_shift (n k : Nat) (t : Items) (is : List Item) :
    extendFrom n t (is.map (shift k)) = extendFrom (n + k) t is := by
  have hshift : ∀ i : Item, shift n (shift k i) = shift (n + k) i := by
    intro i
    rw [shift, shift, shift, Nat.add_comm n k, ← Nat.add_assoc]
  rw [extendFrom, List.map_map, extendFrom]
  exact congrArg t.insertAll (List.map_congr_left fun i _ => congrArg (Prod.mk i.name) (hshift i))

theorem mem_values_extendFrom {n : Nat} {t : Items} {is : List Item} {i : Item}
    (h : i ∈ (extendFrom n t is).values) : i ∈ t.values ∨ ∃ j ∈ is, i = shift n j := by
  refine (Table.mem_values_insertAll h).imp_right fun hi => ?_
  rw [List.map_map] at hi
  obtain ⟨j, hj, rfl⟩ := List.mem_map.1 hi
  exact ⟨j, hj, rfl⟩

/-- all numbers in the table are less than `n` -/
def Below (n : Nat) (t : Items) : Prop := ∀ i ∈ t.values, i.order < n

theorem below_nextOrder (t : Items) : Below (nextOrder t) t := fun _ h => lt_nextOrder h

theorem Below.extendFrom {n k : Nat} {t : Items} (ht : Below n t) {is : List Item}
    (his : ∀ i ∈ is, i.order < k) : Below (n + k) (Items.extendFrom n t is) := by
  intro i hi
  rcases mem_values_extendFrom hi with hi | ⟨j, hj, rfl⟩
  · have := ht i hi
    omega
  · have := his j hj
    show j.order + n < n + k
    omega

/-- the numbers below `n` changed by `f`, and those from `n` on counted from `m` -/
def renumberFrom (f : Nat → Nat) (n m x : Nat) : Nat := if x < n then f x else m + (x - n)

theorem renumberFrom_of_lt (f : Nat → Nat) {n x : Nat} (h : x < n) (m : Nat) :
    renumberFrom f n m x = f x := if_pos h

theorem renumberFrom_add (f : Nat → Nat) (n m x : Nat) :
    renumberFrom f n m (x + n) = x + m := by
  rw [renumberFrom, if_neg (by omega)]
  omega

/-- The same items may be added with their numbers counted from any two numbers that are not yet
reached. -/
theorem RenumberedBy.extendFrom {f : Nat → Nat} {t u : Items} (h : RenumberedBy f t u) {n m : Nat}
    (ht : Below n t) (hu : Below m u) (is : List Item) :
    RenumberedBy (renumberFrom f n m) (Items.extendFrom n t is) (Items.extendFrom m u is) := by
  have hold : ∀ i ∈ t.values, renumberFrom f n m i.order = f i.order ∧ f i.order < m := by
    intro i hi
    refine ⟨renumberFrom_of_lt f (ht i hi) m, ?_⟩
    have hmem : Item.renumber f i ∈ u.values := by
      rw [h.values_eq]
      exact List.mem_map_of_mem hi
    exact hu _ hmem
  have hnew : ∀ j : Item, renumberFrom f n m (shift n j).order = j.order + m :=
    fun j => renumberFrom_add f n m j.order
  refine ⟨fun i hi j hj hij => ?_, ?_⟩
  · rcases mem_values_extendFrom hi with hi | ⟨k, -, rfl⟩
    · rcases mem_values_extendFrom hj with hj | ⟨l, -, rfl⟩
      · rw [(hold i hi).1, (hold j hj).1]
        exact h.strict i hi j hj hij
      · rw [(hold i hi).1, hnew]
        exact Nat.lt_of_lt_of_le (hold i hi).2 (Nat.le_add_left m _)
    · rcases mem_values_extendFrom hj with hj | ⟨l, -, rfl⟩
      · have hj' := ht j hj
        have hk : n ≤ (shift n k).order := Nat.le_add_left n _
        omega
      · rw [hnew, hnew]
        have hkl : k.order + n < l.order + n := hij
        omega
  · have htable : t.map (Item.renumber (renumberFrom f n m)) = u := by
      rw [h.eq_map]
      have hentry : ∀ b ∈ t.entries,
          Item.renumber (renumberFrom f n m) b.2 = Item.renumber f b.2 := by
        intro b hb
        rw [Item.renumber, (hold b.2 (List.mem_map_of_mem hb)).1]
        rfl
      refine Table.ext (List.map_congr_left fun b hb => ?_)
      exact congrArg (Prod.mk b.1) (hentry b hb)
    have hitem : ∀ j : Item, Item.renumber (renumberFrom f n m) (shift n j) = shift m j := by
      intro j
      rw [Item.renumber, hnew]
      rfl
    rw [Items.extendFrom, Items.extendFrom, Table.map_insertAll, htable, List.map_map]
    refine congrArg u.insertAll (List.map_congr_left fun j _ => ?_)
    exact congrArg (Prod.mk j.name) (hitem j).symm

theorem Renumbered.extend {t u : Items} (h : Renumbered t u) (is : List Item) :
    Renumbered (t.extend is) (u.extend is) := by
  obtain ⟨f, hf⟩ := h
  exact ⟨_, hf.extendFrom (below_nextOrder t) (below_nextOrder u) is⟩

/-- **A table may be extended at once or in two steps**: only the numbers of the items that come
later are others. -/
theorem renumbered_extend_append (t : Items) {is : List Item} {k : Nat}
    (his : ∀ i ∈ is, i.order < k) (js : List Item) :
    Renumbered (t.extend (is ++ js.map (shift k))) ((t.extend is).extend js) := by
  obtain ⟨f, hf⟩ := Renumbered.refl (t.extend is)
  have hbelow : Below (nextOrder t + k) (t.extend is) := (below_nextOrder t).extendFrom his
  have hone : t.extend (is ++ js.map (shift k))
      = extendFrom (nextOrder t + k) (t.extend is) js := by
    rw [extend_eq_extendFrom, extendFrom_append, extendFrom_shift, ← extend_eq_extendFrom]
  rw [hone]
  exact ⟨_, hf.extendFrom hbelow (below_nextOrder _) js⟩

/-- what is added without the numbers does not depend on them -/
theorem unordered_extend (t : Items) (is : List Item) :
    (t.extend is).map Item.unordered
      = (t.map Item.unordered).insertAll (is.map fun i => (i.name, i.unordered)) := by
  rw [extend_eq_extendFrom, extendFrom, Table.map_insertAll, List.map_map]
  rfl

end Items

end Apidoc
