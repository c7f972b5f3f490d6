import Mathlib.Data.List.Forall2

/-!
# Readings that succeed or fail

Several readings one after the other succeed when each of them does, and fail as the first one
that does not.

* `bind_eq_ok_iff`       one reading after another;
* `map_eq_ok_iff`        a reading whose result is changed;
* `mapM_eq_ok_iff`       a reading for each element of a list;
* `exists_of_mem_right`  what is in the result was read from an element of the list;
* `exists_append_of_forall₂`   what was read from one element and from those after it;
* `error?`               why a reading fails, and `error?_mapM`, why one for each element does.
-/

namespace Apidoc

universe u v w

/-! ## success -/

variable {ε : Type u} {α : Type v} {β : Type w}

theorem bind_eq_ok_iff {β : Type v} {x : Except ε α} {f : α → Except ε β} {b : β} :
    x >>= f = .ok b ↔ ∃ a, x = .ok a ∧ f a = .ok b := by
  cases x with
  | error e => exact ⟨fun h => (by cases h), fun ⟨_, h, _⟩ => (by cases h)⟩
  | ok a => exact ⟨fun h => ⟨a, rfl, h⟩, fun ⟨a', h, h'⟩ => by cases h; exact h'⟩

theorem map_eq_ok_iff {x : Except ε α} {f : α → β} {b : β} :
    x.map f = .ok b ↔ ∃ a, x = .ok a ∧ f a = b := by
  cases x <;> simp [Except.map]

theorem mapM_eq_ok_iff {f : α → Except ε β} {xs : List α} {ys : List β} :
    xs.mapM f = .ok ys ↔ List.Forall₂ (fun x y => f x = .ok y) xs ys := by
  induction xs generalizing ys with
  | nil =>
    rw [List.forall₂_nil_left_iff]
    exact ⟨fun h => (Except.ok.inj h).symm, fun h => congrArg Except.ok h.symm⟩
  | cons x xs ih =>
    rw [List.mapM_cons, bind_eq_ok_iff, List.forall₂_cons_left_iff]
    refine exists_congr fun y => ?_
    rw [bind_eq_ok_iff]
    constructor
    · rintro ⟨hx, zs, hxs, he⟩
      exact ⟨zs, hx, ih.1 hxs, (Except.ok.inj he).symm⟩
    · rintro ⟨zs, hx, hxs, rfl⟩
      exact ⟨hx, zs, ih.2 hxs, rfl⟩

theorem exists_of_mem_right {R : α → β → Prop} {xs : List α} {ys : List β}
    (h : List.Forall₂ R xs ys) {y : β} (hy : y ∈ ys) : ∃ x ∈ xs, R x y := by
  induction h with
  | nil => cases hy
  | cons hr _ ih =>
    rcases List.mem_cons.1 hy with rfl | hy
    · exact ⟨_, List.mem_cons_self, hr⟩
    · obtain ⟨x, hx, hxy⟩ := ih hy
      exact ⟨x, List.mem_cons_of_mem _ hx, hxy⟩

theorem exists_append_of_forall₂ {R : α → β → Prop} {x : α} {as bs : List α} {ys : List β}
    (h : List.Forall₂ R (as ++ x :: bs) ys) :
    ∃ cs y ds, ys = cs ++ y :: ds ∧ R x y ∧ List.Forall₂ R bs ds := by
  induction as generalizing ys with
  | nil =>
    obtain ⟨y, ds, hy, hds, rfl⟩ := List.forall₂_cons_left_iff.1 h
    exact ⟨[], y, ds, rfl, hy, hds⟩
  | cons a as ih =>
    obtain ⟨z, zs, -, hzs, rfl⟩ := List.forall₂_cons_left_iff.1 h
    obtain ⟨cs, y, ds, rfl, hy, hds⟩ := ih hzs
    exact ⟨z :: cs, y, ds, rfl, hy, hds⟩

/-! ## failure -/

def error? : Except ε α → Option ε
  | .error e => some e
  | .ok _ => none

section
variable {x : Except ε α} {e : ε}

theorem error?_eq_some_iff : error? x = some e ↔ x = .error e := by
  cases x <;> simp [error?]

theorem error?_eq_none_iff : error? x = none ↔ ∃ a, x = .ok a := by
  cases x <;> simp [error?]

/-- of two readings that do not depend on each other, the first one is looked at first -/
theorem error?_bind {β : Type v} {f : α → Except ε β} {o : Option ε} (hf : ∀ a, error? (f a) = o) :
    error? (x >>= f) = (error? x).or o := by
  cases x with
  | error e => rfl
  | ok a => exact hf a

/-- what is made of a result cannot fail -/
theorem error?_bind_ok {β : Type v} (f : α → β) : error? (x >>= fun a => .ok (f a)) = error? x := by
  cases x <;> rfl

theorem error?_mapM (f : α → Except ε β) (xs : List α) :
    error? (xs.mapM f) = xs.findSome? fun x => error? (f x) := by
  induction xs with
  | nil => rfl
  | cons x xs ih =>
    rw [List.mapM_cons, List.findSome?_cons, ← ih]
    refine (error?_bind fun y => error?_bind_ok fun ys => y :: ys).trans ?_
    cases error? (f x) <;> rfl

end

/-- what is found in the lists one after the other is found in all of them together -/
theorem findSome?_flatMap {γ : Type w} (f : β → Option γ) (g : α → List β) (xs : List α) :
    (xs.flatMap g).findSome? f = xs.findSome? fun x => (g x).findSome? f := by
  induction xs with
  | nil => rfl
  | cons x xs ih =>
    rw [List.flatMap_cons, List.findSome?_append, List.findSome?_cons, ih]
    cases (g x).findSome? f <;> rfl

end Apidoc
