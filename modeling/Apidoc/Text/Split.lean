import Apidoc.Text.Blank

/-!
# Cutting texts at characters

* `splitOn sep s`       the pieces between the occurrences of `sep`, never none;
* `cutAt sep s`         the parts before and after the first `sep`, if there is one;
* `dropStart? p s`      `s` without `p` at its start, if it starts so;
* `dropEnd? p s`        `s` without `p` at its end, if it ends so;
* `contains p s`        whether `p` occurs somewhere in `s`;
* `joinWith sep ls`     the pieces with `sep` between neighbours.
-/

namespace Apidoc.Text

/-! ## separators -/

def splitOn (sep : Char) : List Char → List (List Char)
  | [] => [[]]
  | c :: s =>
    if c = sep then [] :: splitOn sep s
    else match splitOn sep s with
      | [] => [[c]]
      | p :: ps => (c :: p) :: ps

theorem splitOn_sep (sep : Char) (s : List Char) :
    splitOn sep (sep :: s) = [] :: splitOn sep s := by
  simp [splitOn]

theorem splitOn_ne_nil (sep : Char) (s : List Char) : splitOn sep s ≠ [] := by
  cases s with
  | nil => simp [splitOn]
  | cons c s =>
    rw [splitOn]
    split
    next => simp
    next => split <;> simp

def cutAt (sep : Char) : List Char → Option (List Char × List Char)
  | [] => none
  | c :: s => if c = sep then some ([], s) else (cutAt sep s).map fun (a, b) => (c :: a, b)

theorem cutAt_append_sep {sep : Char} {a : List Char} (ha : sep ∉ a) (b : List Char) :
    cutAt sep (a ++ sep :: b) = some (a, b) := by
  induction a with
  | nil => simp [cutAt]
  | cons c a ih =>
    obtain ⟨hc, ha'⟩ := not_or.1 (mt List.mem_cons.2 ha)
    rw [List.cons_append, cutAt, if_neg (Ne.symm hc), ih ha', Option.map_some]

theorem cutAt_of_not_mem {sep : Char} {s : List Char} (hs : sep ∉ s) : cutAt sep s = none := by
  induction s with
  | nil => rfl
  | cons c s ih =>
    obtain ⟨hc, hs'⟩ := not_or.1 (mt List.mem_cons.2 hs)
    rw [cutAt, if_neg (Ne.symm hc), ih hs', Option.map_none]

def joinWith (sep : List Char) : List (List Char) → List Char
  | [] => []
  | [l] => l
  | l :: ls => l ++ sep ++ joinWith sep ls

theorem joinWith_singleton (sep l : List Char) : joinWith sep [l] = l := rfl

theorem joinWith_cons_cons (sep l k : List Char) (ls : List (List Char)) :
    joinWith sep (l :: k :: ls) = l ++ sep ++ joinWith sep (k :: ls) := rfl

/-- joining undoes splitting -/
theorem joinWith_splitOn (sep : Char) (s : List Char) : joinWith [sep] (splitOn sep s) = s := by
  induction s with
  | nil => rfl
  | cons c s ih =>
    rw [splitOn]
    split
    next h =>
      obtain ⟨p, ps, hp⟩ := List.exists_cons_of_ne_nil (splitOn_ne_nil sep s)
      rw [hp, joinWith_cons_cons, ← hp, ih, h]; rfl
    next =>
      split
      next h => exact absurd h (splitOn_ne_nil sep s)
      next p ps h =>
        rw [h] at ih
        cases ps with
        | nil => simpa [joinWith] using ih
        | cons q qs => simpa [joinWith] using ih

theorem splitOn_append_sep {sep : Char} {p : List Char} (hp : sep ∉ p) (s : List Char) :
    splitOn sep (p ++ sep :: s) = p :: splitOn sep s := by
  induction p with
  | nil => exact splitOn_sep sep s
  | cons c p ih =>
    obtain ⟨hc, hp'⟩ := not_or.1 (mt List.mem_cons.2 hp)
    rw [List.cons_append, splitOn, if_neg (Ne.symm hc), ih hp']

theorem splitOn_of_not_mem {sep : Char} {p : List Char} (hp : sep ∉ p) : splitOn sep p = [p] := by
  induction p with
  | nil => rfl
  | cons c p ih =>
    obtain ⟨hc, hp'⟩ := not_or.1 (mt List.mem_cons.2 hp)
    rw [splitOn, if_neg (Ne.symm hc), ih hp']

/-- splitting undoes joining, for pieces without the separator -/
theorem splitOn_joinWith {sep : Char} {ps : List (List Char)} (hne : ps ≠ [])
    (h : ∀ p ∈ ps, sep ∉ p) : splitOn sep (joinWith [sep] ps) = ps := by
  induction ps with
  | nil => exact absurd rfl hne
  | cons p ps ih =>
    have hp : sep ∉ p := h p List.mem_cons_self
    cases ps with
    | nil => exact splitOn_of_not_mem hp
    | cons q qs =>
      have hqs := ih (by simp) fun r hr => h r (List.mem_cons_of_mem p hr)
      rw [joinWith_cons_cons, List.append_assoc, List.singleton_append, splitOn_append_sep hp, hqs]

/-! ## occurrences -/

def dropStart? : List Char → List Char → Option (List Char)
  | [], s => some s
  | _ :: _, [] => none
  | a :: p, c :: s => if a = c then dropStart? p s else none

theorem dropStart?_eq_some_iff {p s r : List Char} : dropStart? p s = some r ↔ s = p ++ r := by
  induction p generalizing s with
  | nil => simp [dropStart?]
  | cons a p ih =>
    cases s with
    | nil => simp [dropStart?]
    | cons c s =>
      rw [dropStart?]
      split
      next h => simp [ih, h]
      next h => simp [Ne.symm h]

def dropEnd? (p s : List Char) : Option (List Char) :=
  (dropStart? p.reverse s.reverse).map List.reverse

theorem dropEnd?_eq_some_iff {p s r : List Char} : dropEnd? p s = some r ↔ s = r ++ p := by
  simp only [dropEnd?, Option.map_eq_some_iff, dropStart?_eq_some_iff]
  constructor
  · rintro ⟨t, h, rfl⟩
    simpa using congrArg List.reverse h
  · rintro rfl
    exact ⟨r.reverse, by simp, by simp⟩

def contains (p : List Char) : List Char → Bool
  | [] => p.isEmpty
  | c :: s => p.isPrefixOf (c :: s) || contains p s

/-- `p` occurs exactly when the text is `p` with something around it -/
theorem contains_iff (p s : List Char) : contains p s = true ↔ ∃ a b, s = a ++ p ++ b := by
  induction s with
  | nil => simp [contains]
  | cons c s ih =>
    rw [contains, Bool.or_eq_true, ih, List.isPrefixOf_iff_prefix]
    constructor
    · rintro (⟨t, h⟩ | ⟨a, b, rfl⟩)
      · exact ⟨[], t, by simpa using h.symm⟩
      · exact ⟨c :: a, b, rfl⟩
    · rintro ⟨a, b, h⟩
      cases a with
      | nil => exact .inl ⟨b, by simpa using h.symm⟩
      | cons d a =>
        obtain ⟨rfl, rfl⟩ : c = d ∧ s = a ++ p ++ b := by simpa using h
        exact .inr ⟨a, b, rfl⟩

end Apidoc.Text
