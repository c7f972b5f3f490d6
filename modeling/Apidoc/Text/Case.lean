import Apidoc.Text.Blank

/-!
# Case

Two ways of forgetting case:

* `lowerAscii`  the letters A to Z become a to z, all else stays;
* `fold`        simple case folding as far as it reaches the letters a to z: besides A to Z the
  long s `U+017F` folds to `s` and the kelvin sign `U+212A` to `k`.  No other character folds to
  an ASCII letter, so two texts of which one is ASCII agree up to case exactly when they fold
  to the same text.
-/

namespace Apidoc.Text

def lowerAscii (c : Char) : Char := c.toLower

def fold (c : Char) : Char :=
  if c = '\u017F' then 's' else if c = '\u212A' then 'k' else lowerAscii c

/-- blanks have no case -/
theorem fold_of_isBlank {c : Char} (h : isBlank c = true) : fold c = c := by
  have hs : c ≠ '\u017F' := fun hc => absurd (hc ▸ h) (by decide)
  have hk : c ≠ '\u212A' := fun hc => absurd (hc ▸ h) (by decide)
  rw [fold, if_neg hs, if_neg hk]
  show Char.toLower c = c
  refine dif_neg ?_
  rintro ⟨hl, hu⟩
  have hlower : 65 ≤ c.toNat := hl
  have hupper : c.toNat ≤ 90 := hu
  simp only [isBlank, Bool.or_eq_true, Bool.and_eq_true, decide_eq_true_eq, beq_iff_eq] at h
  omega

/-- `word` at the start of the text in any case, and what follows it -/
def dropWord? : List Char → List Char → Option (List Char)
  | [], s => some s
  | _ :: _, [] => none
  | w :: ws, c :: s => if fold c = w then dropWord? ws s else none

/-- a word matches itself, whatever follows -/
theorem dropWord?_append (w s : List Char) :
    dropWord? (w.map fold) (w ++ s) = some s := by
  induction w with
  | nil => rfl
  | cons c w ih => simpa [dropWord?] using ih

/-- the text is the matched characters, which fold to the word, and the rest -/
theorem eq_append_of_dropWord? {w s r : List Char} (h : dropWord? w s = some r) :
    ∃ v, s = v ++ r ∧ v.map fold = w := by
  induction w generalizing s with
  | nil => exact ⟨[], by simpa [dropWord?] using h, rfl⟩
  | cons a w ih =>
    cases s with
    | nil => simp [dropWord?] at h
    | cons c s =>
      rw [dropWord?] at h
      split at h
      next hc =>
        obtain ⟨v, rfl, hv⟩ := ih h
        exact ⟨c :: v, rfl, by simp [hc, hv]⟩
      next => simp at h

end Apidoc.Text
