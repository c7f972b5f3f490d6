import Apidoc.Text.Case
import Apidoc.Text.Word

/-!
# Classes of characters and case

How the classes of characters lie to each other, and what the case of a letter changes.

* `forall_ascii`, `eq_of_forall_ascii`   what need only be checked for ASCII characters;
* `fold_of_isDigit`, `isDigit_of_isBlank`, `isWord_of_isDigit`   digits have no case, are no blanks
  and are word characters;
* `isBlank_lowerAscii`, `isDigit_lowerAscii`, `isWord_lowerAscii`, `fold_lowerAscii`   small letters
  are what the capital letters are;
* `eq_colon_of_lowerAscii`, `eq_colon_of_fold`, `isWord_fold`   case makes no colon of a letter, and
  no word character of another.
-/

namespace Apidoc

open Text (isBlank isWord isDigit fold lowerAscii)

theorem forall_ascii {p : Char → Prop} (h : ∀ n < 0x80, p (Char.ofNat n)) {c : Char}
    (hc : c.toNat < 0x80) : p c := by
  have hn := h c.toNat hc
  rwa [Char.ofNat_toNat] at hn

/-- the capital letters are ASCII -/
theorem lowerAscii_of_le {c : Char} (h : 0x80 ≤ c.toNat) : lowerAscii c = c := by
  refine dif_neg ?_
  rintro ⟨-, hu⟩
  have hupper : c.toNat ≤ 90 := hu
  omega

/-! ## digits -/

/-- digits have no case -/
theorem fold_of_isDigit {c : Char} (h : isDigit c = true) : fold c = c := by
  by_cases hc : c.toNat < 0x80
  · exact forall_ascii (p := fun c => isDigit c = true → fold c = c) (by decide +kernel) hc h
  · have hs : c ≠ '\u017F' := fun he => absurd (he ▸ h) (by decide +kernel)
    have hk : c ≠ '\u212A' := fun he => absurd (he ▸ h) (by decide +kernel)
    rw [fold, if_neg hs, if_neg hk, lowerAscii_of_le (Nat.le_of_not_lt hc)]

theorem isDigit_of_isBlank {c : Char} (h : isBlank c = true) : isDigit c = false := by
  by_cases hc : c.toNat < 0x80
  · exact forall_ascii (p := fun c => isBlank c = true → isDigit c = false) (by decide +kernel) hc h
  · have hb : Text.blankRanges.has c.toNat = true := Text.isBlank_eq_has c ▸ h
    have hbeyond : Text.digitRanges.all (fun r => Text.blankRanges.all (Text.apart r)) = true := by
      decide +kernel
    rw [isDigit, if_neg hc]
    exact Text.has_eq_false_of_apart hbeyond hb

/-- every range of digits lies in a range of word characters -/
theorem isWord_of_isDigit {c : Char} (h : isDigit c = true) : isWord c = true := by
  by_cases hc : c.toNat < 0x80
  · exact forall_ascii (p := fun c => isDigit c = true → isWord c = true) (by decide +kernel) hc h
  · have hwithin : Text.digitRanges.all (fun r =>
        Text.wordRanges.any fun r' => Nat.ble r'.1 r.1 && Nat.ble r.2 r'.2) = true := by
      decide +kernel
    rw [isDigit, if_neg hc] at h
    rw [isWord, if_neg hc]
    obtain ⟨r, hr, hin⟩ := List.any_eq_true.1 h
    obtain ⟨r', hr', hle⟩ := List.any_eq_true.1 (List.all_eq_true.1 hwithin r hr)
    refine List.any_eq_true.2 ⟨r', hr', ?_⟩
    simp only [Bool.and_eq_true, Nat.ble_eq, decide_eq_true_eq] at hin hle ⊢
    omega

/-! ## capital and small letters -/

theorem eq_of_forall_ascii {α : Type} {f : Char → α}
    (h : ∀ n < 0x80, f (lowerAscii (Char.ofNat n)) = f (Char.ofNat n)) (c : Char) :
    f (lowerAscii c) = f c := by
  by_cases hc : c.toNat < 0x80
  · exact forall_ascii (p := fun c => f (lowerAscii c) = f c) h hc
  · rw [lowerAscii_of_le (Nat.le_of_not_lt hc)]

theorem isBlank_lowerAscii (c : Char) : isBlank (lowerAscii c) = isBlank c :=
  eq_of_forall_ascii (by decide +kernel) c

theorem isDigit_lowerAscii (c : Char) : isDigit (lowerAscii c) = isDigit c :=
  eq_of_forall_ascii (by decide +kernel) c

theorem isWord_lowerAscii (c : Char) : isWord (lowerAscii c) = isWord c :=
  eq_of_forall_ascii (by decide +kernel) c

theorem fold_lowerAscii (c : Char) : fold (lowerAscii c) = fold c :=
  eq_of_forall_ascii (by decide +kernel) c

theorem lowerAscii_of_isDigit {c : Char} (h : isDigit c = true) : lowerAscii c = c := by
  by_cases hc : c.toNat < 0x80
  · exact forall_ascii (p := fun c => isDigit c = true → lowerAscii c = c) (by decide +kernel) hc h
  · exact lowerAscii_of_le (Nat.le_of_not_lt hc)

theorem eq_colon_of_lowerAscii {c : Char} (h : lowerAscii c = ':') : c = ':' := by
  have hcolon := eq_of_forall_ascii (f := fun c => c == ':') (by decide +kernel) c
  simpa [h] using hcolon

theorem eq_colon_of_fold {c : Char} (h : fold c = ':') : c = ':' := by
  rw [fold] at h
  split at h
  next => cases h
  next =>
    split at h
    next => cases h
    next => exact eq_colon_of_lowerAscii h

theorem isWord_fold (c : Char) : isWord (fold c) = isWord c := by
  rw [fold]
  split
  next h => rw [h]; decide +kernel
  next =>
    split
    next h => rw [h]; decide +kernel
    next => exact isWord_lowerAscii c

end Apidoc
