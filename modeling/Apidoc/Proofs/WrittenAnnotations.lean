import Mathlib.Data.List.Induction
import Apidoc.Docstring.Constraint
import Apidoc.Proofs.Trimming

/-!
# Annotations that are written behind a description

* `escape`                         a text whose colons have a backslash in front;
* `WrittenConstraint`              an annotation with the padding that it is written with;
* `WrittenConstraint.WellFormed`   what may be written;
* `annotated`                      a text with its annotations;
* `IsMeaning`                      what an annotation binds its keyword to.

An escaped text has no colon that cuts it, whatever backslashes are in it (`lastColon?_escape`).
So the last colon that cuts an annotated text is that of its last annotation
(`peelLast?_annotated`), and what is left is an annotated text again, but for padding at its end.

Main statement: the description and the annotations of an annotated text are those it was written
with, of several with one keyword the leftmost (`splitConstraints_annotated`).
-/

namespace Apidoc

open Text (trim trimStart trimEnd isBlank IsPadding isPadding_nil)

/-! ## escaped texts -/

def escape : List Char → List Char
  | [] => []
  | c :: s => if c = ':' then '\\' :: ':' :: escape s else c :: escape s

theorem escape_colon (s : List Char) : escape (':' :: s) = '\\' :: ':' :: escape s := by
  simp [escape]

theorem escape_cons {c : Char} (h : c ≠ ':') (s : List Char) :
    escape (c :: s) = c :: escape s := by
  simp [escape, h]

theorem head?_escape_ne (s : List Char) : (escape s).head? ≠ some ':' := by
  cases s with
  | nil => simp [escape]
  | cons c s =>
    by_cases h : c = ':'
    · subst h
      simp [escape_colon]
    · rw [escape_cons h]
      simpa using h

theorem head?_escape {s : List Char} (h : ∀ c ∈ s.head?, isBlank c = false) :
    ∀ c ∈ (escape s).head?, isBlank c = false := by
  cases s with
  | nil => exact h
  | cons c s =>
    by_cases hc : c = ':'
    · subst hc
      rw [escape_colon]
      rintro _ ⟨⟩
      rfl
    · rwa [escape_cons hc]

theorem getLast?_escape (s : List Char) : (escape s).getLast? = s.getLast? := by
  induction s with
  | nil => rfl
  | cons c s ih =>
    by_cases h : c = ':'
    · subst h
      rw [escape_colon, List.getLast?_cons, List.getLast?_cons, List.getLast?_cons, ih]
      rfl
    · rw [escape_cons h, List.getLast?_cons, List.getLast?_cons, ih]

theorem trim_escape {s : List Char} (h : trim s = s) : trim (escape s) = escape s := by
  obtain ⟨hhead, hlast⟩ := Text.trim_eq_self_iff.1 h
  refine Text.trim_eq_self (head?_escape hhead) ?_
  rwa [getLast?_escape]

theorem unescape_cons {c : Char} {s : List Char} (h : c = '\\' → s.head? ≠ some ':') :
    unescape (c :: s) = c :: unescape s := by
  rw [unescape.eq_3]
  rintro t rfl rfl
  exact h rfl rfl

theorem unescape_of_not_mem {s : List Char} (h : ':' ∉ s) : unescape s = s := by
  induction s with
  | nil => rfl
  | cons c s ih =>
    have hs : ':' ∉ s := fun hm => h (List.mem_cons_of_mem c hm)
    rw [unescape_cons fun _ he => hs (List.mem_of_mem_head? he), ih hs]

theorem unescape_escape_append (s : List Char) {t : List Char} (ht : ':' ∉ t) :
    unescape (escape s ++ t) = s ++ t := by
  induction s with
  | nil => exact unescape_of_not_mem ht
  | cons c s ih =>
    by_cases h : c = ':'
    · subst h
      rw [escape_colon]
      exact congrArg (List.cons ':') ih
    · rw [escape_cons h, List.cons_append, unescape_cons, ih, List.cons_append]
      -- nothing that is written begins with a colon
      intro _ he
      rw [List.head?_append, Option.or_eq_some_iff] at he
      rcases he with he | ⟨-, he⟩
      · exact head?_escape_ne s he
      · exact ht (List.mem_of_mem_head? he)

theorem unescape_escape (s : List Char) : unescape (escape s) = s := by
  have h := unescape_escape_append s List.not_mem_nil (t := [])
  rwa [List.append_nil, List.append_nil] at h

/-! ## colons that cut -/

theorem lastColon?_append_of_not_mem {a b : List Char} (ha : ':' ∉ a)
    (hb : ∀ e, lastColon? e b = none) (e : Bool) : lastColon? e (a ++ b) = none := by
  induction a generalizing e with
  | nil => exact hb e
  | cons c a ih =>
    obtain ⟨hc, ha'⟩ := not_or.1 (mt List.mem_cons.2 ha)
    rw [List.cons_append, lastColon?, ih ha', if_neg fun h => hc h.1.symm]

theorem lastColon?_escape_append (s : List Char) {t : List Char}
    (ht : ∀ e, lastColon? e t = none) (e : Bool) : lastColon? e (escape s ++ t) = none := by
  induction s generalizing e with
  | nil => exact ht e
  | cons c s ih =>
    by_cases h : c = ':'
    · subst h
      rw [escape_colon]
      simp [lastColon?, ih]
    · rw [escape_cons h, List.cons_append, lastColon?, ih, if_neg fun he => h he.1]

/-- a colon with no backslash in front cuts if none after it does -/
theorem lastColon?_append_colon {a b : List Char} (ha : a.getLast? ≠ some '\\')
    (hb : ∀ e, lastColon? e b = none) : lastColon? false (a ++ ':' :: b) = some (a, b) := by
  have hcut : ∀ (a : List Char) (e : Bool), (a = [] → e = false) → a.getLast? ≠ some '\\' →
      lastColon? e (a ++ ':' :: b) = some (a, b) := by
    intro a
    induction a with
    | nil =>
      intro e he _
      rw [List.nil_append, lastColon?, hb, he rfl, if_pos ⟨rfl, rfl⟩]
    | cons c a ih =>
      intro e _ hlast
      have hrest : lastColon? (c == '\\') (a ++ ':' :: b) = some (a, b) := by
        refine ih _ ?_ ?_
        · rintro rfl
          simpa using hlast
        · cases a with
          | nil => simp
          | cons d a => simpa using hlast
      rw [List.cons_append, lastColon?, hrest]
  exact hcut a false (fun _ => rfl) ha

theorem lastColon?_of_isPadding {p : List Char} (hp : IsPadding p) (e : Bool) :
    lastColon? e p = none := by
  have hcolon : ':' ∉ p := hp.not_mem (by decide) (by decide)
  rw [← List.append_nil p]
  exact lastColon?_append_of_not_mem hcolon (fun _ => rfl) e

theorem lastWord_append {s key : List Char} {c : Char} (hc : isGap c = true)
    (hkey : ∀ d ∈ key, isGap d = false) : lastWord (s ++ c :: key) = (s, key) := by
  have hrev : (s ++ c :: key).reverse = key.reverse ++ c :: s.reverse := by simp
  have htrue : ∀ d ∈ key.reverse, (!isGap d) = true := fun d hd => by
    rw [hkey d (List.mem_reverse.1 hd)]; rfl
  have hdrop : (key.reverse ++ c :: s.reverse).dropWhile (!isGap ·) = c :: s.reverse :=
    (List.dropWhile_append_of_pos htrue).trans (by simp [hc])
  have htake : (key.reverse ++ c :: s.reverse).takeWhile (!isGap ·) = key.reverse :=
    (List.takeWhile_append_of_pos htrue).trans (by simp [hc])
  rw [lastWord, hrev, hdrop, htake, List.tail_cons, List.reverse_reverse, List.reverse_reverse]

/-! ## written annotations -/

structure WrittenConstraint where
  /-- what stands between the annotation and the text before it -/
  gap : List Char
  key : List Char
  beforeColon : List Char
  afterColon : List Char
  value : List Char

namespace WrittenConstraint

def text (a : WrittenConstraint) : List Char :=
  a.gap ++ a.key ++ a.beforeColon ++ ':' :: (a.afterColon ++ escape a.value)

def keyword (a : WrittenConstraint) : String := .ofList a.key

structure WellFormed (a : WrittenConstraint) : Prop where
  gap_ne_nil : a.gap ≠ []
  gap_padding : IsPadding a.gap
  beforeColon_padding : IsPadding a.beforeColon
  afterColon_padding : IsPadding a.afterColon
  key_ne_nil : a.key ≠ []
  key_solid : ∀ c ∈ a.key, c ≠ ':' ∧ isBlank c = false
  key_end : a.key.getLast? ≠ some '\\'
  value_trimmed : trim a.value = a.value

end WrittenConstraint

/-- the text with a description and annotations behind it -/
def annotated (description : List Char) (as : List WrittenConstraint) : List Char :=
  escape description ++ as.flatMap WrittenConstraint.text

section
variable {a : WrittenConstraint}

theorem WrittenConstraint.WellFormed.no_gap (h : a.WellFormed) : ∀ c ∈ a.key, isGap c = false := by
  intro c hc
  have hblank : isBlank c = false := (h.key_solid c hc).2
  cases hg : isGap c with
  | false => rfl
  | true =>
    simp only [isGap, Bool.or_eq_true, beq_iff_eq] at hg
    rcases hg with (rfl | rfl) | rfl <;> cases hblank

/-- what stands before the colon ends with the keyword, but for padding -/
theorem WrittenConstraint.WellFormed.trimEnd_head (h : a.WellFormed) (s : List Char) :
    trimEnd (s ++ a.gap ++ a.key ++ a.beforeColon) = s ++ a.gap ++ a.key := by
  have hlast : ∀ c ∈ (s ++ a.gap ++ a.key).getLast?, isBlank c = false := by
    intro c hc
    rw [List.getLast?_append, List.getLast?_eq_some_getLast h.key_ne_nil, Option.some_or,
      ← List.getLast?_eq_some_getLast h.key_ne_nil] at hc
    exact (h.key_solid c (List.mem_of_getLast? hc)).2
  rw [Text.trimEnd_append_of_blank h.beforeColon_padding.blank, Text.trimEnd_eq_self hlast]

/-- the last annotation of a text is taken off with one character of its gap -/
theorem peelLast?_annotated (h : a.WellFormed) (s : List Char) {pad : List Char}
    (hpad : IsPadding pad) :
    peelLast? (s ++ a.text ++ pad) = some (s ++ a.gap.dropLast, a.key, escape a.value) := by
  have hvalue : ∀ e, lastColon? e (a.afterColon ++ (escape a.value ++ pad)) = none := by
    have hcolon : ':' ∉ a.afterColon := h.afterColon_padding.not_mem (by decide) (by decide)
    exact lastColon?_append_of_not_mem hcolon
      (lastColon?_escape_append a.value (lastColon?_of_isPadding hpad))
  have hend : (s ++ a.gap ++ a.key ++ a.beforeColon).getLast? ≠ some '\\' := by
    intro hl
    rw [List.getLast?_append, Option.or_eq_some_iff] at hl
    rcases hl with hl | ⟨-, hl⟩
    · exact h.beforeColon_padding.not_mem (by decide) (by decide) (List.mem_of_getLast? hl)
    · rw [List.getLast?_append, List.getLast?_eq_some_getLast h.key_ne_nil, Option.some_or,
        ← List.getLast?_eq_some_getLast h.key_ne_nil] at hl
      exact h.key_end hl
  have hcut : s ++ a.text ++ pad = (s ++ a.gap ++ a.key ++ a.beforeColon)
      ++ ':' :: (a.afterColon ++ (escape a.value ++ pad)) := by
    simp [WrittenConstraint.text]
  have hgap : isGap (a.gap.getLast h.gap_ne_nil) = true := by
    rcases h.gap_padding _ (List.getLast_mem h.gap_ne_nil) with he | he <;> rw [he] <;> rfl
  have hword : lastWord (s ++ a.gap ++ a.key) = (s ++ a.gap.dropLast, a.key) := by
    rw [← lastWord_append hgap h.no_gap, List.append_cons, List.append_assoc s a.gap.dropLast,
      List.dropLast_concat_getLast]
  have htrim : trim (a.afterColon ++ (escape a.value ++ pad)) = escape a.value := by
    rw [← List.append_assoc]
    have hpadded : Text.Padded (escape a.value) (a.afterColon ++ escape a.value ++ pad) :=
      ⟨_, _, h.afterColon_padding, hpad, rfl⟩
    rw [Text.trim_padded hpadded, trim_escape h.value_trimmed]
  rw [peelLast?, hcut, lastColon?_append_colon hend hvalue]
  simp only [Option.map_some, h.trimEnd_head, hword, htrim]

end

theorem peel_of_some {s rest key value : List Char} (h : peelLast? s = some (rest, key, value))
    (hkey : key ≠ []) : peel s = ((peel rest).1, (key, value) :: (peel rest).2) := by
  rw [peel]
  split
  next h' => rw [h] at h'; cases h'
  next r k v h' =>
    obtain ⟨rfl, rfl, rfl⟩ : rest = r ∧ key = k ∧ value = v := by
      simpa using Option.some.inj (h.symm.trans h')
    simp [hkey]

/-- the annotations are taken off from right to left, and padding stays behind the description -/
theorem peel_annotated (d : List Char) {as : List WrittenConstraint} (has : ∀ a ∈ as, a.WellFormed)
    {pad : List Char} (hpad : IsPadding pad) :
    ∃ pad', IsPadding pad' ∧ peel (annotated d as ++ pad)
      = (escape d ++ pad', (as.map fun a => (a.key, escape a.value)).reverse) := by
  induction as using List.reverseRecOn generalizing pad with
  | nil =>
    refine ⟨pad, hpad, ?_⟩
    have hnone : lastColon? false (escape d ++ pad) = none :=
      lastColon?_escape_append d (lastColon?_of_isPadding hpad) false
    have htext : annotated d [] ++ pad = escape d ++ pad := by simp [annotated]
    rw [htext, peel_of_none (by rw [peelLast?, hnone, Option.map_none])]
    rfl
  | append_singleton as a ih =>
    have ha : a.WellFormed := has a (by simp)
    have hgap : IsPadding a.gap.dropLast :=
      fun c hc => ha.gap_padding c (List.dropLast_subset _ hc)
    obtain ⟨pad', hpad', hrest⟩ :=
      ih (fun b hb => has b (List.mem_append_left _ hb)) hgap
    refine ⟨pad', hpad', ?_⟩
    have htext : annotated d (as ++ [a]) ++ pad = annotated d as ++ a.text ++ pad := by
      simp [annotated]
    rw [htext, peel_of_some (peelLast?_annotated ha _ hpad) ha.key_ne_nil, hrest, List.map_append,
      List.reverse_append]
    rfl

/-! ## numbers -/

theorem isAsciiDigit_of_mem_toDigits {n : Nat} {c : Char} (h : c ∈ Nat.toDigits 10 n) :
    Text.isAsciiDigit c = true := by
  have hd := Nat.isDigit_of_mem_toDigits (by decide) (by decide) h
  simpa [Text.isAsciiDigit, Char.isDigit, Char.le_def] using hd

theorem digitsValue_toDigits (n : Nat) : digitsValue (Nat.toDigits 10 n) = n :=
  Nat.ofDigitChars_toDigits (by decide) (by decide)

theorem readSign_of_digits {s : List Char} (h : ∀ c ∈ s, Text.isAsciiDigit c = true) :
    readSign s = (false, s) := by
  rw [readSign.eq_3]
  · rintro t rfl
    exact absurd (h '-' List.mem_cons_self) (by decide)
  · rintro t rfl
    exact absurd (h '+' List.mem_cons_self) (by decide)

/-- the decimal form of an integer is read as that integer if 64 bits hold it -/
theorem readInteger?_toString {n : Int} (hlow : -Int.pow 2 63 ≤ n) (hhigh : n < Int.pow 2 63) :
    readInteger? (toString n).toList = some n := by
  have hrange : leastInteger ≤ n ∧ n ≤ greatestInteger :=
    ⟨hlow, Int.le_sub_one_of_lt hhigh⟩
  have hdigits : ∀ m : Nat, ∀ c ∈ Nat.toDigits 10 m, Text.isAsciiDigit c = true :=
    fun m c hc => isAsciiDigit_of_mem_toDigits hc
  have hread : ∀ (negative : Bool) (m : Nat) (s : List Char),
      readSign s = (negative, Nat.toDigits 10 m) → n = (if negative then -(m : Int) else m) →
      readInteger? s = some n := by
    intro negative m s hs hn
    have hall : (Nat.toDigits 10 m).all Text.isAsciiDigit = true := List.all_eq_true.2 (hdigits m)
    have hne : (Nat.toDigits 10 m).isEmpty = false :=
      List.isEmpty_eq_false_iff.2 Nat.toDigits_ne_nil
    rw [readInteger?, hs]
    simp only [hall, hne, digitsValue_toDigits, ← hn, hrange, and_self, Bool.not_true,
      Bool.or_self, Bool.false_eq_true, if_false, if_true]
  cases n with
  | ofNat m =>
    have htext : (toString (Int.ofNat m)).toList = Nat.toDigits 10 m := by
      show (String.ofList (Nat.toDigits 10 m)).toList = _
      rw [String.toList_ofList]
    exact hread false m _ (by rw [htext, readSign_of_digits (hdigits m)]) rfl
  | negSucc m =>
    have htext : (toString (Int.negSucc m)).toList = '-' :: Nat.toDigits 10 (m + 1) := by
      show ("-" ++ String.ofList (Nat.toDigits 10 (m + 1))).toList = _
      rw [String.toList_append, String.toList_ofList, String.toList_ofList]
      rfl
    exact hread true (m + 1) _ (by rw [htext]; rfl) rfl

/-! ## what annotations mean -/

/-- `v` is what the text `s` means as the value of the keyword -/
structure IsMeaning (keyword : String) (s : List Char) (v : Value) : Prop where
  boolean : keyword ∈ booleanKeywords →
    v = .bool (decide (s = "True".toList ∨ s = "true".toList ∨ s = "1".toList))
  integer : keyword ∈ numericKeywords → ∀ n : Int, -Int.pow 2 63 ≤ n → n < Int.pow 2 63 →
    s = (toString n).toList → v = .integer n
  text : keyword ∉ booleanKeywords → keyword ∉ numericKeywords → v = .text (.ofList s)

theorem isMeaning_constraintValue (keyword : String) (s : List Char) :
    IsMeaning keyword s (constraintValue keyword s) where
  boolean h := by
    have hword : trueWords.contains (String.ofList s)
        = decide (s = "True".toList ∨ s = "true".toList ∨ s = "1".toList) := by
      simp [trueWords, ← String.toList_inj]
    rw [constraintValue, if_pos (List.contains_iff_mem.2 h), hword]
  integer h n hlow hhigh hs := by
    have hboolean : ¬booleanKeywords.contains keyword = true := by
      revert keyword
      decide
    rw [constraintValue, if_neg hboolean, if_pos (List.contains_iff_mem.2 h), readNumber?, hs,
      readInteger?_toString hlow hhigh]
    rfl
  text hb hn := by
    have hboolean : ¬booleanKeywords.contains keyword = true := fun h =>
      hb (List.contains_iff_mem.1 h)
    have hnumeric : ¬numericKeywords.contains keyword = true := fun h =>
      hn (List.contains_iff_mem.1 h)
    rw [constraintValue, if_neg hboolean, if_neg hnumeric]

/-! ## annotated texts -/

/-- **An annotated text is split into the description and the annotations that it was written
with.**  A keyword that is there several times has the value of its leftmost annotation, and no
other keyword is bound. -/
theorem splitConstraints_annotated {d : List Char} {as : List WrittenConstraint} (hd : trim d = d)
    (has : ∀ a ∈ as, a.WellFormed) :
    (splitConstraints (annotated d as)).1 = .ofList d
      ∧ (∀ k : String, (splitConstraints (annotated d as)).2.get? k
          = (as.find? (·.keyword = k)).map fun a => constraintValue k a.value)
      ∧ ∀ (k : String) (s : List Char), IsMeaning k s (constraintValue k s) := by
  obtain ⟨pad, hpad, hpeel⟩ := peel_annotated d has isPadding_nil
  rw [List.append_nil] at hpeel
  have hcolon : ':' ∉ pad := hpad.not_mem (by decide) (by decide)
  refine ⟨?_, fun k => ?_, isMeaning_constraintValue⟩
  · simp only [splitConstraints, hpeel]
    rw [unescape_escape_append d hcolon, Text.trim_append_of_blank hpad.blank, hd]
  · -- what is bound last stands first in the text
    simp only [splitConstraints, hpeel, Table.ofList, Table.get?_insertAll, Table.get?_empty,
      Option.or_none, List.map_reverse, List.reverse_reverse, List.map_map, List.find?_map,
      Option.map_map]
    show (as.find? (·.keyword = k)).map _ = _
    cases hfind : as.find? (·.keyword = k) with
    | none => rfl
    | some a =>
      have hk : a.keyword = k := by simpa using List.find?_some hfind
      show some (constraintValue a.keyword (unescape (escape a.value))) = _
      rw [hk, unescape_escape, Option.map_some]

/-- two annotations with one keyword around one with a colon and a backslash in its value -/
def delayConstraints : List WrittenConstraint :=
  [⟨[' '], "minimum".toList, [], [' '], "-5".toList⟩,
    ⟨['\t', ' '], "pattern".toList, [' '], [], "a:b\\ c".toList⟩,
    ⟨[' '], "minimum".toList, [], [], "7".toList⟩]

theorem wellFormed_delayConstraints : ∀ a ∈ delayConstraints, a.WellFormed := by
  have hpad : ∀ p : List Char, (p.all fun c => c = ' ' ∨ c = '\t') = true → IsPadding p :=
    fun p hp c hc => by simpa using List.all_eq_true.1 hp c hc
  have hsolid : ∀ k : List Char, (k.all fun c => c ≠ ':' && !isBlank c) = true →
      ∀ c ∈ k, c ≠ ':' ∧ isBlank c = false :=
    fun k hk c hc => by simpa using List.all_eq_true.1 hk c hc
  intro a ha
  simp only [delayConstraints, List.mem_cons, List.not_mem_nil, or_false] at ha
  rcases ha with rfl | rfl | rfl
  all_goals exact ⟨by decide, hpad _ (by decide), hpad _ (by decide), hpad _ (by decide),
    by decide, hsolid _ (by decide), by decide, by decide⟩

theorem splitConstraints_delay :
    annotated "From 10:30.".toList delayConstraints
        = "From 10\\:30. minimum: -5\t pattern :a\\:b\\ c minimum:7".toList
      ∧ (splitConstraints (annotated "From 10:30.".toList delayConstraints)).1 = "From 10:30."
      ∧ (splitConstraints (annotated "From 10:30.".toList delayConstraints)).2.get? "minimum"
        = some (.integer (-5))
      ∧ (splitConstraints (annotated "From 10:30.".toList delayConstraints)).2.get? "pattern"
        = some (.text "a:b\\ c")
      ∧ (splitConstraints (annotated "From 10:30.".toList delayConstraints)).2.get? "From"
        = none := by
  obtain ⟨htext, hbound, hmeaning⟩ :=
    splitConstraints_annotated (d := "From 10:30.".toList) (by decide) wellFormed_delayConstraints
  have hminimum : constraintValue "minimum" "-5".toList = .integer (-5) :=
    (hmeaning _ _).integer (by decide) (-5) (by decide) (by decide) (by decide)
  have hpattern : constraintValue "pattern" "a:b\\ c".toList = .text "a:b\\ c" :=
    (hmeaning _ _).text (by decide) (by decide)
  refine ⟨by decide, htext, ?_, ?_, ?_⟩
  · rw [hbound, ← hminimum]
    rfl
  · rw [hbound, ← hpattern]
    rfl
  · rw [hbound]
    rfl

end Apidoc
