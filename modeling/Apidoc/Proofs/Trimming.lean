import Apidoc.Text.Split

/-!
# Trimming texts with padding

* `IsPadding`      a run of spaces and tabs;
* `Padded`         a text with padding before and after it;
* `trim_padded`    padding around a text does not show when it is trimmed;
* `trim_eq_self_iff`   a text is trimmed when neither its first nor its last character is blank.
-/

namespace Apidoc.Text

/-! ## blanks at the ends -/

theorem trimStart_append_of_blank {a : List Char} (ha : ∀ c ∈ a, isBlank c = true)
    (s : List Char) : trimStart (a ++ s) = trimStart s := by
  induction a with
  | nil => rfl
  | cons c a ih =>
    rw [List.cons_append, trimStart_cons_of_blank (ha c List.mem_cons_self)]
    exact ih fun d hd => ha d (List.mem_cons_of_mem c hd)

theorem trimEnd_append_of_blank {b : List Char} (hb : ∀ c ∈ b, isBlank c = true)
    (s : List Char) : trimEnd (s ++ b) = trimEnd s := by
  have hr : ∀ c ∈ b.reverse, isBlank c = true := fun c hc => hb c (List.mem_reverse.1 hc)
  show (trimStart (s ++ b).reverse).reverse = (trimStart s.reverse).reverse
  rw [List.reverse_append, trimStart_append_of_blank hr]

/-- what follows a text that is not all blank stays -/
theorem trimStart_append {s : List Char} (hs : allBlank s = false) (b : List Char) :
    trimStart (s ++ b) = trimStart s ++ b := by
  induction s with
  | nil => simp [allBlank] at hs
  | cons c s ih =>
    cases hc : isBlank c with
    | true =>
      have hs' : allBlank s = false := by simpa [allBlank, hc] using hs
      rw [List.cons_append, trimStart_cons_of_blank hc, trimStart_cons_of_blank hc, ih hs']
    | false => rw [List.cons_append, trimStart_cons_of_not_blank hc,
        trimStart_cons_of_not_blank hc, List.cons_append]

theorem trim_append_of_blank {b : List Char} (hb : ∀ c ∈ b, isBlank c = true) (s : List Char) :
    trim (s ++ b) = trim s := by
  cases hs : allBlank s with
  | true =>
    have hsb : allBlank (s ++ b) = true := by
      rw [allBlank, List.all_append, Bool.and_eq_true]
      exact ⟨hs, List.all_eq_true.2 hb⟩
    rw [(trim_eq_nil_iff _).2 hs, (trim_eq_nil_iff _).2 hsb]
  | false => rw [trim, trimStart_append hs, trimEnd_append_of_blank hb, trim]

theorem trim_append_of_blank_left {a : List Char} (ha : ∀ c ∈ a, isBlank c = true)
    (s : List Char) : trim (a ++ s) = trim s := by
  rw [trim, trimStart_append_of_blank ha, trim]

/-! ## trimmed texts -/

theorem trimStart_eq_self {s : List Char} (h : ∀ c ∈ s.head?, isBlank c = false) :
    trimStart s = s := by
  cases s with
  | nil => rfl
  | cons c s => rw [trimStart_cons_of_not_blank (h c rfl)]

theorem head?_trimStart (s : List Char) : ∀ c ∈ (trimStart s).head?, isBlank c = false := by
  induction s with
  | nil => simp [trimStart]
  | cons c s ih =>
    cases hc : isBlank c with
    | true => rwa [trimStart_cons_of_blank hc]
    | false =>
      rw [trimStart_cons_of_not_blank hc]
      rintro d hd
      rw [← Option.some.inj hd, hc]

theorem trimEnd_eq_self {s : List Char} (h : ∀ c ∈ s.getLast?, isBlank c = false) :
    trimEnd s = s := by
  have hr : ∀ c ∈ s.reverse.head?, isBlank c = false := by
    rw [List.head?_reverse]
    exact h
  show (trimStart s.reverse).reverse = s
  rw [trimStart_eq_self hr, List.reverse_reverse]

/-- a text that has no blank at its ends is trimmed -/
theorem trim_eq_self {s : List Char} (hh : ∀ c ∈ s.head?, isBlank c = false)
    (hl : ∀ c ∈ s.getLast?, isBlank c = false) : trim s = s := by
  rw [trim, trimStart_eq_self hh, trimEnd_eq_self hl]

theorem getLast?_trimEnd (s : List Char) : ∀ c ∈ (trimEnd s).getLast?, isBlank c = false := by
  show ∀ c ∈ (trimStart s.reverse).reverse.getLast?, isBlank c = false
  rw [List.getLast?_reverse]
  exact head?_trimStart _

/-- trimming at the end leaves a text that begins with no blank so -/
theorem head?_trimEnd {s : List Char} (h : ∀ c ∈ s.head?, isBlank c = false) :
    ∀ c ∈ (trimEnd s).head?, isBlank c = false := by
  intro c hc
  have hp : trimEnd s <+: s := by
    have hsuf : trimStart s.reverse <:+ s.reverse := List.dropWhile_suffix _
    have := List.reverse_prefix.2 hsuf
    rwa [List.reverse_reverse] at this
  obtain ⟨r, hr⟩ := hp
  refine h c ?_
  rw [← hr]
  cases ht : trimEnd s with
  | nil => rw [ht] at hc; cases hc
  | cons d t => rw [ht] at hc; exact hc

theorem trim_eq_self_iff {s : List Char} :
    trim s = s ↔ (∀ c ∈ s.head?, isBlank c = false) ∧ ∀ c ∈ s.getLast?, isBlank c = false := by
  refine ⟨fun h => ?_, fun h => trim_eq_self h.1 h.2⟩
  rw [← h]
  exact ⟨head?_trimEnd (head?_trimStart s), getLast?_trimEnd _⟩

/-- what stands between two trimmed texts does not matter -/
theorem trim_between {s t : List Char} (hs : trim s = s) (hs0 : s ≠ []) (ht : trim t = t)
    (ht0 : t ≠ []) (m : List Char) : trim (s ++ m ++ t) = s ++ m ++ t := by
  have hh : (s ++ m ++ t).head? = s.head? := by
    rw [List.append_assoc, List.head?_append, List.head?_eq_some_head hs0, Option.some_or]
  have hl : (s ++ m ++ t).getLast? = t.getLast? := by
    rw [List.getLast?_append, List.getLast?_eq_some_getLast ht0, Option.some_or]
  rw [trim_eq_self_iff] at hs ht ⊢
  rw [hh, hl]
  exact ⟨hs.1, ht.2⟩

theorem trim_trim (s : List Char) : trim (trim s) = trim s :=
  trim_eq_self (head?_trimEnd (head?_trimStart s)) (getLast?_trimEnd _)

/-! ## padding -/

def IsPadding (s : List Char) : Prop := ∀ c ∈ s, c = ' ' ∨ c = '\t'

theorem IsPadding.blank {s : List Char} (h : IsPadding s) : ∀ c ∈ s, isBlank c = true := by
  intro c hc
  rcases h c hc with rfl | rfl
  · rfl
  · rfl

theorem IsPadding.not_mem {s : List Char} (h : IsPadding s) {c : Char} (hs : c ≠ ' ')
    (ht : c ≠ '\t') : c ∉ s :=
  fun hc => (h c hc).elim hs ht

/-- `s'` is `s` with padding around it -/
def Padded (s s' : List Char) : Prop := ∃ a b, IsPadding a ∧ IsPadding b ∧ s' = a ++ s ++ b

theorem isPadding_nil : IsPadding [] := fun _ hc => absurd hc List.not_mem_nil

theorem isPadding_space : IsPadding [' '] := by
  intro c hc
  exact .inl (List.mem_singleton.1 hc)

theorem padded_self (s : List Char) : Padded s s :=
  ⟨[], [], isPadding_nil, isPadding_nil, (List.append_nil s).symm⟩

theorem trim_padded {s s' : List Char} (h : Padded s s') : trim s' = trim s := by
  obtain ⟨a, b, ha, hb, rfl⟩ := h
  rw [trim_append_of_blank hb.blank, trim_append_of_blank_left ha.blank]

end Apidoc.Text
