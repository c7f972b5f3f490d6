import Apidoc.Proofs.LineLayout
import Apidoc.Proofs.Trimming

/-!
# Texts and their physical lines

`rawLines` cuts a text into lines that still have their line feeds.  Every line but the last has
one.

* `IsEnded`            a line with its line feed;
* `lineInduction`      texts are built line by line;
* `rawLines_flatten_append`   ended lines in front of a text are its first lines;
* `rawLines_eq_append`        lines may be taken off a text in front;
* `rawLines_unixBreaks`       carriage returns before line feeds go line by line.
-/

namespace Apidoc.Text

/-- a line with its line feed -/
def IsEnded (l : List Char) : Prop := ∃ k, '\n' ∉ k ∧ l = k ++ ['\n']

theorem isEnded_concat {k : List Char} (h : '\n' ∉ k) : IsEnded (k ++ ['\n']) := ⟨k, h, rfl⟩

theorem IsEnded.append_left {l : List Char} (h : IsEnded l) {a : List Char} (ha : '\n' ∉ a) :
    IsEnded (a ++ l) := by
  obtain ⟨k, hk, rfl⟩ := h
  refine ⟨a ++ k, ?_, (List.append_assoc a k _).symm⟩
  rw [List.mem_append, not_or]
  exact ⟨ha, hk⟩

/-! ## lines in front of a text -/

theorem rawLines_isEnded_append {l : List Char} (h : IsEnded l) (s : List Char) :
    rawLines (l ++ s) = l :: rawLines s := by
  obtain ⟨k, hk, rfl⟩ := h
  rw [List.append_assoc, List.singleton_append, rawLines_append_lf hk]

theorem rawLines_flatten_append {ls : List (List Char)} (h : ∀ l ∈ ls, IsEnded l)
    (s : List Char) : rawLines (ls.flatten ++ s) = ls ++ rawLines s := by
  induction ls with
  | nil => rfl
  | cons l ls ih =>
    have hls := ih fun k hk => h k (List.mem_cons_of_mem l hk)
    rw [List.flatten_cons, List.append_assoc, rawLines_isEnded_append (h l List.mem_cons_self),
      hls, List.cons_append]

theorem rawLines_flatten {ls : List (List Char)} (h : ∀ l ∈ ls, IsEnded l) :
    rawLines ls.flatten = ls := by
  have hls := rawLines_flatten_append h []
  rwa [List.append_nil, rawLines_nil, List.append_nil] at hls

/-- A text is empty, or a line without a line feed, or an ended line with a text behind it. -/
theorem lineInduction {P : List Char → Prop} (nil : P [])
    (unended : ∀ k, '\n' ∉ k → k ≠ [] → P k) (ended : ∀ l s, IsEnded l → P s → P (l ++ s))
    (s : List Char) : P s := by
  -- with the part of the line that is read already in front
  have hk : ∀ k, '\n' ∉ k → P (k ++ s) := by
    induction s with
    | nil =>
      intro k hk
      rw [List.append_nil]
      by_cases h0 : k = []
      · rw [h0]
        exact nil
      · exact unended k hk h0
    | cons c s ih =>
      intro k hk
      have hsplit : k ++ c :: s = (k ++ [c]) ++ s := by simp
      rw [hsplit]
      by_cases hc : c = '\n'
      · subst hc
        exact ended _ s (isEnded_concat hk) (ih [] List.not_mem_nil)
      · refine ih (k ++ [c]) ?_
        rw [List.mem_append, not_or]
        exact ⟨hk, fun h => hc (List.mem_singleton.1 h).symm⟩
  exact hk [] List.not_mem_nil

/-- all lines but the last are ended, and the lines behind some are those of the text behind -/
theorem rawLines_eq_append {s : List Char} {as bs : List (List Char)}
    (h : rawLines s = as ++ bs) (hbs : bs ≠ []) :
    (∀ l ∈ as, IsEnded l) ∧ rawLines bs.flatten = bs := by
  induction s using lineInduction generalizing as with
  | nil => exact absurd (List.append_eq_nil_iff.1 h.symm).2 hbs
  | unended k hk h0 =>
    rw [rawLines_of_not_mem hk h0] at h
    cases as with
    | nil =>
      rw [← List.nil_append bs, ← h]
      exact ⟨fun _ hl => absurd hl List.not_mem_nil, by simpa using rawLines_of_not_mem hk h0⟩
    | cons a as => exact absurd (List.append_eq_nil_iff.1 (List.cons.inj h).2.symm).2 hbs
  | ended l s hl ih =>
    cases as with
    | nil =>
      rw [← List.nil_append bs, ← h, flatten_rawLines]
      exact ⟨fun _ hl => absurd hl List.not_mem_nil, rfl⟩
    | cons a as =>
      rw [rawLines_isEnded_append hl] at h
      obtain ⟨rfl, htail⟩ := List.cons.inj h
      obtain ⟨has, hb⟩ := ih htail
      exact ⟨List.forall_mem_cons.2 ⟨hl, has⟩, hb⟩

theorem isEnded_or_of_mem_rawLines {s l : List Char} (h : l ∈ rawLines s) :
    IsEnded l ∨ '\n' ∉ l := by
  induction s using lineInduction with
  | nil => cases h
  | unended k hk h0 =>
    rw [rawLines_of_not_mem hk h0, List.mem_singleton] at h
    exact .inr (h ▸ hk)
  | ended k s hk ih =>
    rw [rawLines_isEnded_append hk] at h
    rcases List.mem_cons.1 h with rfl | h
    · exact .inl hk
    · exact ih h

/-- in a text that ends with a line feed every line is ended -/
theorem isEnded_of_mem_rawLines {s : List Char} (hs : s.getLast? = some '\n') :
    ∀ l ∈ rawLines s, IsEnded l := by
  induction s using lineInduction with
  | nil => exact fun _ hl => absurd hl List.not_mem_nil
  | unended k hk h0 => exact absurd (List.mem_of_getLast? hs) hk
  | ended l s hl ih =>
    rw [rawLines_isEnded_append hl]
    refine List.forall_mem_cons.2 ⟨hl, ?_⟩
    cases s with
    | nil => exact fun _ hl => absurd hl List.not_mem_nil
    | cons c s =>
      rw [List.getLast?_append, List.getLast?_eq_some_getLast (List.cons_ne_nil c s),
        Option.some_or] at hs
      refine ih ?_
      rw [List.getLast?_eq_some_getLast (List.cons_ne_nil c s), hs]

/-! ## carriage returns -/

/-- a pair of carriage return and line feed that is not cut in two is replaced in its part -/
theorem unixBreaks_append {a b : List Char}
    (h : a.getLast? = some '\r' → b.head? ≠ some '\n') :
    unixBreaks (a ++ b) = unixBreaks a ++ unixBreaks b := by
  fun_induction unixBreaks a with
  | case1 => rfl
  | case2 s ih =>
    have hs : s.getLast? = some '\r' → b.head? ≠ some '\n' := by
      cases s with
      | nil => simp
      | cons c s => simpa using h
    rw [List.cons_append, List.cons_append, unixBreaks, ih hs, List.cons_append]
  | case3 c s hno ih =>
    have hs : s.getLast? = some '\r' → b.head? ≠ some '\n' := by
      cases s with
      | nil => simp
      | cons d s => simpa using h
    rw [List.cons_append, unixBreaks, ih hs, List.cons_append]
    rintro r rfl hr
    cases s with
    | nil => exact h rfl (by rw [List.nil_append] at hr; rw [hr]; rfl)
    | cons d s => exact hno s rfl (by rw [(List.cons.inj hr).1])

theorem unixBreaks_of_no_feed {s : List Char} (h : '\n' ∉ s) : unixBreaks s = s := by
  fun_induction unixBreaks s with
  | case1 => rfl
  | case2 s ih => simp at h
  | case3 c s _ ih => rw [ih fun hs => h (List.mem_cons_of_mem c hs)]

/-- an ended line is a text with one of the two breaks behind it -/
theorem IsEnded.exists_break {l : List Char} (h : IsEnded l) :
    ∃ b, IsBreak b ∧ l = dropBreak l ++ b ∧ unixBreaks l = dropBreak l ++ ['\n']
      ∧ '\n' ∉ dropBreak l := by
  obtain ⟨k, hk, rfl⟩ := h
  by_cases hr : k.getLast? = some '\r'
  · obtain ⟨j, rfl⟩ := List.getLast?_eq_some_iff.1 hr
    have hj : '\n' ∉ j := fun hm => hk (List.mem_append_left _ hm)
    have hcut : j.getLast? = some '\r' → ['\r', '\n'].head? ≠ some '\n' := fun _ => by decide
    rw [List.append_assoc, List.singleton_append, dropBreak_crlf, unixBreaks_append hcut,
      unixBreaks_of_no_feed hj]
    exact ⟨['\r', '\n'], .inr rfl, rfl, rfl, hj⟩
  · rw [dropBreak_lf hr, unixBreaks_append fun h => absurd h hr, unixBreaks_of_no_feed hk]
    exact ⟨['\n'], .inl rfl, rfl, rfl, hk⟩

theorem IsEnded.unixBreaks {l : List Char} (h : IsEnded l) : IsEnded (Text.unixBreaks l) := by
  obtain ⟨b, -, -, hu, hk⟩ := h.exists_break
  exact ⟨dropBreak l, hk, hu⟩

theorem rawLines_unixBreaks (s : List Char) :
    rawLines (unixBreaks s) = (rawLines s).map unixBreaks := by
  induction s using lineInduction with
  | nil => rfl
  | unended k hk h0 =>
    rw [unixBreaks_of_no_feed hk, rawLines_of_not_mem hk h0, List.map_singleton,
      unixBreaks_of_no_feed hk]
  | ended l s hl ih =>
    have hlast : l.getLast? ≠ some '\r' := by
      obtain ⟨k, -, rfl⟩ := hl
      simp
    rw [unixBreaks_append fun h => absurd h hlast, rawLines_isEnded_append hl.unixBreaks, ih,
      rawLines_isEnded_append hl, List.map_cons]

theorem isBlank_of_mem_break {b : List Char} (h : IsBreak b) : ∀ c ∈ b, isBlank c = true := by
  refine List.all_eq_true.1 ?_
  rcases h with rfl | rfl
  · rfl
  · rfl

theorem trim_unixBreaks {s l : List Char} (h : l ∈ rawLines s) :
    trim (unixBreaks l) = trim l := by
  rcases isEnded_or_of_mem_rawLines h with hl | hl
  · obtain ⟨b, hb, he, hu, -⟩ := hl.exists_break
    have hlf : trim (unixBreaks l) = trim (dropBreak l) := by
      rw [hu, trim_append_of_blank (isBlank_of_mem_break (.inl rfl))]
    rw [hlf, ← trim_append_of_blank (isBlank_of_mem_break hb), ← he]
  · rw [unixBreaks_of_no_feed hl]

end Apidoc.Text
