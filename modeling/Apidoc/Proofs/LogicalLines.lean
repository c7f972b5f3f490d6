import Apidoc.Proofs.PhysicalLines

/-!
# The logical lines of a text in two parts

* `lines_append`          a text that ends with a line feed, or is empty, ends with a whole line;
* `blocks_append`         the lines are cut before every line that begins a logical line;
* `startsItem_append_break`   line breaks do not count for that;
* `head_lines_startsItem`     a text whose first line begins a logical line.

Main statement: if the second part begins a logical line, the logical lines are those of the
parts (`logicalLines_append`).
-/

namespace Apidoc

open Text (isBlank allBlank trimStart rawLines dropBreak lines IsEnded)

/-! ## cutting in two -/

/-- an empty text, or one that ends with a line feed -/
def Text.EndsWhole (s : List Char) : Prop := s = [] ∨ s.getLast? = some '\n'

theorem Text.EndsWhole.append {a b : List Char} (ha : EndsWhole a) (hb : EndsWhole b) :
    EndsWhole (a ++ b) := by
  rcases hb with rfl | hb
  · rwa [List.append_nil]
  · refine .inr ?_
    rw [List.getLast?_append, hb, Option.some_or]

theorem lines_append {a : List Char} (ha : Text.EndsWhole a) (b : List Char) :
    lines (a ++ b) = lines a ++ lines b := by
  have hended : ∀ l ∈ rawLines a, IsEnded l := by
    rcases ha with rfl | ha
    · exact fun _ hl => absurd hl List.not_mem_nil
    · exact Text.isEnded_of_mem_rawLines ha
  have hraw : rawLines (a ++ b) = rawLines a ++ rawLines b := by
    rw [← Text.rawLines_flatten_append hended, Text.flatten_rawLines]
  rw [lines, lines, lines, hraw, List.map_append]

theorem blocksAfter_append_cons (ls : List (List Char)) {l : List Char} (h : startsItem l = true)
    (ks : List (List Char)) :
    blocksAfter (ls ++ l :: ks) = ((blocksAfter ls).1, (blocksAfter ls).2 ++ blocks (l :: ks)) := by
  induction ls with
  | nil => simp [blocksAfter, blocks, h]
  | cons k ls ih =>
    rw [List.cons_append, blocksAfter, ih, blocksAfter]
    cases startsItem k <;> rfl

theorem blocks_append (ls : List (List Char)) {l : List Char} (h : startsItem l = true)
    (ks : List (List Char)) : blocks (ls ++ l :: ks) = blocks ls ++ blocks (l :: ks) := by
  cases ls with
  | nil => rfl
  | cons k ls =>
    rw [List.cons_append, blocks, blocksAfter_append_cons ls h, blocks]
    rfl

theorem logicalLines_append {a b : List Char} (ha : Text.EndsWhole a)
    (hb : ∀ l ∈ (lines b).head?, startsItem l = true) :
    logicalLines (a ++ b) = logicalLines a ++ logicalLines b := by
  rw [logicalLines, lines_append ha]
  cases hl : lines b with
  | nil => rw [List.append_nil, logicalLines, logicalLines, hl, blocks, List.map_nil,
      List.append_nil]
  | cons l ls =>
    have hstart : startsItem l = true := hb l (by rw [hl]; rfl)
    rw [blocks_append _ hstart, List.map_append, ← hl, ← logicalLines, ← logicalLines]

/-! ## lines that begin a logical line -/

/-- a character that does not occur in `p` may be taken off the end -/
theorem contains_concat {p : List Char} {c : Char} (hp : p ≠ []) (hc : c ∉ p) (s : List Char) :
    Text.contains p (s ++ [c]) = Text.contains p s := by
  rw [Bool.eq_iff_iff, Text.contains_iff, Text.contains_iff]
  constructor
  · rintro ⟨a, b, h⟩
    rcases List.eq_nil_or_concat b with rfl | ⟨b, d, rfl⟩
    · rw [List.append_nil] at h
      obtain ⟨q, d, rfl⟩ := (List.eq_nil_or_concat p).resolve_left hp
      rw [List.concat_eq_append, ← List.append_assoc] at h
      have hd : c = d := (List.append_singleton_inj.1 h).2
      exact absurd (hd ▸ by simp) hc
    · rw [List.concat_eq_append, ← List.append_assoc] at h
      exact ⟨a, b, (List.append_singleton_inj.1 h).1⟩
  · rintro ⟨a, b, rfl⟩
    exact ⟨a, b ++ [c], by simp⟩

theorem contains_append_break {b : List Char} (hb : IsBreak b) (s : List Char) :
    Text.contains itemSeparator (s ++ b) = Text.contains itemSeparator s := by
  have hne : itemSeparator ≠ [] := by decide
  have hlf : '\n' ∉ itemSeparator := by decide
  have hcr : '\r' ∉ itemSeparator := by decide
  rcases hb with rfl | rfl
  · exact contains_concat hne hlf s
  · have hsplit : s ++ ['\r', '\n'] = s ++ ['\r'] ++ ['\n'] := by simp
    rw [hsplit, contains_concat hne hlf, contains_concat hne hcr]

theorem startsItem_of_allBlank {s : List Char} (h : allBlank s = true) : startsItem s = false := by
  rw [startsItem, (Text.trimStart_eq_nil_iff s).2 h]
  rfl

theorem startsItem_append_break {b : List Char} (hb : IsBreak b) (s : List Char) :
    startsItem (s ++ b) = startsItem s := by
  cases hs : allBlank s with
  | true =>
    have hsb : allBlank (s ++ b) = true := by
      rw [allBlank, List.all_append, Bool.and_eq_true]
      exact ⟨hs, List.all_eq_true.2 (Text.isBlank_of_mem_break hb)⟩
    rw [startsItem_of_allBlank hs, startsItem_of_allBlank hsb]
  | false =>
    rw [startsItem, Text.trimStart_append hs, contains_append_break hb, startsItem]

theorem startsItem_trimStart (s : List Char) : startsItem (trimStart s) = startsItem s := by
  rw [startsItem, Text.trimStart_trimStart, startsItem]

theorem startsItem_append {s : List Char} (h : startsItem s = true) (t : List Char) :
    startsItem (s ++ t) = true := by
  have hs : allBlank s = false := by
    cases hs : allBlank s with
    | false => rfl
    | true => rw [startsItem_of_allBlank hs] at h; cases h
  rw [startsItem] at h ⊢
  rw [Text.trimStart_append hs]
  obtain ⟨a, b, he⟩ := (Text.contains_iff _ _).1 h
  exact (Text.contains_iff _ _).2 ⟨a, b ++ t, by rw [he, List.append_assoc]⟩

section
variable {s l : List Char} (h : l ∈ rawLines s)
include h

theorem startsItem_unixBreaks : startsItem (Text.unixBreaks l) = startsItem l := by
  rcases Text.isEnded_or_of_mem_rawLines h with hl | hl
  · obtain ⟨b, hb, he, hu, -⟩ := hl.exists_break
    rw [hu, startsItem_append_break (.inl rfl), ← startsItem_append_break hb, ← he]
  · rw [Text.unixBreaks_of_no_feed hl]

theorem startsItem_dropBreak : startsItem (dropBreak l) = startsItem l := by
  rcases Text.isEnded_or_of_mem_rawLines h with hl | hl
  · obtain ⟨b, hb, he, -, -⟩ := hl.exists_break
    rw [← startsItem_append_break hb, ← he]
  · rw [Text.dropBreak_of_not_mem hl]

end

/-- the first line of a text holds all of the text that is on it -/
theorem head?_rawLines_append {k : List Char} (hk : '\n' ∉ k) (h0 : k ≠ []) (s : List Char) :
    ∃ t, (rawLines (k ++ s)).head? = some (k ++ t) := by
  induction s using Text.lineInduction with
  | nil => exact ⟨[], by rw [List.append_nil, Text.rawLines_of_not_mem hk h0]; rfl⟩
  | unended j hj _ =>
    have hkj : '\n' ∉ k ++ j := by
      rw [List.mem_append, not_or]
      exact ⟨hk, hj⟩
    exact ⟨j, by rw [Text.rawLines_of_not_mem hkj (List.append_ne_nil_of_left_ne_nil h0 j)]; rfl⟩
  | ended l s hl _ =>
    exact ⟨l, by rw [← List.append_assoc, Text.rawLines_isEnded_append (hl.append_left hk)]; rfl⟩

theorem head_lines_startsItem {l : List Char} (hl : IsEnded l ∨ '\n' ∉ l)
    (hstart : startsItem l = true) (s : List Char) :
    ∀ k ∈ (lines (l ++ s)).head?, startsItem k = true := by
  have h0 : l ≠ [] := by
    rintro rfl
    cases hstart
  have hhead : ∃ t, (rawLines (l ++ s)).head? = some (l ++ t) := by
    rcases hl with hl | hl
    · exact ⟨[], by rw [Text.rawLines_isEnded_append hl, List.append_nil]; rfl⟩
    · exact head?_rawLines_append hl h0 s
  obtain ⟨t, ht⟩ := hhead
  intro k hk
  rw [lines, List.head?_map, ht, Option.map_some] at hk
  rw [← Option.some.inj hk, startsItem_dropBreak (List.mem_of_head? ht)]
  exact startsItem_append hstart t

end Apidoc
