import Mathlib.Data.List.Perm.Basic
import Apidoc.Docstring.Reading
import Apidoc.Proofs.Characters
import Apidoc.Proofs.Trimming

/-!
# The vocabulary of headers

Phrases of different sections could have a text in common, and a header could be in the vocabulary
without looking like one.  Here it is shown that neither is so.

* `Part.Reads`, `Phrase.Spells`   the texts that a part and a phrase stand for;
* `letters`                the characters of a text that belong to its words, in small letters;
* `Phrase.letters`         those of a phrase, which all texts of the phrase have
  (`Phrase.Spells.letters_eq`), so that phrases with different letters have no text in common;
* `Phrase.isHeading`       phrases whose texts look like headers;
* `firstSection`           the section that a header begins according to the rows of a vocabulary.

Main statement: `Section.ofHeader?_unambiguous`.
-/

namespace Apidoc

open Text (isBlank isWord isDigit trim trimStart trimEnd fold lowerAscii dropWord? allBlank)

/-! ## the texts of phrases -/

def Part.Reads : Part → List Char → Prop
  | .word w, a => a.map fold = w.toList
  | .gap, a => ∀ c ∈ a, isBlank c = true
  | .mayGap, a => ∀ c ∈ a, isBlank c = true
  | .digits, a => ∀ c ∈ a, isDigit c = true

def Part.captured : Part → List Char → List Char
  | .digits, a => a
  | _, _ => []

namespace Phrase

/-- the phrase stands for a text, and captures some of it -/
inductive Spells : Phrase → List Char → List Char → Prop
  | nil : Spells [] [] []
  | cons {part : Part} {p : Phrase} {a s ds : List Char} (ha : part.Reads a) (h : Spells p s ds) :
      Spells (part :: p) (a ++ s) (part.captured a ++ ds)

theorem spells_of_match? {p : Phrase} {s ds : List Char} (h : p.match? s = some ds) :
    p.Spells s ds := by
  induction p generalizing s ds with
  | nil =>
    cases s with
    | nil => exact Option.some.inj h ▸ .nil
    | cons c s => cases h
  | cons part p ih =>
    have hgap : Part.gap.Reads (s.takeWhile isBlank) :=
      fun c hc => List.all_eq_true.1 List.all_takeWhile c hc
    have hmayGap : Part.mayGap.Reads (s.takeWhile isBlank) := hgap
    have hsplit : s.takeWhile isBlank ++ s.dropWhile isBlank = s := List.takeWhile_append_dropWhile
    cases part with
    | word w =>
      rw [match?] at h
      obtain ⟨r, hr, hds⟩ := Option.bind_eq_some_iff.1 h
      obtain ⟨v, rfl, hv⟩ := Text.eq_append_of_dropWord? hr
      have hreads : (Part.word w).Reads v := hv
      exact .cons hreads (ih hds)
    | gap =>
      rw [match?] at h
      split at h
      next => exact hsplit ▸ .cons hgap (ih h)
      next => cases h
    | mayGap =>
      rw [match?] at h
      exact hsplit ▸ .cons hmayGap (ih h)
    | digits =>
      rw [match?] at h
      split at h
      next => cases h
      next =>
        obtain ⟨r, hr, rfl⟩ := Option.map_eq_some_iff.1 h
        have hdigits : Part.digits.Reads (s.takeWhile isDigit) :=
          fun c hc => List.all_eq_true.1 List.all_takeWhile c hc
        have hs : s.takeWhile isDigit ++ s.dropWhile isDigit = s := List.takeWhile_append_dropWhile
        have hspells := Spells.cons hdigits (ih hr)
        rwa [hs] at hspells

end Phrase

/-! ## letters -/

def letters (s : List Char) : List Char := (s.filter fun c => !isBlank c && !isDigit c).map fold

theorem letters_append (s t : List Char) : letters (s ++ t) = letters s ++ letters t := by
  rw [letters, List.filter_append, List.map_append, letters, letters]

theorem letters_of_blank {s : List Char} (h : ∀ c ∈ s, isBlank c = true) : letters s = [] := by
  rw [letters, List.filter_eq_nil_iff.2 fun c hc => by simp [h c hc], List.map_nil]

theorem letters_of_digits {s : List Char} (h : ∀ c ∈ s, isDigit c = true) : letters s = [] := by
  rw [letters, List.filter_eq_nil_iff.2 fun c hc => by simp [h c hc], List.map_nil]

theorem fold_mem_letters {s : List Char} {c : Char} (hc : c ∈ s) (hb : isBlank c = false)
    (hd : isDigit c = false) : fold c ∈ letters s :=
  List.mem_map_of_mem (List.mem_filter.2 ⟨hc, by simp [hb, hd]⟩)

def Part.letters : Part → List Char
  | .word w => w.toList
  | _ => []

/-- whether a word has neither blanks nor digits -/
def Part.isPlain : Part → Bool
  | .word w => w.toList.all fun c => !isBlank c && !isDigit c
  | _ => true

namespace Part

variable {part : Part} {a : List Char}

/-- case does not make blanks or digits -/
theorem Reads.solid (hp : part.isPlain = true) (hd : part ≠ .digits) (h : part.Reads a) :
    ∀ c ∈ a, isDigit c = false := by
  intro c hc
  cases part with
  | word w =>
    cases hdigit : isDigit c with
    | false => rfl
    | true =>
      have hmem : c ∈ w.toList := by
        rw [← h, ← fold_of_isDigit hdigit]
        exact List.mem_map_of_mem hc
      have hplain := List.all_eq_true.1 hp c hmem
      rw [hdigit, Bool.not_true, Bool.and_false] at hplain
      cases hplain
  | gap => exact isDigit_of_isBlank (h c hc)
  | mayGap => exact isDigit_of_isBlank (h c hc)
  | digits => exact absurd rfl hd

theorem Reads.letters_eq (hp : part.isPlain = true) (h : part.Reads a) :
    Apidoc.letters a = part.letters := by
  cases part with
  | word w =>
    have hsolid : ∀ c ∈ a, (!isBlank c && !isDigit c) = true := by
      intro c hc
      have hfold : fold c ∈ w.toList := by
        rw [← h]
        exact List.mem_map_of_mem hc
      have hplain := List.all_eq_true.1 hp _ hfold
      have hdigit := h.solid hp nofun c hc
      cases hblank : isBlank c with
      | false => rw [hdigit]; rfl
      | true =>
        rw [Text.fold_of_isBlank hblank, hblank] at hplain
        cases hplain
    rw [Apidoc.letters, List.filter_eq_self.2 hsolid]
    exact h
  | gap => exact letters_of_blank h
  | mayGap => exact letters_of_blank h
  | digits => exact letters_of_digits h

end Part

/-- a header has a colon at its end and words before it -/
theorem endsWithColon_iff {s : List Char} : endsWithColon s = true
    ↔ ∃ t, s = t ++ [':'] ∧ t ≠ [] ∧ ∀ c ∈ t, isWord c = true ∨ c = ' ' := by
  rw [endsWithColon]
  split
  next r hr =>
    have hs : s = r.reverse ++ [':'] := by rw [← List.reverse_reverse s, hr, List.reverse_cons]
    rw [hs]
    simp
  next hne =>
    refine ⟨nofun, ?_⟩
    rintro ⟨t, rfl, -⟩
    exact absurd (List.reverse_append) (hne t.reverse)

namespace Phrase

def letters (p : Phrase) : List Char := p.flatMap Part.letters

variable {p : Phrase} {s ds : List Char}

theorem Spells.letters_eq (h : p.Spells s ds) (hp : p.all Part.isPlain = true) :
    Apidoc.letters s = p.letters := by
  induction h with
  | nil => rfl
  | @cons part p a s ds ha _ ih =>
    rw [List.all_cons, Bool.and_eq_true] at hp
    rw [letters_append, ha.letters_eq hp.1, ih hp.2]
    rfl

/-! ## digits -/

theorem Spells.no_digits (h : p.Spells s ds) (hp : p.all Part.isPlain = true)
    (hd : .digits ∉ p) : ds = [] ∧ ∀ c ∈ s, isDigit c = false := by
  induction h with
  | nil => exact ⟨rfl, List.forall_mem_nil _⟩
  | @cons part p a s ds ha _ ih =>
    rw [List.all_cons, Bool.and_eq_true] at hp
    rw [List.mem_cons, not_or] at hd
    obtain ⟨rfl, hs⟩ := ih hp.2 hd.2
    have hnone : part.captured a = [] := by
      cases part <;> first | rfl | exact absurd rfl hd.1
    refine ⟨by rw [hnone, List.append_nil], fun c hc => ?_⟩
    rcases List.mem_append.1 hc with hc | hc
    · exact ha.solid hp.1 (Ne.symm hd.1) c hc
    · exact hs c hc

theorem Spells.isDigit_captured (h : p.Spells s ds) : ∀ c ∈ ds, isDigit c = true := by
  induction h with
  | nil => exact List.forall_mem_nil _
  | @cons part p a s ds ha _ ih =>
    refine List.forall_mem_append.2 ⟨?_, ih⟩
    cases part with
    | digits => exact ha
    | _ => exact List.forall_mem_nil _

/-- a phrase with one place for digits captures all digits of its texts -/
theorem Spells.exists_digits (h : p.Spells s ds) (hp : p.all Part.isPlain = true)
    (hone : p.count .digits ≤ 1) :
    ∃ before after, s = before ++ ds ++ after ∧ ∀ c ∈ before ++ after, isDigit c = false := by
  induction h with
  | nil => exact ⟨[], [], rfl, List.forall_mem_nil _⟩
  | @cons part p a s ds ha hs ih =>
    rw [List.all_cons, Bool.and_eq_true] at hp
    by_cases hd : part = .digits
    · subst hd
      have hnone : .digits ∉ p := by
        rw [List.count_cons_self] at hone
        exact List.count_eq_zero.1 (by omega)
      obtain ⟨rfl, hplain⟩ := hs.no_digits hp.2 hnone
      exact ⟨[], s, by simp [Part.captured], hplain⟩
    · have hcaptured : part.captured a = [] := by
        cases part <;> first | rfl | exact absurd rfl hd
      rw [List.count_cons_of_ne hd] at hone
      obtain ⟨before, after, rfl, hplain⟩ := ih hp.2 hone
      rw [hcaptured, List.nil_append]
      refine ⟨a ++ before, after, by simp, fun c hc => ?_⟩
      rw [List.append_assoc] at hc
      rcases List.mem_append.1 hc with hc | hc
      · exact ha.solid hp.1 hd c hc
      · exact hplain c hc

/-! ## headers -/

def endsWithColon (p : Phrase) : Bool :=
  match p.getLast? with
  | some (.word w) => w.toList.getLast? == some ':'
  | _ => false

/-- whether the phrase has a colon at its end and words before it -/
def isHeading (p : Phrase) : Bool :=
  endsWithColon p && p.letters == p.letters.dropLast ++ [':'] && !p.letters.dropLast.isEmpty
    && p.letters.dropLast.all isWord

theorem Spells.exists_colon (h : p.Spells s ds) (hp : p.endsWithColon = true) :
    ∃ t, s = t ++ [':'] := by
  induction h with
  | nil => cases hp
  | @cons part p a s ds ha hs ih =>
    cases p with
    | nil =>
      cases hs
      cases part with
      | word w =>
        have hlast : w.toList.getLast? = some ':' := by simpa [endsWithColon] using hp
        rw [← ha, List.getLast?_map] at hlast
        obtain ⟨c, hc, hfold⟩ := Option.map_eq_some_iff.1 hlast
        obtain ⟨t, rfl⟩ := List.getLast?_eq_some_iff.1 hc
        exact ⟨t, by rw [eq_colon_of_fold hfold, List.append_nil]⟩
      | _ => cases hp
    | cons next p =>
      have hrest : endsWithColon (next :: p) = true := by
        rwa [endsWithColon, List.getLast?_cons_cons] at hp
      obtain ⟨t, rfl⟩ := ih hrest
      exact ⟨a ++ t, by rw [List.append_assoc]⟩

/-- the texts of a heading look like headers if all blanks in them are spaces -/
theorem Spells.endsWithColon (h : p.Spells s ds) (hplain : p.all Part.isPlain = true)
    (hp : p.isHeading = true) (hs : ∀ c ∈ s, isBlank c = true → c = ' ') :
    Apidoc.endsWithColon s = true := by
  simp only [isHeading, Bool.and_eq_true, beq_iff_eq, Bool.not_eq_true'] at hp
  obtain ⟨⟨⟨hcolon, hsplit⟩, hne⟩, hword⟩ := hp
  obtain ⟨t, rfl⟩ := h.exists_colon hcolon
  have hletters := h.letters_eq hplain
  rw [letters_append, hsplit] at hletters
  obtain ⟨ht, -⟩ := List.append_inj' hletters rfl
  refine endsWithColon_iff.2 ⟨t, rfl, ?_, fun c hc => ?_⟩
  · rintro rfl
    rw [← ht] at hne
    cases hne
  · cases hb : isBlank c with
    | true => exact .inr (hs c (List.mem_append_left _ hc) hb)
    | false =>
      cases hd : isDigit c with
      | true => exact .inl (isWord_of_isDigit hd)
      | false =>
        have hfold := List.all_eq_true.1 hword _ (ht ▸ fold_mem_letters hc hb hd)
        rw [isWord_fold] at hfold
        exact .inl hfold

end Phrase

/-! ## rows -/

/-- the section that a header begins according to the rows -/
def firstSection (rows : List (List Phrase × (List Char → Section))) (line : List Char) :
    Option Section :=
  rows.findSome? fun (phrases, f) => (phrases.findSome? (·.match? (trim line))).map f

/-- whether one of the phrases of a row is all of the text -/
def HasText (row : List Phrase × (List Char → Section)) (s : List Char) : Prop :=
  ∃ p ∈ row.1, ∃ ds, p.match? s = some ds

/-- what is checked of the vocabulary once and for all -/
theorem vocabulary_plain : ∀ row ∈ vocabulary, ∀ p ∈ row.1, p.all Part.isPlain = true := by
  have h : (vocabulary.all fun row => row.1.all fun p => p.all Part.isPlain) = true := by
    decide +kernel
  exact fun row hrow p hp => List.all_eq_true.1 (List.all_eq_true.1 h row hrow) p hp

theorem vocabulary_headings :
    ∀ row ∈ vocabulary, ∀ p ∈ row.1, p ∈ deprecatedPhrases ∨ p.isHeading = true := by
  have h : (vocabulary.all fun row =>
      row.1.all fun p => deprecatedPhrases.contains p || p.isHeading) = true := by
    decide +kernel
  intro row hrow p hp
  have hp' := List.all_eq_true.1 (List.all_eq_true.1 h row hrow) p hp
  rwa [Bool.or_eq_true, List.contains_iff_mem] at hp'

theorem vocabulary_letters :
    vocabulary.Pairwise fun row row' => ∀ p ∈ row.1, ∀ q ∈ row'.1, p.letters ≠ q.letters := by
  decide +kernel

theorem responsePhrases_digits : ∀ p ∈ responsePhrases, p.count .digits ≤ 1 := by
  decide +kernel

section
variable {line : List Char} {sec : Section}

theorem exists_phrase_of_ofHeader? (h : Section.ofHeader? line = some sec) :
    ∃ row ∈ vocabulary, ∃ p ∈ row.1, ∃ ds, p.match? (trim line) = some ds ∧ row.2 ds = sec := by
  obtain ⟨⟨phrases, f⟩, hmem, hf⟩ := List.exists_of_findSome?_eq_some h
  obtain ⟨ds, hds, hsec⟩ := Option.map_eq_some_iff.1 hf
  obtain ⟨p, hp, hmatch⟩ := List.exists_of_findSome?_eq_some hds
  exact ⟨_, hmem, p, hp, ds, hmatch, hsec⟩

/-- only the phrases of a response begin one -/
theorem exists_phrase_of_response {code : String}
    (h : Section.ofHeader? line = some (.response code)) :
    ∃ p ∈ responsePhrases, ∃ ds,
      p.match? (trim line) = some ds ∧ responseOf ds = .response code := by
  obtain ⟨row, hrow, p, hp, ds, hmatch, hsec⟩ := exists_phrase_of_ofHeader? h
  obtain rfl : row = (responsePhrases, responseOf) := by
    simp only [vocabulary, List.mem_cons, List.not_mem_nil, or_false] at hrow
    rcases hrow with rfl | rfl | rfl | rfl | rfl | rfl | rfl | rfl | rfl | rfl
    all_goals first | rfl | cases hsec
  exact ⟨p, hp, ds, hmatch, hsec⟩

end

theorem not_hasText_both (s : List Char) :
    vocabulary.Pairwise fun row row' => ¬(HasText row s ∧ HasText row' s) := by
  refine (List.pairwise_iff_forall_sublist.2 fun {row row'} hsub => ?_)
  have hmem : row ∈ vocabulary ∧ row' ∈ vocabulary :=
    ⟨hsub.subset (by simp), hsub.subset (by simp)⟩
  rintro ⟨⟨p, hp, ds, hs⟩, q, hq, es, hs'⟩
  have hletters := List.pairwise_iff_forall_sublist.1 vocabulary_letters hsub p hp q hq
  have hpl := (Phrase.spells_of_match? hs).letters_eq (vocabulary_plain row hmem.1 p hp)
  have hql := (Phrase.spells_of_match? hs').letters_eq (vocabulary_plain row' hmem.2 q hq)
  exact hletters (hpl.symm.trans hql)

/-! ## the order of the rows -/

/-- where no two elements give something, their order does not matter -/
theorem findSome?_of_perm {α β : Type} {f : α → Option β} {xs ys : List α} (h : xs.Perm ys)
    (hys : ys.Pairwise fun x y => ¬((f x).isSome ∧ (f y).isSome)) :
    xs.findSome? f = ys.findSome? f := by
  have hone : (ys.filterMap f).Pairwise fun _ _ => False :=
    List.pairwise_filterMap.2 (hys.imp fun hxy a ha b hb => hxy (by simp [ha, hb]))
  have hperm : (xs.filterMap f).Perm (ys.filterMap f) := h.filterMap f
  rw [← List.head?_filterMap, ← List.head?_filterMap]
  generalize ys.filterMap f = bs at hone hperm
  rcases bs with _ | ⟨b, _ | ⟨c, bs⟩⟩
  · rw [hperm.eq_nil]
  · rw [List.perm_singleton.1 hperm]
  · exact absurd (List.rel_of_pairwise_cons hone List.mem_cons_self) not_false

theorem firstSection_of_perm {rows : List (List Phrase × (List Char → Section))}
    (h : rows.Perm vocabulary) (line : List Char) :
    firstSection rows line = Section.ofHeader? line := by
  refine findSome?_of_perm h ((not_hasText_both (trim line)).imp ?_)
  rintro ⟨phrases, f⟩ ⟨phrases', f'⟩ hnot ⟨hx, hy⟩
  have htext : ∀ ps : List Phrase, (ps.findSome? (·.match? (trim line))).isSome = true →
      ∃ p ∈ ps, ∃ ds, p.match? (trim line) = some ds := by
    intro ps hps
    obtain ⟨ds, hds⟩ := Option.isSome_iff_exists.1 hps
    obtain ⟨p, hp, hmatch⟩ := List.exists_of_findSome?_eq_some hds
    exact ⟨p, hp, ds, hmatch⟩
  rw [Option.isSome_map] at hx hy
  exact hnot ⟨htext phrases hx, htext phrases' hy⟩

/-! ## case -/

theorem isBlank_comp_lowerAscii : isBlank ∘ lowerAscii = isBlank := funext isBlank_lowerAscii

theorem isDigit_comp_lowerAscii : isDigit ∘ lowerAscii = isDigit := funext isDigit_lowerAscii

theorem trim_map_lowerAscii (s : List Char) :
    trim (s.map lowerAscii) = (trim s).map lowerAscii := by
  rw [trim, trimStart, List.dropWhile_map, isBlank_comp_lowerAscii, trimEnd, ← List.map_reverse,
    List.dropWhile_map, isBlank_comp_lowerAscii, ← List.map_reverse]
  rfl

theorem dropWord?_map_lowerAscii (w s : List Char) :
    dropWord? w (s.map lowerAscii) = (dropWord? w s).map (List.map lowerAscii) := by
  induction w generalizing s with
  | nil => rfl
  | cons a w ih =>
    cases s with
    | nil => rfl
    | cons c s =>
      rw [List.map_cons, dropWord?, fold_lowerAscii, dropWord?]
      split
      next => exact ih s
      next => rfl

theorem Phrase.match?_map_lowerAscii (p : Phrase) (s : List Char) :
    p.match? (s.map lowerAscii) = p.match? s := by
  induction p generalizing s with
  | nil => cases s <;> rfl
  | cons part p ih =>
    cases part with
    | word w =>
      rw [match?, dropWord?_map_lowerAscii, match?]
      cases dropWord? w.toList s with
      | none => rfl
      | some r => exact ih r
    | gap =>
      have hhead : (s.map lowerAscii).head?.any isBlank = s.head?.any isBlank := by
        cases s with
        | nil => rfl
        | cons c s => exact isBlank_lowerAscii c
      rw [match?, match?, hhead, List.dropWhile_map, isBlank_comp_lowerAscii, ih]
    | mayGap => rw [match?, match?, List.dropWhile_map, isBlank_comp_lowerAscii, ih]
    | digits =>
      have hdigits : (s.takeWhile isDigit).map lowerAscii = s.takeWhile isDigit := by
        refine (List.map_congr_left fun c hc => ?_).trans (List.map_id _)
        exact lowerAscii_of_isDigit (List.all_eq_true.1 List.all_takeWhile c hc)
      rw [match?, match?, List.takeWhile_map, List.dropWhile_map, isDigit_comp_lowerAscii, ih,
        hdigits]

theorem endsWithColon_map_lowerAscii (s : List Char) :
    endsWithColon (s.map lowerAscii) = endsWithColon s := by
  have hchar : ∀ c,
      isWord (lowerAscii c) = true ∨ lowerAscii c = ' ' ↔ isWord c = true ∨ c = ' ' := by
    intro c
    have hc := eq_of_forall_ascii (f := fun c => isWord c || c == ' ') (by decide +kernel) c
    simpa using Bool.eq_iff_iff.1 hc
  rw [Bool.eq_iff_iff, endsWithColon_iff, endsWithColon_iff]
  constructor
  · rintro ⟨t, ht, hne, hword⟩
    obtain ⟨a, b, rfl, rfl, hb⟩ := List.map_eq_append_iff.1 ht
    obtain ⟨c, rfl, hc⟩ := List.map_eq_singleton_iff.1 hb
    rw [eq_colon_of_lowerAscii hc]
    refine ⟨a, rfl, mt (congrArg (List.map lowerAscii)) hne, fun d hd => ?_⟩
    exact (hchar d).1 (hword _ (List.mem_map_of_mem hd))
  · rintro ⟨t, rfl, hne, hword⟩
    refine ⟨t.map lowerAscii, by rw [List.map_append]; rfl, mt List.map_eq_nil_iff.1 hne, ?_⟩
    intro d hd
    obtain ⟨c, hc, rfl⟩ := List.mem_map.1 hd
    exact (hchar c).2 (hword c hc)

theorem Section.ofHeader?_map_lowerAscii (line : List Char) :
    ofHeader? (line.map lowerAscii) = ofHeader? line := by
  simp only [ofHeader?, trim_map_lowerAscii, Phrase.match?_map_lowerAscii]

theorem isHeader_map_lowerAscii (line : List Char) :
    isHeader (line.map lowerAscii) = isHeader line := by
  simp only [isHeader, trim_map_lowerAscii, Phrase.match?_map_lowerAscii,
    endsWithColon_map_lowerAscii]

/-! ## headers -/

theorem allBlank_of_isHeader {line : List Char} (h : isHeader line = true) :
    allBlank line = false := by
  cases hb : allBlank line with
  | false => rfl
  | true =>
    rw [isHeader, (Text.trim_eq_nil_iff line).2 hb] at h
    exact absurd h (by decide)

theorem isHeader_of_ofHeader? {line : List Char} {sec : Section}
    (h : Section.ofHeader? line = some sec) (hs : ∀ c ∈ trim line, isBlank c = true → c = ' ') :
    isHeader line = true := by
  obtain ⟨row, hrow, p, hp, ds, hmatch, -⟩ := exists_phrase_of_ofHeader? h
  rw [isHeader, Bool.or_eq_true]
  rcases vocabulary_headings row hrow p hp with hdeprecated | hheading
  · exact .inr (List.any_eq_true.2 ⟨p, hdeprecated, by rw [hmatch]; rfl⟩)
  · have hplain := vocabulary_plain row hrow p hp
    exact .inl ((Phrase.spells_of_match? hmatch).endsWithColon hplain hheading hs)

/-! ## headers are unambiguous -/

/-- **At most one row of the vocabulary has a header among its texts**, so that the order of the
rows does not matter; neither do the case of ASCII letters and blanks around the header.  The code
of a response is all that is written of digits in its header.  A header of the vocabulary in which
all blanks are spaces looks like a header, and is read as one. -/
theorem Section.ofHeader?_unambiguous (line : List Char) :
    (vocabulary.Pairwise fun row row' => ¬(HasText row (trim line) ∧ HasText row' (trim line)))
      ∧ (∀ rows, rows.Perm vocabulary → firstSection rows line = ofHeader? line)
      ∧ (∀ line' : List Char, line'.map lowerAscii = line.map lowerAscii →
          ofHeader? line' = ofHeader? line ∧ isHeader line' = isHeader line)
      ∧ (∀ a b : List Char, (∀ c ∈ a ++ b, isBlank c = true) →
          ofHeader? (a ++ line ++ b) = ofHeader? line ∧ isHeader (a ++ line ++ b) = isHeader line)
      ∧ (∀ code, ofHeader? line = some (.response code) →
          ∃ before ds after, trim line = before ++ ds ++ after
            ∧ (∀ c ∈ before ++ after, isDigit c = false) ∧ (∀ c ∈ ds, isDigit c = true)
            ∧ code = if ds = [] then "200" else .ofList ds)
      ∧ ∀ sec, ofHeader? line = some sec → (∀ c ∈ trim line, isBlank c = true → c = ' ') →
          isHeader line = true ∧ LineKind.of line = .header := by
  refine ⟨not_hasText_both (trim line), fun rows h => firstSection_of_perm h line,
    fun line' h => ?_, fun a b h => ?_, fun code h => ?_, fun sec h hs => ?_⟩
  · rw [← ofHeader?_map_lowerAscii, ← isHeader_map_lowerAscii, h, ofHeader?_map_lowerAscii,
      isHeader_map_lowerAscii]
    exact ⟨rfl, rfl⟩
  · have htrim : trim (a ++ line ++ b) = trim line := by
      rw [Text.trim_append_of_blank fun c hc => h c (List.mem_append_right a hc),
        Text.trim_append_of_blank_left fun c hc => h c (List.mem_append_left b hc)]
    rw [ofHeader?, isHeader, htrim]
    exact ⟨rfl, rfl⟩
  · obtain ⟨p, hp, ds, hmatch, hcode⟩ := exists_phrase_of_response h
    have hplain := vocabulary_plain (responsePhrases, responseOf) (by simp [vocabulary]) p hp
    have hspells := Phrase.spells_of_match? hmatch
    obtain ⟨before, after, hs, hnone⟩ := hspells.exists_digits hplain (responsePhrases_digits p hp)
    refine ⟨before, ds, after, hs, hnone, hspells.isDigit_captured, ?_⟩
    rw [← Section.response.inj hcode]
    simp only [List.isEmpty_iff]
    rfl
  · have hheader := isHeader_of_ofHeader? h hs
    rw [LineKind.of, allBlank_of_isHeader hheader, hheader]
    exact ⟨rfl, rfl⟩

def notFoundHeader : List Char := "http 404 response:".toList

/-- a header with a code, in capitals, between blanks and with the rows the other way round -/
theorem Section.ofHeader?_notFound :
    vocabulary.reverse.Perm vocabulary
      ∧ firstSection vocabulary.reverse notFoundHeader = ofHeader? notFoundHeader
      ∧ "HTTP 404 Response:".toList.map lowerAscii = notFoundHeader.map lowerAscii
      ∧ ofHeader? "HTTP 404 Response:".toList = ofHeader? notFoundHeader
      ∧ (∀ c ∈ ['\t'] ++ ['\u00A0'], isBlank c = true)
      ∧ ofHeader? (['\t'] ++ notFoundHeader ++ ['\u00A0']) = ofHeader? notFoundHeader
      ∧ ofHeader? notFoundHeader = some (.response "404")
      ∧ (∃ before ds after, trim notFoundHeader = before ++ ds ++ after
          ∧ (∀ c ∈ before ++ after, isDigit c = false) ∧ (∀ c ∈ ds, isDigit c = true)
          ∧ "404" = if ds = [] then "200" else .ofList ds)
      ∧ (∀ c ∈ trim notFoundHeader, isBlank c = true → c = ' ')
      ∧ LineKind.of notFoundHeader = .header := by
  obtain ⟨-, hrows, hcase, hblank, hcode, hheader⟩ := ofHeader?_unambiguous notFoundHeader
  have hperm : vocabulary.reverse.Perm vocabulary := List.reverse_perm vocabulary
  have hcapitals : "HTTP 404 Response:".toList.map lowerAscii = notFoundHeader.map lowerAscii := by
    decide +kernel
  have hblanks : ∀ c ∈ ['\t'] ++ ['\u00A0'], isBlank c = true := List.all_eq_true.1 rfl
  have hsec : ofHeader? notFoundHeader = some (.response "404") := by decide +kernel
  have hall : (trim notFoundHeader).all (fun c => !isBlank c || c == ' ') = true := by
    decide +kernel
  have hspaces : ∀ c ∈ trim notFoundHeader, isBlank c = true → c = ' ' := by
    intro c hc hblank
    have hspace := List.all_eq_true.1 hall c hc
    rw [hblank] at hspace
    exact eq_of_beq hspace
  exact ⟨hperm, hrows _ hperm, hcapitals, (hcase _ hcapitals).1, hblanks, (hblank _ _ hblanks).1,
    hsec, hcode _ hsec, hspaces, (hheader _ hsec hspaces).2⟩

end Apidoc
