import Apidoc.Proofs.Characters
import Apidoc.Proofs.LineGrammar

/-!
# Reading lines

The lines of a section are those of a grammar, and a line is read as the parts that count.

* `ErrorLine.grammar`, `ItemLine.grammar`   the two kinds of lines;
* `ErrorLine.ofParts`, `ItemLine.ofParts`   the line with the given parts.

Main statements: a line is read exactly if it can be split into parts, and then as the parts that
count (`ErrorLine.read?_eq_some_iff`, `ItemLine.read?_eq_some_iff`).
-/

namespace Apidoc

open Text (isBlank isWord isDigit trim dropWord? fold)

section
variable {α : Type} {f : α → Bool} {s t : List α}

theorem takeWhile_append_of_head (hs : ∀ a ∈ s, f a = true) (ht : ∀ a ∈ t.head?, f a = false) :
    (s ++ t).takeWhile f = s := by
  rw [List.takeWhile_append_of_pos hs]
  cases t with
  | nil => exact List.append_nil s
  | cons a t => rw [List.takeWhile_cons_of_neg (by simp [ht a rfl]), List.append_nil]

theorem dropWhile_append_of_head (hs : ∀ a ∈ s, f a = true) (ht : ∀ a ∈ t.head?, f a = false) :
    (s ++ t).dropWhile f = t := by
  rw [List.dropWhile_append_of_pos hs]
  cases t with
  | nil => rfl
  | cons a t => rw [List.dropWhile_cons_of_neg (by simp [ht a rfl])]

end

/-! ## errors -/

namespace ErrorLine

/-- digits or the word, in any case, and then two dashes -/
def grammar : LineGrammar where
  front s := (s ≠ [] ∧ ∀ c ∈ s, isDigit c = true) ∨ s.map fold = defaultCode
  good _ := true
  mayEnd := false

/-- the line with these parts -/
def ofParts (p : LineParts) : ErrorLine where
  code := p.front.map fold
  type := p.rest.typeText
  description := trim (p.rest.description.getD [])

theorem readCode?_append {s t : List Char} (hs : grammar.front s)
    (ht : ∀ c ∈ t.head?, isDigit c = false) : readCode? (s ++ t) = some (s.map fold, t) := by
  rw [readCode?]
  rcases hs with ⟨hne, hdigits⟩ | hs
  · have hfold : s.map fold = s := by
      rw [List.map_congr_left fun c hc => fold_of_isDigit (hdigits c hc), List.map_id']
    rw [takeWhile_append_of_head hdigits ht, dropWhile_append_of_head hdigits ht, hfold]
    exact if_neg (mt List.isEmpty_iff.1 hne)
  · have hdrop : dropWord? defaultCode (s ++ t) = some t := hs ▸ Text.dropWord?_append s t
    cases s with
    | nil => exact absurd hs (by decide)
    | cons c s =>
      have hc : isDigit c = false := by
        cases hd : isDigit c with
        | false => rfl
        | true =>
          have hfold : fold c = 'd' := (List.cons.inj hs).1
          rw [fold_of_isDigit hd] at hfold
          exact absurd (hfold ▸ hd) (by decide)
      rw [List.cons_append, List.takeWhile_cons_of_neg (by simp [hc])]
      refine (if_pos rfl).trans ?_
      rw [← List.cons_append, hdrop, hs]
      rfl

theorem readCode?_eq_some {s code t : List Char} (h : readCode? s = some (code, t)) :
    ∃ f, grammar.front f ∧ s = f ++ t := by
  rw [readCode?] at h
  split at h
  next =>
    obtain ⟨r, hr, he⟩ := Option.map_eq_some_iff.1 h
    obtain ⟨-, rfl⟩ := Prod.mk.inj he
    obtain ⟨f, rfl, hf⟩ := Text.eq_append_of_dropWord? hr
    exact ⟨f, .inr hf, rfl⟩
  next hne =>
    obtain ⟨rfl, rfl⟩ := Prod.mk.inj (Option.some.inj h)
    refine ⟨s.takeWhile isDigit, .inl ⟨fun he => hne (List.isEmpty_iff.2 he), ?_⟩, ?_⟩
    · exact fun c hc => List.all_eq_true.1 List.all_takeWhile c hc
    · exact List.takeWhile_append_dropWhile.symm

theorem readTail?_eq (s : List Char) :
    readTail? s = (grammar.readDashes s).map fun d => trim (d.getD []) := by
  rw [readTail?, LineGrammar.readDashes]
  generalize s.dropWhile isBlank = t
  split
  next => rfl
  next hne =>
    cases t with
    | nil => rfl
    | cons c t =>
      rw [LineGrammar.dashed?_of_ne (List.cons_ne_nil c t) hne]
      rfl

theorem readParts?_eq (s : List Char) : readParts? s
    = (grammar.readRest s).map fun p => (p.1, trim (p.2.getD [])) := by
  rw [readParts?, LineGrammar.readRest]
  cases openType? s with
  | none =>
    dsimp only
    rw [readTail?_eq, Option.map_map, Option.map_map]
    rfl
  | some p =>
    dsimp only
    rw [readTail?_eq]
    cases grammar.readDashes (skipClosing p.2) with
    | some d => rfl
    | none =>
      show Option.map _ (lastDashes? (fun _ => true) p.1)
        = Option.map _ (Option.map _ (lastDashes? (fun _ => true) p.1))
      rw [Option.map_map]
      rfl

theorem read?_append {f s : List Char} (hf : grammar.front f)
    (hs : ∀ c ∈ s.head?, isDigit c = false) : read? (f ++ s)
      = (grammar.readRest s).map fun p => ⟨f.map fold, p.1, trim (p.2.getD [])⟩ := by
  rw [read?, readCode?_append hf hs]
  show (readParts? s).bind _ = _
  rw [readParts?_eq]
  cases grammar.readRest s <;> rfl

theorem read?_text {p : LineParts} (h : grammar.Chosen p) : read? p.text = some (ofParts p) := by
  have hhead : ∀ c ∈ p.rest.text.head?, isDigit c = false := by
    intro c hc
    obtain ⟨s, hs⟩ := List.head?_eq_some_iff.1 hc
    rcases LineGrammar.head_restText h.fits.rest hs with hb | ⟨_, _, _, rfl⟩
    · exact isDigit_of_isBlank hb
    · decide
  rw [LineParts.text, read?_append h.fits.front hhead, h.readRest_text]
  rfl

theorem matches_of_read? {s : List Char} {l : ErrorLine} (h : read? s = some l) :
    grammar.Matches s := by
  obtain ⟨⟨code, t⟩, hcode, h⟩ := Option.bind_eq_some_iff.1 h
  obtain ⟨q, hq, -⟩ := Option.bind_eq_some_iff.1 h
  obtain ⟨f, hf, rfl⟩ := readCode?_eq_some hcode
  rw [readParts?_eq] at hq
  obtain ⟨_, hrest, -⟩ := Option.map_eq_some_iff.1 hq
  obtain ⟨r, hr, rfl, -⟩ := LineGrammar.readRest_eq_some hrest
  exact ⟨⟨f, r⟩, ⟨hf, hr⟩, rfl⟩

/-- **A line is an error exactly if it can be split into the parts of one**, and it is read as the
parts that count. -/
theorem read?_eq_some_iff {s : List Char} {l : ErrorLine} :
    read? s = some l ↔ ∃ p, grammar.Chosen p ∧ p.text = s ∧ ofParts p = l := by
  constructor
  · intro h
    obtain ⟨p, hp, rfl⟩ := LineGrammar.exists_chosen (matches_of_read? h)
    exact ⟨p, hp, rfl, Option.some.inj ((read?_text hp).symm.trans h)⟩
  · rintro ⟨p, hp, rfl, rfl⟩
    exact read?_text hp

end ErrorLine

/-! ## items -/

namespace ItemLine

/-- a name, and then maybe two dashes, after which a blank stands in front of a description -/
def grammar : LineGrammar where
  front s := s.head?.any isWord = true ∧ ∀ c ∈ s, isNameChar c = true
  good s := s.isEmpty || startsBlank s
  mayEnd := true

/-- the marker and what follows it -/
def described (d : Option (List Char)) : Option Marker × List Char :=
  readMarker ((d.getD []).dropWhile isBlank)

/-- the line with these parts -/
def ofParts (p : LineParts) : ItemLine where
  name := p.front
  type := p.rest.typeText
  marker := (described p.rest.description).1
  description := (described p.rest.description).2

theorem readDescription?_eq (s : List Char) :
    readDescription? s = if grammar.good s then some (described (some s)) else none := by
  cases s with
  | nil => rfl
  | cons c s => rfl

theorem readTail?_eq (s : List Char) :
    readTail? s = (grammar.readDashes s).map described := by
  rw [readTail?, LineGrammar.readDashes]
  generalize s.dropWhile isBlank = t
  split
  next => rfl
  next d =>
    show readDescription? d
      = Option.map described (if grammar.good d = true then some (some d) else none)
    rw [readDescription?_eq]
    split <;> rfl
  next hnil hne =>
    rw [LineGrammar.dashed?_of_ne hnil hne]
    rfl

/-- at a parenthesis after the dashes, a description can only have begun before it -/
theorem good_append {rest : List Char} (hne : rest ≠ []) (hrest : startsBlank rest = false)
    (d : List Char) : grammar.good (d ++ rest) = startsBlank d := by
  cases d with
  | nil =>
    obtain ⟨c, r, rfl⟩ := List.exists_cons_of_ne_nil hne
    exact hrest
  | cons c d => rfl

theorem readParts?_eq (s : List Char) :
    readParts? s = (grammar.readRest s).map fun p => (p.1, described p.2) := by
  rw [readParts?, LineGrammar.readRest]
  cases ho : openType? s with
  | none =>
    dsimp only
    rw [readTail?_eq, Option.map_map, Option.map_map]
    rfl
  | some p =>
    obtain ⟨type, rest⟩ := p
    dsimp only
    rw [readTail?_eq]
    cases hd : grammar.readDashes (skipClosing rest) with
    | some d => rfl
    | none =>
      have hgood : ∀ d, grammar.good (d ++ rest) = startsBlank d := by
        cases rest with
        | nil => cases hd
        | cons c r =>
          refine good_append (List.cons_ne_nil c r) ?_
          cases hb : isBlank c with
          | false => exact hb
          | true =>
            have hc := LineGrammar.isParenthesis_of_openType? ho
            rw [LineGrammar.isParenthesis_of_isBlank hb] at hc
            cases hc
      have hfun : (fun d => grammar.good (d ++ rest)) = startsBlank := funext hgood
      rw [hfun]
      cases hl : lastDashes? startsBlank type with
      | none => rfl
      | some q =>
        obtain ⟨-, hq, -⟩ := LineGrammar.lastDashes?_eq_some hl
        rw [← hgood] at hq
        show (readDescription? (q.2 ++ rest)).bind _ = _
        rw [readDescription?_eq, if_pos hq]
        rfl

theorem isNameChar_of_isBlank {c : Char} (h : isBlank c = true) : isNameChar c = false := by
  cases hc : isNameChar c with
  | false => rfl
  | true =>
    rw [WrittenItem.isBlank_of_isNameChar hc] at h
    cases h

theorem read?_append {f s t : List Char} {d : Option (List Char)} (hf : grammar.front f)
    (hs : ∀ c ∈ s.head?, isNameChar c = false) (h : grammar.readRest s = some (t, d)) :
    read? (f ++ s) = some ⟨f, t, (described d).1, (described d).2⟩ := by
  rw [read?, takeWhile_append_of_head hf.2 hs, dropWhile_append_of_head hf.2 hs, hf.1,
    readParts?_eq, h]
  rfl

theorem read?_text_of_head {p : LineParts} (h : grammar.Chosen p)
    (hhead : ∀ c ∈ p.rest.text.head?, isNameChar c = false) :
    read? p.text = some (ofParts p) :=
  read?_append h.fits.front hhead h.readRest_text

theorem isNameChar_of_dashes {front : List Char} (h : ∀ c ∈ front, isNameChar c = true) :
    ∀ c ∈ front ++ ['-', '-'], isNameChar c = true := by
  intro c hc
  rcases List.mem_append.1 hc with hc | hc
  · exact h c hc
  · rcases List.mem_cons.1 hc with rfl | hc
    · rfl
    · obtain rfl := List.mem_singleton.1 hc
      rfl

theorem isWord_head_append {front : List Char} (h : front.head?.any isWord = true)
    (s : List Char) : (front ++ s).head?.any isWord = true := by
  cases front with
  | nil => cases h
  | cons c front => exact h

/-- The dashes at the end of a name are the separator only where nothing that follows the name with
them can be read. -/
theorem read?_text_of_dashes {front d : List Char}
    (h : grammar.Chosen ⟨front, ⟨none, [], some d⟩⟩) :
    read? (front ++ '-' :: '-' :: d) = some (ofParts ⟨front, ⟨none, [], some d⟩⟩) := by
  obtain ⟨hword, hchars⟩ := h.fits.front
  have hlonger : grammar.front (front ++ ['-', '-']) :=
    ⟨isWord_head_append hword _, isNameChar_of_dashes hchars⟩
  -- no parts have the dashes in the name
  have hnone : ∀ r, grammar.FitsRest r → r.text ≠ d := by
    intro r hr he
    have hle := h.front_le ⟨front ++ ['-', '-'], r⟩ ⟨hlonger, hr⟩ (by
      simp [LineParts.text, LineRest.text, dashedText, ← he])
    rw [List.length_append] at hle
    exact absurd hle (by simp)
  have hend : grammar.Admits none := rfl
  have hblank : startsBlank d = true := by
    cases d with
    | nil => exact absurd rfl (hnone _ (LineGrammar.fitsRest_untyped (List.forall_mem_nil _) hend))
    | cons c d => exact h.fits.rest.description
  have hhead : ∀ c ∈ d.head?, isNameChar c = false := by
    intro c hc
    rw [startsBlank, Option.mem_def.1 hc] at hblank
    exact isNameChar_of_isBlank hblank
  have hparts : readParts? d = none := by
    rw [readParts?_eq, Option.map_eq_none_iff]
    refine Option.eq_none_iff_forall_ne_some.2 fun q hq => ?_
    obtain ⟨r, hr, he, -⟩ := LineGrammar.readRest_eq_some hq
    exact hnone r hr he
  have hassoc : front ++ '-' :: '-' :: d = front ++ ['-', '-'] ++ d := by simp
  have hdrop : Text.dropEnd? ['-', '-'] (front ++ ['-', '-']) = some front :=
    Text.dropEnd?_eq_some_iff.2 rfl
  rw [read?, hassoc, takeWhile_append_of_head hlonger.2 hhead,
    dropWhile_append_of_head hlonger.2 hhead, hlonger.1, hparts, hdrop]
  show (if (!startsBlank d) = true then none else _) = _
  have hgood : grammar.good d = true := h.fits.rest.description
  rw [hblank, readDescription?_eq, if_pos hgood]
  rfl

theorem read?_text {p : LineParts} (h : grammar.Chosen p) : read? p.text = some (ofParts p) := by
  cases hs : p.rest.text with
  | nil => exact read?_text_of_head h (by rw [hs]; exact nofun)
  | cons c s =>
    rcases LineGrammar.head_restText h.fits.rest hs with hb | ⟨d, rfl, hp, rfl⟩
    · refine read?_text_of_head h ?_
      rw [hs]
      rintro _ ⟨⟩
      exact isNameChar_of_isBlank hb
    · obtain ⟨front, rest⟩ := p
      obtain rfl : rest = _ := hp
      exact read?_text_of_dashes h

theorem matches_of_read? {s : List Char} {l : ItemLine} (h : read? s = some l) :
    grammar.Matches s := by
  have hs : s.takeWhile isNameChar ++ s.dropWhile isNameChar = s :=
    List.takeWhile_append_dropWhile
  have hchars : ∀ c ∈ s.takeWhile isNameChar, isNameChar c = true :=
    fun c hc => List.all_eq_true.1 List.all_takeWhile c hc
  rw [read?] at h
  split at h
  next => cases h
  next hword =>
    rw [Bool.not_eq_true', Bool.not_eq_false] at hword
    split at h
    next hparts =>
      rw [readParts?_eq] at hparts
      obtain ⟨_, hrest, -⟩ := Option.map_eq_some_iff.1 hparts
      obtain ⟨r, hr, hrs, -⟩ := LineGrammar.readRest_eq_some hrest
      exact ⟨⟨_, r⟩, ⟨⟨hword, hchars⟩, hr⟩, (congrArg (_ ++ ·) hrs).trans hs⟩
    next =>
      obtain ⟨name, hname, h⟩ := Option.bind_eq_some_iff.1 h
      rw [Text.dropEnd?_eq_some_iff] at hname
      split at h
      next => cases h
      next hblank =>
        rw [Bool.not_eq_true', Bool.not_eq_false] at hblank
        rw [hname] at hword hchars hs
        have hfront : grammar.front name := by
          refine ⟨?_, fun c hc => hchars c (List.mem_append_left _ hc)⟩
          cases name with
          | nil => exact absurd hword (by decide)
          | cons c name => exact hword
        have hgood : grammar.good (s.dropWhile isNameChar) = true := by
          show (List.isEmpty _ || startsBlank _) = true
          rw [hblank, Bool.or_true]
        refine ⟨⟨name, ⟨none, [], some (s.dropWhile isNameChar)⟩⟩,
          ⟨hfront, LineGrammar.fitsRest_untyped (List.forall_mem_nil _) hgood⟩, ?_⟩
        rw [List.append_assoc] at hs
        exact hs

/-- **A line is an item exactly if it can be split into the parts of one**, and it is read as the
parts that count. -/
theorem read?_eq_some_iff {s : List Char} {l : ItemLine} :
    read? s = some l ↔ ∃ p, grammar.Chosen p ∧ p.text = s ∧ ofParts p = l := by
  constructor
  · intro h
    obtain ⟨p, hp, rfl⟩ := LineGrammar.exists_chosen (matches_of_read? h)
    exact ⟨p, hp, rfl, Option.some.inj ((read?_text hp).symm.trans h)⟩
  · rintro ⟨p, hp, rfl, rfl⟩
    exact read?_text hp

theorem read?_eq_none_iff {s : List Char} : read? s = none ↔ ¬grammar.Matches s := by
  constructor
  · intro h hs
    obtain ⟨p, hp, rfl⟩ := LineGrammar.exists_chosen hs
    cases h.symm.trans (read?_text hp)
  · exact fun h => Option.eq_none_iff_forall_ne_some.2 fun l hl => h (matches_of_read? hl)

end ItemLine

end Apidoc
