import Mathlib.Data.List.Basic
import Apidoc.Proofs.Outline
import Apidoc.Proofs.PhysicalLines

/-!
# The layout of a docstring

A layout holds the lines of a docstring, with their line feeds, cut at the section region and there
at the headers.

* `Layout.ofText`, `Layout.text`   the layout of a docstring, and the docstring of a layout;
* `Layout.Proper`    the layouts of docstrings: the region begins where the sections begin, and the
  headers are where the sections are cut;
* `Layout.map`       changes the lines one by one;
* `Layout.doc`       what the lines of a layout say.

The docstring of a proper layout has this layout (`Proper.ofLines_lines`), so sections may be
taken out, repeated or put elsewhere in a layout, and `Proper.ofText_text` says how the changed
docstring is read.
-/

namespace Apidoc

open Text (trim trimStart rawLines unixBreaks IsEnded)

/-! ## kinds of lines -/

theorem LineKind.of_congr {l k : List Char} (h : trim l = trim k) :
    LineKind.of l = LineKind.of k := by
  have hb : Text.allBlank l = Text.allBlank k := by
    rw [Bool.eq_iff_iff, ← Text.trim_eq_nil_iff, ← Text.trim_eq_nil_iff, h]
  rw [LineKind.of, LineKind.of, hb, isHeader, isHeader, h]

theorem Section.ofHeader?_congr {l k : List Char} (h : trim l = trim k) :
    Section.ofHeader? l = Section.ofHeader? k := by
  rw [Section.ofHeader?, Section.ofHeader?, h]

/-- the region begins at the same line after a change that keeps the kinds of the lines -/
theorem regionStart_map {f : List Char → List Char} {ls : List (List Char)}
    (hf : ∀ l ∈ ls, LineKind.of (f l) = LineKind.of l) {before : Option (List Char)}
    (hb : ∀ l ∈ before, LineKind.of (f l) = LineKind.of l) :
    regionStart (before.map f) (ls.map f) = regionStart before ls := by
  induction ls generalizing before with
  | nil => rfl
  | cons l ls ih =>
    have hl := hf l List.mem_cons_self
    have ho : opensRegion (before.map f) (f l) = opensRegion before l := by
      cases before with
      | none => simp [opensRegion, isKind, hl]
      | some k => simp [opensRegion, isKind, hl, hb k rfl]
    have hlast : ∀ k ∈ some l, LineKind.of (f k) = LineKind.of k := by
      intro k hk
      rw [← Option.some.inj hk, hl]
    have hrest : regionStart (some (f l)) (ls.map f) = regionStart (some l) ls :=
      ih (fun k hk => hf k (List.mem_cons_of_mem l hk)) hlast
    rw [List.map_cons, regionStart, regionStart, ho, hrest]

/-! ## where the region begins -/

/-- the line before what follows `front` -/
def lineBefore (before : Option (List Char)) (front : List (List Char)) : Option (List Char) :=
  front.getLast?.or before

theorem lineBefore_cons (before : Option (List Char)) (l : List Char) (ls : List (List Char)) :
    lineBefore before (l :: ls) = lineBefore (some l) ls := by
  cases ls with
  | nil => rfl
  | cons k ks => simp [lineBefore, List.getLast?_eq_some_getLast]

theorem regionStart_eq_length_cons {before : Option (List Char)} {l : List Char}
    {ls : List (List Char)} :
    regionStart before (l :: ls) = (l :: ls).length ↔
      opensRegion before l = false ∧ regionStart (some l) ls = ls.length := by
  rw [regionStart]
  cases opensRegion before l <;> simp

/-- lines that do not open the region, and then one that does -/
theorem regionStart_append {before : Option (List Char)} {front : List (List Char)}
    (hf : regionStart before front = front.length) {l : List Char}
    (hl : opensRegion (lineBefore before front) l = true) (ls : List (List Char)) :
    regionStart before (front ++ l :: ls) = front.length := by
  induction front generalizing before with
  | nil => simp only [List.nil_append, regionStart, show opensRegion before l = true from hl,
      if_true, List.length_nil]
  | cons k front ih =>
    obtain ⟨hk, hrest⟩ := regionStart_eq_length_cons.1 hf
    rw [lineBefore_cons] at hl
    rw [List.cons_append, regionStart, hk, ih hrest hl]
    rfl

theorem regionStart_beforeRegion (before : Option (List Char)) (ls : List (List Char)) :
    regionStart before (beforeRegion before ls) = (beforeRegion before ls).length := by
  induction ls generalizing before with
  | nil => rfl
  | cons l ls ih =>
    cases ho : opensRegion before l with
    | true =>
      rw [beforeRegion_of_opens ls ho]
      rfl
    | false =>
      rw [beforeRegion_of_not_opens ls ho]
      exact regionStart_eq_length_cons.2 ⟨ho, ih (some l)⟩

theorem opens_of_region_eq_cons {before : Option (List Char)} {ls : List (List Char)}
    {l : List Char} {rest : List (List Char)} (h : region before ls = l :: rest) :
    opensRegion (lineBefore before (beforeRegion before ls)) l = true := by
  induction ls generalizing before with
  | nil => cases h
  | cons k ls ih =>
    cases ho : opensRegion before k with
    | true =>
      rw [region_of_opens ls ho] at h
      rw [beforeRegion_of_opens ls ho, ← (List.cons.inj h).1]
      exact ho
    | false =>
      rw [region_of_not_opens ls ho] at h
      rw [beforeRegion_of_not_opens ls ho, lineBefore_cons]
      exact ih h

theorem kind_of_opens {before : Option (List Char)} {l : List Char}
    (h : opensRegion before l = true) : LineKind.of l = .header := by
  rw [opensRegion, Bool.and_eq_true] at h
  exact beq_iff_eq.1 h.1

/-! ## where the sections begin -/

section
variable {ps : List (List Char × List (List Char))}

theorem sectionsAfter_append {body : List (List Char)}
    (h : ∀ l ∈ body, LineKind.of l ≠ .header) (ls : List (List Char)) :
    sectionsAfter (body ++ ls) = (body ++ (sectionsAfter ls).1, (sectionsAfter ls).2) := by
  induction body with
  | nil => rfl
  | cons l body ih =>
    rw [List.cons_append, sectionsAfter_of_ne (h l List.mem_cons_self),
      ih fun k hk => h k (List.mem_cons_of_mem l hk)]
    rfl

/-- the lines of sections are cut into these sections -/
theorem sectionsAfter_flatMap (hh : ∀ p ∈ ps, LineKind.of p.1 = .header)
    (hb : ∀ p ∈ ps, ∀ l ∈ p.2, LineKind.of l ≠ .header) :
    sectionsAfter (ps.flatMap fun p => p.1 :: p.2) = ([], ps) := by
  induction ps with
  | nil => rfl
  | cons p ps ih =>
    have hps := ih (fun q hq => hh q (List.mem_cons_of_mem p hq))
      fun q hq => hb q (List.mem_cons_of_mem p hq)
    rw [List.flatMap_cons, List.cons_append, sectionsAfter_of_header (hh p List.mem_cons_self),
      sectionsAfter_append (hb p List.mem_cons_self), hps, List.append_nil]

theorem kinds_sectionsAfter (ls : List (List Char)) :
    (∀ l ∈ (sectionsAfter ls).1, LineKind.of l ≠ .header) ∧
      ∀ p ∈ (sectionsAfter ls).2,
        LineKind.of p.1 = .header ∧ ∀ l ∈ p.2, LineKind.of l ≠ .header := by
  induction ls with
  | nil => exact ⟨fun _ hl => absurd hl List.not_mem_nil, fun _ hp => absurd hp List.not_mem_nil⟩
  | cons l ls ih =>
    obtain ⟨hbody, hrest⟩ := ih
    by_cases hl : LineKind.of l = .header
    · rw [sectionsAfter_of_header hl]
      exact ⟨fun _ hk => absurd hk List.not_mem_nil, List.forall_mem_cons.2 ⟨⟨hl, hbody⟩, hrest⟩⟩
    · rw [sectionsAfter_of_ne hl]
      exact ⟨List.forall_mem_cons.2 ⟨hl, hbody⟩, hrest⟩

end

/-! ## layouts -/

/-- A docstring cut into the lines before its sections and the sections, each a header and the
lines up to the next one. -/
structure Layout where
  front : List (List Char)
  sections : List (List Char × List (List Char))
deriving DecidableEq, Repr

namespace Layout

def lines (l : Layout) : List (List Char) := l.front ++ l.sections.flatMap fun p => p.1 :: p.2

def text (l : Layout) : String := .ofList l.lines.flatten

def ofLines (ls : List (List Char)) : Layout :=
  { front := beforeRegion none ls, sections := Apidoc.sections (region none ls) }

def ofText (s : String) : Layout := ofLines (rawLines s.toList)

def map (f : List Char → List Char) (l : Layout) : Layout :=
  { front := l.front.map f, sections := l.sections.map fun p => (f p.1, p.2.map f) }

/-- what the lines say -/
def doc (l : Layout) : OperationDoc :=
  (Outline.prose (summaryText l.front) (descriptionText l.front)).applyAll (known l.sections)

theorem lines_map (f : List Char → List Char) (l : Layout) : (l.map f).lines = l.lines.map f := by
  simp [lines, map, List.flatMap_map, List.map_flatMap]

structure Proper (l : Layout) : Prop where
  /-- no line before the sections opens the region -/
  front_closed : regionStart none l.front = l.front.length
  /-- a header that follows opens it -/
  front_blank : l.sections ≠ [] → (lineBefore none l.front).all (isKind .blank) = true
  headers : ∀ p ∈ l.sections, LineKind.of p.1 = .header
  bodies : ∀ p ∈ l.sections, ∀ k ∈ p.2, LineKind.of k ≠ .header

theorem proper_ofLines (ls : List (List Char)) : (ofLines ls).Proper := by
  refine ⟨regionStart_beforeRegion none ls, fun hne => ?_, fun p hp => ?_, fun p hp => ?_⟩
  · cases hr : region none ls with
    | nil => exact absurd (by rw [ofLines, hr]; rfl) hne
    | cons l rest =>
      have ho := opens_of_region_eq_cons hr
      rw [opensRegion, Bool.and_eq_true] at ho
      exact ho.2
  · exact ((kinds_sectionsAfter _).2 p hp).1
  · exact ((kinds_sectionsAfter _).2 p hp).2

/-- no line is lost and none is moved -/
theorem lines_ofLines (ls : List (List Char)) : (ofLines ls).lines = ls := by
  have hfirst : (sectionsAfter (region none ls)).1 = [] := by
    cases hr : region none ls with
    | nil => rfl
    | cons l rest => rw [sectionsAfter_of_header (kind_of_opens (opens_of_region_eq_cons hr))]
  have hregion := flatten_sectionsAfter (region none ls)
  rw [hfirst, List.nil_append, ← List.flatMap_def] at hregion
  show beforeRegion none ls ++ (sectionsAfter (region none ls)).2.flatMap _ = ls
  rw [hregion, beforeRegion, region, List.take_append_drop]

theorem lines_ofText (s : String) : (ofText s).lines = rawLines s.toList := lines_ofLines _

theorem text_ofText (s : String) : (ofText s).text = s := by
  rw [text, lines_ofText, Text.flatten_rawLines, String.ofList_toList]

namespace Proper

variable {l : Layout}

/-- the lines of a proper layout are cut as they stand -/
theorem ofLines_lines (h : l.Proper) : ofLines l.lines = l := by
  obtain ⟨front, ps⟩ := l
  have hcut : (sectionsAfter (ps.flatMap fun p => p.1 :: p.2)).2 = ps := by
    rw [sectionsAfter_flatMap h.headers h.bodies]
  have hstart : regionStart none (front ++ ps.flatMap fun p => p.1 :: p.2) = front.length := by
    cases ps with
    | nil =>
      rw [List.flatMap_nil, List.append_nil]
      exact h.front_closed
    | cons p ps =>
      have hp := h.headers p List.mem_cons_self
      have hb := h.front_blank (List.cons_ne_nil p ps)
      have ho : opensRegion (lineBefore none front) p.1 = true := by
        rw [opensRegion, isKind, hp, hb]
        rfl
      exact regionStart_append h.front_closed ho _
  have hfront : beforeRegion none (front ++ ps.flatMap fun p => p.1 :: p.2) = front := by
    rw [beforeRegion, hstart, List.take_left]
  have hregion : region none (front ++ ps.flatMap fun p => p.1 :: p.2)
      = ps.flatMap fun p => p.1 :: p.2 := by
    rw [region, hstart, List.drop_left]
  rw [ofLines, lines, hfront, hregion, Apidoc.sections, hcut]

theorem map (h : l.Proper) {f : List Char → List Char}
    (hf : ∀ k ∈ l.lines, LineKind.of (f k) = LineKind.of k) : (l.map f).Proper := by
  have hfront : ∀ k ∈ l.front, LineKind.of (f k) = LineKind.of k :=
    fun k hk => hf k (List.mem_append_left _ hk)
  have hsec : ∀ p ∈ l.sections, ∀ k ∈ p.1 :: p.2, LineKind.of (f k) = LineKind.of k :=
    fun p hp k hk => hf k (List.mem_append_right _ (List.mem_flatMap.2 ⟨p, hp, hk⟩))
  refine ⟨?_, fun hne => ?_, fun q hq => ?_, fun q hq k hk => ?_⟩
  · have hstart : regionStart none (l.front.map f) = regionStart none l.front :=
      regionStart_map hfront fun _ hk => absurd hk (Option.not_mem_none _)
    rw [Layout.map, hstart, h.front_closed, List.length_map]
  · have hb := h.front_blank fun h0 => hne (by rw [Layout.map, h0]; rfl)
    show ((l.front.map f).getLast?.or none).all (isKind .blank) = true
    rw [lineBefore, Option.or_none] at hb
    rw [Option.or_none, List.getLast?_map]
    cases hl : l.front.getLast? with
    | none => rfl
    | some k =>
      rw [hl] at hb
      simpa [isKind, hfront k (List.mem_of_getLast? hl)] using hb
  · obtain ⟨p, hp, rfl⟩ := List.mem_map.1 hq
    rw [hsec p hp p.1 List.mem_cons_self]
    exact h.headers p hp
  · obtain ⟨p, hp, rfl⟩ := List.mem_map.1 hq
    obtain ⟨j, hj, rfl⟩ := List.mem_map.1 hk
    rw [hsec p hp j (List.mem_cons_of_mem _ hj)]
    exact h.bodies p hp j hj

/-- parts of the sections may stand in the place of the sections -/
theorem of_parts (h : l.Proper) {ps : List (List Char × List (List Char))}
    (hps : ∀ p ∈ ps, ∃ q ∈ l.sections, p.1 = q.1 ∧ p.2 ⊆ q.2) :
    ({ l with sections := ps } : Layout).Proper := by
  refine ⟨h.front_closed, fun hne => h.front_blank ?_, fun p hp => ?_, fun p hp k hk => ?_⟩
  · obtain ⟨p, hp⟩ := List.exists_mem_of_ne_nil ps hne
    obtain ⟨q, hq, -⟩ := hps p hp
    exact List.ne_nil_of_mem hq
  · obtain ⟨q, hq, he, -⟩ := hps p hp
    rw [he]
    exact h.headers q hq
  · obtain ⟨q, hq, -, hsub⟩ := hps p hp
    exact h.bodies q hq k (hsub hk)

end Proper

/-! ## reading layouts -/

theorem ofLines_map {f : List Char → List Char} {ls : List (List Char)}
    (hf : ∀ k ∈ ls, LineKind.of (f k) = LineKind.of k) :
    ofLines (ls.map f) = (ofLines ls).map f := by
  have hp := (proper_ofLines ls).map (f := f) (by rwa [lines_ofLines])
  rw [← hp.ofLines_lines, lines_map, lines_ofLines]

theorem doc_ofLines (ls : List (List Char)) : (ofLines ls).doc = (Outline.ofLines ls).doc := rfl

theorem kind_unixBreaks {s l : List Char} (h : l ∈ rawLines s) :
    LineKind.of (unixBreaks l) = LineKind.of l :=
  LineKind.of_congr (Text.trim_unixBreaks h)

/-- a docstring says what its lines say, without the carriage returns in their line breaks -/
theorem ofText_eq_doc (s : String) :
    OperationDoc.ofText s = ((ofText s).map unixBreaks).doc := by
  rw [OperationDoc.ofText, OperationDoc.ofChars, reading_eq_outline, Text.rawLines_unixBreaks,
    ← doc_ofLines, ofLines_map fun _ hk => kind_unixBreaks hk, ofText]

/-- the section, if its header is in the vocabulary, and what it is applied to -/
def readSection (p : List Char × List (List Char)) : Option (Section × List Char) :=
  (Section.ofHeader? p.1).map fun sec => (sec, joined (p.2.map unixBreaks))

theorem readSection_of_header {p : List Char × List (List Char)} {sec : Section}
    (h : Section.ofHeader? p.1 = some sec) :
    readSection p = some (sec, joined (p.2.map unixBreaks)) := by
  rw [readSection, h]
  rfl

theorem known_map_unixBreaks {s : List Char} {ps : List (List Char × List (List Char))}
    (h : ∀ p ∈ ps, p.1 ∈ rawLines s) :
    known (ps.map fun p => (unixBreaks p.1, p.2.map unixBreaks)) = ps.filterMap readSection := by
  rw [known, List.filterMap_map]
  refine List.filterMap_congr fun p hp => ?_
  show (Section.ofHeader? (unixBreaks p.1)).map _ = _
  rw [Section.ofHeader?_congr (Text.trim_unixBreaks (h p hp))]
  rfl

/-- the summary and the description -/
def prose (l : Layout) : OperationDoc :=
  Outline.prose (summaryText (l.front.map unixBreaks)) (descriptionText (l.front.map unixBreaks))

/-- **The docstring of a proper layout says what its sections say.** -/
theorem Proper.ofText_text {l : Layout} (h : l.Proper)
    (hl : rawLines l.lines.flatten = l.lines) :
    OperationDoc.ofText l.text = l.prose.applyAll (l.sections.filterMap readSection) := by
  have hof : ofText l.text = l := by
    rw [ofText, text, String.toList_ofList, hl, h.ofLines_lines]
  have hraw : ∀ p ∈ l.sections, p.1 ∈ rawLines l.lines.flatten := by
    intro p hp
    rw [hl]
    exact List.mem_append_right _ (List.mem_flatMap.2 ⟨p, hp, List.mem_cons_self⟩)
  rw [ofText_eq_doc, hof, doc, Layout.map, known_map_unixBreaks hraw, prose]

theorem ofText_eq_applyAll (s : String) :
    OperationDoc.ofText s
      = (ofText s).prose.applyAll ((ofText s).sections.filterMap readSection) := by
  have hl : rawLines (ofText s).lines.flatten = (ofText s).lines := by
    rw [lines_ofText, Text.flatten_rawLines]
  have h := (proper_ofLines (rawLines s.toList)).ofText_text hl
  rwa [← ofText, text_ofText] at h

end Layout

end Apidoc
