import Apidoc.Docstring.Reading
import Apidoc.Proofs.Sections

/-!
# The outline of a docstring

`Reading.step` reads a docstring line by line, with a stage and a buffer.  Here the lines of a
docstring are cut at once, without a state:

* `region`, `beforeRegion`   the section region, which begins with the first header that begins the
  text or follows a blank line, and the lines before it;
* `summaryText`, `descriptionText`   the plain lines before the region, up to the first blank line
  after one of them and from there on;
* `sections`        the region, cut at every header;
* `known`           the sections whose headers are in the vocabulary, each with its lines joined;
* `Outline.ofText`  all of them for a text, and `Outline.doc` what they say.

Main statement: reading a docstring is applying its outline (`ofText_eq_outline`).
-/

namespace Apidoc

open Text (trimStart)

/-! ## the section region -/

def isKind (k : LineKind) (line : List Char) : Bool := LineKind.of line == k

/-- whether a line opens the section region, given the line before it -/
def opensRegion (before : Option (List Char)) (line : List Char) : Bool :=
  isKind .header line && before.all (isKind .blank)

/-- how many lines there are up to the first that opens the region, or all if none does -/
def regionStart (before : Option (List Char)) : List (List Char) → Nat
  | [] => 0
  | l :: ls => if opensRegion before l then 0 else regionStart (some l) ls + 1

def beforeRegion (before : Option (List Char)) (ls : List (List Char)) : List (List Char) :=
  ls.take (regionStart before ls)

def region (before : Option (List Char)) (ls : List (List Char)) : List (List Char) :=
  ls.drop (regionStart before ls)

/-! ## summary and description -/

/-- lines one after the other, without the blanks in front of each -/
def joined (ls : List (List Char)) : List Char := (ls.map trimStart).flatten

def plainText (ls : List (List Char)) : List Char := joined (ls.filter (isKind .plain))

/-- the lines from the first plain one on -/
def fromPlain (ls : List (List Char)) : List (List Char) :=
  ls.dropWhile fun l => !isKind .plain l

/-- the lines up to the first blank one -/
def paragraph (ls : List (List Char)) : List (List Char) :=
  ls.takeWhile fun l => !isKind .blank l

def afterParagraph (ls : List (List Char)) : List (List Char) :=
  ls.dropWhile fun l => !isKind .blank l

/-- the plain lines up to the first blank line after one of them -/
def summaryText (ls : List (List Char)) : List Char := plainText (paragraph (fromPlain ls))

/-- all later plain lines -/
def descriptionText (ls : List (List Char)) : List Char := plainText (afterParagraph (fromPlain ls))

/-! ## sections -/

/-- the lines up to the first header, and the headers from there on, each with the lines up to the
next one -/
def sectionsAfter : List (List Char) → List (List Char) × List (List Char × List (List Char))
  | [] => ([], [])
  | l :: ls =>
    let (body, rest) := sectionsAfter ls
    if isKind .header l then ([], (l, body) :: rest) else (l :: body, rest)

def sections (ls : List (List Char)) : List (List Char × List (List Char)) := (sectionsAfter ls).2

/-- the sections that the vocabulary knows, each with what it is applied to -/
def known (ps : List (List Char × List (List Char))) : List (Section × List Char) :=
  ps.filterMap fun (header, body) => (Section.ofHeader? header).map fun sec => (sec, joined body)

/-! ## outlines -/

structure Outline where
  summary : List Char
  description : List Char
  sections : List (Section × List Char)

namespace Outline

def ofLines (ls : List (List Char)) : Outline :=
  { summary := summaryText (beforeRegion none ls)
    description := descriptionText (beforeRegion none ls)
    sections := known (Apidoc.sections (region none ls)) }

def ofText (s : String) : Outline := ofLines (Text.rawLines (Text.unixBreaks s.toList))

/-- a documentation with nothing but a summary and a description -/
def prose (summary description : List Char) : OperationDoc :=
  { summary := .ofList summary, description := .ofList description }

def doc (o : Outline) : OperationDoc := (prose o.summary o.description).applyAll o.sections

end Outline

/-! ## laws of the cuts -/

theorem sectionsAfter_nil : sectionsAfter [] = ([], []) := rfl

theorem sectionsAfter_of_header {l : List Char} (h : LineKind.of l = .header)
    (ls : List (List Char)) :
    sectionsAfter (l :: ls) = ([], (l, (sectionsAfter ls).1) :: (sectionsAfter ls).2) := by
  simp [sectionsAfter, isKind, h]

theorem sectionsAfter_of_ne {l : List Char} (h : LineKind.of l ≠ .header)
    (ls : List (List Char)) :
    sectionsAfter (l :: ls) = (l :: (sectionsAfter ls).1, (sectionsAfter ls).2) := by
  simp [sectionsAfter, isKind, h]

/-- the cut loses no line and moves none -/
theorem flatten_sectionsAfter (ls : List (List Char)) :
    (sectionsAfter ls).1 ++ ((sectionsAfter ls).2.map fun (h, body) => h :: body).flatten = ls := by
  induction ls with
  | nil => rfl
  | cons l ls ih =>
    by_cases h : LineKind.of l = .header
    · rw [sectionsAfter_of_header h]
      simpa using ih
    · rw [sectionsAfter_of_ne h]
      simpa using ih

theorem joined_nil : joined [] = [] := rfl

theorem joined_cons (l : List Char) (ls : List (List Char)) :
    joined (l :: ls) = trimStart l ++ joined ls := rfl

theorem plainText_nil : plainText [] = [] := rfl

theorem plainText_of_plain {l : List Char} (h : LineKind.of l = .plain) (ls : List (List Char)) :
    plainText (l :: ls) = trimStart l ++ plainText ls := by
  simp [plainText, isKind, h, joined_cons]

theorem plainText_of_ne {l : List Char} (h : LineKind.of l ≠ .plain) (ls : List (List Char)) :
    plainText (l :: ls) = plainText ls := by
  simp [plainText, isKind, h]

section
variable {l : List Char} (ls : List (List Char))

theorem fromPlain_of_plain (h : LineKind.of l = .plain) : fromPlain (l :: ls) = l :: ls := by
  simp [fromPlain, isKind, h]

theorem fromPlain_of_ne (h : LineKind.of l ≠ .plain) : fromPlain (l :: ls) = fromPlain ls := by
  simp [fromPlain, isKind, h]

theorem paragraph_of_blank (h : LineKind.of l = .blank) : paragraph (l :: ls) = [] := by
  simp [paragraph, isKind, h]

theorem paragraph_of_ne (h : LineKind.of l ≠ .blank) : paragraph (l :: ls) = l :: paragraph ls := by
  simp [paragraph, isKind, h]

theorem afterParagraph_of_blank (h : LineKind.of l = .blank) :
    afterParagraph (l :: ls) = l :: ls := by
  simp [afterParagraph, isKind, h]

theorem afterParagraph_of_ne (h : LineKind.of l ≠ .blank) :
    afterParagraph (l :: ls) = afterParagraph ls := by
  simp [afterParagraph, isKind, h]

variable {before : Option (List Char)}

theorem beforeRegion_of_opens (h : opensRegion before l = true) :
    beforeRegion before (l :: ls) = [] := by
  simp [beforeRegion, regionStart, h]

theorem region_of_opens (h : opensRegion before l = true) : region before (l :: ls) = l :: ls := by
  simp [region, regionStart, h]

theorem beforeRegion_of_not_opens (h : opensRegion before l = false) :
    beforeRegion before (l :: ls) = l :: beforeRegion (some l) ls := by
  simp [beforeRegion, regionStart, h]

theorem region_of_not_opens (h : opensRegion before l = false) :
    region before (l :: ls) = region (some l) ls := by
  simp [region, regionStart, h]

end

theorem opensRegion_after_blank {before l : List Char} (hb : LineKind.of before = .blank)
    (hl : LineKind.of l = .header) : opensRegion (some before) l = true := by
  simp [opensRegion, isKind, hb, hl]

theorem opensRegion_after_ne {before : List Char} (hb : LineKind.of before ≠ .blank)
    (l : List Char) : opensRegion (some before) l = false := by
  simp [opensRegion, isKind, hb]

theorem opensRegion_of_ne {l : List Char} (h : LineKind.of l ≠ .header)
    (before : Option (List Char)) : opensRegion before l = false := by
  simp [opensRegion, isKind, h]

/-- a section that the vocabulary does not know contributes nothing -/
theorem applyAll_known_cons (d : OperationDoc) (header : List Char) (body : List (List Char))
    (ps : List (List Char × List (List Char))) :
    d.applyAll (known ((header, body) :: ps))
      = (Reading.addSection d header (joined body)).applyAll (known ps) := by
  cases h : Section.ofHeader? header with
  | none => simp [known, Reading.addSection, h]
  | some sec => simp [known, Reading.addSection, h, OperationDoc.applyAll_cons]

/-! ## reading -/

/-- within the region the buffer of the stage goes in front of the lines up to the next header -/
theorem finish_inSection (ls : List (List Char)) (h b : List Char) (d : OperationDoc) :
    (ls.foldl Reading.step ⟨.inSection h b, d⟩).finish
      = (Reading.addSection d h (b ++ joined (sectionsAfter ls).1)).applyAll
          (known (sectionsAfter ls).2) := by
  induction ls generalizing h b d with
  | nil => simp [sectionsAfter_nil, joined_nil, Reading.finish, known, OperationDoc.applyAll_nil]
  | cons l ls ih =>
    by_cases hl : LineKind.of l = .header
    · have hs : Reading.step ⟨.inSection h b, d⟩ l
          = ⟨.inSection l [], Reading.addSection d h b⟩ := by
        simp [Reading.step, hl]
      rw [List.foldl_cons, hs, ih, sectionsAfter_of_header hl, joined_nil, List.append_nil,
        applyAll_known_cons, List.nil_append]
    · have hs : Reading.step ⟨.inSection h b, d⟩ l
          = ⟨.inSection h (b ++ trimStart l), d⟩ := by
        cases hk : LineKind.of l with
        | header => exact absurd hk hl
        | blank => simp [Reading.step, hk]
        | plain => simp [Reading.step, hk]
      rw [List.foldl_cons, hs, ih, sectionsAfter_of_ne hl, joined_cons, List.append_assoc]

/-- a header that opens the region begins the first section -/
theorem finish_at_header {l : List Char} (hl : LineKind.of l = .header) (ls : List (List Char))
    (d : OperationDoc) :
    (ls.foldl Reading.step ⟨.inSection l [], d⟩).finish
      = d.applyAll (known (sections (l :: ls))) := by
  rw [finish_inSection, sections, sectionsAfter_of_header hl, applyAll_known_cons, List.nil_append]

/-- The stages after the summary, given the line before and the text that is not yet part of the
description. -/
inductive AfterSummary : List Char → List Char → Stage → Prop
  | between {before : List Char} (h : LineKind.of before = .blank) :
      AfterSummary before [] .between
  | description {before : List Char} (h : LineKind.of before ≠ .blank) (b : List Char) :
      AfterSummary before b (.description b)

theorem prose_nil : Outline.prose [] [] = {} := rfl

theorem addParagraph_prose (s t b : List Char) :
    Reading.addParagraph (Outline.prose s t) b = Outline.prose s (t ++ b) := by
  simp [Reading.addParagraph, Outline.prose, String.ofList_append]

/-- What remains of the text after the summary: paragraphs, and the section region.  The
induction goes through both stages at once, since either leads to the other. -/
theorem finish_afterSummary (ls : List (List Char)) {before b : List Char} {stage : Stage}
    (hst : AfterSummary before b stage) (s t : List Char) :
    (ls.foldl Reading.step ⟨stage, Outline.prose s t⟩).finish
      = (Outline.prose s (t ++ b ++ plainText (beforeRegion (some before) ls))).applyAll
          (known (sections (region (some before) ls))) := by
  induction ls generalizing before b stage t with
  | nil =>
    cases hst with
    | between _ =>
      show Outline.prose s t = Outline.prose s (t ++ [] ++ [])
      rw [List.append_nil, List.append_nil]
    | description _ b =>
      show Reading.addParagraph (Outline.prose s t) b = Outline.prose s (t ++ b ++ [])
      rw [addParagraph_prose, List.append_nil]
  | cons l ls ih =>
    cases hst with
    | between hb =>
      cases hl : LineKind.of l with
      | header =>
        have hs : Reading.step ⟨.between, Outline.prose s t⟩ l
            = ⟨.inSection l [], Outline.prose s t⟩ := by
          simp [Reading.step, hl]
        have ho := opensRegion_after_blank hb hl
        rw [List.foldl_cons, hs, finish_at_header hl, beforeRegion_of_opens ls ho,
          region_of_opens ls ho, plainText_nil, List.append_nil, List.append_nil]
      | blank =>
        have hs : Reading.step ⟨.between, Outline.prose s t⟩ l = ⟨.between, Outline.prose s t⟩ := by
          simp [Reading.step, hl]
        have ho := opensRegion_of_ne (l := l) (by simp [hl]) (some before)
        rw [List.foldl_cons, hs, ih (.between hl), beforeRegion_of_not_opens ls ho,
          region_of_not_opens ls ho, plainText_of_ne (by simp [hl])]
      | plain =>
        have hs : Reading.step ⟨.between, Outline.prose s t⟩ l
            = ⟨.description (trimStart l), Outline.prose s t⟩ := by
          simp [Reading.step, hl]
        have ho := opensRegion_of_ne (l := l) (by simp [hl]) (some before)
        have hn : LineKind.of l ≠ .blank := by simp [hl]
        rw [List.foldl_cons, hs, ih (.description hn _), beforeRegion_of_not_opens ls ho,
          region_of_not_opens ls ho, plainText_of_plain hl, List.append_nil, List.append_assoc]
    | description hb b =>
      have ho := opensRegion_after_ne hb l
      rw [beforeRegion_of_not_opens ls ho, region_of_not_opens ls ho]
      cases hl : LineKind.of l with
      | header =>
        have hs : Reading.step ⟨.description b, Outline.prose s t⟩ l
            = ⟨.description b, Outline.prose s t⟩ := by
          simp [Reading.step, hl]
        have hn : LineKind.of l ≠ .blank := by simp [hl]
        rw [List.foldl_cons, hs, ih (.description hn b), plainText_of_ne (by simp [hl])]
      | blank =>
        have hs : Reading.step ⟨.description b, Outline.prose s t⟩ l
            = ⟨.between, Outline.prose s (t ++ b)⟩ := by
          simp [Reading.step, hl, addParagraph_prose]
        rw [List.foldl_cons, hs, ih (.between hl), plainText_of_ne (by simp [hl]),
          List.append_nil]
      | plain =>
        have hs : Reading.step ⟨.description b, Outline.prose s t⟩ l
            = ⟨.description (b ++ trimStart l), Outline.prose s t⟩ := by
          simp [Reading.step, hl]
        have hn : LineKind.of l ≠ .blank := by simp [hl]
        rw [List.foldl_cons, hs, ih (.description hn _), plainText_of_plain hl, List.append_assoc,
          List.append_assoc, List.append_assoc]

/-- within the first paragraph, whose lines so far are in `b` -/
theorem finish_summary (ls : List (List Char)) {before : List Char}
    (hb : LineKind.of before ≠ .blank) (b : List Char) :
    (ls.foldl Reading.step ⟨.summary b, Outline.prose [] []⟩).finish
      = (Outline.prose (b ++ plainText (paragraph (beforeRegion (some before) ls)))
            (plainText (afterParagraph (beforeRegion (some before) ls)))).applyAll
          (known (sections (region (some before) ls))) := by
  induction ls generalizing before b with
  | nil =>
    show Outline.prose b [] = Outline.prose (b ++ []) []
    rw [List.append_nil]
  | cons l ls ih =>
    have ho := opensRegion_after_ne hb l
    rw [beforeRegion_of_not_opens ls ho, region_of_not_opens ls ho]
    cases hl : LineKind.of l with
    | header =>
      have hs : Reading.step ⟨.summary b, Outline.prose [] []⟩ l
          = ⟨.summary b, Outline.prose [] []⟩ := by
        simp [Reading.step, hl]
      have hn : LineKind.of l ≠ .blank := by simp [hl]
      rw [List.foldl_cons, hs, ih hn, paragraph_of_ne _ hn, afterParagraph_of_ne _ hn,
        plainText_of_ne (by simp [hl])]
    | blank =>
      have hs : Reading.step ⟨.summary b, Outline.prose [] []⟩ l
          = ⟨.between, Outline.prose b []⟩ := by
        simp [Reading.step, hl, Reading.addSummary, Outline.prose]
      rw [List.foldl_cons, hs, finish_afterSummary ls (.between hl), paragraph_of_blank _ hl,
        afterParagraph_of_blank _ hl, plainText_nil, plainText_of_ne (by simp [hl]),
        List.append_nil, List.append_nil, List.nil_append]
    | plain =>
      have hs : Reading.step ⟨.summary b, Outline.prose [] []⟩ l
          = ⟨.summary (b ++ trimStart l), Outline.prose [] []⟩ := by
        simp [Reading.step, hl]
      have hn : LineKind.of l ≠ .blank := by simp [hl]
      rw [List.foldl_cons, hs, ih hn, paragraph_of_ne _ hn, afterParagraph_of_ne _ hn,
        plainText_of_plain hl, List.append_assoc]

/-- before the summary, where there was no line so far, or only blank ones -/
theorem finish_start (ls : List (List Char)) {before : Option (List Char)}
    (hb : before.all (isKind .blank) = true) :
    (ls.foldl Reading.step ⟨.start, Outline.prose [] []⟩).finish
      = (Outline.prose (summaryText (beforeRegion before ls))
            (descriptionText (beforeRegion before ls))).applyAll
          (known (sections (region before ls))) := by
  induction ls generalizing before with
  | nil => rfl
  | cons l ls ih =>
    cases hl : LineKind.of l with
    | header =>
      have hs : Reading.step ⟨.start, Outline.prose [] []⟩ l
          = ⟨.inSection l [], Outline.prose [] []⟩ := by
        simp [Reading.step, hl]
      have ho : opensRegion before l = true := by simp [opensRegion, isKind, hl, hb]
      rw [List.foldl_cons, hs, finish_at_header hl, beforeRegion_of_opens ls ho,
        region_of_opens ls ho]
      rfl
    | blank =>
      have hs : Reading.step ⟨.start, Outline.prose [] []⟩ l = ⟨.start, Outline.prose [] []⟩ := by
        simp [Reading.step, hl]
      have ho := opensRegion_of_ne (l := l) (by simp [hl]) before
      have hb' : (some l).all (isKind .blank) = true := by simp [isKind, hl]
      rw [List.foldl_cons, hs, ih hb', beforeRegion_of_not_opens ls ho, region_of_not_opens ls ho,
        summaryText, summaryText, descriptionText, descriptionText,
        fromPlain_of_ne _ (by simp [hl])]
    | plain =>
      have hs : Reading.step ⟨.start, Outline.prose [] []⟩ l
          = ⟨.summary (trimStart l), Outline.prose [] []⟩ := by
        simp [Reading.step, hl]
      have ho := opensRegion_of_ne (l := l) (by simp [hl]) before
      have hn : LineKind.of l ≠ .blank := by simp [hl]
      rw [List.foldl_cons, hs, finish_summary ls hn, beforeRegion_of_not_opens ls ho,
        region_of_not_opens ls ho, summaryText, descriptionText, fromPlain_of_plain _ hl,
        paragraph_of_ne _ hn, afterParagraph_of_ne _ hn, plainText_of_plain hl]

theorem reading_eq_outline (ls : List (List Char)) :
    (ls.foldl Reading.step {}).finish = (Outline.ofLines ls).doc := by
  have hnone : (none : Option (List Char)).all (isKind .blank) = true := rfl
  have h := finish_start ls hnone
  rw [prose_nil] at h
  rw [h, Outline.doc, Outline.ofLines]

/-- **Reading a docstring is applying its outline.** -/
theorem OperationDoc.ofText_eq_outline (s : String) :
    OperationDoc.ofText s = (Outline.ofText s).doc := by
  rw [OperationDoc.ofText, OperationDoc.ofChars, reading_eq_outline, Outline.ofText]

end Apidoc
