import Mathlib.Logic.Relation
import Apidoc.Proofs.Layout

/-!
# Spacing

A docstring says the same whatever its spacing is.

* `HasRoom`         where a further blank line may stand: beside another one, or in the section
  region;
* `Respaced`        one change of the spacing: spaces and tabs in front of a line, a further blank
  line, or a carriage return before every line feed;
* `Reading.pause`   what a blank line does to a reading.

A reading that is paused, or within a section, passes over blank lines (`step_blank`,
`pause_pause`), and what is read is the same for all lines with the same text behind their
leading blanks (`doc_map_trimStart`).

Main statement: any number of changes of the spacing leaves what a docstring says as it is
(`ofText_of_respaced`).
-/

namespace Apidoc

open Text (trim trimStart rawLines unixBreaks IsEnded IsPadding)

/-! ## padding and line breaks -/

namespace Text

theorem IsPadding.no_feed {pad : List Char} (h : IsPadding pad) : '\n' ∉ pad :=
  h.not_mem (by decide) (by decide)

theorem IsPadding.no_return {pad : List Char} (h : IsPadding pad) : '\r' ∉ pad :=
  h.not_mem (by decide) (by decide)

theorem IsPadding.isEnded {pad : List Char} (h : IsPadding pad) : IsEnded (pad ++ ['\n']) :=
  isEnded_concat h.no_feed

/-- what has no line feed and stands in front of a text is part of the first line -/
theorem rawLines_append_of_no_feed {a : List Char} (ha : '\n' ∉ a) {s l : List Char}
    {ls : List (List Char)} (h : rawLines s = l :: ls) : rawLines (a ++ s) = (a ++ l) :: ls := by
  induction a with
  | nil => exact h
  | cons c a ih =>
    obtain ⟨hc, ha'⟩ := not_or.1 (mt List.mem_cons.2 ha)
    rw [List.cons_append, rawLines, if_neg (Ne.symm hc), ih ha']
    rfl

theorem unixBreaks_padding_append {pad : List Char} (h : IsPadding pad) (l : List Char) :
    unixBreaks (pad ++ l) = pad ++ unixBreaks l := by
  rw [unixBreaks_append fun hr => absurd (List.mem_of_getLast? hr) h.no_return,
    unixBreaks_of_no_feed h.no_feed]

/-- a carriage return before every line feed -/
def returnBreaks (s : List Char) : List Char :=
  s.flatMap fun c => if c = '\n' then ['\r', '\n'] else [c]

theorem unixBreaks_returnBreaks {s : List Char} (h : '\r' ∉ s) :
    unixBreaks (returnBreaks s) = s := by
  induction s with
  | nil => rfl
  | cons c s ih =>
    obtain ⟨hc, hs⟩ := not_or.1 (mt List.mem_cons.2 h)
    have hcut : returnBreaks (c :: s)
        = (if c = '\n' then ['\r', '\n'] else [c]) ++ returnBreaks s := List.flatMap_cons
    rw [hcut]
    split
    next he => rw [unixBreaks_append (by simp), ih hs, he]; rfl
    next he =>
      have hlast : [c].getLast? = some '\r' → (returnBreaks s).head? ≠ some '\n' := by
        simp [Ne.symm hc]
      rw [unixBreaks_append hlast, ih hs, unixBreaks_of_no_feed (by simpa using Ne.symm he)]
      rfl

end Text

/-! ## blanks in front of lines -/

theorem trim_trimStart (l : List Char) : trim (trimStart l) = trim l := by
  rw [trim, Text.trimStart_trimStart, trim]

theorem isKind_trimStart (k : LineKind) (l : List Char) : isKind k (trimStart l) = isKind k l := by
  rw [isKind, isKind, LineKind.of_congr (trim_trimStart l)]

theorem not_isKind_comp_trimStart (k : LineKind) :
    (fun l => !isKind k l) ∘ trimStart = fun l => !isKind k l :=
  funext fun l => congrArg not (isKind_trimStart k l)

section
variable (ls : List (List Char))

theorem joined_map_trimStart : joined (ls.map trimStart) = joined ls := by
  have hf : trimStart ∘ trimStart = trimStart := funext Text.trimStart_trimStart
  rw [joined, joined, List.map_map, hf]

theorem plainText_map_trimStart : plainText (ls.map trimStart) = plainText ls := by
  have hk : isKind .plain ∘ trimStart = isKind .plain := funext (isKind_trimStart .plain)
  rw [plainText, plainText, List.filter_map, hk, joined_map_trimStart]

theorem fromPlain_map_trimStart : fromPlain (ls.map trimStart) = (fromPlain ls).map trimStart := by
  rw [fromPlain, fromPlain, List.dropWhile_map, not_isKind_comp_trimStart]

theorem paragraph_map_trimStart : paragraph (ls.map trimStart) = (paragraph ls).map trimStart := by
  rw [paragraph, paragraph, List.takeWhile_map, not_isKind_comp_trimStart]

theorem afterParagraph_map_trimStart :
    afterParagraph (ls.map trimStart) = (afterParagraph ls).map trimStart := by
  rw [afterParagraph, afterParagraph, List.dropWhile_map, not_isKind_comp_trimStart]

theorem summaryText_map_trimStart : summaryText (ls.map trimStart) = summaryText ls := by
  rw [summaryText, summaryText, fromPlain_map_trimStart, paragraph_map_trimStart,
    plainText_map_trimStart]

theorem descriptionText_map_trimStart :
    descriptionText (ls.map trimStart) = descriptionText ls := by
  rw [descriptionText, descriptionText, fromPlain_map_trimStart, afterParagraph_map_trimStart,
    plainText_map_trimStart]

end

theorem known_map_trimStart (ps : List (List Char × List (List Char))) :
    known (ps.map fun p => (trimStart p.1, p.2.map trimStart)) = known ps := by
  rw [known, known, List.filterMap_map]
  refine List.filterMap_congr fun p _ => ?_
  show (Section.ofHeader? (trimStart p.1)).map _ = _
  rw [Section.ofHeader?_congr (trim_trimStart p.1), joined_map_trimStart]

theorem Layout.doc_map_trimStart (l : Layout) : (l.map trimStart).doc = l.doc := by
  rw [Layout.doc, Layout.map, summaryText_map_trimStart, descriptionText_map_trimStart,
    known_map_trimStart, Layout.doc]

/-- what is read depends on the texts behind the leading blanks only -/
theorem finish_congr {ls ks : List (List Char)} (h : ls.map trimStart = ks.map trimStart) :
    (ls.foldl Reading.step {}).finish = (ks.foldl Reading.step {}).finish := by
  have hdoc : ∀ ls : List (List Char),
      (ls.foldl Reading.step {}).finish = (Layout.ofLines (ls.map trimStart)).doc := by
    intro ls
    rw [reading_eq_outline, Layout.ofLines_map fun l _ => LineKind.of_congr (trim_trimStart l),
      Layout.doc_map_trimStart, Layout.doc_ofLines]
  rw [hdoc, hdoc, h]

/-! ## blank lines -/

namespace Reading

/-- a blank line ends a paragraph -/
def pause (r : Reading) : Reading :=
  match r.stage with
  | .summary b => ⟨.between, addSummary r.doc b⟩
  | .description b => ⟨.between, addParagraph r.doc b⟩
  | _ => r

def InSection (r : Reading) : Prop := ∃ h b, r.stage = .inSection h b

variable {r : Reading} {l : List Char}

theorem pause_pause (r : Reading) : r.pause.pause = r.pause := by
  obtain ⟨stage, d⟩ := r
  cases stage <;> rfl

theorem InSection.pause_eq (h : r.InSection) : r.pause = r := by
  obtain ⟨header, b, hs⟩ := h
  rw [pause, hs]

theorem step_blank (hl : LineKind.of l = .blank) : r.step l = r.pause := by
  have ht : trimStart l = [] := by
    rw [Text.trimStart_eq_nil_iff]
    cases hb : Text.allBlank l with
    | true => rfl
    | false =>
      rw [LineKind.of, hb] at hl
      cases hh : isHeader l <;> simp [hh] at hl
  obtain ⟨stage, d⟩ := r
  cases stage <;> simp [step, pause, hl, ht]

theorem step_pause (hl : LineKind.of l = .blank) : (r.step l).pause = r.step l := by
  rw [step_blank hl, pause_pause]

theorem InSection.step (h : r.InSection) (l : List Char) : (r.step l).InSection := by
  obtain ⟨header, b, hs⟩ := h
  obtain ⟨stage, d⟩ := r
  obtain rfl : stage = .inSection header b := hs
  cases hl : LineKind.of l with
  | header => exact ⟨l, [], by simp [Reading.step, hl]⟩
  | blank => exact ⟨header, b ++ trimStart l, by simp [Reading.step, hl]⟩
  | plain => exact ⟨header, b ++ trimStart l, by simp [Reading.step, hl]⟩

/-- a header that follows a blank line, or begins the text, begins a section -/
theorem step_header (hr : r.pause = r) (hl : LineKind.of l = .header) : (r.step l).InSection := by
  obtain ⟨stage, d⟩ := r
  cases stage with
  | start => exact ⟨l, [], by simp [Reading.step, hl]⟩
  | summary b => exact absurd (congrArg stage hr) (by simp [pause])
  | between => exact ⟨l, [], by simp [Reading.step, hl]⟩
  | description b => exact absurd (congrArg stage hr) (by simp [pause])
  | inSection h b => exact InSection.step ⟨h, b, rfl⟩ l

theorem InSection.foldl (h : r.InSection) (ls : List (List Char)) :
    (ls.foldl Reading.step r).InSection := by
  induction ls generalizing r with
  | nil => exact h
  | cons l ls ih => exact ih (h.step l)

/-- Behind a line that opens the region the reading is within a section.  What the induction
carries is that a reading is paused where the line before it is blank or missing. -/
theorem inSection_foldl {before : Option (List Char)} {front back : List (List Char)}
    (hf : regionStart before (front ++ back) < front.length)
    (hr : before.all (isKind .blank) = true → r.pause = r) :
    (front.foldl Reading.step r).InSection := by
  induction front generalizing r before with
  | nil => exact absurd hf (Nat.not_lt_zero _)
  | cons l front ih =>
    rw [List.cons_append, regionStart] at hf
    rw [List.foldl_cons]
    cases ho : opensRegion before l with
    | true =>
      have hblank : before.all (isKind .blank) = true := by
        rw [opensRegion, Bool.and_eq_true] at ho
        exact ho.2
      exact (step_header (hr hblank) (kind_of_opens ho)).foldl front
    | false =>
      have hrest : regionStart (some l) (front ++ back) < front.length := by
        simpa [ho] using hf
      exact ih hrest fun hb => step_pause (beq_iff_eq.1 hb)

end Reading

/-- a blank line that is not the last line without a line feed -/
def IsBlankLine (l : List Char) : Prop := IsEnded l ∧ LineKind.of l = .blank

/-- Between these lines there is room for a blank line. -/
inductive HasRoom (front back : List (List Char)) : Prop
  | after {l : List Char} (hl : IsBlankLine l) (h : front.getLast? = some l)
  | before {l : List Char} (hl : IsBlankLine l) (h : back.head? = some l)
  /-- behind the header that opens the region, but not behind all lines -/
  | inRegion (h : regionStart none (front ++ back) < front.length) (hb : back ≠ [])

namespace HasRoom

variable {front back : List (List Char)}

theorem isEnded (h : HasRoom front back) {s : List Char} (hs : rawLines s = front ++ back) :
    (∀ l ∈ front, IsEnded l) ∧ rawLines back.flatten = back := by
  by_cases hb : back = []
  · subst hb
    cases h with
    | after hl hlast =>
      obtain ⟨init, rfl⟩ := List.getLast?_eq_some_iff.1 hlast
      rw [List.append_nil] at hs
      obtain ⟨hinit, -⟩ := Text.rawLines_eq_append hs (List.cons_ne_nil _ _)
      refine ⟨fun k hk => ?_, rfl⟩
      rcases List.mem_append.1 hk with hk | hk
      · exact hinit k hk
      · rw [List.mem_singleton.1 hk]
        exact hl.1
    | before _ hhead => cases hhead
    | inRegion _ hne => exact absurd rfl hne
  · exact Text.rawLines_eq_append hs hb

/-- a blank line is passed over where there is room for it -/
theorem foldl_step (h : HasRoom front back) {f : List Char → List Char}
    (hf : ∀ l ∈ front ++ back, LineKind.of (f l) = LineKind.of l) {b : List Char}
    (hb : LineKind.of b = .blank) :
    (front.map f ++ b :: back.map f).foldl Reading.step {}
      = (front.map f ++ back.map f).foldl Reading.step {} := by
  rw [List.foldl_append, List.foldl_append, List.foldl_cons, Reading.step_blank hb]
  cases h with
  | @after l hl hlast =>
    obtain ⟨init, rfl⟩ := List.getLast?_eq_some_iff.1 hlast
    have hk : LineKind.of (f l) = .blank := by rw [hf l (by simp), hl.2]
    rw [List.map_append, List.map_singleton, List.foldl_append, List.foldl_cons, List.foldl_nil,
      Reading.step_pause hk]
  | @before l hl hhead =>
    obtain ⟨rest, rfl⟩ := List.head?_eq_some_iff.1 hhead
    have hk : LineKind.of (f l) = .blank := by rw [hf l (by simp), hl.2]
    rw [List.map_cons, List.foldl_cons, List.foldl_cons, Reading.step_blank hk,
      Reading.step_blank hk, Reading.pause_pause]
  | inRegion hstart _ =>
    have hmap : regionStart none (front.map f ++ back.map f) < (front.map f).length := by
      have hsame : regionStart none ((front ++ back).map f) = regionStart none (front ++ back) :=
        regionStart_map hf fun _ hk => absurd hk (Option.not_mem_none _)
      rwa [← List.map_append, hsame, List.length_map]
    have hin : ((front.map f).foldl Reading.step {}).InSection :=
      Reading.inSection_foldl hmap fun _ => rfl
    rw [hin.pause_eq]

end HasRoom

/-! ## changes of the spacing -/

/-- One change of the spacing of a text. -/
inductive Respaced : List Char → List Char → Prop
  | indent {s line pad : List Char} {front back : List (List Char)}
      (hs : rawLines s = front ++ line :: back) (hp : IsPadding pad) :
      Respaced s (front ++ (pad ++ line) :: back).flatten
  | blankLine {s pad : List Char} {front back : List (List Char)}
      (hs : rawLines s = front ++ back) (hp : IsPadding pad) (hroom : HasRoom front back) :
      Respaced s (front ++ (pad ++ ['\n']) :: back).flatten
  | returns {s : List Char} (hs : '\r' ∉ s) : Respaced s (Text.returnBreaks s)

theorem ofChars_eq_finish {s : List Char} {ls : List (List Char)} (h : rawLines s = ls) :
    OperationDoc.ofChars s = ((ls.map unixBreaks).foldl Reading.step {}).finish := by
  rw [OperationDoc.ofChars, Text.rawLines_unixBreaks, h]

section
variable {s pad : List Char} {front back : List (List Char)}

theorem ofChars_indent {line : List Char} (hs : rawLines s = front ++ line :: back)
    (hp : IsPadding pad) :
    OperationDoc.ofChars (front ++ (pad ++ line) :: back).flatten = OperationDoc.ofChars s := by
  obtain ⟨hfront, hrest⟩ := Text.rawLines_eq_append hs (List.cons_ne_nil line back)
  have hlines : rawLines (front ++ (pad ++ line) :: back).flatten
      = front ++ (pad ++ line) :: back := by
    rw [List.flatten_append, Text.rawLines_flatten_append hfront, List.flatten_cons,
      List.append_assoc, ← List.flatten_cons, Text.rawLines_append_of_no_feed hp.no_feed hrest]
  have hline : trimStart (unixBreaks (pad ++ line)) = trimStart (unixBreaks line) := by
    rw [Text.unixBreaks_padding_append hp, Text.trimStart_append_of_blank hp.blank]
  rw [ofChars_eq_finish hlines, ofChars_eq_finish hs]
  refine finish_congr ?_
  simp only [List.map_append, List.map_cons, hline]

theorem ofChars_blankLine (hs : rawLines s = front ++ back) (hp : IsPadding pad)
    (hroom : HasRoom front back) :
    OperationDoc.ofChars (front ++ (pad ++ ['\n']) :: back).flatten = OperationDoc.ofChars s := by
  obtain ⟨hfront, hback⟩ := hroom.isEnded hs
  have hlines : rawLines (front ++ (pad ++ ['\n']) :: back).flatten
      = front ++ (pad ++ ['\n']) :: back := by
    rw [List.flatten_append, Text.rawLines_flatten_append hfront, List.flatten_cons,
      Text.rawLines_isEnded_append hp.isEnded, hback]
  have hkinds : ∀ l ∈ front ++ back, LineKind.of (unixBreaks l) = LineKind.of l := by
    intro l hl
    rw [← hs] at hl
    exact Layout.kind_unixBreaks hl
  have hblank : LineKind.of (unixBreaks (pad ++ ['\n'])) = .blank := by
    have hb : Text.allBlank (pad ++ ['\n']) = true := by
      rw [Text.allBlank, List.all_append, Bool.and_eq_true]
      exact ⟨List.all_eq_true.2 hp.blank, rfl⟩
    rw [Text.unixBreaks_padding_append hp]
    show LineKind.of (pad ++ ['\n']) = .blank
    rw [LineKind.of, hb]
    rfl
  rw [ofChars_eq_finish hlines, ofChars_eq_finish hs, List.map_append, List.map_append,
    List.map_cons, hroom.foldl_step hkinds hblank]

end

theorem Respaced.ofChars_eq {s t : List Char} (h : Respaced s t) :
    OperationDoc.ofChars t = OperationDoc.ofChars s := by
  cases h with
  | indent hs hp => exact ofChars_indent hs hp
  | blankLine hs hp hroom => exact ofChars_blankLine hs hp hroom
  | returns hs =>
    rw [OperationDoc.ofChars, OperationDoc.ofChars, Text.unixBreaks_returnBreaks hs,
      Text.unixBreaks_of_no_return hs]

theorem ofChars_eq_of_respaced {s t : List Char} (h : Relation.ReflTransGen Respaced s t) :
    OperationDoc.ofChars t = OperationDoc.ofChars s := by
  induction h with
  | refl => rfl
  | tail _ hstep ih => rw [hstep.ofChars_eq, ih]

/-- **The spacing of a docstring does not matter.** -/
theorem OperationDoc.ofText_of_respaced {s t : String}
    (h : Relation.ReflTransGen Respaced s.toList t.toList) :
    OperationDoc.ofText t = OperationDoc.ofText s := by
  rw [OperationDoc.ofText, OperationDoc.ofText, ofChars_eq_of_respaced h]

def petQuery : String := "Find pets.\n\nQuery Params:\n  q -- words\n"

def petQueryRespaced : String := "Find pets.\r\n\r\n\tQuery Params:\r\n \r\n  q -- words\r\n"

/-- a tab in front of the header, a blank line behind it, and carriage returns -/
theorem respaced_petQuery :
    Relation.ReflTransGen Respaced petQuery.toList petQueryRespaced.toList := by
  let indented := "Find pets.\n\n\tQuery Params:\n  q -- words\n".toList
  let spread := "Find pets.\n\n\tQuery Params:\n \n  q -- words\n".toList
  have hindent : Respaced petQuery.toList indented := by
    have hs : rawLines petQuery.toList
        = ["Find pets.\n".toList, ['\n']]
          ++ "Query Params:\n".toList :: ["  q -- words\n".toList] := by
      decide
    have hp : IsPadding ['\t'] := fun c hc => .inr (List.mem_singleton.1 hc)
    exact .indent hs hp
  have hspread : Respaced indented spread := by
    have hs : rawLines indented
        = ["Find pets.\n".toList, ['\n'], "\tQuery Params:\n".toList]
          ++ ["  q -- words\n".toList] := by
      decide
    have hroom : HasRoom ["Find pets.\n".toList, ['\n'], "\tQuery Params:\n".toList]
        ["  q -- words\n".toList] := .inRegion (by decide) (by decide)
    exact .blankLine hs Text.isPadding_space hroom
  have hreturns : Respaced spread petQueryRespaced.toList := by
    have hs : '\r' ∉ spread := by decide
    exact .returns hs
  exact ((Relation.ReflTransGen.single hindent).tail hspread).tail hreturns

theorem OperationDoc.ofText_petQuery_respaced :
    OperationDoc.ofText petQueryRespaced = OperationDoc.ofText petQuery :=
  ofText_of_respaced respaced_petQuery

end Apidoc
