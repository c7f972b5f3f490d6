import Apidoc.Proofs.HeaderVocabulary
import Apidoc.Proofs.LineReading
import Apidoc.Proofs.PathOperations
import Apidoc.Proofs.SectionOrder

/-!
# The responses of a documentation

Two kinds of sections say what a request answers.  One is about a single status code, and its first
item counts; the other has a line for each status code.

* `Declaration`          what a line says about a status code;
* `Declaration.Gives`    an item that says this;
* `declarations`         what a section declares;
* `Items.Responds`       a table with the last declaration of each code.

`unordered_responses_apply` is the step of a run and `unordered_responses_applyAll` the whole run.

Main statement: `responses_applyAll`.
-/

namespace Apidoc

open Text (isDigit trim allBlank)

/-! ## declarations -/

structure Declaration where
  code : String
  required : Bool
  /-- blank if no type is named -/
  type : List Char
  constraints : Constraints
  description : String

namespace Declaration

structure Gives (δ : Declaration) (i : Item) : Prop where
  name_eq : i.name = δ.code
  place_eq : i.place = .response
  required_eq : i.required = δ.required
  description_eq : i.description = δ.description
  type_absent : allBlank δ.type = true → i.type = .atom .absent δ.constraints
  type_eq : allBlank δ.type = false → i.type = DataType.ofToken δ.type δ.constraints

def item (δ : Declaration) : Item :=
  { name := δ.code, type := DataType.ofToken δ.type δ.constraints, place := .response
    required := δ.required, description := δ.description, order := 0 }

theorem gives_iff {δ : Declaration} {i : Item} : δ.Gives i ↔ i.unordered = δ.item := by
  constructor
  · intro h
    have htype : i.type = DataType.ofToken δ.type δ.constraints := by
      cases hb : allBlank δ.type with
      | true => rw [h.type_absent hb, DataType.ofToken_of_blank ((Text.trim_eq_nil_iff _).2 hb)]
      | false => exact h.type_eq hb
    rw [Item.unordered, item, h.name_eq, h.place_eq, h.required_eq, h.description_eq, htype]
  · intro h
    have htype : i.type = DataType.ofToken δ.type δ.constraints := congrArg Item.type h
    refine ⟨congrArg Item.name h, congrArg Item.place h, congrArg Item.required h,
      congrArg Item.description h, fun hb => ?_, fun _ => htype⟩
    rw [htype, DataType.ofToken_of_blank ((Text.trim_eq_nil_iff _).2 hb)]

end Declaration

/-- an item counts for the code of its section, whatever its name is -/
def ItemLine.declaration (code : String) (l : ItemLine) : Declaration :=
  { code, required := l.marker == some .required, type := l.type
    constraints := (splitConstraints (trim l.description)).2
    description := (splitConstraints (trim l.description)).1 }

def ErrorLine.declaration (l : ErrorLine) : Declaration :=
  { code := .ofList l.code, required := false, type := l.type, constraints := ∅
    description := .ofList l.description }

/-- the lines of a section that are errors, with their numbers -/
def errorLines (buffer : List Char) : List (ErrorLine × Nat) :=
  (logicalLines buffer).zipIdx.filterMap fun l => (ErrorLine.read? l.1).map fun e => (e, l.2)

def declarations : Section × List Char → List Declaration
  | (.response code, buffer) => ((itemLines buffer).take 1).map (·.declaration code)
  | (.errors, buffer) => (errorLines buffer).map (·.1.declaration)
  | _ => []

theorem declarations_listing (l : Listing) (buffer : List Char) :
    declarations (l.sec, buffer) = [] := by
  cases l <;> rfl

theorem item_declaration (code : String) (l : ItemLine) :
    (l.declaration code).item = { l.toItem .response 0 with name := code } := by
  have htrim : trim (if (trim l.type).isEmpty then [] else trim l.type) = trim l.type := by
    split
    next h => rw [List.isEmpty_iff.1 h]; rfl
    next => exact Text.trim_trim l.type
  have htype : DataType.ofToken (if (trim l.type).isEmpty then [] else trim l.type)
      (splitConstraints (trim l.description)).2
        = DataType.ofToken l.type (splitConstraints (trim l.description)).2 :=
    DataType.ofToken_congr htrim _
  rw [Declaration.item, ItemLine.declaration, ← htype]
  rfl

theorem errorItems_eq (buffer : List Char) :
    errorItems buffer = (errorLines buffer).map fun p => p.1.toItem p.2 := by
  rw [errorLines, List.map_filterMap]
  refine List.filterMap_congr fun l _ => ?_
  rw [Option.map_map]
  rfl

/-! ## one section -/

theorem extend_errorItems (t : Items) (buffer : List Char) :
    t.extend (errorItems buffer) = t.insertAll ((errorLines buffer).map fun p =>
      (p.1.declaration.code, p.1.toItem (p.2 + t.nextOrder))) := by
  rw [Items.extend, errorItems_eq, List.map_map]
  rfl

theorem responses_apply_listing (l : Listing) (buffer : List Char) (d : OperationDoc) :
    (d.apply l.sec buffer).responses = d.responses := by
  have hne : Field.responses ≠ l.sec.field := by
    rw [l.field_sec]
    exact nofun
  exact FieldValue.items.inj (Field.value_apply_of_ne hne buffer d)

/-- the first item decides, and without an item there is no response -/
theorem responses_apply_response (code : String) (buffer : List Char) (d : OperationDoc) :
    (itemLines buffer = [] → (d.apply (.response code) buffer).responses = d.responses)
      ∧ ∀ l ls, itemLines buffer = l :: ls → ∃ i, (l.declaration code).Gives i
        ∧ (d.apply (.response code) buffer).responses = d.responses.insert code i := by
  have hitems := unordered_items .response buffer
  rw [OperationDoc.apply]
  constructor
  · intro h
    rw [h, List.map_nil, List.map_eq_nil_iff] at hitems
    rw [hitems]
  · intro l ls h
    rw [h, List.map_cons] at hitems
    cases he : items .response buffer with
    | nil => rw [he] at hitems; cases hitems
    | cons i is =>
      rw [he, List.map_cons] at hitems
      have hi : i.unordered = l.toItem .response 0 := (List.cons.inj hitems).1
      refine ⟨{ i with name := code }, ?_, rfl⟩
      rw [Declaration.gives_iff, item_declaration, ← hi]
      rfl

/-- The step of a run: the declarations of a section are bound one after the other. -/
theorem unordered_responses_apply (sec : Section) (buffer : List Char) (d : OperationDoc) :
    (d.apply sec buffer).responses.map Item.unordered
      = (d.responses.map Item.unordered).insertAll
          ((declarations (sec, buffer)).map fun δ => (δ.code, δ.item)) := by
  rcases sec.eq_sec_or with ⟨l, rfl⟩ | rfl | ⟨code, rfl⟩ | rfl
  · rw [responses_apply_listing, declarations_listing]
    rfl
  · show (d.responses.extend (errorItems buffer)).map Item.unordered = _
    rw [extend_errorItems, Table.map_insertAll, declarations, List.map_map, List.map_map]
    rfl
  · obtain ⟨hnone, hsome⟩ := responses_apply_response code buffer d
    cases hl : itemLines buffer with
    | nil => rw [hnone hl, declarations, hl]; rfl
    | cons l ls =>
      obtain ⟨i, hi, he⟩ := hsome l ls hl
      rw [he, Table.map_insert, declarations, hl, Declaration.gives_iff.1 hi]
      rfl
  · rfl

/-! ## runs -/

theorem unordered_responses_applyAll (ss : List (Section × List Char)) (d : OperationDoc) :
    (d.applyAll ss).responses.map Item.unordered
      = (d.responses.map Item.unordered).insertAll
          ((ss.flatMap declarations).map fun δ => (δ.code, δ.item)) := by
  induction ss generalizing d with
  | nil => rfl
  | cons s ss ih =>
    obtain ⟨sec, buffer⟩ := s
    rw [OperationDoc.applyAll_cons, ih, unordered_responses_apply, List.flatMap_cons,
      List.map_append, Table.insertAll_append]

/-! ## status codes -/

def IsStatusCode (k : String) : Prop :=
  k = "default" ∨ k.toList ≠ [] ∧ ∀ c ∈ k.toList, isDigit c = true

theorem isStatusCode_of_ofHeader? {header : List Char} {code : String}
    (h : Section.ofHeader? header = some (.response code)) : IsStatusCode code := by
  obtain ⟨p, -, ds, hmatch, hcode⟩ := exists_phrase_of_response h
  have hdigits := (Phrase.spells_of_match? hmatch).isDigit_captured
  obtain rfl := Section.response.inj hcode
  right
  split
  next => exact ⟨by decide, List.all_eq_true.1 (by decide)⟩
  next hne =>
    rw [String.toList_ofList]
    exact ⟨mt List.isEmpty_iff.2 hne, hdigits⟩

theorem isStatusCode_error {s : List Char} {l : ErrorLine} (h : ErrorLine.read? s = some l) :
    IsStatusCode l.declaration.code := by
  obtain ⟨p, hp, -, rfl⟩ := ErrorLine.read?_eq_some_iff.1 h
  rcases hp.fits.front with ⟨hne, hdigits⟩ | hword
  · right
    have hfold : p.front.map Text.fold = p.front := by
      rw [List.map_congr_left fun c hc => fold_of_isDigit (hdigits c hc), List.map_id']
    show (String.ofList (p.front.map Text.fold)).toList ≠ [] ∧ _
    rw [String.toList_ofList, hfold]
    exact ⟨hne, by simpa [ErrorLine.declaration, ErrorLine.ofParts, hfold] using hdigits⟩
  · left
    exact congrArg String.ofList hword

/-- the codes of a run -/
theorem isStatusCode_of_mem {ss : List (Section × List Char)}
    (hss : ∀ code buffer, (.response code, buffer) ∈ ss →
      ∃ header, Section.ofHeader? header = some (.response code))
    {δ : Declaration} (h : δ ∈ ss.flatMap declarations) : IsStatusCode δ.code := by
  obtain ⟨⟨sec, buffer⟩, hmem, hδ⟩ := List.mem_flatMap.1 h
  rcases sec.eq_sec_or with ⟨l, rfl⟩ | rfl | ⟨code, rfl⟩ | rfl
  · rw [declarations_listing] at hδ
    cases hδ
  · obtain ⟨p, hp, rfl⟩ := List.mem_map.1 hδ
    obtain ⟨l, -, hl⟩ := List.mem_filterMap.1 hp
    obtain ⟨e, he, rfl⟩ := Option.map_eq_some_iff.1 hl
    exact isStatusCode_error he
  · obtain ⟨l, -, rfl⟩ := List.mem_map.1 hδ
    obtain ⟨header, hheader⟩ := hss code buffer hmem
    exact isStatusCode_of_ofHeader? hheader
  · cases hδ

/-- the table has the declared codes and no others, each with what the last declaration says -/
structure Items.Responds (t : Items) (ds : List Declaration) : Prop where
  bound_iff : ∀ k, (∃ i, t.get? k = some i) ↔ ∃ δ ∈ ds, δ.code = k
  code : ∀ k i, t.get? k = some i → IsStatusCode k
  named : ∀ k i, t.get? k = some i → i.name = k ∧ i.place = .response
  last : ∀ k i, t.get? k = some i → ∃ δ, IsLast (fun δ : Declaration => δ.code = k) δ ds ∧ δ.Gives i

theorem responds_applyAll {ss : List (Section × List Char)}
    (hss : ∀ code buffer, (.response code, buffer) ∈ ss →
      ∃ header, Section.ofHeader? header = some (.response code)) :
    (OperationDoc.applyAll {} ss).responses.Responds (ss.flatMap declarations) := by
  have hget : ∀ k j, ((OperationDoc.applyAll {} ss).responses.get? k).map Item.unordered = some j
      ↔ ∃ δ, IsLast (fun δ : Declaration => δ.code = k) δ (ss.flatMap declarations) ∧ δ.item = j := by
    intro k j
    rw [← Table.get?_map, unordered_responses_applyAll]
    exact get?_ofList_map Declaration.code Declaration.item _ k j
  have hlast : ∀ k i, (OperationDoc.applyAll {} ss).responses.get? k = some i →
      ∃ δ, IsLast (fun δ : Declaration => δ.code = k) δ (ss.flatMap declarations) ∧ δ.Gives i := by
    intro k i hi
    obtain ⟨δ, hδ, he⟩ := (hget k i.unordered).1 (by rw [hi]; rfl)
    exact ⟨δ, hδ, Declaration.gives_iff.2 he.symm⟩
  refine ⟨fun k => ?_, fun k i hi => ?_, fun k i hi => ?_, hlast⟩
  · rw [← exists_isLast_iff]
    constructor
    · rintro ⟨i, hi⟩
      obtain ⟨δ, hδ, -⟩ := hlast k i hi
      exact ⟨δ, hδ⟩
    · rintro ⟨δ, hδ⟩
      obtain ⟨i, hi, -⟩ := Option.map_eq_some_iff.1 ((hget k δ.item).2 ⟨δ, hδ, rfl⟩)
      exact ⟨i, hi⟩
  · obtain ⟨δ, hδ, -⟩ := hlast k i hi
    exact hδ.1 ▸ isStatusCode_of_mem hss hδ.mem
  · obtain ⟨δ, hδ, hgives⟩ := hlast k i hi
    exact ⟨hgives.name_eq.trans hδ.1, hgives.place_eq⟩

/-! ## lines -/

section
variable {buffer : List Char}

theorem itemLines_eq_nil (h : ∀ s ∈ logicalLines buffer, ¬ItemLine.grammar.Matches s) :
    itemLines buffer = [] :=
  List.filterMap_eq_nil_iff.2 fun s hs => ItemLine.read?_eq_none_iff.2 (h s hs)

/-- the first line that is an item is the first item -/
theorem itemLines_eq_cons {before after : List (List Char)} {p : LineParts}
    (hlines : logicalLines buffer = before ++ p.text :: after)
    (hbefore : ∀ s ∈ before, ¬ItemLine.grammar.Matches s) (hp : ItemLine.grammar.Chosen p) :
    itemLines buffer = ItemLine.ofParts p :: after.filterMap ItemLine.read? := by
  have hnone : before.filterMap ItemLine.read? = [] :=
    List.filterMap_eq_nil_iff.2 fun s hs => ItemLine.read?_eq_none_iff.2 (hbefore s hs)
  rw [itemLines, hlines, List.filterMap_append, hnone, List.nil_append,
    List.filterMap_cons_some (ItemLine.read?_text hp)]

theorem mem_errorLines {l : ErrorLine} {n : Nat} :
    (l, n) ∈ errorLines buffer ↔ ∃ p, (logicalLines buffer)[n]? = some p.text
      ∧ ErrorLine.grammar.Chosen p ∧ ErrorLine.ofParts p = l := by
  rw [errorLines, List.mem_filterMap]
  constructor
  · rintro ⟨⟨s, m⟩, hs, he⟩
    obtain ⟨e, hread, he⟩ := Option.map_eq_some_iff.1 he
    obtain ⟨rfl, rfl⟩ := Prod.mk.inj he
    obtain ⟨p, hp, rfl, rfl⟩ := ErrorLine.read?_eq_some_iff.1 hread
    exact ⟨p, List.mem_zipIdx_iff_getElem?.1 hs, hp, rfl⟩
  · rintro ⟨p, hs, hp, rfl⟩
    refine ⟨(p.text, n), List.mem_zipIdx_iff_getElem?.2 hs, ?_⟩
    rw [ErrorLine.read?_text hp]
    rfl

/-- a line declares a code exactly if it is an error -/
theorem matches_iff_exists_errorLine {n : Nat} {s : List Char}
    (hs : (logicalLines buffer)[n]? = some s) :
    ErrorLine.grammar.Matches s ↔ ∃ l, (l, n) ∈ errorLines buffer := by
  constructor
  · intro h
    obtain ⟨p, hp, rfl⟩ := LineGrammar.exists_chosen h
    exact ⟨_, mem_errorLines.2 ⟨p, hs, hp, rfl⟩⟩
  · rintro ⟨l, hl⟩
    obtain ⟨p, hp, hchosen, -⟩ := mem_errorLines.1 hl
    obtain rfl := Option.some.inj (hs.symm.trans hp)
    exact ⟨p, hchosen.fits, rfl⟩

end

theorem increasing_errorLines (buffer : List Char) : (errorLines buffer).Pairwise (·.2 < ·.2) := by
  refine (increasing_zipIdx (logicalLines buffer)).filterMap _ ?_
  rintro ⟨s, m⟩ ⟨t, n⟩ hmn p hp q hq
  obtain ⟨a, -, rfl⟩ := Option.map_eq_some_iff.1 hp
  obtain ⟨b, -, rfl⟩ := Option.map_eq_some_iff.1 hq
  exact hmn

/-! ## a section with errors -/

/-- Errors are bound behind all that was there, and in the order of their lines. -/
theorem get?_responses_apply_errors (buffer : List Char) (d : OperationDoc) (k : String) (i : Item) :
    (d.apply .errors buffer).responses.get? k = some i ↔
      (∃ l n, IsLast (fun p : ErrorLine × Nat => p.1.declaration.code = k) (l, n) (errorLines buffer)
          ∧ l.declaration.Gives i ∧ i.order = d.responses.nextOrder + n)
        ∨ (∀ p ∈ errorLines buffer, p.1.declaration.code ≠ k) ∧ d.responses.get? k = some i := by
  show (d.responses.extend (errorItems buffer)).get? k = some i ↔ _
  rw [extend_errorItems, get?_insertAll_map]
  refine or_congr_left ⟨?_, ?_⟩
  · rintro ⟨⟨l, n⟩, hlast, rfl⟩
    exact ⟨l, n, hlast, Declaration.gives_iff.2 rfl, Nat.add_comm _ _⟩
  · rintro ⟨l, n, hlast, hgives, horder⟩
    refine ⟨(l, n), hlast, ?_⟩
    have hi : i = { i.unordered with order := i.order } := rfl
    rw [hi, Declaration.gives_iff.1 hgives, horder, Nat.add_comm]
    rfl

/-- **The responses are what the last declaration of each code says**: after any run, and for
either kind of section. -/
theorem responses_applyAll :
    (∀ ss : List (Section × List Char),
        (∀ code buffer, (.response code, buffer) ∈ ss →
          ∃ header, Section.ofHeader? header = some (.response code)) →
        (OperationDoc.applyAll {} ss).responses.Responds (ss.flatMap declarations))
      ∧ (∀ (d : OperationDoc) (code : String) (buffer : List Char),
        ((∀ s ∈ logicalLines buffer, ¬ItemLine.grammar.Matches s) →
          (d.apply (.response code) buffer).responses = d.responses)
        ∧ ∀ before p after, logicalLines buffer = before ++ p.text :: after →
          (∀ s ∈ before, ¬ItemLine.grammar.Matches s) → ItemLine.grammar.Chosen p →
          ∃ i, ((ItemLine.ofParts p).declaration code).Gives i
            ∧ (d.apply (.response code) buffer).responses = d.responses.insert code i)
      ∧ (∀ (d : OperationDoc) (buffer : List Char),
        ∃ base, (∀ i ∈ d.responses.values, i.order < base) ∧ ∀ k i,
          (d.apply .errors buffer).responses.get? k = some i ↔
            (∃ l n, IsLast (fun p : ErrorLine × Nat => p.1.declaration.code = k) (l, n)
                (errorLines buffer) ∧ l.declaration.Gives i ∧ i.order = base + n)
              ∨ (∀ p ∈ errorLines buffer, p.1.declaration.code ≠ k)
                ∧ d.responses.get? k = some i)
      ∧ ∀ buffer : List Char, (errorLines buffer).Pairwise (·.2 < ·.2)
        ∧ (∀ l n, (l, n) ∈ errorLines buffer ↔ ∃ p, (logicalLines buffer)[n]? = some p.text
          ∧ ErrorLine.grammar.Chosen p ∧ ErrorLine.ofParts p = l)
        ∧ ∀ n s, (logicalLines buffer)[n]? = some s →
          (ErrorLine.grammar.Matches s ↔ ∃ l, (l, n) ∈ errorLines buffer) := by
  refine ⟨fun ss hss => responds_applyAll hss, fun d code buffer => ?_, fun d buffer => ?_,
    fun buffer => ⟨increasing_errorLines buffer, fun l n => mem_errorLines,
      fun n s => matches_iff_exists_errorLine⟩⟩
  · obtain ⟨hnone, hsome⟩ := responses_apply_response code buffer d
    exact ⟨fun h => hnone (itemLines_eq_nil h),
      fun before p after hlines hbefore hp => hsome _ _ (itemLines_eq_cons hlines hbefore hp)⟩
  · exact ⟨d.responses.nextOrder, fun i hi => Items.lt_nextOrder hi,
      get?_responses_apply_errors buffer d⟩

def createdText : List Char := "(none)\npet (Pet) -- The pet.\nid -- Its number.\n".toList

def createdLine : ItemLine :=
  { name := "pet".toList, type := "Pet".toList, marker := none, description := "The pet.".toList }

def petResponses : List (Section × List Char) :=
  [(.response "201", createdText), (.query, "q -- A word.\n".toList),
    (.errors, "400 -- Wrong.\nDefault (Fault) -- Any other: no luck.\n400 -- Again.\n".toList)]

theorem responses_petResponses :
    (OperationDoc.applyAll {} petResponses).responses.Responds (petResponses.flatMap declarations)
      ∧ (OperationDoc.applyAll {} petResponses).responses.keys = ["201", "400", "default"]
      ∧ ∃ i, (createdLine.declaration "201").Gives i
        ∧ (({} : OperationDoc).apply (.response "201") createdText).responses
          = (∅ : Items).insert "201" i := by
  have hheader : Section.ofHeader? "201 Response:".toList = some (.response "201") := by
    decide +kernel
  have hcodes : ∀ code buffer, (.response code, buffer) ∈ petResponses →
      ∃ header, Section.ofHeader? header = some (.response code) := by
    intro code buffer h
    simp only [petResponses, List.mem_cons, Prod.mk.injEq, List.not_mem_nil, or_false] at h
    rcases h with ⟨h, -⟩ | ⟨h, -⟩ | ⟨h, -⟩
    · exact ⟨_, h ▸ hheader⟩
    · cases h
    · cases h
  have hlines : logicalLines createdText = ["(none)".toList] ++ "pet (Pet) -- The pet.".toList
      :: ["id -- Its number.".toList] := by
    decide +kernel
  have hread : ItemLine.read? "pet (Pet) -- The pet.".toList = some createdLine := by
    decide +kernel
  obtain ⟨hrun, hresponse, -⟩ := responses_applyAll
  obtain ⟨p, hp, htext, hline⟩ := ItemLine.read?_eq_some_iff.1 hread
  rw [← htext] at hlines
  refine ⟨hrun petResponses hcodes, by decide +kernel, ?_⟩
  rw [← hline]
  refine (hresponse {} "201" createdText).2 _ p _ hlines (fun s hs => ?_) hp
  obtain rfl := List.mem_singleton.1 hs
  exact ItemLine.read?_eq_none_iff.1 (by decide +kernel)

end Apidoc
