import Apidoc.Proofs.LineReading
import Apidoc.Docstring.OperationDoc

/-!
# Types without a closing parenthesis

The closing parenthesis of a type may be missing, but then the type is what the grammar prefers.

* `TypedLine`                a line with a type and a description, with or without the parenthesis;
* `TypedLine.ClosesAtEnd`    lines whose description can be taken for the end of the type.

Where two dashes are needed, as for an error, the line is read as if the parenthesis were there
(`readRest_unclosed`).  An item may end without them, so all of a line that closes at its end is
the type of the item (`readRest_closesAtEnd`).

Main statement: the missing parenthesis does not show in the section, unless the line is that of an
item and closes at its end (`apply_unclosed`).
-/

namespace Apidoc

open Text (isBlank trim)

/-! ## lines -/

structure TypedLine where
  /-- a name or a code -/
  front : List Char
  type : List Char
  description : List Char

namespace TypedLine

def rest (l : TypedLine) (closed : Bool) : LineRest where
  type := some ⟨[' '], l.type, closed⟩
  gap := [' ']
  description := some (' ' :: l.description)

def text (l : TypedLine) (closed : Bool) : List Char := LineParts.text ⟨l.front, l.rest closed⟩

structure WellFormed (l : TypedLine) : Prop where
  type : ∀ c ∈ l.type, isParenthesis c = false
  trimmed : trim l.description = l.description
  undashed : ¬['-', '-'] <:+: l.description

/-- The description has no parenthesis, or the first one closes and is its last character. -/
def ClosesAtEnd (l : TypedLine) : Prop :=
  skipClosing (l.description.dropWhile (!isParenthesis ·)) = []

/-- what looks like the type, if the line closes at its end -/
def wholeType (l : TypedLine) : List Char :=
  l.type ++ itemSeparator ++ l.description.takeWhile (!isParenthesis ·)

end TypedLine

/-! ## what follows the front -/

/-- the dashes in front of a text without dashes are the last ones -/
theorem length_le_of_undashed {d : List Char} (hd : ¬['-', '-'] <:+: d) {s a b : List Char}
    (h : s ++ '-' :: '-' :: ' ' :: d = a ++ '-' :: '-' :: b) : a.length ≤ s.length := by
  rcases List.append_eq_append_iff.1 h with ⟨c, rfl, hc⟩ | ⟨c, rfl, -⟩
  · -- the dashes in front overlap with no others, because a blank follows them
    rcases c with _ | ⟨x, _ | ⟨y, _ | ⟨z, c⟩⟩⟩
    · simp
    · simp at hc
    · simp at hc
    · obtain ⟨-, -, -, rfl⟩ : _ ∧ _ ∧ _ ∧ d = c ++ '-' :: '-' :: b := by simpa using hc
      exact absurd ⟨c, b, by simp⟩ hd
  · simp

namespace LineGrammar

variable {g : LineGrammar} {l : TypedLine}

theorem openType?_unclosed (hl : l.WellFormed) : openType? (l.rest false).text
    = some (l.wholeType, l.description.dropWhile (!isParenthesis ·)) := by
  have hplain : ∀ c ∈ l.type ++ itemSeparator, (!isParenthesis c) = true :=
    List.forall_mem_append.2 ⟨not_isParenthesis hl.type, List.all_eq_true.1 rfl⟩
  have htext : (l.rest false).text
      = [' '] ++ '(' :: (l.type ++ itemSeparator ++ l.description) := by
    simp [TypedLine.rest, text_typed, TypePart.closing, dashedText, itemSeparator]
  rw [htext, openType?_append (List.cons_ne_nil _ _) Text.isPadding_space.blank,
    List.takeWhile_append_of_pos hplain, List.dropWhile_append_of_pos hplain]
  rfl

theorem openType?_closed (hl : l.WellFormed) : openType? (l.rest true).text
    = some (l.type, ')' :: ([' '] ++ dashedText (some (' ' :: l.description)))) := by
  have htype := not_isParenthesis hl.type
  rw [TypedLine.rest, text_typed,
    openType?_append (List.cons_ne_nil _ _) Text.isPadding_space.blank,
    List.takeWhile_append_of_pos htype, List.dropWhile_append_of_pos htype]
  simp [TypePart.closing, isParenthesis]

theorem readRest_closed (hl : l.WellFormed) (hg : g.good (' ' :: l.description) = true) :
    g.readRest (l.rest true).text = some (l.type, some (' ' :: l.description)) := by
  have hdashes : g.readDashes ([' '] ++ dashedText (some (' ' :: l.description))) = _ :=
    readDashes_append Text.isPadding_space.blank (d := some (' ' :: l.description)) hg
  have hread : g.readDashes
      (skipClosing (')' :: ([' '] ++ dashedText (some (' ' :: l.description))))) = _ := hdashes
  rw [readRest, openType?_closed hl]
  dsimp only
  rw [hread]

/-- what follows the first parenthesis of the description is no separator -/
theorem readDashes_unclosed (hl : l.WellFormed) (hg : g.mayEnd = true → ¬l.ClosesAtEnd) :
    g.readDashes (skipClosing (l.description.dropWhile (!isParenthesis ·))) = none := by
  have hsuffix := (skipClosing_suffix (l.description.dropWhile (!isParenthesis ·))).trans
    (List.dropWhile_suffix _)
  refine Option.eq_none_iff_forall_ne_some.2 fun x hx => ?_
  obtain ⟨gap, hgap, hblank, hadmits⟩ := readDashes_eq_some hx
  cases x with
  | some e =>
    rw [hgap] at hsuffix
    exact hl.undashed (List.IsInfix.trans ⟨gap, e, by simp [dashedText]⟩ hsuffix.isInfix)
  | none =>
    rw [dashedText, List.append_nil] at hgap
    refine hg hadmits (hgap.trans ?_)
    cases hlast : gap.getLast? with
    | none => exact List.getLast?_eq_none_iff.1 hlast
    | some c =>
      have hc : isBlank c = true := hblank c (List.mem_of_getLast? hlast)
      have hend : l.description.getLast? = some c := by
        obtain ⟨front, hfront⟩ := hsuffix
        rw [← hfront, hgap, List.getLast?_append, hlast]
        rfl
      rw [(Text.trim_eq_self_iff.1 hl.trimmed).2 c hend] at hc
      cases hc

/-- a missing parenthesis is read as if it were there -/
theorem readRest_unclosed (hl : l.WellFormed) (hg : g.good (' ' :: l.description) = true)
    (hend : g.mayEnd = true → ¬l.ClosesAtEnd) :
    g.readRest (l.rest false).text = some (l.type ++ [' '], some (' ' :: l.description)) := by
  have hsplit : l.description.takeWhile (!isParenthesis ·)
      ++ l.description.dropWhile (!isParenthesis ·) = l.description :=
    List.takeWhile_append_dropWhile
  have hundashed : ¬['-', '-'] <:+: l.description.takeWhile (!isParenthesis ·) :=
    fun h => hl.undashed (h.trans (List.takeWhile_prefix _).isInfix)
  rw [readRest, openType?_unclosed hl]
  dsimp only
  rw [readDashes_unclosed hl hend, TypedLine.wholeType]
  generalize l.description.takeWhile (!isParenthesis ·) = d at hsplit hundashed
  generalize l.description.dropWhile (!isParenthesis ·) = r at hsplit
  have hlast : lastDashes? (fun e => g.good (e ++ r)) (l.type ++ itemSeparator ++ d)
      = some (l.type ++ [' '], ' ' :: d) := by
    have hwhole : l.type ++ itemSeparator ++ d
        = l.type ++ [' '] ++ [] ++ '-' :: '-' :: ' ' :: d := by
      simp [itemSeparator]
    rw [hwhole]
    refine lastDashes?_of_longest ?_ fun a b hab _ => ?_
    · simpa [hsplit] using hg
    · rw [List.append_nil] at hab
      exact length_le_of_undashed hundashed hab
  rw [hlast]
  simp [hsplit]

/-- where the dashes may be missing, all of the line is the type -/
theorem readRest_closesAtEnd (hl : l.WellFormed) (hg : g.mayEnd = true) (h : l.ClosesAtEnd) :
    g.readRest (l.rest false).text = some (l.wholeType, none) := by
  have hdashes : g.readDashes [] = some none := if_pos hg
  rw [readRest, openType?_unclosed hl]
  dsimp only
  rw [h, hdashes]

end LineGrammar

/-! ## reading a line -/

/-- the front ends at the blank in front of the parenthesis -/
theorem TypedLine.head_rest (l : TypedLine) (closed : Bool) {f : Char → Bool} (hf : f ' ' = false) :
    ∀ c ∈ (l.rest closed).text.head?, f c = false := by
  intro c hc
  rw [rest, LineGrammar.text_typed] at hc
  cases hc
  exact hf

section
variable {l : TypedLine} (hl : l.WellFormed)
include hl

theorem ErrorLine.read?_unclosed (hfront : grammar.front l.front) (order : Nat) :
    (read? (l.text false)).map (·.toItem order) = (read? (l.text true)).map (·.toItem order) := by
  have htype : DataType.ofToken (l.type ++ [' ']) ∅ = DataType.ofToken l.type ∅ :=
    DataType.ofToken_congr (Text.trim_append_of_blank Text.isPadding_space.blank l.type) ∅
  rw [TypedLine.text, LineParts.text, read?_append hfront (l.head_rest false (by decide)),
    LineGrammar.readRest_unclosed hl rfl fun h => absurd h Bool.false_ne_true,
    TypedLine.text, LineParts.text, read?_append hfront (l.head_rest true (by decide)),
    LineGrammar.readRest_closed hl rfl]
  simp only [Option.map_some, toItem, htype]

theorem ItemLine.read?_unclosed (hfront : grammar.front l.front) (hend : ¬l.ClosesAtEnd)
    (place : Place) (order : Nat) : (read? (l.text false)).map (·.toItem place order)
      = (read? (l.text true)).map (·.toItem place order) := by
  have htype : trim (l.type ++ [' ']) = trim l.type :=
    Text.trim_append_of_blank Text.isPadding_space.blank l.type
  rw [TypedLine.text, LineParts.text, read?_append hfront (l.head_rest false (by decide))
      (LineGrammar.readRest_unclosed hl rfl fun _ => hend),
    TypedLine.text, LineParts.text, read?_append hfront (l.head_rest true (by decide))
      (LineGrammar.readRest_closed hl rfl)]
  simp only [Option.map_some, toItem, htype]

/-- the item has all of the line as its type, and neither a marker nor a description -/
theorem ItemLine.read?_closesAtEnd (hfront : grammar.front l.front) (hend : l.ClosesAtEnd)
    (place : Place) (order : Nat) : (read? (l.text false)).map (·.toItem place order)
      = some { name := .ofList l.front, type := DataType.ofToken l.wholeType ∅, place
               required := isRequired place none, description := "", order } := by
  have hne : trim l.wholeType ≠ [] := by
    rw [Ne, Text.trim_eq_nil_iff, Text.allBlank, List.all_eq_true]
    intro hblank
    have hdash : isBlank '-' = true := hblank '-' (by simp [TypedLine.wholeType, itemSeparator])
    exact absurd hdash (by decide)
  have htoken : (if (trim l.wholeType).isEmpty then usualType place else trim l.wholeType)
      = trim l.wholeType := if_neg (mt List.isEmpty_iff.1 hne)
  have hnothing : splitConstraints (trim (described none).2) = ("", ∅) := by
    rw [splitConstraints, peel_of_none (by decide)]
    rfl
  rw [TypedLine.text, LineParts.text, read?_append hfront (l.head_rest false (by decide))
    (LineGrammar.readRest_closesAtEnd hl rfl hend)]
  simp only [Option.map_some, toItem, hnothing, htoken, DataType.ofToken_congr (Text.trim_trim _)]
  rfl

end

/-! ## sections -/

/-- one line of many counts only by what it declares in its place -/
theorem filterMap_zipIdx_congr {α β : Type} {f : α × Nat → Option β} {x y : α}
    (h : ∀ n, f (x, n) = f (y, n)) (as bs : List α) :
    (as ++ x :: bs).zipIdx.filterMap f = (as ++ y :: bs).zipIdx.filterMap f := by
  simp only [List.zipIdx_append, List.zipIdx_cons, List.filterMap_append, List.filterMap_cons, h]

/-- **A missing parenthesis does not show in an `Errors` section.**  In all other sections it does
not show either, unless the line closes at its end; then the item has all of the line as its type
and no description. -/
theorem apply_unclosed {l : TypedLine} (hl : l.WellFormed) {before after : List (List Char)}
    {b b' : List Char} (hopen : logicalLines b = before ++ l.text false :: after)
    (hclosed : logicalLines b' = before ++ l.text true :: after) (doc : OperationDoc) :
    (ErrorLine.grammar.front l.front → doc.apply .errors b = doc.apply .errors b')
      ∧ (ItemLine.grammar.front l.front →
          (¬l.ClosesAtEnd → ∀ sec, sec ≠ .errors → doc.apply sec b = doc.apply sec b')
          ∧ (l.ClosesAtEnd → ∀ place order,
              (ItemLine.read? (l.text false)).map (·.toItem place order)
                = some { name := .ofList l.front, type := DataType.ofToken l.wholeType ∅, place
                         required := ItemLine.isRequired place none, description := ""
                         order })) := by
  refine ⟨fun hfront => ?_, fun hfront => ⟨fun hend sec hsec => ?_, fun hend place order =>
    ItemLine.read?_closesAtEnd hl hfront hend place order⟩⟩
  · have hitems : errorItems b = errorItems b' := by
      rw [errorItems, errorItems, hopen, hclosed]
      exact filterMap_zipIdx_congr (ErrorLine.read?_unclosed hl hfront) before after
    rw [OperationDoc.apply, OperationDoc.apply, hitems]
  · have hitems : ∀ place, items place b = items place b' := by
      intro place
      rw [items, items, hopen, hclosed]
      exact filterMap_zipIdx_congr (ItemLine.read?_unclosed hl hfront hend place) before after
    cases sec with
    | errors => exact absurd rfl hsec
    | _ => simp only [OperationDoc.apply, hitems]

/-- a line that does not close at its end, for an error or an item -/
def petLine : TypedLine :=
  { front := "404".toList, type := "Gap".toList, description := "No pet (dog or cat) here.".toList }

/-- a line that closes at its end -/
def countLine : TypedLine :=
  { front := ['n'], type := "int".toList, description := "The count.".toList }

example : countLine.text false = "n (int -- The count.".toList := by decide

theorem wellFormed_countLine : countLine.WellFormed :=
  ⟨by simp [countLine, isParenthesis], by decide,
    by simp [countLine, List.infix_cons_iff, List.cons_prefix_cons]⟩

/-- the lines as sections of their own -/
theorem apply_unclosed_petLine :
    ({} : OperationDoc).apply .errors (petLine.text false)
        = ({} : OperationDoc).apply .errors (petLine.text true)
      ∧ ({} : OperationDoc).apply .tags (petLine.text false)
        = ({} : OperationDoc).apply .tags (petLine.text true)
      ∧ ((ItemLine.read? (countLine.text false)).map (·.toItem .tag 0)).map Item.description
        = some "" := by
  have hpet : petLine.WellFormed :=
    ⟨by simp [petLine, isParenthesis], by decide,
      by simp [petLine, List.infix_cons_iff, List.cons_prefix_cons]⟩
  have hpetLines : ∀ closed,
      logicalLines (petLine.text closed) = [] ++ petLine.text closed :: [] := by
    decide
  have hcountLines : ∀ closed,
      logicalLines (countLine.text closed) = [] ++ countLine.text closed :: [] := by
    decide
  obtain ⟨herrors, hitems⟩ := apply_unclosed hpet (hpetLines false) (hpetLines true) {}
  obtain ⟨-, hcount⟩ :=
    apply_unclosed wellFormed_countLine (hcountLines false) (hcountLines true) {}
  have hopen : ¬petLine.ClosesAtEnd := by
    rw [TypedLine.ClosesAtEnd]
    decide
  have hclosed : countLine.ClosesAtEnd := by
    rw [TypedLine.ClosesAtEnd]
    decide
  refine ⟨herrors (.inl ⟨by decide, List.all_eq_true.1 rfl⟩), ?_, ?_⟩
  · exact (hitems ⟨rfl, List.all_eq_true.1 rfl⟩).1 hopen .tags (by decide)
  · rw [(hcount ⟨rfl, List.all_eq_true.1 rfl⟩).2 hclosed]
    rfl

/-- with the parenthesis the item has a description, and without it there is none -/
theorem not_apply_unclosed :
    countLine.WellFormed ∧ ItemLine.grammar.front countLine.front
      ∧ (∀ closed, logicalLines (countLine.text closed) = [countLine.text closed])
      ∧ ({} : OperationDoc).apply .query (countLine.text false)
        ≠ ({} : OperationDoc).apply .query (countLine.text true) := by
  refine ⟨wellFormed_countLine, ⟨rfl, List.all_eq_true.1 rfl⟩, by decide, fun h => ?_⟩
  have hdescriptions := congrArg (fun d => d.queryParams.values.map Item.description) h
  revert hdescriptions
  decide +kernel

end Apidoc
