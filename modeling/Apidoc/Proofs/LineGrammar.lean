import Apidoc.Proofs.WrittenItems
import Mathlib.Order.WellFounded

/-!
# The grammar of lines

A line of a section has a front, which is the name of an item or the code of an error, then maybe a
type in parentheses, then maybe two dashes and a description.  A text can be split into such parts
in several ways.  The one that counts has the longest front, and among those with this front it has
a type if one of them has, and the longest type.

* `TypePart`, `LineRest`, `LineParts`   the parts of a line, with their texts;
* `LineGrammar`            the fronts and descriptions that a kind of line can have;
* `LineGrammar.Chosen`     the parts that count among all with the same text;
* `LineGrammar.readRest`   reads what follows the front, in either kind of line.

Main statement: the rest of a line is read as that of the parts that count
(`LineGrammar.Chosen.readRest_text`).
-/

namespace Apidoc

open Text (isBlank)

/-! ## parts -/

structure TypePart where
  gap : List Char
  type : List Char
  /-- whether the closing parenthesis is there -/
  closed : Bool

namespace TypePart

def closing (closed : Bool) : List Char := if closed then [')'] else []

def text (t : TypePart) : List Char := t.gap ++ '(' :: (t.type ++ closing t.closed)

structure WellFormed (t : TypePart) : Prop where
  gap_ne : t.gap ≠ []
  gap : ∀ c ∈ t.gap, isBlank c = true
  type : ∀ c ∈ t.type, isParenthesis c = false

end TypePart

/-- what follows the front of a line -/
structure LineRest where
  type : Option TypePart
  gap : List Char
  /-- what follows the dashes, if there are any -/
  description : Option (List Char)

def dashedText : Option (List Char) → List Char
  | none => []
  | some d => '-' :: '-' :: d

namespace LineRest

def text (p : LineRest) : List Char :=
  (p.type.map TypePart.text).getD [] ++ (p.gap ++ dashedText p.description)

def typeText (p : LineRest) : List Char := (p.type.map TypePart.type).getD []

/-- more if there is a type than if there is none -/
def typeSize (p : LineRest) : Nat := (p.type.map fun t => t.type.length + 1).getD 0

end LineRest

structure LineParts where
  front : List Char
  rest : LineRest

def LineParts.text (p : LineParts) : List Char := p.front ++ p.rest.text

structure LineGrammar where
  front : List Char → Prop
  /-- the texts that may follow the dashes -/
  good : List Char → Bool
  /-- whether the dashes may be missing -/
  mayEnd : Bool

namespace LineGrammar

variable {g : LineGrammar}

/-- what may stand where the dashes are -/
def Admits (g : LineGrammar) : Option (List Char) → Prop
  | none => g.mayEnd = true
  | some d => g.good d = true

structure FitsRest (g : LineGrammar) (p : LineRest) : Prop where
  type : ∀ t ∈ p.type, t.WellFormed
  gap : ∀ c ∈ p.gap, isBlank c = true
  description : g.Admits p.description

structure Fits (g : LineGrammar) (p : LineParts) : Prop where
  front : g.front p.front
  rest : g.FitsRest p.rest

def Matches (g : LineGrammar) (s : List Char) : Prop := ∃ p, g.Fits p ∧ p.text = s

/-- no other parts with the same text have a longer front, or this front and a longer type -/
structure Chosen (g : LineGrammar) (p : LineParts) : Prop where
  fits : g.Fits p
  front_le : ∀ q, g.Fits q → q.text = p.text → q.front.length ≤ p.front.length
  type_le : ∀ q, g.Fits q → q.text = p.text → q.front = p.front →
    q.rest.typeSize ≤ p.rest.typeSize

/-! ## choosing -/

theorem exists_greatest {α : Type} {p : α → Prop} (size : α → Nat) (bound : Nat)
    (hbound : ∀ a, p a → size a ≤ bound) (h : ∃ a, p a) :
    ∃ a, p a ∧ ∀ b, p b → size b ≤ size a := by
  have hwf : WellFounded fun a b : α => bound - size a < bound - size b :=
    InvImage.wf (fun a => bound - size a) Nat.lt_wfRel.wf
  obtain ⟨a, ha, hleast⟩ := hwf.has_min {a | p a} h
  refine ⟨a, ha, fun b hb => ?_⟩
  have hab := hleast b hb
  have hle := hbound b hb
  omega

theorem typeSize_le (p : LineRest) : p.typeSize ≤ p.text.length := by
  rcases p with ⟨_ | t, gap, description⟩
  · exact Nat.zero_le _
  · simp only [LineRest.typeSize, LineRest.text, TypePart.text, Option.map_some, Option.getD_some,
      List.length_append, List.length_cons]
    omega

theorem exists_chosen {s : List Char} (h : g.Matches s) :
    ∃ p, g.Chosen p ∧ p.text = s := by
  obtain ⟨p, ⟨hp, hs⟩, hfront⟩ := exists_greatest (fun p => p.front.length) s.length
    (fun p hp => by rw [← hp.2, LineParts.text, List.length_append]; omega) h
  obtain ⟨q, ⟨hq, hqs, hqp⟩, htype⟩ := exists_greatest
    (p := fun q => g.Fits q ∧ q.text = s ∧ q.front = p.front) (fun q => q.rest.typeSize) s.length
    (fun q hq => by
      have hle := typeSize_le q.rest
      rw [← hq.2.1, LineParts.text, List.length_append]
      omega)
    ⟨p, hp, hs, rfl⟩
  refine ⟨q, ⟨hq, fun r hr hrs => ?_, fun r hr hrs hrq => ?_⟩, hqs⟩
  · rw [hqp]
    exact hfront r ⟨hr, hrs.trans hqs⟩
  · exact htype r ⟨hr, hrs.trans hqs, hrq.trans hqp⟩

/-! ## dashes -/

theorem lastDashes?_ne_none {good : List Char → Bool} {b : List Char} (hb : good b = true)
    (a : List Char) : lastDashes? good (a ++ '-' :: '-' :: b) ≠ none := by
  induction a with
  | nil =>
    rw [List.nil_append, lastDashes?]
    split
    next => exact nofun
    next => simp [hb]
  | cons c a ih =>
    rw [List.cons_append, lastDashes?.eq_def]
    dsimp only
    split
    next => exact nofun
    next h => exact absurd h ih

/-- The dashes that are found have a good continuation, and all others that have one stand further
in front. -/
theorem lastDashes?_eq_some {good : List Char → Bool} {s a b : List Char}
    (h : lastDashes? good s = some (a, b)) :
    s = a ++ '-' :: '-' :: b ∧ good b = true
      ∧ ∀ a' b', s = a' ++ '-' :: '-' :: b' → good b' = true → a'.length ≤ a.length := by
  induction s generalizing a b with
  | nil => cases h
  | cons c s ih =>
    rw [lastDashes?.eq_def] at h
    dsimp only at h
    split at h
    next a₁ b₁ hs =>
      obtain ⟨rfl, rfl⟩ := Prod.mk.inj (Option.some.inj h)
      obtain ⟨rfl, hb, hlast⟩ := ih hs
      refine ⟨rfl, hb, fun a' b' he hb' => ?_⟩
      cases a' with
      | nil => exact Nat.zero_le _
      | cons e a' => exact Nat.succ_le_succ (hlast a' b' (List.cons.inj he).2 hb')
    next hs =>
      split at h
      next r =>
        obtain ⟨hb, he⟩ := Option.ite_none_right_eq_some.1 h
        obtain ⟨rfl, rfl⟩ := Prod.mk.inj (Option.some.inj he)
        refine ⟨rfl, hb, fun a' b' he hb' => ?_⟩
        cases a' with
        | nil => exact Nat.le_refl _
        | cons e a' =>
          rw [(List.cons.inj he).2] at hs
          exact absurd hs (lastDashes?_ne_none hb' a')
      next => cases h

/-! ## blanks -/

theorem dropWhile_dashedText (d : Option (List Char)) :
    (dashedText d).dropWhile isBlank = dashedText d := by
  cases d with
  | none => rfl
  | some d => rfl

theorem dropWhile_gap {gap : List Char} (h : ∀ c ∈ gap, isBlank c = true) (d : Option (List Char)) :
    (gap ++ dashedText d).dropWhile isBlank = dashedText d := by
  rw [List.dropWhile_append_of_pos h, dropWhile_dashedText]

theorem all_takeWhile_isBlank (s : List Char) : ∀ c ∈ s.takeWhile isBlank, isBlank c = true :=
  fun c hc => List.all_eq_true.1 List.all_takeWhile c hc

/-! ## reading what follows the front -/

/-- the description, if the grammar admits it -/
def dashed? (g : LineGrammar) : List Char → Option (Option (List Char))
  | [] => if g.mayEnd then some none else none
  | '-' :: '-' :: d => if g.good d then some (some d) else none
  | _ => none

theorem dashed?_of_ne {s : List Char} (hnil : s ≠ []) (hne : ∀ d, s ≠ '-' :: '-' :: d) :
    g.dashed? s = none := by
  rw [dashed?]
  · exact hnil
  · exact hne

theorem dashed?_eq_some {s : List Char} {d : Option (List Char)} (h : g.dashed? s = some d) :
    s = dashedText d ∧ g.Admits d := by
  rw [dashed?.eq_def] at h
  split at h
  next =>
    obtain ⟨hm, rfl⟩ := Option.ite_some_none_eq_some.1 h
    exact ⟨rfl, hm⟩
  next =>
    obtain ⟨hm, rfl⟩ := Option.ite_some_none_eq_some.1 h
    exact ⟨rfl, hm⟩
  next => cases h

theorem dashed?_dashedText {d : Option (List Char)} (hd : g.Admits d) :
    g.dashed? (dashedText d) = some d := by
  cases d with
  | none => exact if_pos hd
  | some d => exact if_pos hd

def readDashes (g : LineGrammar) (s : List Char) : Option (Option (List Char)) :=
  g.dashed? (s.dropWhile isBlank)

theorem readDashes_eq_some {s : List Char} {d : Option (List Char)}
    (h : g.readDashes s = some d) :
    ∃ gap, s = gap ++ dashedText d ∧ (∀ c ∈ gap, isBlank c = true) ∧ g.Admits d := by
  have hs : s.takeWhile isBlank ++ s.dropWhile isBlank = s := List.takeWhile_append_dropWhile
  obtain ⟨he, hd⟩ := dashed?_eq_some h
  exact ⟨_, (he ▸ hs).symm, all_takeWhile_isBlank s, hd⟩

theorem readDashes_append {gap : List Char} (hgap : ∀ c ∈ gap, isBlank c = true)
    {d : Option (List Char)} (hd : g.Admits d) :
    g.readDashes (gap ++ dashedText d) = some d := by
  rw [readDashes, dropWhile_gap hgap, dashed?_dashedText hd]

theorem fitsRest_untyped {gap : List Char} {d : Option (List Char)}
    (hgap : ∀ c ∈ gap, isBlank c = true) (hd : g.Admits d) : g.FitsRest ⟨none, gap, d⟩ :=
  ⟨nofun, hgap, hd⟩

/-- the text of the type, empty if there is none, and the description -/
def readRest (g : LineGrammar) (s : List Char) : Option (List Char × Option (List Char)) :=
  match openType? s with
  | none => (g.readDashes s).map fun d => ([], d)
  | some (type, rest) =>
    match g.readDashes (skipClosing rest) with
    | some d => some (type, d)
    | none => (lastDashes? (fun d => g.good (d ++ rest)) type).map fun (type, d) =>
      (type, some (d ++ rest))

/-! ## opening parentheses -/

theorem openType?_eq_some {s t r : List Char} (h : openType? s = some (t, r)) :
    ∃ gap, gap ≠ [] ∧ (∀ c ∈ gap, isBlank c = true) ∧ s = gap ++ '(' :: (t ++ r)
      ∧ ∀ c ∈ t, isParenthesis c = false := by
  have hs : s.takeWhile isBlank ++ s.dropWhile isBlank = s := List.takeWhile_append_dropWhile
  rw [openType?] at h
  split at h
  next hhead =>
    split at h
    next u hu =>
      obtain ⟨rfl, rfl⟩ := Prod.mk.inj (Option.some.inj h)
      refine ⟨s.takeWhile isBlank, ?_, all_takeWhile_isBlank s, ?_, fun c hc => ?_⟩
      · cases s with
        | nil => cases hhead
        | cons c s =>
          have hc : isBlank c = true := hhead
          rw [List.takeWhile_cons_of_pos hc]
          exact List.cons_ne_nil c _
      · rw [List.takeWhile_append_dropWhile, ← hu, hs]
      · have hplain := List.all_eq_true.1 List.all_takeWhile c hc
        rwa [Bool.not_eq_true'] at hplain
    next => cases h
  next => cases h

theorem isParenthesis_of_openType? {s t r : List Char} {c : Char}
    (h : openType? s = some (t, c :: r)) : isParenthesis c = true := by
  rw [openType?] at h
  split at h
  next =>
    split at h
    next u _ =>
      have hdrop : u.dropWhile (!isParenthesis ·) = c :: r := (Prod.mk.inj (Option.some.inj h)).2
      have hc := List.head?_dropWhile_not (!isParenthesis ·) u
      rw [hdrop] at hc
      simpa using hc
    next => cases h
  next => cases h

theorem openType?_dashes {gap : List Char} (hgap : ∀ c ∈ gap, isBlank c = true)
    (d : Option (List Char)) : openType? (gap ++ dashedText d) = none := by
  rw [openType?, dropWhile_gap hgap]
  split
  next => cases d <;> rfl
  next => rfl

theorem openType?_append {gap : List Char} (hne : gap ≠ []) (hgap : ∀ c ∈ gap, isBlank c = true)
    (s : List Char) :
    openType? (gap ++ '(' :: s)
      = some (s.takeWhile (!isParenthesis ·), s.dropWhile (!isParenthesis ·)) := by
  obtain ⟨c, cs, rfl⟩ := List.exists_cons_of_ne_nil hne
  have hdrop : (c :: cs ++ '(' :: s).dropWhile isBlank = '(' :: s := by
    rw [List.dropWhile_append_of_pos hgap]
    rfl
  have hhead : (c :: cs ++ '(' :: s).head?.any isBlank = true := hgap c List.mem_cons_self
  rw [openType?, if_pos hhead, hdrop]
  rfl

/-- the closing parenthesis is skipped if it is there -/
theorem exists_closing (s : List Char) : ∃ closed, s = TypePart.closing closed ++ skipClosing s := by
  rw [skipClosing.eq_def]
  split
  next => exact ⟨true, rfl⟩
  next => exact ⟨false, rfl⟩

theorem skipClosing_suffix (s : List Char) : skipClosing s <:+ s := by
  obtain ⟨closed, h⟩ := exists_closing s
  exact ⟨_, h.symm⟩

/-! ## what is read fits -/

theorem readRest_eq_some {s t : List Char} {d : Option (List Char)}
    (h : g.readRest s = some (t, d)) :
    ∃ p, g.FitsRest p ∧ p.text = s ∧ p.typeText = t ∧ p.description = d := by
  rw [readRest] at h
  split at h
  next =>
    obtain ⟨d, hd, he⟩ := Option.map_eq_some_iff.1 h
    obtain ⟨rfl, rfl⟩ := Prod.mk.inj he
    obtain ⟨gap, rfl, hgap, hadmits⟩ := readDashes_eq_some hd
    exact ⟨⟨none, gap, d⟩, fitsRest_untyped hgap hadmits, rfl, rfl, rfl⟩
  next type rest ho =>
    obtain ⟨lead, hne, hopen, rfl, htype⟩ := openType?_eq_some ho
    split at h
    next d' hd =>
      obtain ⟨rfl, rfl⟩ := Prod.mk.inj (Option.some.inj h)
      obtain ⟨closed, hclosed⟩ := exists_closing rest
      obtain ⟨gap, hs, hgap, hadmits⟩ := readDashes_eq_some hd
      refine ⟨⟨some ⟨lead, type, closed⟩, gap, d'⟩, ⟨?_, hgap, hadmits⟩, ?_, rfl, rfl⟩
      · rintro _ ⟨⟩
        exact ⟨hne, hopen, htype⟩
      · rw [hclosed, hs]
        simp [LineRest.text, TypePart.text]
    next =>
      obtain ⟨⟨a, b⟩, hab, he⟩ := Option.map_eq_some_iff.1 h
      obtain ⟨rfl, rfl⟩ := Prod.mk.inj he
      obtain ⟨rfl, hgood, -⟩ := lastDashes?_eq_some hab
      refine ⟨⟨some ⟨lead, a, false⟩, [], some (b ++ rest)⟩, ⟨?_, nofun, hgood⟩, ?_, rfl, rfl⟩
      · rintro _ ⟨⟩
        exact ⟨hne, hopen, fun c hc => htype c (List.mem_append_left _ hc)⟩
      · simp [LineRest.text, TypePart.text, TypePart.closing, dashedText]

/-! ## what fits is read -/

theorem text_typed (lead t : List Char) (closed : Bool) (gap : List Char)
    (d : Option (List Char)) : LineRest.text ⟨some ⟨lead, t, closed⟩, gap, d⟩
      = lead ++ '(' :: (t ++ (TypePart.closing closed ++ (gap ++ dashedText d))) := by
  simp [LineRest.text, TypePart.text]

theorem isParenthesis_of_isBlank {c : Char} (h : isBlank c = true) : isParenthesis c = false := by
  cases hc : isParenthesis c with
  | false => rfl
  | true =>
    rw [isParenthesis, Bool.or_eq_true, beq_iff_eq, beq_iff_eq] at hc
    rcases hc with rfl | rfl
    · exact absurd h (by decide)
    · exact absurd h (by decide)

theorem not_isParenthesis {s : List Char} (h : ∀ c ∈ s, isParenthesis c = false) :
    ∀ c ∈ s, (!isParenthesis c) = true := by
  intro c hc
  rw [h c hc]
  rfl

theorem isParenthesis_takeWhile (s : List Char) :
    ∀ c ∈ s.takeWhile (!isParenthesis ·), isParenthesis c = false := by
  intro c hc
  have hc' := List.all_eq_true.1 List.all_takeWhile c hc
  rwa [Bool.not_eq_true'] at hc'

theorem fitsRest_typed {t : TypePart} (h : t.WellFormed) {type gap : List Char}
    (htype : ∀ c ∈ type, isParenthesis c = false) (hgap : ∀ c ∈ gap, isBlank c = true)
    {d : Option (List Char)} (hd : g.Admits d) (closed : Bool) :
    g.FitsRest ⟨some ⟨t.gap, type, closed⟩, gap, d⟩ := by
  refine ⟨?_, hgap, hd⟩
  rintro _ ⟨⟩
  exact ⟨h.gap_ne, h.gap, htype⟩

/-- the dashes are the last ones with a good continuation if no longer type is in front of such -/
theorem lastDashes?_of_longest {good : List Char → Bool} {type gap d : List Char}
    (hd : good d = true)
    (hlongest : ∀ a b, type ++ gap ++ '-' :: '-' :: d = a ++ '-' :: '-' :: b → good b = true →
      a.length ≤ type.length) :
    lastDashes? good (type ++ gap ++ '-' :: '-' :: d) = some (type, d) := by
  cases hl : lastDashes? good (type ++ gap ++ '-' :: '-' :: d) with
  | none => exact absurd hl (lastDashes?_ne_none hd _)
  | some ab =>
    obtain ⟨a, b⟩ := ab
    obtain ⟨hab, hb, hlast⟩ := lastDashes?_eq_some hl
    have hle := hlongest a b hab hb
    have hge := hlast _ d rfl hd
    rw [List.length_append] at hge
    obtain rfl : gap = [] := List.eq_nil_of_length_eq_zero (by omega)
    rw [List.append_nil] at hab
    have hlength : type.length = a.length := Nat.le_antisymm (Nat.le_of_add_right_le hge) hle
    obtain ⟨rfl, he⟩ := List.append_inj hab hlength
    obtain ⟨-, rfl⟩ := List.cons.inj (List.cons.inj he).2
    rfl

section
variable {lead type gap : List Char} (htype : TypePart.WellFormed ⟨lead, type, false⟩)
  (hgap : ∀ c ∈ gap, isBlank c = true)
include htype hgap

/-- without a closing parenthesis and dashes, all that is left is the type -/
theorem readRest_ended (hg : g.mayEnd = true)
    (hlongest : ∀ t closed gap' d', g.FitsRest ⟨some ⟨lead, t, closed⟩, gap', d'⟩ →
      t ++ (TypePart.closing closed ++ (gap' ++ dashedText d')) = type ++ gap →
      t.length ≤ type.length) :
    g.readRest (lead ++ '(' :: (type ++ gap)) = some (type, none) := by
  have hall : ∀ c ∈ type ++ gap, isParenthesis c = false := by
    intro c hc
    rcases List.mem_append.1 hc with hc | hc
    · exact htype.type c hc
    · exact isParenthesis_of_isBlank (hgap c hc)
  have hfits : g.FitsRest ⟨some ⟨lead, type ++ gap, false⟩, [], none⟩ :=
    fitsRest_typed (d := none) htype hall (List.forall_mem_nil _) hg false
  have hle := hlongest _ _ _ _ hfits (List.append_nil _)
  rw [List.length_append] at hle
  obtain rfl : gap = [] := List.eq_nil_of_length_eq_zero (by omega)
  rw [List.append_nil] at hall ⊢
  have hopen := openType?_append htype.gap_ne htype.gap (type ++ [])
  rw [List.takeWhile_append_of_pos (not_isParenthesis hall),
    List.dropWhile_append_of_pos (not_isParenthesis hall), List.append_nil] at hopen
  have hread : g.readDashes (skipClosing []) = some none := if_pos hg
  rw [readRest, hopen]
  dsimp only
  rw [List.dropWhile_nil, hread, List.takeWhile_nil, List.append_nil]

/-- without a closing parenthesis, the type ends at dashes in what is read as the type first -/
theorem readRest_dashed {d : List Char} (hd : g.good d = true)
    (hlongest : ∀ t closed gap' d', g.FitsRest ⟨some ⟨lead, t, closed⟩, gap', d'⟩ →
      t ++ (TypePart.closing closed ++ (gap' ++ dashedText d')) = type ++ gap ++ '-' :: '-' :: d →
      t.length ≤ type.length) :
    g.readRest (lead ++ '(' :: (type ++ gap ++ '-' :: '-' :: d)) = some (type, some d) := by
  have hplain : ∀ c ∈ type ++ gap ++ ['-', '-'], isParenthesis c = false := by
    intro c hc
    rcases List.mem_append.1 hc with hc | hc
    · rcases List.mem_append.1 hc with hc | hc
      · exact htype.type c hc
      · exact isParenthesis_of_isBlank (hgap c hc)
    · rcases List.mem_cons.1 hc with rfl | hc
      · decide
      · obtain rfl := List.mem_singleton.1 hc
        decide
  have hassoc : ∀ s, type ++ gap ++ '-' :: '-' :: s = type ++ gap ++ ['-', '-'] ++ s := by
    intro s
    simp
  have hall : ∀ c ∈ type ++ gap ++ '-' :: '-' :: d.takeWhile (!isParenthesis ·),
      isParenthesis c = false := by
    intro c hc
    rw [hassoc] at hc
    rcases List.mem_append.1 hc with hc | hc
    · exact hplain c hc
    · exact isParenthesis_takeWhile d c hc
  have hopen := openType?_append htype.gap_ne htype.gap (type ++ gap ++ '-' :: '-' :: d)
  rw [hassoc d, List.takeWhile_append_of_pos (not_isParenthesis hplain),
    List.dropWhile_append_of_pos (not_isParenthesis hplain), ← hassoc, ← hassoc] at hopen
  have hsplit : d.takeWhile (!isParenthesis ·) ++ d.dropWhile (!isParenthesis ·) = d :=
    List.takeWhile_append_dropWhile
  generalize d.takeWhile (!isParenthesis ·) = e at hopen hall hsplit
  generalize d.dropWhile (!isParenthesis ·) = v at hopen hsplit
  subst hsplit
  rw [readRest, hopen]
  dsimp only
  split
  next d' hd' =>
    -- the type could end at the parenthesis after the dashes, so it would not be the longest
    obtain ⟨closed, hclosed⟩ := exists_closing v
    obtain ⟨gap', hgap', hblank, hadmits⟩ := readDashes_eq_some hd'
    have hle := hlongest _ closed gap' d' (fitsRest_typed htype hall hblank hadmits closed)
      (by
      rw [← hgap', ← hclosed, List.append_assoc]
      rfl)
    simp only [List.length_append, List.length_cons] at hle
    omega
  next =>
    have hlast : lastDashes? (fun d => g.good (d ++ v)) (type ++ gap ++ '-' :: '-' :: e)
        = some (type, e) := by
      refine lastDashes?_of_longest hd fun a b hab hb => ?_
      have ha : ∀ c ∈ a, isParenthesis c = false :=
        fun c hc => hall c (hab ▸ List.mem_append_left _ hc)
      have hfits : g.FitsRest ⟨some ⟨lead, a, false⟩, [], some (b ++ v)⟩ :=
        fitsRest_typed (d := some (b ++ v)) htype ha (List.forall_mem_nil _) hb false
      have htext := congrArg (· ++ v) hab
      simp only [List.append_assoc, List.cons_append] at htext
      exact hlongest _ _ _ _ hfits (by simpa [TypePart.closing, dashedText] using htext.symm)
    rw [hlast]
    rfl

end

/-- The rest of a line is read as its parts if there are none with a longer type. -/
theorem readRest_text {p : LineRest} (hp : g.FitsRest p)
    (hlongest : ∀ q, g.FitsRest q → q.text = p.text → q.typeSize ≤ p.typeSize) :
    g.readRest p.text = some (p.typeText, p.description) := by
  obtain ⟨_ | ⟨lead, type, closed⟩, gap, d⟩ := p
  · show g.readRest (gap ++ dashedText d) = some ([], d)
    rw [readRest, openType?_dashes hp.gap]
    exact congrArg (Option.map _) (readDashes_append hp.gap hp.description)
  · have htype := hp.type _ rfl
    rw [text_typed]
    cases closed with
    | true =>
      have hplain : ∀ c ∈ type, (!isParenthesis c) = true := fun c hc => by simp [htype.type c hc]
      rw [readRest, openType?_append htype.gap_ne htype.gap, List.takeWhile_append_of_pos hplain,
        List.dropWhile_append_of_pos hplain]
      show (match g.readDashes (gap ++ dashedText d) with
        | some d => _
        | none => _) = _
      rw [readDashes_append hp.gap hp.description]
      exact congrArg (fun t => some (t, d)) (List.append_nil type)
    | false =>
      have hlonger : ∀ t closed gap' d', g.FitsRest ⟨some ⟨lead, t, closed⟩, gap', d'⟩ →
          t ++ (TypePart.closing closed ++ (gap' ++ dashedText d')) = type ++ (gap ++ dashedText d) →
          t.length ≤ type.length := fun t closed gap' d' hq he =>
        Nat.le_of_succ_le_succ (hlongest _ hq (by rw [text_typed, text_typed, he]; rfl))
      cases d with
      | none =>
        have hread := readRest_ended htype hp.gap hp.description fun t closed gap' d' hq he =>
          hlonger t closed gap' d' hq (he.trans (congrArg (type ++ ·) (List.append_nil gap).symm))
        rw [← List.append_nil gap] at hread
        exact hread
      | some d =>
        have hread := readRest_dashed htype hp.gap hp.description fun t closed gap' d' hq he =>
          hlonger t closed gap' d' hq (he.trans (List.append_assoc type gap _))
        rw [List.append_assoc] at hread
        exact hread

/-- the rest of chosen parts is read as it is -/
theorem Chosen.readRest_text {p : LineParts} (h : g.Chosen p) :
    g.readRest p.rest.text = some (p.rest.typeText, p.rest.description) := by
  refine LineGrammar.readRest_text h.fits.rest fun q hq he => ?_
  exact h.type_le ⟨p.front, q⟩ ⟨h.fits.front, hq⟩ (congrArg (p.front ++ ·) he) rfl

/-- what follows the front begins with a blank or a dash -/
theorem head_restText {p : LineRest} (hp : g.FitsRest p) {c : Char} {s : List Char}
    (h : p.text = c :: s) :
    isBlank c = true ∨ ∃ d, s = '-' :: d ∧ p = ⟨none, [], some d⟩ ∧ c = '-' := by
  obtain ⟨_ | t, gap, d⟩ := p
  · replace h : gap ++ dashedText d = c :: s := h
    cases gap with
    | cons b gap =>
      obtain ⟨rfl, -⟩ := List.cons.inj h
      exact .inl (hp.gap b List.mem_cons_self)
    | nil =>
      cases d with
      | none => cases h
      | some d =>
        obtain ⟨rfl, rfl⟩ := List.cons.inj h
        exact .inr ⟨d, rfl, rfl, rfl⟩
  · have ht := hp.type t rfl
    obtain ⟨b, gap', hgap⟩ := List.exists_cons_of_ne_nil ht.gap_ne
    have hb : isBlank b = true := ht.gap b (hgap ▸ List.mem_cons_self)
    rw [LineRest.text, Option.map_some, Option.getD_some, TypePart.text, hgap] at h
    obtain ⟨rfl, -⟩ := List.cons.inj h
    exact .inl hb

end LineGrammar

end Apidoc
