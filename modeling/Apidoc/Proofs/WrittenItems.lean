import Apidoc.Proofs.DeclarationOrder
import Apidoc.Proofs.LineLayout
import Apidoc.Proofs.Trimming

/-!
# Written items

Items are written one after the other as

    name (type) -- Required. The first piece of the description
        and further pieces, each on a line of its own.

* `WrittenItem`          the parts of an item with its layout;
* `lines`, `line`        the physical lines of an item, and its logical line;
* `WrittenItem.WellFormed`   the items that can be written;
* `read?_line`           the logical line is read as the parts of the item;
* `items_written`        a text of written items has exactly these items.

Main statement: a section of written items puts the last item of each name into its table, and
nothing else (`get?_table_written`).
-/

namespace Apidoc

open Text (isBlank isWord allBlank trim trimStart dropWord? joinWith IsPadding)

/-- the word of a marker with its full stop -/
def Marker.word : Marker → List Char
  | .required => "required.".toList
  | .optional => "optional.".toList

structure WrittenItem where
  name : List Char
  type : Option (List Char)
  /-- with the way in which it is spelled -/
  marker : Option (Marker × List Char)
  /-- the piece of the description on the line of the name -/
  piece : List Char
  /-- the pieces on further lines, each with its indentation -/
  more : List (List Char × List Char)

namespace WrittenItem

/-! ## writing -/

def pieces (i : WrittenItem) : List (List Char) := i.piece :: i.more.map Prod.snd

/-- the description, in which a space stands for each line break -/
def description (i : WrittenItem) : List Char := joinWith [' '] i.pieces

def typeText (i : WrittenItem) : List Char :=
  match i.type with
  | none => []
  | some t => ' ' :: '(' :: t ++ [')']

def markerText (i : WrittenItem) : List Char :=
  match i.marker with
  | none => []
  | some (_, m) => m ++ [' ']

/-- all that stands in front of the description -/
def front (i : WrittenItem) : List Char :=
  i.name ++ (i.typeText ++ itemSeparator ++ i.markerText)

def lines (i : WrittenItem) : List (List Char) :=
  (i.front ++ i.piece) :: i.more.map fun l => l.1 ++ l.2

def line (i : WrittenItem) : List Char := i.front ++ i.description

/-- a piece of a description -/
structure IsPiece (p : List Char) : Prop where
  nonempty : p ≠ []
  trimmed : trim p = p
  one : '\n' ∉ p

structure WellFormed (i : WrittenItem) : Prop where
  name_head : i.name.head?.any isWord = true
  name_chars : ∀ c ∈ i.name, ItemLine.isNameChar c = true
  type_text : ∀ t ∈ i.type, allBlank t = false ∧ ∀ c ∈ t, isParenthesis c = false ∧ c ≠ '\n'
  marker_word : ∀ m ∈ i.marker, m.2.map Text.fold = m.1.word
  pieces_solid : ∀ p ∈ i.pieces, IsPiece p
  more_continue : ∀ l ∈ i.more, IsPadding l.1 ∧ Text.contains itemSeparator l.2 = false
  /-- the description itself begins with no marker -/
  no_marker : ∀ m : Marker, dropWord? m.word i.description = none

/-- the item that is written -/
def toItem (i : WrittenItem) (place : Place) (order : Nat) : Item :=
  { name := .ofList i.name
    type := DataType.resolve (match i.type with | none => "string" | some t => .ofList t)
      (splitConstraints i.description).2
    place
    required := ItemLine.isRequired place (i.marker.map Prod.fst)
    description := (splitConstraints i.description).1
    order }

/-- the parts of the line of an item; the space after a marker belongs to the description -/
def itemLine (i : WrittenItem) : ItemLine :=
  { name := i.name
    type := i.type.getD []
    marker := i.marker.map Prod.fst
    description := match i.marker with
      | none => i.description
      | some _ => ' ' :: i.description }

/-! ## names and pieces -/

theorem isBlank_of_isNameChar {c : Char} (h : ItemLine.isNameChar c = true) :
    isBlank c = false := by
  cases hb : isBlank c with
  | false => rfl
  | true =>
    rw [ItemLine.isNameChar, Text.isWord_of_isBlank hb, Bool.false_or, Bool.or_eq_true,
      beq_iff_eq, beq_iff_eq] at h
    rcases h with rfl | rfl
    · exact absurd hb (by decide)
    · exact absurd hb (by decide)

namespace WellFormed

variable {i : WrittenItem}

theorem name_ne_nil (h : i.WellFormed) : i.name ≠ [] := by
  intro hn
  have hh := h.name_head
  rw [hn] at hh
  exact absurd hh (by decide)

theorem name_blank (h : i.WellFormed) : ∀ c ∈ i.name, isBlank c = false :=
  fun c hc => isBlank_of_isNameChar (h.name_chars c hc)

theorem trim_name (h : i.WellFormed) : trim i.name = i.name :=
  Text.trim_eq_self (fun c hc => h.name_blank c (List.mem_of_mem_head? hc))
    fun c hc => h.name_blank c (List.mem_of_mem_getLast? hc)

theorem piece_solid (h : i.WellFormed) : IsPiece i.piece :=
  h.pieces_solid i.piece List.mem_cons_self

theorem more_solid (h : i.WellFormed) {l : List Char × List Char} (hl : l ∈ i.more) :
    IsPiece l.2 :=
  h.pieces_solid l.2 (List.mem_cons_of_mem _ (List.mem_map_of_mem hl))

theorem marker_solid (h : i.WellFormed) {k : Marker} {m : List Char} (hm : (k, m) ∈ i.marker) :
    m ≠ [] ∧ ∀ c ∈ m, isBlank c = false := by
  have hw : m.map Text.fold = k.word := h.marker_word _ hm
  constructor
  · rintro rfl
    cases k <;> cases hw
  · intro c hc
    cases hb : isBlank c with
    | false => rfl
    | true =>
      have hmem : c ∈ k.word := by
        rw [← hw, ← Text.fold_of_isBlank hb]
        exact List.mem_map_of_mem hc
      have hk : k.word.all (!isBlank ·) = true := by cases k <;> decide
      have hc : isBlank c = false := by simpa using List.all_eq_true.1 hk c hmem
      rw [← hb, hc]

/-! ## physical lines -/

theorem front_one (h : i.WellFormed) : '\n' ∉ i.front := by
  have hname : '\n' ∉ i.name := fun hn => absurd (h.name_blank _ hn) (by decide)
  have htype : '\n' ∉ i.typeText := by
    unfold typeText
    split
    next => exact List.not_mem_nil
    next t ht =>
      have htext : '\n' ∉ t := fun hn => ((h.type_text t ht).2 _ hn).2 rfl
      simp [htext]
  have hmarker : '\n' ∉ i.markerText := by
    unfold markerText
    split
    next => exact List.not_mem_nil
    next k m hm =>
      have htext : '\n' ∉ m := fun hn => absurd ((h.marker_solid hm).2 _ hn) (by decide)
      simp [htext]
  have hsep : '\n' ∉ itemSeparator := by decide
  simp [front, hname, htype, hmarker, hsep]

theorem trim_first (h : i.WellFormed) : trim (i.front ++ i.piece) = i.front ++ i.piece :=
  Text.trim_between h.trim_name h.name_ne_nil h.piece_solid.trimmed h.piece_solid.nonempty _

theorem isLine_append {a p : List Char} (ha : '\n' ∉ a) (hp : IsPiece p) : IsLine (a ++ p) where
  one := by
    rw [List.mem_append, not_or]
    exact ⟨ha, hp.one⟩
  nonempty := by simp [hp.nonempty]
  solid_end := by
    have hl : (a ++ p).getLast? = p.getLast? := by
      rw [List.getLast?_append, List.getLast?_eq_some_getLast hp.nonempty, Option.some_or]
    rw [hl]
    exact (Text.trim_eq_self_iff.1 hp.trimmed).2

theorem isLine (h : i.WellFormed) : ∀ l ∈ i.lines, IsLine l := by
  intro l hl
  rcases List.mem_cons.1 hl with rfl | hl
  case inl => exact isLine_append h.front_one h.piece_solid
  case inr =>
    obtain ⟨⟨a, p⟩, hmem, rfl⟩ := List.mem_map.1 hl
    have ha : '\n' ∉ a := by
      intro hn
      rcases (h.more_continue _ hmem).1 _ hn with he | he <;> cases he
    exact isLine_append ha (h.more_solid hmem)

theorem isGroup (h : i.WellFormed) : IsGroup i.lines := by
  have hstart : startsItem (i.front ++ i.piece) = true := by
    have ht : trimStart (i.front ++ i.piece) = i.front ++ i.piece :=
      Text.trimStart_eq_self (Text.trim_eq_self_iff.1 h.trim_first).1
    rw [startsItem, ht, Text.contains_iff]
    exact ⟨i.name ++ i.typeText, i.markerText ++ i.piece, by simp [front]⟩
  refine ⟨by simp [lines], fun l hl => ?_, fun l hl => ?_⟩
  · rw [← Option.some.inj hl]
    exact hstart
  · obtain ⟨⟨a, p⟩, hmem, rfl⟩ := List.mem_map.1 hl
    obtain ⟨ha, hc⟩ := h.more_continue _ hmem
    have hp : trimStart p = p :=
      Text.trimStart_eq_self (Text.trim_eq_self_iff.1 (h.more_solid hmem).trimmed).1
    rw [startsItem, Text.trimStart_append_of_blank ha.blank, hp]
    exact hc

/-! ## logical lines -/

theorem joinWith_append (sep a p : List Char) (ps : List (List Char)) :
    joinWith sep ((a ++ p) :: ps) = a ++ joinWith sep (p :: ps) := by
  cases ps with
  | nil => rfl
  | cons q qs => rw [Text.joinWith_cons_cons, Text.joinWith_cons_cons, List.append_assoc,
      List.append_assoc, List.append_assoc]

theorem joinLines_lines (h : i.WellFormed) : joinLines i.lines = i.line := by
  have hmore : (i.more.map fun l => l.1 ++ l.2).map trim = i.more.map Prod.snd := by
    rw [List.map_map]
    refine List.map_congr_left fun l hl => ?_
    show trim (l.1 ++ l.2) = l.2
    rw [Text.trim_append_of_blank_left (h.more_continue l hl).1.blank, (h.more_solid hl).trimmed]
  rw [joinLines, lines, List.map_cons, h.trim_first, hmore, joinWith_append]
  rfl

/-! ## reading -/

theorem solid_joinWith {ps : List (List Char)} (hne : ps ≠ []) (h : ∀ p ∈ ps, IsPiece p) :
    trim (joinWith [' '] ps) = joinWith [' '] ps ∧ joinWith [' '] ps ≠ [] := by
  induction ps with
  | nil => exact absurd rfl hne
  | cons p ps ih =>
    have hp : IsPiece p := h p List.mem_cons_self
    cases ps with
    | nil => exact ⟨hp.trimmed, hp.nonempty⟩
    | cons q qs =>
      obtain ⟨ht, hn⟩ := ih (by simp) fun r hr => h r (List.mem_cons_of_mem p hr)
      rw [Text.joinWith_cons_cons]
      exact ⟨Text.trim_between hp.trimmed hp.nonempty ht hn [' '], by simp⟩

theorem trim_description (h : i.WellFormed) : trim i.description = i.description :=
  (solid_joinWith (by simp [pieces]) h.pieces_solid).1

theorem readMarker_word {k : Marker} {m : List Char} (hm : m.map Text.fold = k.word)
    (s : List Char) : ItemLine.readMarker (m ++ s) = (some k, s) := by
  have hself : dropWord? k.word (m ++ s) = some s := hm ▸ Text.dropWord?_append m s
  cases k with
  | required =>
    have hr : dropWord? "required.".toList (m ++ s) = some s := hself
    rw [ItemLine.readMarker, hr]
  | optional =>
    have ho : dropWord? "optional.".toList (m ++ s) = some s := hself
    have hr : dropWord? "required.".toList (m ++ s) = none := by
      cases m with
      | nil => cases hm
      | cons c m =>
        have hc : Text.fold c = 'o' := (List.cons.inj hm).1
        show (if Text.fold c = 'r' then _ else none) = none
        rw [if_neg (by rw [hc]; decide)]
    rw [ItemLine.readMarker, hr, ho]

theorem readMarker_text (h : i.WellFormed) :
    ItemLine.readMarker (i.markerText ++ i.description) =
      (i.itemLine.marker, i.itemLine.description) := by
  cases hm : i.marker with
  | none =>
    have hr : dropWord? "required.".toList i.description = none := h.no_marker .required
    have ho : dropWord? "optional.".toList i.description = none := h.no_marker .optional
    simp only [markerText, itemLine, hm, List.nil_append, Option.map_none]
    rw [ItemLine.readMarker, hr, ho]
  | some m =>
    obtain ⟨k, m⟩ := m
    simp only [markerText, itemLine, hm, Option.map_some, List.append_assoc]
    exact readMarker_word (h.marker_word _ hm) _

theorem head_tail (h : i.WellFormed) :
    ∀ c ∈ (i.markerText ++ i.description).head?, isBlank c = false := by
  intro c hc
  cases hm : i.marker with
  | none =>
    rw [markerText, hm] at hc
    exact (Text.trim_eq_self_iff.1 h.trim_description).1 c hc
  | some m =>
    obtain ⟨k, m⟩ := m
    obtain ⟨hne, hsolid⟩ := h.marker_solid hm
    obtain ⟨d, ds, rfl⟩ := List.exists_cons_of_ne_nil hne
    rw [markerText, hm] at hc
    rw [← Option.some.inj hc]
    exact hsolid d List.mem_cons_self

theorem readDescription_text (h : i.WellFormed) :
    ItemLine.readDescription? (' ' :: (i.markerText ++ i.description)) =
      some (i.itemLine.marker, i.itemLine.description) := by
  have hdrop : (' ' :: (i.markerText ++ i.description)).dropWhile isBlank =
      i.markerText ++ i.description := Text.trimStart_eq_self h.head_tail
  show some (ItemLine.readMarker ((' ' :: (i.markerText ++ i.description)).dropWhile isBlank)) = _
  rw [hdrop, h.readMarker_text]

theorem readTail_text (h : i.WellFormed) :
    ItemLine.readTail? (itemSeparator ++ (i.markerText ++ i.description)) =
      some (i.itemLine.marker, i.itemLine.description) := h.readDescription_text

theorem openType_text {t : List Char} (ht : ∀ c ∈ t, isParenthesis c = false) (s : List Char) :
    openType? (' ' :: '(' :: t ++ [')'] ++ s) = some (t, ')' :: s) := by
  have hp : ∀ c ∈ t, (!isParenthesis c) = true := by
    intro c hc
    rw [ht c hc]
    rfl
  have hs : ' ' :: '(' :: t ++ [')'] ++ s = ' ' :: '(' :: (t ++ ')' :: s) := by simp
  rw [hs]
  show some ((t ++ ')' :: s).takeWhile (!isParenthesis ·),
    (t ++ ')' :: s).dropWhile (!isParenthesis ·)) = _
  rw [List.takeWhile_append_of_pos hp, List.dropWhile_append_of_pos hp]
  show some (t ++ [], ')' :: s) = _
  rw [List.append_nil]

theorem readParts_text (h : i.WellFormed) :
    ItemLine.readParts? (i.typeText ++ (itemSeparator ++ (i.markerText ++ i.description))) =
      some (i.itemLine.type, i.itemLine.marker, i.itemLine.description) := by
  cases ht : i.type with
  | none =>
    have ho : openType? (itemSeparator ++ (i.markerText ++ i.description)) = none := rfl
    rw [typeText, ht, List.nil_append, ItemLine.readParts?, ho]
    show (ItemLine.readTail? _).map _ = _
    rw [h.readTail_text, itemLine, ht]
    rfl
  | some t =>
    have hparens : ∀ c ∈ t, isParenthesis c = false := fun c hc => ((h.type_text t ht).2 c hc).1
    have hskip : ∀ s : List Char, skipClosing (')' :: s) = s := fun _ => rfl
    rw [typeText, ht, ItemLine.readParts?, openType_text hparens]
    dsimp only
    rw [hskip, h.readTail_text, itemLine, ht]
    rfl

/-- **The line of an item is read as its parts.** -/
theorem read?_line (h : i.WellFormed) : ItemLine.read? i.line = some i.itemLine := by
  have hline : i.line =
      i.name ++ (i.typeText ++ (itemSeparator ++ (i.markerText ++ i.description))) := by
    simp [line, front]
  obtain ⟨s, hs⟩ : ∃ s, i.typeText ++ (itemSeparator ++ (i.markerText ++ i.description)) =
      ' ' :: s := by
    unfold typeText
    split <;> exact ⟨_, rfl⟩
  have htake : i.line.takeWhile ItemLine.isNameChar = i.name := by
    rw [hline, hs, List.takeWhile_append_of_pos h.name_chars]
    exact List.append_nil i.name
  have hdrop : i.line.dropWhile ItemLine.isNameChar =
      i.typeText ++ (itemSeparator ++ (i.markerText ++ i.description)) := by
    rw [hline, hs, List.dropWhile_append_of_pos h.name_chars]
    rfl
  rw [ItemLine.read?, htake, hdrop, h.name_head]
  dsimp only [Bool.not_true]
  rw [h.readParts_text]
  rfl

/-- what is read is the item, except for a response -/
theorem toItem_itemLine (h : i.WellFormed) {place : Place} (hp : place ≠ .response)
    (order : Nat) : i.itemLine.toItem place order = i.toItem place order := by
  have hd : trim i.itemLine.description = i.description := by
    unfold itemLine
    cases i.marker with
    | none => exact h.trim_description
    | some m =>
      have hs : trim ([' '] ++ i.description) = trim i.description :=
        Text.trim_append_of_blank_left Text.isPadding_space.blank _
      exact hs.trans h.trim_description
  have ht : ∀ c, DataType.ofToken (if (trim i.itemLine.type).isEmpty then ItemLine.usualType place
      else trim i.itemLine.type) c =
        DataType.resolve (match i.type with | none => "string" | some t => .ofList t) c := by
    intro c
    unfold itemLine
    cases hi : i.type with
    | none =>
      have hu : ItemLine.usualType place = "string".toList := by
        cases place <;> first | rfl | exact absurd rfl hp
      show DataType.ofToken (ItemLine.usualType place) c = _
      rw [hu]
      rfl
    | some t =>
      have hne : trim t ≠ [] := by
        rw [Ne, Text.trim_eq_nil_iff, (h.type_text t hi).1]
        exact Bool.false_ne_true
      show DataType.ofToken (if (trim t).isEmpty then _ else trim t) c =
        DataType.ofToken (String.ofList t).toList c
      rw [if_neg (by simpa using hne), String.toList_ofList]
      exact DataType.ofToken_congr (Text.trim_trim t) c
  rw [ItemLine.toItem, toItem, hd]
  dsimp only
  rw [ht]
  rfl

end WellFormed

/-! ## sections -/

def key (i : WrittenItem) : String := .ofList i.name

/-- the last item of a name, with its number -/
def lastNamed (is : List WrittenItem) (k : String) : Option (WrittenItem × Nat) :=
  is.zipIdx.reverse.find? fun i => i.1.key = k

section
variable {is : List WrittenItem} {s : List Char}

theorem logicalLines_written (h : ∀ i ∈ is, i.WellFormed) (hs : LaidOut (is.flatMap lines) s) :
    logicalLines s = is.map line := by
  have hg : ∀ g ∈ is.map lines, IsGroup g ∧ ∀ l ∈ g, IsLine l := by
    intro g hg
    obtain ⟨i, hi, rfl⟩ := List.mem_map.1 hg
    exact ⟨(h i hi).isGroup, (h i hi).isLine⟩
  rw [List.flatMap_def] at hs
  rw [logicalLines_of_laidOut (fun g hmem => (hg g hmem).1) (fun g hmem => (hg g hmem).2) hs,
    List.map_map]
  exact List.map_congr_left fun i hi => (h i hi).joinLines_lines

/-- a text of written items has exactly these items -/
theorem items_written (h : ∀ i ∈ is, i.WellFormed) (hs : LaidOut (is.flatMap lines) s)
    {place : Place} (hp : place ≠ .response) :
    items place s = is.zipIdx.map fun i => i.1.toItem place i.2 := by
  have hread : ∀ (ls : List WrittenItem) (n : Nat), (∀ i ∈ ls, i.WellFormed) →
      (((ls.map line).zipIdx n).filterMap fun l =>
        (ItemLine.read? l.1).map (·.toItem place l.2)) =
      (ls.zipIdx n).map fun i => i.1.toItem place i.2 := by
    intro ls
    induction ls with
    | nil => exact fun n _ => rfl
    | cons i ls ih =>
      intro n hls
      have hi : i.WellFormed := hls i List.mem_cons_self
      rw [List.map_cons, List.zipIdx_cons, List.zipIdx_cons, List.map_cons,
        List.filterMap_cons_some (b := i.toItem place n)]
      · rw [ih (n + 1) fun j hj => hls j (List.mem_cons_of_mem i hj)]
      · rw [hi.read?_line, Option.map_some, hi.toItem_itemLine hp]
  rw [items_eq_filterMap, logicalLines_written h hs]
  exact hread is 0 h

/-- **A section of written items gives the last item of each name back**, and no other item. -/
theorem get?_table_written (h : ∀ i ∈ is, i.WellFormed) (hs : LaidOut (is.flatMap lines) s)
    (l : Listing) (k : String) :
    (l.table (({} : OperationDoc).apply l.sec s)).get? k =
      (lastNamed is k).map fun i => i.1.toItem l.place i.2 := by
  have hp : l.place ≠ .response := by cases l <;> decide
  have h0 : l.table {} = ∅ := by cases l <;> rfl
  have hbind : ((items l.place s).map fun i =>
      (i.name, { i with order := i.order + Items.nextOrder ∅ })) =
      is.zipIdx.map fun i => (i.1.key, i.1.toItem l.place i.2) := by
    rw [items_written h hs hp, List.map_map]
    rfl
  rw [Listing.table_apply_self, h0, Items.extend, hbind, Table.get?_insertAll, Table.get?_empty,
    Option.or_none, lastNamed, ← List.map_reverse, List.find?_map, Option.map_map]
  rfl

end

def firstPageSize : WrittenItem :=
  { name := "page-size".toList, type := some " enum[a -- b] ".toList,
    marker := some (.required, "rEQUIRED.".toList), piece := "The (first)".toList,
    more := [(['\t', ' '], "value.".toList)] }

def lastPageSize : WrittenItem :=
  { name := "page-size".toList, type := none, marker := none,
    piece := "Again -- and again".toList, more := [] }

/-- one name declared twice -/
def pageSizes : List WrittenItem := [firstPageSize, lastPageSize]

theorem wellFormed_pageSizes : ∀ i ∈ pageSizes, i.WellFormed := by
  have hpiece : ∀ p ∈ ["The (first)", "value.", "Again -- and again"], IsPiece p.toList := by
    intro p hp
    simp only [List.mem_cons, List.not_mem_nil, or_false] at hp
    rcases hp with rfl | rfl | rfl <;> exact ⟨by decide, by decide, by decide⟩
  have hname : ∀ c ∈ "page-size".toList, ItemLine.isNameChar c = true :=
    List.all_eq_true.1 (by decide)
  intro i hi
  simp only [pageSizes, List.mem_cons, List.not_mem_nil, or_false] at hi
  rcases hi with rfl | rfl
  · refine ⟨by decide, hname, ?_, by decide, ?_, ?_, ?_⟩
    · intro t ht
      rw [← Option.some.inj ht]
      have hall : (" enum[a -- b] ".toList.all fun c => !isParenthesis c && c != '\n') = true := by
        decide
      exact ⟨by decide, fun c hc => by simpa using List.all_eq_true.1 hall c hc⟩
    · intro p hp
      rcases List.mem_cons.1 hp with rfl | hp
      · exact hpiece "The (first)" (by simp)
      · rw [List.mem_singleton.1 hp]
        exact hpiece "value." (by simp)
    · intro l hl
      rw [List.mem_singleton.1 hl]
      exact ⟨by simp [IsPadding], by decide⟩
    · intro m
      cases m <;> decide
  · refine ⟨by decide, hname, ?_, by decide, ?_, ?_, ?_⟩
    · exact fun t ht => absurd ht (Option.not_mem_none t)
    · intro p hp
      rw [List.mem_singleton.1 hp]
      exact hpiece "Again -- and again" (by simp)
    · exact fun l hl => absurd hl List.not_mem_nil
    · intro m
      cases m <;> decide

def pageSizesText : List Char :=
  "page-size ( enum[a -- b] ) -- rEQUIRED. The (first)".toList ++ ['\r', '\n'] ++
    ("\t value.".toList ++ ['\n'] ++ "page-size -- Again -- and again".toList)

theorem laidOut_pageSizes : LaidOut (pageSizes.flatMap lines) pageSizesText :=
  .cons (.inr rfl) (.cons (.inl rfl) (.unended _))

theorem get?_table_pageSizes :
    (∀ i ∈ pageSizes, i.WellFormed) ∧ LaidOut (pageSizes.flatMap lines) pageSizesText ∧
      (Listing.query.table (({} : OperationDoc).apply .query pageSizesText)).get? "page-size" =
        some (lastPageSize.toItem .query 1) :=
  ⟨wellFormed_pageSizes, laidOut_pageSizes,
    get?_table_written wellFormed_pageSizes laidOut_pageSizes .query "page-size"⟩

end WrittenItem

end Apidoc
