import Apidoc.Proofs.LineReading
import Apidoc.Proofs.Parameters
import Apidoc.Route.Template

/-!
# Written routes

The address of a route is written as segments with slashes between them, maybe with an anchor in
front of them and one behind.  A segment is `:name`, or it is made of pieces: characters, escaped
characters and groups.

* `Balanced`             the texts that can stand in a group;
* `WrittenPiece`, `WrittenSegment`, `WrittenRoute`   a route in parts, with its `text`;
* `WrittenPiece.path`    what a piece is in the path, which depends on the pieces before it;
* `WrittenRoute.path`    the path of the route.

Main statement: the path of a written route is that of its parts, with the path parameters of a
docstring for the groups without a name (`pathTemplate_written`).
-/

namespace Apidoc

open Text (isWord cutAt dropStart? dropEnd? splitOn joinWith)

/-! ## groups -/

/-- texts without backslashes and parentheses -/
def IsPlainText (s : List Char) : Prop := ∀ c ∈ s, c ≠ '\\' ∧ c ≠ '(' ∧ c ≠ ')'

instance (s : List Char) : Decidable (IsPlainText s) := List.decidableBAll _ s

/-- every backslash stands before a character, and the other parentheses are in balance -/
inductive Balanced : List Char → Prop
  | nil : Balanced []
  | char {c : Char} {s : List Char} (hc : c ≠ '\\' ∧ c ≠ '(' ∧ c ≠ ')') (hs : Balanced s) :
      Balanced (c :: s)
  | escape (c : Char) {s : List Char} (hs : Balanced s) : Balanced ('\\' :: c :: s)
  | group {s t : List Char} (hs : Balanced s) (ht : Balanced t) :
      Balanced ('(' :: (s ++ ')' :: t))

section
variable {c : Char} {s t : List Char}

theorem readGroup_char (hc : c ≠ '\\' ∧ c ≠ '(' ∧ c ≠ ')') (depth : Nat) (s : List Char) :
    readGroup depth (c :: s) = (c :: (readGroup depth s).1, (readGroup depth s).2) := by
  obtain ⟨he, ho, hc⟩ := hc
  rw [readGroup]
  · exact fun _ _ h _ => he h
  · exact ho
  · exact hc

/-- the reader copies a balanced text, at any depth -/
theorem Balanced.readGroup_append (h : Balanced s) (depth : Nat) (rest : List Char) :
    readGroup depth (s ++ rest) = (s ++ (readGroup depth rest).1, (readGroup depth rest).2) := by
  induction h generalizing depth rest with
  | nil => rfl
  | char hc hs ih => rw [List.cons_append, readGroup_char hc, ih]; rfl
  | escape c hs ih => rw [List.cons_append, List.cons_append, readGroup, ih]; rfl
  | @group s t hs ht ihs iht =>
    have he : '(' :: (s ++ ')' :: t) ++ rest = '(' :: (s ++ ')' :: (t ++ rest)) := by simp
    rw [he, readGroup, ihs, readGroup, iht]
    simp

/-- a group ends at the parenthesis that closes it -/
theorem Balanced.readGroup_closed (h : Balanced s) (rest : List Char) :
    readGroup 0 (s ++ ')' :: rest) = (s, rest) := by
  rw [h.readGroup_append, readGroup, List.append_nil]

theorem IsPlainText.balanced_append (hs : IsPlainText s) (ht : Balanced t) :
    Balanced (s ++ t) := by
  induction s with
  | nil => exact ht
  | cons c s ih =>
    exact .char (hs c List.mem_cons_self) (ih fun d hd => hs d (List.mem_cons_of_mem c hd))

theorem isWord_ne (h : isWord c = true) :
    c ≠ '\\' ∧ c ≠ '(' ∧ c ≠ ')' ∧ c ≠ '>' ∧ c ≠ '/' := by
  refine ⟨?_, ?_, ?_, ?_, ?_⟩ <;> (rintro rfl; exact absurd h (by decide))

end

/-! ## pieces -/

inductive WrittenPiece where
  | char (c : Char)
  /-- the character after a backslash -/
  | escape (c : Char)
  /-- `(?P<name>body)`, or without the letter if it is short -/
  | named (short : Bool) (name body : List Char)
  | unnamed (body : List Char)
deriving DecidableEq

namespace WrittenPiece

def opening (short : Bool) : List Char := if short then "?<".toList else "?P<".toList

def text : WrittenPiece → List Char
  | char c => [c]
  | escape c => ['\\', c]
  | named short name body => '(' :: (opening short ++ name ++ '>' :: body) ++ [')']
  | unnamed body => '(' :: body ++ [')']

def WellFormed : WrittenPiece → Prop
  | char c => c ≠ '\\' ∧ c ≠ '(' ∧ c ≠ '/'
  | escape c => c ≠ '/' ∧ c ≠ ':' ∧ c ≠ '$'
  | named _ name body => name ≠ [] ∧ (∀ c ∈ name, isWord c = true) ∧ Balanced body
  | unnamed body => Balanced body ∧ ∀ short, ¬opening short <+: body

def isGroup : WrittenPiece → Bool
  | named _ _ _ => true
  | unnamed _ => true
  | _ => false

def isUnnamed : WrittenPiece → Bool
  | unnamed _ => true
  | _ => false

/-- A piece in the path.  Of the groups in the pieces `before`, those without a name use up the
names, and all count for the number that stands for a name when none is left. -/
def path (names : List String) (before : List WrittenPiece) : WrittenPiece → List Char
  | char c => [c]
  | escape c => [c]
  | named _ name _ => inBraces name
  | unnamed _ => inBraces (names[before.countP isUnnamed]?.getD
      ("param" ++ toString (before.countP isGroup + 1))).toList

def pathAll (names : List String) : List WrittenPiece → List WrittenPiece → List Char
  | _, [] => []
  | before, p :: ps => p.path names before ++ pathAll names (before ++ [p]) ps

/-- the piece that is read -/
def urlPiece : WrittenPiece → UrlPiece
  | char c => .char c
  | escape c => .char c
  | named _ name _ => .group (some name)
  | unnamed _ => .group none

/-! ## reading pieces -/

/-- the piece is read as it is written, whatever follows it -/
def Readable (p : WrittenPiece) : Prop :=
  ∀ rest, urlPieces (p.text ++ rest) = p.urlPiece :: urlPieces rest

theorem readable_char {c : Char} (he : c ≠ '\\') (ho : c ≠ '(') : (char c).Readable := by
  intro rest
  show urlPieces (c :: rest) = _
  rw [urlPieces]
  · rfl
  · exact he
  · exact ho

theorem readable_escape (c : Char) : (escape c).Readable := by
  intro rest
  show urlPieces ('\\' :: c :: rest) = _
  rw [urlPieces]
  rfl

theorem readable_group {body : List Char} (h : Balanced body) (rest : List Char) :
    urlPieces ('(' :: body ++ [')'] ++ rest) = .group (groupName? body) :: urlPieces rest := by
  have he : '(' :: body ++ [')'] ++ rest = '(' :: (body ++ ')' :: rest) := by simp
  rw [he, urlPieces, h.readGroup_closed]

theorem isPlainText_opening (short : Bool) : IsPlainText (opening short) := by
  cases short <;> decide

theorem groupName?_eq (body : List Char) :
    groupName? body = ((dropStart? (opening false) body).or (dropStart? (opening true) body)).bind
      fun r => (cutAt '>' r).map Prod.fst := by
  show Option.bind ((dropStart? (opening false) body).or (dropStart? (opening true) body)) _ = _
  congr 1
  funext r
  cases cutAt '>' r <;> rfl

theorem groupName?_named (short : Bool) {name : List Char} (h : ∀ c ∈ name, isWord c = true)
    (body : List Char) : groupName? (opening short ++ name ++ '>' :: body) = some name := by
  have hname : '>' ∉ name := fun hm => (isWord_ne (h '>' hm)).2.2.2.1 rfl
  have hopen : (dropStart? (opening false) (opening short ++ (name ++ '>' :: body))).or
      (dropStart? (opening true) (opening short ++ (name ++ '>' :: body)))
        = some (name ++ '>' :: body) := by
    cases short with
    | true => exact Text.dropStart?_eq_some_iff.2 rfl
    | false => rw [Text.dropStart?_eq_some_iff.2 rfl, Option.some_or]
  rw [groupName?_eq, List.append_assoc, hopen, Option.bind_some, Text.cutAt_append_sep hname,
    Option.map_some]

theorem groupName?_unnamed {body : List Char} (h : ∀ short, ¬opening short <+: body) :
    groupName? body = none := by
  have hnone : ∀ short, dropStart? (opening short) body = none := fun short =>
    Option.eq_none_iff_forall_ne_some.2 fun r hr =>
      h short ⟨r, (Text.dropStart?_eq_some_iff.1 hr).symm⟩
  rw [groupName?_eq, hnone, hnone, Option.none_or, Option.bind_none]

theorem WellFormed.readable {p : WrittenPiece} (h : p.WellFormed) : p.Readable := by
  cases p with
  | char c => exact readable_char h.1 h.2.1
  | escape c => exact readable_escape c
  | named short name body =>
    obtain ⟨-, hname, hbody⟩ := h
    have hopening : IsPlainText (opening short ++ name ++ ['>']) := by
      intro c hc
      rcases List.mem_append.1 hc with hc | hc
      · rcases List.mem_append.1 hc with hc | hc
        · exact isPlainText_opening short c hc
        · have hne := isWord_ne (hname c hc)
          exact ⟨hne.1, hne.2.1, hne.2.2.1⟩
      · obtain rfl := List.mem_singleton.1 hc
        decide
    have hall : Balanced (opening short ++ name ++ '>' :: body) := by
      rw [List.append_cons]
      exact hopening.balanced_append hbody
    intro rest
    rw [text, readable_group hall, groupName?_named short hname]
    rfl
  | unnamed body =>
    obtain ⟨hbody, hopening⟩ := h
    intro rest
    rw [text, readable_group hbody, groupName?_unnamed hopening]
    rfl

theorem urlPieces_text {ps : List WrittenPiece} (h : ∀ p ∈ ps, p.Readable) :
    urlPieces (ps.flatMap text) = ps.map urlPiece := by
  induction ps with
  | nil => rw [List.flatMap_nil, urlPieces, List.map_nil]
  | cons p ps ih =>
    rw [List.flatMap_cons, h p List.mem_cons_self, List.map_cons,
      ih fun q hq => h q (List.mem_cons_of_mem p hq)]

/-! ## writing paths -/

theorem toList_numbered (n : Nat) :
    ("param" ++ toString n).toList = "param".toList ++ Nat.toDigits 10 n := by
  have hn : (toString n).toList = Nat.toDigits 10 n := String.toList_ofList
  exact String.toList_append.trans (congrArg ("param".toList ++ ·) hn)

/-- a group without a name takes the next name, or its number -/
theorem fill_unnamed (names : List String) (used count : Nat) (ps : List UrlPiece) :
    fill ((names.map String.toList).drop used) count (.group none :: ps)
      = inBraces (names[used]?.getD ("param" ++ toString (count + 1))).toList
        ++ fill ((names.map String.toList).drop (used + 1)) (count + 1) ps := by
  cases hn : names[used]? with
  | none =>
    have hlength : (names.map String.toList).length ≤ used := by
      rw [List.length_map]
      exact List.getElem?_eq_none_iff.1 hn
    rw [List.drop_eq_nil_of_le hlength, List.drop_eq_nil_of_le (Nat.le_succ_of_le hlength), fill,
      Option.getD_none, toList_numbered]
    rfl
  | some name =>
    obtain ⟨hlt, hget⟩ := List.getElem?_eq_some_iff.1 hn
    have hlt' : used < (names.map String.toList).length := by rwa [List.length_map]
    rw [List.drop_eq_getElem_cons hlt', List.getElem_map, hget, fill, Option.getD_some]

/-- The state of the writer is what the pieces before have used up. -/
theorem fill_urlPiece (names : List String) (before ps : List WrittenPiece) :
    fill ((names.map String.toList).drop (before.countP isUnnamed)) (before.countP isGroup)
      (ps.map urlPiece) = pathAll names before ps := by
  induction ps generalizing before with
  | nil => rw [List.map_nil, fill, pathAll]
  | cons p ps ih =>
    have hp := ih (before ++ [p])
    rw [List.countP_append, List.countP_append] at hp
    rw [List.map_cons, pathAll, ← hp]
    cases p with
    | char c => rfl
    | escape c => rfl
    | named short name body => rfl
    | unnamed body => exact fill_unnamed names _ _ _

section
variable {names : List String} {before ps : List WrittenPiece}

theorem pathAll_append (names : List String) (before ps qs : List WrittenPiece) :
    pathAll names before (ps ++ qs)
      = pathAll names before ps ++ pathAll names (before ++ ps) qs := by
  induction ps generalizing before with
  | nil => rw [List.nil_append, List.append_nil, pathAll, List.nil_append]
  | cons p ps ih =>
    rw [List.cons_append, pathAll, pathAll, ih, List.append_assoc, List.append_assoc,
      List.singleton_append]

theorem pathAll_chars (names : List String) (before : List WrittenPiece) (s : List Char) :
    pathAll names before (s.map char) = s := by
  induction s generalizing before with
  | nil => rfl
  | cons c s ih => rw [List.map_cons, pathAll, ih]; rfl

theorem slash_not_mem_numbered (n : Nat) : '/' ∉ ("param" ++ toString n).toList := by
  rw [toList_numbered, List.mem_append]
  rintro (h | h)
  · exact absurd h (by decide)
  · exact absurd (Nat.isDigit_of_mem_toDigits (by decide) (by decide) h) (by decide)

theorem slash_not_mem_inBraces {s : List Char} (h : '/' ∉ s) : '/' ∉ inBraces s := by
  simpa [inBraces] using h

theorem slash_not_mem_path (hnames : ∀ n ∈ names, '/' ∉ n.toList) {p : WrittenPiece}
    (h : p.WellFormed) (before : List WrittenPiece) : '/' ∉ p.path names before := by
  cases p with
  | char c => exact fun hm => h.2.2 (List.mem_singleton.1 hm).symm
  | escape c => exact fun hm => h.1 (List.mem_singleton.1 hm).symm
  | named short name body =>
    exact slash_not_mem_inBraces fun hm => (isWord_ne (h.2.1 '/' hm)).2.2.2.2 rfl
  | unnamed body =>
    refine slash_not_mem_inBraces ?_
    cases hn : names[before.countP isUnnamed]? with
    | none => exact slash_not_mem_numbered _
    | some name => exact hnames name (List.mem_of_getElem? hn)

theorem slash_not_mem_pathAll (hnames : ∀ n ∈ names, '/' ∉ n.toList)
    (h : ∀ p ∈ ps, p.WellFormed) (before : List WrittenPiece) :
    '/' ∉ pathAll names before ps := by
  induction ps generalizing before with
  | nil => exact List.not_mem_nil
  | cons p ps ih =>
    rw [pathAll, List.mem_append, not_or]
    exact ⟨slash_not_mem_path hnames (h p List.mem_cons_self) before,
      ih (fun q hq => h q (List.mem_cons_of_mem p hq)) _⟩

end

end WrittenPiece

/-! ## segments -/

inductive WrittenSegment where
  /-- `:name` -/
  | param (name : List Char)
  | pieces (ps : List WrittenPiece)

namespace WrittenSegment

/-- all pieces; those of a parameter are characters -/
def parts : WrittenSegment → List WrittenPiece
  | param name => (':' :: name).map .char
  | pieces ps => ps

def text (s : WrittenSegment) : List Char := s.parts.flatMap WrittenPiece.text

def WellFormed : WrittenSegment → Prop
  | param name => name ≠ [] ∧ ∀ c ∈ name, (WrittenPiece.char c).WellFormed
  | pieces ps => (∀ p ∈ ps, p.WellFormed) ∧ ps.head? ≠ some (.char ':')

def path (names : List String) (before : List WrittenPiece) : WrittenSegment → List Char
  | param name => inBraces name
  | pieces ps => WrittenPiece.pathAll names before ps

/-- the segments in the path, where the slashes between them are pieces too -/
def pathAll (names : List String) : List WrittenPiece → List WrittenSegment → List (List Char)
  | _, [] => []
  | before, s :: ss => s.path names before :: pathAll names (before ++ s.parts ++ [.char '/']) ss

/-- the pieces of all segments -/
def joined : List WrittenSegment → List WrittenPiece
  | [] => []
  | [s] => s.parts
  | s :: ss => s.parts ++ .char '/' :: joined ss

theorem joined_cons_cons (s t : WrittenSegment) (ss : List WrittenSegment) :
    joined (s :: t :: ss) = s.parts ++ .char '/' :: joined (t :: ss) := rfl

theorem flatMap_text_joined (ss : List WrittenSegment) :
    (joined ss).flatMap WrittenPiece.text = joinWith ['/'] (ss.map text) := by
  induction ss with
  | nil => rfl
  | cons s ss ih =>
    cases ss with
    | nil => rfl
    | cons t ss =>
      rw [joined_cons_cons, List.flatMap_append, List.flatMap_cons, ih, List.map_cons,
        List.map_cons, List.map_cons, Text.joinWith_cons_cons, List.append_assoc]
      rfl

theorem WellFormed.parts {s : WrittenSegment} (h : s.WellFormed) : ∀ p ∈ s.parts, p.WellFormed := by
  cases s with
  | param name =>
    intro p hp
    obtain ⟨c, hc, rfl⟩ := List.mem_map.1 hp
    rcases List.mem_cons.1 hc with rfl | hc
    · exact ⟨by decide, by decide, by decide⟩
    · exact h.2 c hc
  | pieces ps => exact h.1

theorem eq_slash_or_wellFormed {ss : List WrittenSegment} (h : ∀ s ∈ ss, s.WellFormed) :
    ∀ p ∈ joined ss, p = .char '/' ∨ p.WellFormed := by
  induction ss with
  | nil => exact fun p hp => absurd hp List.not_mem_nil
  | cons s ss ih =>
    have hs := (h s List.mem_cons_self).parts
    cases ss with
    | nil => exact fun p hp => .inr (hs p hp)
    | cons t ss =>
      intro p hp
      rw [joined_cons_cons] at hp
      rcases List.mem_append.1 hp with hp | hp
      · exact .inr (hs p hp)
      · rcases List.mem_cons.1 hp with rfl | hp
        · exact .inl rfl
        · exact ih (fun q hq => h q (List.mem_cons_of_mem s hq)) p hp

/-! ## naming segments -/

theorem nameSegment_of_head {s : List Char} (h : s.head? ≠ some ':') : nameSegment s = s := by
  cases s with
  | nil => rfl
  | cons c s =>
    rw [nameSegment]
    rintro d t he
    obtain ⟨rfl, -⟩ := List.cons.inj he
    exact h rfl

theorem nameSegments_of_not_mem {s : List Char} (h : '/' ∉ s) :
    nameSegments s = nameSegment s := by
  rw [nameSegments, Text.splitOn_of_not_mem h]
  rfl

theorem nameSegments_append {s : List Char} (h : '/' ∉ s) (t : List Char) :
    nameSegments (s ++ '/' :: t) = nameSegment s ++ '/' :: nameSegments t := by
  obtain ⟨q, qs, hq⟩ := List.exists_cons_of_ne_nil (Text.splitOn_ne_nil '/' t)
  rw [nameSegments, nameSegments, Text.splitOn_append_sep h, hq, List.map_cons, List.map_cons,
    Text.joinWith_cons_cons, List.append_assoc]
  rfl

variable {names : List String}

theorem nameSegment_pathAll {s : WrittenSegment} (h : s.WellFormed) (before : List WrittenPiece) :
    nameSegment (WrittenPiece.pathAll names before s.parts) = s.path names before := by
  cases s with
  | param name =>
    obtain ⟨c, cs, rfl⟩ := List.exists_cons_of_ne_nil h.1
    rw [parts, WrittenPiece.pathAll_chars]
    rfl
  | pieces ps =>
    refine nameSegment_of_head ?_
    cases ps with
    | nil => exact nofun
    | cons p ps =>
      have hp : p.WellFormed := h.1 p List.mem_cons_self
      cases p with
      | char c =>
        intro hc
        obtain rfl : c = ':' := Option.some.inj hc
        exact h.2 rfl
      | escape c => exact fun hc => hp.2.1 (Option.some.inj hc)
      | named short name body => exact fun hc => absurd (Option.some.inj hc) (by decide)
      | unnamed body => exact fun hc => absurd (Option.some.inj hc) (by decide)

theorem nameSegments_joined (hnames : ∀ n ∈ names, '/' ∉ n.toList) {ss : List WrittenSegment}
    (h : ∀ s ∈ ss, s.WellFormed) (before : List WrittenPiece) :
    nameSegments (WrittenPiece.pathAll names before (joined ss))
      = joinWith ['/'] (pathAll names before ss) := by
  induction ss generalizing before with
  | nil => rfl
  | cons s ss ih =>
    have hs : s.WellFormed := h s List.mem_cons_self
    have hslash := WrittenPiece.slash_not_mem_pathAll hnames hs.parts before
    cases ss with
    | nil => exact (nameSegments_of_not_mem hslash).trans (nameSegment_pathAll hs before)
    | cons t ss =>
      have hrest := ih (fun q hq => h q (List.mem_cons_of_mem s hq))
        (before ++ s.parts ++ [.char '/'])
      have hcut := nameSegments_append hslash
        (WrittenPiece.pathAll names (before ++ s.parts ++ [.char '/']) (joined (t :: ss)))
      rw [hrest, nameSegment_pathAll hs] at hcut
      rw [joined_cons_cons, WrittenPiece.pathAll_append, WrittenPiece.pathAll]
      refine hcut.trans ?_
      rw [pathAll, pathAll, pathAll, Text.joinWith_cons_cons,
        List.append_assoc (path names before s), List.singleton_append]

end WrittenSegment

/-! ## routes -/

structure WrittenRoute where
  /-- whether there is an anchor in front -/
  start : Bool
  segments : List WrittenSegment
  /-- whether there is an anchor behind -/
  stop : Bool

namespace WrittenRoute

def pieces (r : WrittenRoute) : List WrittenPiece := WrittenSegment.joined r.segments

def body (r : WrittenRoute) : List Char := joinWith ['/'] (r.segments.map WrittenSegment.text)

def url (r : WrittenRoute) : String :=
  .ofList ((if r.start then ['^'] else []) ++ r.body ++ if r.stop then ['$'] else [])

/-- no character in front or behind can be taken for an anchor -/
structure WellFormed (r : WrittenRoute) : Prop where
  segments : ∀ s ∈ r.segments, s.WellFormed
  start : r.start = false → r.pieces.head? ≠ some (.char '^')
  stop : r.stop = false → r.pieces.getLast? ≠ some (.char '$')

def path (names : List String) (r : WrittenRoute) : String :=
  .ofList (joinWith ['/'] (WrittenSegment.pathAll names [] r.segments))

/-! ## anchors -/

section
variable {c : Char} {s : List Char}

theorem dropStart_of_head (h : s.head? ≠ some c) : (dropStart? [c] s).getD s = s := by
  cases hs : dropStart? [c] s with
  | none => rfl
  | some t => exact absurd (by rw [Text.dropStart?_eq_some_iff.1 hs]; rfl) h

theorem dropEnd_of_last (h : s.getLast? ≠ some c) : (dropEnd? [c] s).getD s = s := by
  cases hs : dropEnd? [c] s with
  | none => rfl
  | some t =>
    refine absurd ?_ h
    rw [Text.dropEnd?_eq_some_iff.1 hs, List.getLast?_concat]

theorem dropStart_cons (c : Char) (s : List Char) : dropStart? [c] (c :: s) = some s :=
  Text.dropStart?_eq_some_iff.2 rfl

theorem dropEnd_concat (c : Char) (s : List Char) : dropEnd? [c] (s ++ [c]) = some s :=
  Text.dropEnd?_eq_some_iff.2 rfl

theorem head_of_stop (stop : Bool)
    (h : (s ++ if stop then ['$'] else []).head? = some '^') : s.head? = some '^' := by
  cases s with
  | nil => cases stop <;> exact absurd h (by decide)
  | cons c s => exact h

/-- Anchors that are written are left out.  Where none is written behind, a dollar sign at the
end is taken for one. -/
theorem dropAnchors_anchored {start : Bool} (h : start = false → s.head? ≠ some '^')
    (stop : Bool) :
    dropAnchors ((if start then ['^'] else []) ++ s ++ if stop then ['$'] else [])
      = if stop then s else (dropEnd? ['$'] s).getD s := by
  have hstart : ∀ t, t = (if start then ['^'] else []) ++ s ++ (if stop then ['$'] else []) →
      (dropStart? ['^'] t).getD t = s ++ if stop then ['$'] else [] := by
    rintro _ rfl
    cases start with
    | true => exact congrArg (Option.getD · _) (dropStart_cons '^' _)
    | false => exact dropStart_of_head fun he => h rfl (head_of_stop stop he)
  rw [dropAnchors, hstart _ rfl]
  cases stop with
  | true => exact congrArg (Option.getD · _) (dropEnd_concat '$' s)
  | false => simp

end

section
variable {ps : List WrittenPiece}

theorem head_of_text (h : (ps.flatMap WrittenPiece.text).head? = some '^') :
    ps.head? = some (.char '^') := by
  cases ps with
  | nil => exact nomatch h
  | cons p ps =>
    cases p with
    | char c =>
      obtain rfl : c = '^' := Option.some.inj h
      rfl
    | escape c => exact absurd (Option.some.inj h) (by decide)
    | named short name body => exact absurd (Option.some.inj h) (by decide)
    | unnamed body => exact absurd (Option.some.inj h) (by decide)

theorem last_of_text (hps : ∀ p ∈ ps, p = .char '/' ∨ p.WellFormed)
    (h : (ps.flatMap WrittenPiece.text).getLast? = some '$') :
    ps.getLast? = some (.char '$') := by
  induction ps using List.reverseRecOn with
  | nil => exact nomatch h
  | append_singleton ps p =>
    rw [List.flatMap_append, List.flatMap_singleton] at h
    rw [List.getLast?_concat]
    cases p with
    | char c =>
      rw [WrittenPiece.text, List.getLast?_concat] at h
      rw [Option.some.inj h]
    | escape c =>
      rw [WrittenPiece.text, List.append_cons, List.getLast?_concat] at h
      rcases hps (.escape c) (by simp) with he | he
      · cases he
      · exact absurd (Option.some.inj h) he.2.2
    | named short name body =>
      rw [WrittenPiece.text, ← List.append_assoc, List.getLast?_concat] at h
      exact absurd (Option.some.inj h) (by decide)
    | unnamed body =>
      rw [WrittenPiece.text, ← List.append_assoc, List.getLast?_concat] at h
      exact absurd (Option.some.inj h) (by decide)

end

section
variable {r : WrittenRoute}

theorem body_eq (r : WrittenRoute) : r.body = r.pieces.flatMap WrittenPiece.text :=
  (WrittenSegment.flatMap_text_joined r.segments).symm

theorem WellFormed.dropAnchors_url (h : r.WellFormed) : dropAnchors r.url.toList = r.body := by
  have hpieces := WrittenSegment.eq_slash_or_wellFormed h.segments
  have hstart : r.start = false → r.body.head? ≠ some '^' := fun hb he =>
    h.start hb (head_of_text (r.body_eq ▸ he))
  rw [url, String.toList_ofList, dropAnchors_anchored hstart]
  cases hb : r.stop with
  | true => rfl
  | false => exact dropEnd_of_last fun he => h.stop hb (last_of_text hpieces (r.body_eq ▸ he))

theorem WellFormed.pathTemplate_eq (h : r.WellFormed) {names : List String}
    (hnames : ∀ n ∈ names, '/' ∉ n.toList) :
    pathTemplate r.url names = r.path names := by
  have hreadable : ∀ p ∈ r.pieces, p.Readable := by
    intro p hp
    rcases WrittenSegment.eq_slash_or_wellFormed h.segments p hp with rfl | hp
    · exact WrittenPiece.readable_char (by decide) (by decide)
    · exact hp.readable
  have hfill := WrittenPiece.fill_urlPiece names [] r.pieces
  rw [pathTemplate, h.dropAnchors_url, body_eq, WrittenPiece.urlPieces_text hreadable]
  rw [List.countP_nil, List.countP_nil, List.drop_zero] at hfill
  rw [hfill, pieces, WrittenSegment.nameSegments_joined hnames h.segments]
  rfl

end

/-! ## the names of path parameters -/

theorem isNameChar_of_read? {s : List Char} {l : ItemLine} (h : ItemLine.read? s = some l) :
    ∀ c ∈ l.name, ItemLine.isNameChar c = true := by
  obtain ⟨p, hp, -, rfl⟩ := ItemLine.read?_eq_some_iff.1 h
  exact hp.fits.front.2

theorem slash_not_mem_names {doc n : String} (h : n ∈ Listing.path.names doc) :
    '/' ∉ n.toList := by
  obtain ⟨l, hl, rfl⟩ := List.mem_map.1 (List.mem_dedup.1 h)
  obtain ⟨buffer, -, hl⟩ := List.mem_flatMap.1 hl
  obtain ⟨line, -, hl⟩ := List.mem_filterMap.1 hl
  rw [ItemLine.key, String.toList_ofList]
  exact fun hm => absurd (isNameChar_of_read? hl '/' hm) (by decide)

/-- **Written routes have the path that they show.** -/
theorem pathTemplate_written {r : WrittenRoute} (h : r.WellFormed) (doc : String) :
    pathTemplate r.url (OperationDoc.ofText doc).pathParams.names
      = r.path (Listing.path.names doc) := by
  have hnames : (OperationDoc.ofText doc).pathParams.names = Listing.path.names doc :=
    ((OperationDoc.records_ofText doc).tables .path).names_eq
  rw [hnames]
  exact h.pathTemplate_eq fun n hn => slash_not_mem_names hn

/-- a route with all kinds of pieces -/
def petRoute : WrittenRoute :=
  { start := true
    segments :=
      [.pieces [], .param ['i', 'd'],
        .pieces [.named false "kind".toList ['(', 'a', '/', 'b', ')', '\\', ')'], .escape '.',
          .unnamed ['x'], .char '-', .unnamed ['y']]]
    stop := true }

def ownerDoc : String := "Path Parameters:\n  owner -- The owner.\n"

theorem wellFormed_petRoute : petRoute.WellFormed := by
  have hx : ∀ c : Char, c ≠ '\\' ∧ c ≠ '(' ∧ c ≠ ')' → Balanced [c] := fun c hc => .char hc .nil
  have hkind : Balanced ['(', 'a', '/', 'b', ')', '\\', ')'] :=
    .group (.char (by decide) (.char (by decide) (hx 'b' (by decide)))) (.escape ')' .nil)
  refine ⟨?_, by decide, by decide⟩
  intro s hs
  simp only [petRoute, List.mem_cons, List.not_mem_nil, or_false] at hs
  rcases hs with rfl | rfl | rfl
  · exact ⟨by simp, by decide⟩
  · have hname : ∀ c ∈ ['i', 'd'], (WrittenPiece.char c).WellFormed :=
      List.forall_mem_cons.2 ⟨⟨by decide, by decide, by decide⟩,
        List.forall_mem_singleton.2 ⟨by decide, by decide, by decide⟩⟩
    exact ⟨by decide, hname⟩
  · refine ⟨?_, by decide⟩
    intro p hp
    simp only [List.mem_cons, List.not_mem_nil, or_false] at hp
    rcases hp with rfl | rfl | rfl | rfl | rfl
    · exact ⟨by decide, List.all_eq_true.1 (by decide), hkind⟩
    · exact ⟨by decide, by decide, by decide⟩
    · exact ⟨hx 'x' (by decide), by decide⟩
    · exact ⟨by decide, by decide, by decide⟩
    · exact ⟨hx 'y' (by decide), by decide⟩

theorem pathTemplate_petRoute :
    petRoute.WellFormed ∧ petRoute.url = "^/:id/(?P<kind>(a/b)\\))\\.(x)-(y)$"
      ∧ pathTemplate petRoute.url (OperationDoc.ofText ownerDoc).pathParams.names
        = "/\x7bid\x7d/\x7bkind\x7d.\x7bowner\x7d-\x7bparam3\x7d" := by
  refine ⟨wellFormed_petRoute, by decide +kernel, ?_⟩
  rw [pathTemplate_written wellFormed_petRoute ownerDoc]
  decide +kernel

end WrittenRoute

end Apidoc
