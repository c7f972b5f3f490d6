import Apidoc.Proofs.WrittenRoutes

/-!
# Literal routes

A path that is no pattern can be written as one, with a backslash in front of each character that
has a meaning in patterns.

* `isMeta`            the characters with a meaning;
* `escaped`           a text with a backslash in front of each of these;
* `literalUrl`        the escaped text, with an anchor or none at either end;
* `NoColonSegment`    paths without segments that could be taken for parameters.

The reader takes the backslashes out again (`urlPieces_escaped_append`), but the anchors are
dropped before that, and then the backslash in front of a last dollar sign does not count.

Main statement: the path of an escaped text is the text, unless it ends with a dollar sign and
there is no anchor behind it; then the dollar sign is lost (`pathTemplate_literalUrl`).
-/

namespace Apidoc

open Text (dropEnd? splitOn joinWith)

/-! ## escaped texts -/

def isMeta (c : Char) : Bool :=
  ['\\', '.', '+', '*', '?', '(', ')', '|', '[', ']', '{', '}', '^', '$'].contains c

def escapedChar (c : Char) : List Char := if isMeta c then ['\\', c] else [c]

def escaped (s : List Char) : List Char := s.flatMap escapedChar

/-- the text `s` as a route, with an anchor in front or behind or none -/
def literalUrl (start : Bool) (s : List Char) (stop : Bool) : String :=
  .ofList ((if start then ['^'] else []) ++ escaped s ++ if stop then ['$'] else [])

theorem escaped_concat (s : List Char) (c : Char) :
    escaped (s ++ [c]) = escaped s ++ escapedChar c := by
  rw [escaped, List.flatMap_append, List.flatMap_singleton, escaped]

theorem escapedChar_of_not_meta {c : Char} (h : isMeta c = false) : escapedChar c = [c] := by
  rw [escapedChar, h]
  rfl

/-- no anchor stands in front, because a backslash does -/
theorem head_escaped (s : List Char) : (escaped s).head? ≠ some '^' := by
  cases s with
  | nil => exact nofun
  | cons c s =>
    rw [escaped, List.flatMap_cons]
    cases hc : isMeta c with
    | true =>
      rw [escapedChar, hc]
      exact fun h => absurd (Option.some.inj h) (by decide)
    | false =>
      rw [escapedChar_of_not_meta hc]
      intro h
      rw [Option.some.inj h] at hc
      exact absurd hc (by decide)

/-- the last character stays the last one -/
theorem getLast?_escaped (s : List Char) : (escaped s).getLast? = s.getLast? := by
  induction s using List.reverseRecOn with
  | nil => rfl
  | append_singleton s c _ =>
    have hlast : ∃ t, escapedChar c = t ++ [c] := by
      rw [escapedChar]
      cases isMeta c with
      | true => exact ⟨['\\'], rfl⟩
      | false => exact ⟨[], rfl⟩
    obtain ⟨t, ht⟩ := hlast
    rw [escaped_concat, ht, ← List.append_assoc, List.getLast?_concat, List.getLast?_concat]

/-! ## reading -/

theorem urlPieces_escapedChar (c : Char) (rest : List Char) :
    urlPieces (escapedChar c ++ rest) = .char c :: urlPieces rest := by
  cases hc : isMeta c with
  | true =>
    rw [escapedChar, hc]
    exact WrittenPiece.readable_escape c rest
  | false =>
    rw [escapedChar_of_not_meta hc]
    refine WrittenPiece.readable_char ?_ ?_ rest
    · rintro rfl
      exact absurd hc (by decide)
    · rintro rfl
      exact absurd hc (by decide)

theorem urlPieces_escaped_append (s rest : List Char) :
    urlPieces (escaped s ++ rest) = s.map .char ++ urlPieces rest := by
  induction s with
  | nil => rfl
  | cons c s ih =>
    rw [escaped, List.flatMap_cons, List.append_assoc, urlPieces_escapedChar, ← escaped, ih]
    rfl

theorem urlPieces_escaped (s : List Char) : urlPieces (escaped s) = s.map .char := by
  have h := urlPieces_escaped_append s []
  rwa [urlPieces, List.append_nil, List.append_nil] at h

theorem fill_chars (names : List (List Char)) (count : Nat) (s : List Char) :
    fill names count (s.map .char) = s := by
  induction s with
  | nil => rw [List.map_nil, fill]
  | cons c s ih => rw [List.map_cons, fill, ih]

/-! ## anchors -/

/-- what is left of the text when the anchors are dropped -/
def keptText (s : List Char) (stop : Bool) : List Char :=
  if stop = false ∧ s.getLast? = some '$' then s.dropLast else s

theorem keptText_concat (s : List Char) : keptText (s ++ ['$']) false = s := by
  rw [keptText, if_pos ⟨rfl, List.getLast?_concat⟩, List.dropLast_concat]

theorem keptText_of_last {s : List Char} (h : s.getLast? ≠ some '$') : keptText s false = s :=
  if_neg fun hend => h hend.2

/-- the dollar sign goes as if it were an anchor, and its backslash is left at the end -/
theorem dropEnd_escaped_concat (s : List Char) :
    dropEnd? ['$'] (escaped (s ++ ['$'])) = some (escaped s ++ ['\\']) := by
  have hsplit : escaped (s ++ ['$']) = escaped s ++ ['\\'] ++ ['$'] := by
    rw [escaped_concat, List.append_assoc]
    rfl
  rw [hsplit, WrittenRoute.dropEnd_concat]

theorem urlPieces_dropAnchors (start : Bool) (s : List Char) (stop : Bool) :
    urlPieces (dropAnchors (literalUrl start s stop).toList) = (keptText s stop).map .char := by
  rw [literalUrl, String.toList_ofList,
    WrittenRoute.dropAnchors_anchored fun _ => head_escaped s]
  cases stop with
  | true => exact urlPieces_escaped s
  | false =>
    show urlPieces ((dropEnd? ['$'] (escaped s)).getD (escaped s)) = _
    by_cases hlast : s.getLast? = some '$'
    · obtain ⟨t, rfl⟩ := List.getLast?_eq_some_iff.1 hlast
      have hend : urlPieces ['\\'] = [] := by rw [urlPieces]
      rw [dropEnd_escaped_concat, keptText_concat, Option.getD_some, urlPieces_escaped_append,
        hend, List.append_nil]
    · rw [WrittenRoute.dropEnd_of_last (getLast?_escaped s ▸ hlast), keptText_of_last hlast,
        urlPieces_escaped]

/-! ## segments -/

/-- a character that is no separator joins the last piece -/
theorem Text.splitOn_concat {sep c : Char} (hc : c ≠ sep) (s : List Char) :
    ∃ ps p, splitOn sep s = ps ++ [p] ∧ splitOn sep (s ++ [c]) = ps ++ [p ++ [c]] := by
  induction s with
  | nil => exact ⟨[], [], rfl, splitOn_of_not_mem (by simpa using hc.symm)⟩
  | cons d s ih =>
    obtain ⟨ps, p, hs, hsc⟩ := ih
    by_cases hd : d = sep
    · subst hd
      refine ⟨[] :: ps, p, ?_, ?_⟩
      · rw [splitOn_sep, hs, List.cons_append]
      · rw [List.cons_append, splitOn_sep, hsc, List.cons_append]
    · cases ps with
      | nil => exact ⟨[], d :: p, by rw [splitOn, if_neg hd, hs]; rfl,
          by rw [List.cons_append, splitOn, if_neg hd, hsc]; rfl⟩
      | cons q qs => exact ⟨(d :: q) :: qs, p, by rw [splitOn, if_neg hd, hs]; rfl,
          by rw [List.cons_append, splitOn, if_neg hd, hsc]; rfl⟩

def NoColonSegment (s : List Char) : Prop := ∀ p ∈ splitOn '/' s, p.head? ≠ some ':'

instance (s : List Char) : Decidable (NoColonSegment s) := List.decidableBAll _ _

section
variable {s : List Char}

theorem NoColonSegment.of_concat {c : Char} (hc : c ≠ '/') (h : NoColonSegment (s ++ [c])) :
    NoColonSegment s := by
  obtain ⟨ps, p, hs, hsc⟩ := Text.splitOn_concat hc s
  rw [NoColonSegment, hsc] at h
  rw [NoColonSegment, hs]
  obtain ⟨hps, hp⟩ := List.forall_mem_append.1 h
  refine List.forall_mem_append.2 ⟨hps, List.forall_mem_singleton.2 fun hhead => ?_⟩
  refine hp (p ++ [c]) (List.mem_singleton_self _) ?_
  rw [List.head?_append, hhead, Option.some_or]

theorem noColonSegment_keptText (h : NoColonSegment s) (stop : Bool) :
    NoColonSegment (keptText s stop) := by
  rw [keptText]
  split
  next hend =>
    obtain ⟨t, rfl⟩ := List.getLast?_eq_some_iff.1 hend.2
    rw [List.dropLast_concat]
    exact h.of_concat (by decide)
  next => exact h

theorem NoColonSegment.nameSegments_eq (h : NoColonSegment s) : nameSegments s = s := by
  have hsame : (splitOn '/' s).map nameSegment = splitOn '/' s :=
    (List.map_congr_left fun p hp => WrittenSegment.nameSegment_of_head (h p hp)).trans
      (List.map_id _)
  rw [nameSegments, hsame, Text.joinWith_splitOn]

/-- **An escaped path is read as it is**, whatever names there are for groups, but a dollar sign
at its end needs an anchor behind it. -/
theorem pathTemplate_literalUrl (h : NoColonSegment s) (start stop : Bool)
    (names : List String) :
    pathTemplate (literalUrl start s stop) names
      = .ofList (if stop = false ∧ s.getLast? = some '$' then s.dropLast else s) := by
  have hkept := noColonSegment_keptText h stop
  rw [pathTemplate, urlPieces_dropAnchors, fill_chars, hkept.nameSegments_eq, keptText]

end

/-- A dollar sign at the end stays where an anchor follows, and one in the text stays anyhow. -/
theorem pathTemplate_literalUrl_dollars :
    NoColonSegment "/^(:a)$".toList ∧ literalUrl true "/^(:a)$".toList true = "^/\\^\\(:a\\)\\$$"
      ∧ pathTemplate (literalUrl true "/^(:a)$".toList true) ["id"] = "/^(:a)$"
      ∧ NoColonSegment "/a:/\\$/".toList
      ∧ pathTemplate (literalUrl false "/a:/\\$/".toList false) ["id"] = "/a:/\\$/" := by
  have hend : NoColonSegment "/^(:a)$".toList := by decide
  have hslash : NoColonSegment "/a:/\\$/".toList := by decide
  refine ⟨hend, by decide +kernel, ?_, hslash, ?_⟩
  · rw [pathTemplate_literalUrl hend]
    rfl
  · rw [pathTemplate_literalUrl hslash]
    rfl

/-- a dollar sign at the end is lost, although it is escaped -/
theorem not_pathTemplate_literalUrl :
    NoColonSegment "/price$".toList ∧ literalUrl false "/price$".toList false = "/price\\$"
      ∧ pathTemplate (literalUrl false "/price$".toList false) [] ≠ .ofList "/price$".toList := by
  refine ⟨by decide, by decide +kernel, ?_⟩
  rw [pathTemplate, urlPieces_dropAnchors]
  decide +kernel

end Apidoc
