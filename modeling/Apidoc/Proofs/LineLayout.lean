import Apidoc.Docstring.LogicalLine

/-!
# Lines laid out in a text

* `LaidOut ls s`     `s` has the lines `ls`; each ends with a line feed, perhaps after a carriage
  return, but the last one may lack its end;
* `IsLine`           a line that can be laid out: not empty, without line feeds and without
  blanks at its end;
* `IsGroup`          lines of which the first begins a logical line and the others continue it.

Main statement: `logicalLines_of_laidOut`, the logical lines of a text of groups are the groups.
-/

namespace Apidoc

open Text (isBlank rawLines dropBreak lines)

/-! ## physical lines -/

def IsBreak (b : List Char) : Prop := b = ['\n'] ∨ b = ['\r', '\n']

inductive LaidOut : List (List Char) → List Char → Prop
  | nil : LaidOut [] []
  | unended (l : List Char) : LaidOut [l] l
  | cons {l b s : List Char} {ls : List (List Char)} (hb : IsBreak b) (h : LaidOut ls s) :
      LaidOut (l :: ls) (l ++ b ++ s)

structure IsLine (l : List Char) : Prop where
  one : '\n' ∉ l
  nonempty : l ≠ []
  solid_end : ∀ c ∈ l.getLast?, isBlank c = false

theorem IsLine.no_return {l : List Char} (h : IsLine l) : '\r' ∉ l.getLast? := by
  intro hc
  have hr := h.solid_end '\r' hc
  exact absurd hr (by decide)

theorem lines_unended {l : List Char} (hl : IsLine l) : lines l = [l] := by
  rw [lines, Text.rawLines_of_not_mem hl.one hl.nonempty, List.map_singleton,
    Text.dropBreak_of_not_mem hl.one]

theorem lines_cons {l b : List Char} (hl : IsLine l) (hb : IsBreak b) (s : List Char) :
    lines (l ++ b ++ s) = l :: lines s := by
  rw [lines, lines]
  rcases hb with rfl | rfl
  case inl =>
    have hraw : rawLines (l ++ ['\n'] ++ s) = (l ++ ['\n']) :: rawLines s := by
      rw [List.append_assoc, List.singleton_append, Text.rawLines_append_lf hl.one]
    rw [hraw, List.map_cons, Text.dropBreak_lf hl.no_return]
  case inr =>
    have hlr : '\n' ∉ l ++ ['\r'] := by
      rw [List.mem_append, not_or]
      exact ⟨hl.one, by decide⟩
    have hraw : rawLines (l ++ ['\r', '\n'] ++ s) = (l ++ ['\r', '\n']) :: rawLines s := by
      have h := Text.rawLines_append_lf hlr s
      simpa using h
    rw [hraw, List.map_cons, Text.dropBreak_crlf]

theorem lines_of_laidOut {ls : List (List Char)} {s : List Char} (h : LaidOut ls s)
    (hls : ∀ l ∈ ls, IsLine l) : lines s = ls := by
  induction h with
  | nil => exact Text.lines_nil
  | unended l => exact lines_unended (hls l (List.mem_singleton_self l))
  | @cons l b s ls hb _ ih =>
    rw [lines_cons (hls l List.mem_cons_self) hb, ih fun k hk => hls k (List.mem_cons_of_mem l hk)]

/-! ## groups of lines -/

structure IsGroup (g : List (List Char)) : Prop where
  nonempty : g ≠ []
  starts : ∀ l ∈ g.head?, startsItem l = true
  continues : ∀ l ∈ g.tail, startsItem l = false

theorem blocksAfter_append {ls : List (List Char)} (h : ∀ l ∈ ls, startsItem l = false)
    (ks : List (List Char)) :
    blocksAfter (ls ++ ks) = (ls ++ (blocksAfter ks).1, (blocksAfter ks).2) := by
  induction ls with
  | nil => rfl
  | cons l ls ih =>
    rw [List.cons_append, blocksAfter, ih fun k hk => h k (List.mem_cons_of_mem l hk),
      h l List.mem_cons_self]
    rfl

theorem blocksAfter_flatten {gs : List (List (List Char))} (h : ∀ g ∈ gs, IsGroup g) :
    blocksAfter gs.flatten = ([], gs) := by
  induction gs with
  | nil => rfl
  | cons g gs ih =>
    have hg : IsGroup g := h g List.mem_cons_self
    obtain ⟨l, ls, rfl⟩ := List.exists_cons_of_ne_nil hg.nonempty
    have hls : ∀ k ∈ ls, startsItem k = false := hg.continues
    rw [List.flatten_cons, List.cons_append, blocksAfter, blocksAfter_append hls,
      ih fun k hk => h k (List.mem_cons_of_mem _ hk), hg.starts l rfl]
    simp

theorem blocks_flatten {gs : List (List (List Char))} (h : ∀ g ∈ gs, IsGroup g) :
    blocks gs.flatten = gs := by
  cases gs with
  | nil => rfl
  | cons g gs =>
    have hg : IsGroup g := h g List.mem_cons_self
    obtain ⟨l, ls, rfl⟩ := List.exists_cons_of_ne_nil hg.nonempty
    have hls : ∀ k ∈ ls, startsItem k = false := hg.continues
    rw [List.flatten_cons, List.cons_append, blocks, blocksAfter_append hls,
      blocksAfter_flatten fun k hk => h k (List.mem_cons_of_mem _ hk)]
    simp

theorem logicalLines_of_laidOut {gs : List (List (List Char))} {s : List Char}
    (hg : ∀ g ∈ gs, IsGroup g) (hl : ∀ g ∈ gs, ∀ l ∈ g, IsLine l) (h : LaidOut gs.flatten s) :
    logicalLines s = gs.map joinLines := by
  have hls : ∀ l ∈ gs.flatten, IsLine l := by
    intro l hmem
    obtain ⟨g, hgs, hlg⟩ := List.mem_flatten.1 hmem
    exact hl g hgs l hlg
  rw [logicalLines, lines_of_laidOut h hls, blocks_flatten hg]

end Apidoc
