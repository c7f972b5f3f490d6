/-!
# Physical lines

A text is cut after every line feed.  Two views of the lines are used:

* `rawLines`      the pieces with their line feeds, so that they concatenate to the text;
* `lines`         the pieces without them; a carriage return before the line feed goes too;
* `unixBreaks`    a text in which every carriage return and line feed pair is a line feed.

The empty text has no line, and a line feed at the very end starts no further line.
-/

namespace Apidoc.Text

/-! ## cutting -/

/-- each character joins the line it stands in -/
def rawLines : List Char → List (List Char)
  | [] => []
  | c :: s =>
    if c = '\n' then ['\n'] :: rawLines s
    else match rawLines s with
      | [] => [[c]]
      | l :: ls => (c :: l) :: ls

theorem rawLines_nil : rawLines [] = [] := rfl

theorem rawLines_lf (s : List Char) : rawLines ('\n' :: s) = ['\n'] :: rawLines s := rfl

/-- nothing is lost: the lines concatenate to the text -/
theorem flatten_rawLines (s : List Char) : (rawLines s).flatten = s := by
  induction s with
  | nil => rfl
  | cons c s ih =>
    rw [rawLines]
    split
    next h => simp [ih, h]
    next =>
      split
      next h => simpa [h] using ih
      next l ls h => rw [h] at ih; simpa using ih

theorem rawLines_append_lf {l : List Char} (hl : '\n' ∉ l) (s : List Char) :
    rawLines (l ++ '\n' :: s) = (l ++ ['\n']) :: rawLines s := by
  induction l with
  | nil => exact rawLines_lf s
  | cons c l ih =>
    obtain ⟨hc, hl'⟩ := not_or.1 (mt List.mem_cons.2 hl)
    rw [List.cons_append, rawLines, if_neg (Ne.symm hc), ih hl']
    rfl

theorem rawLines_of_not_mem {l : List Char} (hl : '\n' ∉ l) (hne : l ≠ []) : rawLines l = [l] := by
  induction l with
  | nil => exact absurd rfl hne
  | cons c l ih =>
    obtain ⟨hc, hl'⟩ := not_or.1 (mt List.mem_cons.2 hl)
    rw [rawLines, if_neg (Ne.symm hc)]
    cases l with
    | nil => rfl
    | cons d l => rw [ih hl' (by simp)]

/-! ## line ends -/

/-- a line without its line feed and the carriage return before that -/
def dropBreak (l : List Char) : List Char :=
  match l.reverse with
  | '\n' :: '\r' :: r => r.reverse
  | '\n' :: r => r.reverse
  | _ => l

theorem dropBreak_crlf (l : List Char) : dropBreak (l ++ ['\r', '\n']) = l := by
  simp [dropBreak]

theorem dropBreak_lf {l : List Char} (hl : '\r' ∉ l.getLast?) : dropBreak (l ++ ['\n']) = l := by
  cases hr : l.reverse with
  | nil => rw [List.reverse_eq_nil_iff.1 hr]; rfl
  | cons c r =>
    have hc : c ≠ '\r' := by
      rintro rfl
      refine hl ?_
      rw [← List.head?_reverse, hr]
      rfl
    have hrev : (l ++ ['\n']).reverse = '\n' :: c :: r := by
      rw [List.reverse_append, hr]
      rfl
    rw [dropBreak, hrev]
    split
    next he => exact absurd (List.cons.inj (List.cons.inj he).2).1 hc
    next he =>
      rw [← (List.cons.inj he).2, ← hr, List.reverse_reverse]
    next hno => exact absurd rfl (hno _)

theorem dropBreak_of_not_mem {l : List Char} (hl : '\n' ∉ l) : dropBreak l = l := by
  unfold dropBreak
  split
  next r he => exact absurd (List.mem_reverse.1 (he ▸ List.mem_cons_self)) hl
  next r he => exact absurd (List.mem_reverse.1 (he ▸ List.mem_cons_self)) hl
  next => rfl

def lines (s : List Char) : List (List Char) := (rawLines s).map dropBreak

theorem lines_nil : lines [] = [] := rfl

def unixBreaks : List Char → List Char
  | [] => []
  | '\r' :: '\n' :: s => '\n' :: unixBreaks s
  | c :: s => c :: unixBreaks s

/-- a text without carriage returns is left alone -/
theorem unixBreaks_of_no_return {s : List Char} (h : '\r' ∉ s) : unixBreaks s = s := by
  fun_induction unixBreaks s with
  | case1 => rfl
  | case2 s ih => simp at h
  | case3 c s _ ih => rw [ih (fun hs => h (List.mem_cons_of_mem _ hs))]

end Apidoc.Text
