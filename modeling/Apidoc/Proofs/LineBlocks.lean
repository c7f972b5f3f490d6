import Mathlib.Data.List.Basic
import Mathlib.Data.List.Induction
import Mathlib.Data.List.ModifyLast
import Apidoc.Proofs.LogicalLines

/-!
# The lines of a text in blocks

The logical lines of a text are made line by line: a line begins the next one, or is put behind
the last one.

* `IsCut ls gs`     the groups `gs` are the lines `ls`, cut before those later lines that begin a
  logical line and nowhere else;
* `addLine`         the logical lines with one line more;
* `cutsUpTo ls i`   how many cuts there are in front of the line with the number `i`;
* `IsIn gs i j`     the line with the number `i` is in the group with the number `j`.

There is one way to cut (`IsCut.eq_blocks`), and reading line by line finds it
(`exists_isCut_foldl`).

Main statement: the logical lines are the blocks of this cut, each line is in one of them, and
they hold all lines in order (`logicalLines_blocks`).
-/

namespace Apidoc

open Text (trim lines joinWith)

/-! ## joining in two steps -/

namespace Text

theorem joinWith_append (sep : List Char) {as bs : List (List Char)} (ha : as ≠ [])
    (hb : bs ≠ []) : joinWith sep (as ++ bs) = joinWith sep as ++ sep ++ joinWith sep bs := by
  induction as with
  | nil => exact absurd rfl ha
  | cons a as ih =>
    cases as with
    | nil =>
      obtain ⟨b, bs, rfl⟩ := List.exists_cons_of_ne_nil hb
      rfl
    | cons c as =>
      have hrest := ih (List.cons_ne_nil c as)
      rw [List.cons_append, List.cons_append, joinWith_cons_cons, ← List.cons_append, hrest,
        joinWith_cons_cons]
      simp only [List.append_assoc]

theorem joinWith_flatten (sep : List Char) {gs : List (List (List Char))}
    (h : ∀ g ∈ gs, g ≠ []) : joinWith sep gs.flatten = joinWith sep (gs.map (joinWith sep)) := by
  induction gs with
  | nil => rfl
  | cons g gs ih =>
    cases gs with
    | nil => rw [List.flatten_singleton, List.map_singleton, joinWith_singleton]
    | cons k gs =>
      have hk : k ≠ [] := h k (by simp)
      have hrest : (k :: gs).flatten ≠ [] := fun he =>
        hk (List.append_eq_nil_iff.1 (List.flatten_cons ▸ he)).1
      rw [List.flatten_cons, joinWith_append sep (h g List.mem_cons_self) hrest,
        ih fun r hr => h r (List.mem_cons_of_mem g hr), List.map_cons, List.map_cons,
        List.map_cons, joinWith_cons_cons]

end Text

/-! ## cuts -/

structure IsCut (ls : List (List Char)) (gs : List (List (List Char))) : Prop where
  flatten : gs.flatten = ls
  nonempty : ∀ g ∈ gs, g ≠ []
  /-- no cut is made elsewhere -/
  starts : ∀ g ∈ gs.tail, ∀ l ∈ g.head?, startsItem l = true
  /-- no cut is left out -/
  continues : ∀ g ∈ gs, ∀ l ∈ g.tail, startsItem l = false

namespace IsCut

variable {ls : List (List Char)} {l : List Char} {g : List (List Char)}
  {gs : List (List (List Char))}

theorem nil : IsCut [] [] := ⟨rfl, by simp, by simp, by simp⟩

theorem isGroup (h : IsCut ls (g :: gs)) : ∀ k ∈ gs, IsGroup k := fun k hk =>
  have hmem := List.mem_cons_of_mem g hk
  ⟨h.nonempty k hmem, h.starts k hk, h.continues k hmem⟩

theorem tail (h : IsCut ls (g :: gs)) : IsCut gs.flatten gs where
  flatten := rfl
  nonempty k hk := h.nonempty k (List.mem_cons_of_mem g hk)
  starts k hk := h.starts k (List.mem_of_mem_tail hk)
  continues k hk := h.continues k (List.mem_cons_of_mem g hk)

/-- there is one cut at most -/
theorem eq_blocks (h : IsCut ls gs) : gs = blocks ls := by
  cases gs with
  | nil =>
    rw [← h.flatten]
    rfl
  | cons g gs =>
    obtain ⟨l, ks, rfl⟩ := List.exists_cons_of_ne_nil (h.nonempty g List.mem_cons_self)
    have hks : ∀ k ∈ ks, startsItem k = false := h.continues _ List.mem_cons_self
    rw [← h.flatten, List.flatten_cons, List.cons_append, blocks, blocksAfter_append hks,
      blocksAfter_flatten h.isGroup]
    simp

/-! ### one line more -/

theorem concat_start (h : IsCut ls gs) (hl : gs = [] ∨ startsItem l = true) :
    IsCut (ls ++ [l]) (gs ++ [[l]]) := by
  refine ⟨by simp [h.flatten], ?_, ?_, ?_⟩
  · exact List.forall_mem_append.2 ⟨h.nonempty, by simp⟩
  · cases gs with
    | nil => simp
    | cons g gs =>
      have hstart : startsItem l = true := hl.resolve_left (List.cons_ne_nil g gs)
      exact List.forall_mem_append.2 ⟨h.starts, by simpa using hstart⟩
  · exact List.forall_mem_append.2 ⟨h.continues, by simp⟩

theorem concat_continue (h : IsCut ls (gs ++ [g])) (hl : startsItem l = false) :
    IsCut (ls ++ [l]) (gs ++ [g ++ [l]]) := by
  have hmem : g ∈ gs ++ [g] := List.mem_append_right _ (List.mem_singleton_self g)
  obtain ⟨k, ks, rfl⟩ := List.exists_cons_of_ne_nil (h.nonempty g hmem)
  refine ⟨by simp [← h.flatten], ?_, ?_, ?_⟩
  · exact List.forall_mem_append.2 ⟨(List.forall_mem_append.1 h.nonempty).1, by simp⟩
  · cases gs with
    | nil => simp
    | cons g gs =>
      have hstarts : ∀ r ∈ gs ++ [k :: ks], ∀ m ∈ r.head?, startsItem m = true := h.starts
      obtain ⟨hgs, hk⟩ := List.forall_mem_append.1 hstarts
      exact List.forall_mem_append.2
        ⟨hgs, List.forall_mem_singleton.2 (hk (k :: ks) (List.mem_singleton_self _))⟩
  · obtain ⟨hgs, hk⟩ := List.forall_mem_append.1 h.continues
    refine List.forall_mem_append.2 ⟨hgs, List.forall_mem_singleton.2 ?_⟩
    exact List.forall_mem_append.2 ⟨hk _ (List.mem_singleton_self _), by simpa using hl⟩

end IsCut

/-! ## reading line by line -/

/-- The first line begins a logical line, too. -/
def addLine (done : List (List Char)) (l : List Char) : List (List Char) :=
  if done.isEmpty || startsItem l then done ++ [trim l]
  else done.modifyLast (fun k => k ++ ' ' :: trim l)

theorem joinLines_concat {g : List (List Char)} (hg : g ≠ []) (l : List Char) :
    joinLines (g ++ [l]) = joinLines g ++ ' ' :: trim l := by
  have hne : g.map trim ≠ [] := mt List.map_eq_nil_iff.1 hg
  rw [joinLines, List.map_append, Text.joinWith_append [' '] hne (by simp), joinLines,
    List.append_assoc]
  rfl

/-- What is read at any time are the blocks of a cut of the lines so far. -/
theorem exists_isCut_foldl (ls : List (List Char)) :
    ∃ gs, IsCut ls gs ∧ ls.foldl addLine [] = gs.map joinLines := by
  -- from the back, because the line read last changes the last block or adds one
  induction ls using List.reverseRecOn with
  | nil => exact ⟨[], .nil, rfl⟩
  | append_singleton ls l ih =>
    obtain ⟨gs, hcut, hfold⟩ := ih
    rw [List.foldl_concat, hfold]
    rcases List.eq_nil_or_concat gs with rfl | ⟨gs, g, rfl⟩
    · exact ⟨[[l]], hcut.concat_start (.inl rfl), rfl⟩
    · rw [List.concat_eq_append] at hcut ⊢
      cases hl : startsItem l with
      | true =>
        refine ⟨gs ++ [g] ++ [[l]], hcut.concat_start (.inr hl), ?_⟩
        have hone : [trim l] = [[l]].map joinLines := rfl
        rw [addLine, hl, Bool.or_true, if_pos rfl, hone, ← List.map_append]
      | false =>
        have hg : g ≠ [] := hcut.nonempty g (by simp)
        refine ⟨gs ++ [g ++ [l]], hcut.concat_continue hl, ?_⟩
        rw [addLine, hl, List.map_append, List.map_append, List.map_singleton,
          List.map_singleton, joinLines_concat hg]
        simp [List.modifyLast_concat]

theorem isCut_iff (ls : List (List Char)) (gs : List (List (List Char))) :
    IsCut ls gs ↔ gs = blocks ls := by
  refine ⟨IsCut.eq_blocks, ?_⟩
  rintro rfl
  obtain ⟨gs, hcut, -⟩ := exists_isCut_foldl ls
  rwa [← hcut.eq_blocks]

theorem isCut_blocks (ls : List (List Char)) : IsCut ls (blocks ls) := (isCut_iff ls _).2 rfl

theorem foldl_addLine (ls : List (List Char)) :
    ls.foldl addLine [] = (blocks ls).map joinLines := by
  obtain ⟨gs, hcut, hfold⟩ := exists_isCut_foldl ls
  rw [hfold, hcut.eq_blocks]

/-! ## the number of the block -/

/-- Lines count from zero.  In front of the first one there is no cut. -/
def cutsUpTo (ls : List (List Char)) (i : Nat) : Nat := (ls.tail.take i).countP startsItem

def IsIn (gs : List (List (List Char))) (i j : Nat) : Prop :=
  (gs.take j).flatten.length ≤ i ∧ i < (gs.take (j + 1)).flatten.length

section
variable {ls : List (List Char)} {g : List (List Char)} {gs : List (List (List Char))} {i j : Nat}

theorem isIn_zero : IsIn (g :: gs) i 0 ↔ i < g.length := by
  simp [IsIn]

theorem isIn_succ : IsIn (g :: gs) i (j + 1) ↔ g.length ≤ i ∧ IsIn gs (i - g.length) j := by
  simp only [IsIn, List.take_succ_cons, List.flatten_cons, List.length_append]
  omega

/-- in the first block nothing is counted -/
theorem IsCut.cutsUpTo_eq (h : IsCut ls (g :: gs)) (i : Nat) :
    cutsUpTo ls i = (gs.flatten.take (i + 1 - g.length)).countP startsItem := by
  obtain ⟨l, ks, rfl⟩ := List.exists_cons_of_ne_nil (h.nonempty g List.mem_cons_self)
  have hks : (ks.take i).countP startsItem = 0 := by
    refine List.countP_eq_zero.2 fun k hk => ?_
    rw [h.continues _ List.mem_cons_self k (List.mem_of_mem_take hk)]
    exact Bool.false_ne_true
  rw [cutsUpTo, ← h.flatten, List.flatten_cons, List.cons_append, List.tail_cons,
    List.take_append, List.countP_append, hks, Nat.zero_add, List.length_cons,
    Nat.add_sub_add_right]

/-- behind the first block, the cut in front of the second one counts -/
theorem IsCut.cutsUpTo_add (h : IsCut ls (g :: gs)) (hi : i < gs.flatten.length) :
    cutsUpTo ls (g.length + i) = cutsUpTo gs.flatten i + 1 := by
  have hcount : g.length + i + 1 - g.length = i + 1 := by omega
  rw [h.cutsUpTo_eq, hcount]
  cases gs with
  | nil => exact absurd hi (Nat.not_lt_zero i)
  | cons k gs =>
    have hk := h.isGroup k List.mem_cons_self
    obtain ⟨l, ks, rfl⟩ := List.exists_cons_of_ne_nil hk.nonempty
    rw [List.flatten_cons, List.cons_append, List.take_succ_cons,
      List.countP_cons_of_pos (hk.starts l rfl), cutsUpTo, List.tail_cons]

/-- each line is in the block whose number is that of the cuts in front of the line -/
theorem IsCut.isIn_iff (h : IsCut ls gs) (hi : i < ls.length) :
    IsIn gs i j ↔ j = cutsUpTo ls i := by
  -- the first block is left out of the count, so the lines behind it count as if it were not there
  induction gs generalizing ls i j with
  | nil =>
    rw [← h.flatten] at hi
    exact absurd hi (Nat.not_lt_zero i)
  | cons g gs ih =>
    by_cases hg : i < g.length
    · have hnone : i + 1 - g.length = 0 := by omega
      rw [h.cutsUpTo_eq, hnone, List.take_zero, List.countP_nil]
      cases j with
      | zero => exact ⟨fun _ => rfl, fun _ => isIn_zero.2 hg⟩
      | succ j => exact ⟨fun hj => absurd (isIn_succ.1 hj).1 (by omega), nofun⟩
    · obtain ⟨n, rfl⟩ := Nat.exists_eq_add_of_le (Nat.le_of_not_lt hg)
      have hn : n < gs.flatten.length := by
        rw [← h.flatten, List.flatten_cons, List.length_append] at hi
        omega
      rw [h.cutsUpTo_add hn]
      cases j with
      | zero => exact ⟨fun hj => absurd (isIn_zero.1 hj) hg, nofun⟩
      | succ j =>
        rw [isIn_succ, Nat.add_sub_cancel_left, ih h.tail hn]
        omega

end

/-! ## logical lines -/

theorem joinWith_logicalLines (b : List Char) :
    joinWith [' '] (logicalLines b) = joinWith [' '] ((lines b).map trim) := by
  have hcut := isCut_blocks (lines b)
  have hne : ∀ g ∈ (blocks (lines b)).map (List.map trim), g ≠ [] := by
    intro g hg
    obtain ⟨k, hk, rfl⟩ := List.mem_map.1 hg
    exact mt List.map_eq_nil_iff.1 (hcut.nonempty k hk)
  have hjoin := Text.joinWith_flatten [' '] hne
  rw [← List.map_flatten, hcut.flatten, List.map_map] at hjoin
  exact hjoin.symm

/-- **The logical lines are the lines in blocks.**  There is one cut of the lines before those that
begin a logical line.  Reading line by line gives its blocks, joined.  Each line is in one block,
the joined text has all lines in order, and a text whose first line begins a logical line goes on
with logical lines of its own. -/
theorem logicalLines_blocks (b : List Char) :
    (∀ gs, IsCut (lines b) gs ↔ gs = blocks (lines b))
      ∧ logicalLines b = (blocks (lines b)).map joinLines
      ∧ logicalLines b = (lines b).foldl addLine []
      ∧ (∀ i < (lines b).length, ∀ j,
          IsIn (blocks (lines b)) i j ↔ j = cutsUpTo (lines b) i)
      ∧ joinWith [' '] (logicalLines b) = joinWith [' '] ((lines b).map trim)
      ∧ ∀ b', Text.EndsWhole b → (∀ l ∈ (lines b').head?, startsItem l = true) →
          logicalLines (b ++ b') = logicalLines b ++ logicalLines b' := by
  refine ⟨isCut_iff _, rfl, (foldl_addLine _).symm, fun i hi j => ?_, joinWith_logicalLines b,
    fun b' hb hb' => logicalLines_append hb hb'⟩
  exact (isCut_blocks (lines b)).isIn_iff hi

/-- two parts of a text -/
def kindLines : List Char := "Kinds\n id -- \n".toList

def nameLines : List Char := "\tname -- A name.\r\nOf it.".toList

/-- A line begins a logical line for a separator at its end, too, although the blank of it goes. -/
theorem logicalLines_kindLines_nameLines :
    logicalLines (kindLines ++ nameLines)
        = ["Kinds".toList, "id --".toList, "name -- A name. Of it.".toList]
      ∧ (∀ j, IsIn (blocks (lines kindLines)) 1 j ↔ j = 1)
      ∧ joinWith [' '] (logicalLines kindLines) = "Kinds id --".toList := by
  obtain ⟨-, -, -, hnumber, hjoin, happend⟩ := logicalLines_blocks kindLines
  have hstart : ∀ l ∈ (lines nameLines).head?, startsItem l = true := by decide
  refine ⟨?_, fun j => ?_, ?_⟩
  · rw [happend nameLines (.inr (by decide)) hstart]
    decide
  · have hcuts : cutsUpTo (lines kindLines) 1 = 1 := by decide
    exact hcuts ▸ hnumber 1 (by decide) j
  · rw [hjoin]
    decide

end Apidoc
