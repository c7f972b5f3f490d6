import Apidoc.Files
import Apidoc.Proofs.Success

/-!
# The contents of files

* `Entry.kind?`       what stands at a place: a file with its content, or a directory;
* `Entry.content?`    the content of the file at a place;
* `Entry.prepared`    the tree with the directories that a path needs;
* `Entry.saved`       the tree with a text written to a path.

Putting an entry at a place shows at that place and below it only (`kind?_put_append`,
`kind?_put_outside`).  So a new directory changes no file, and a file that is written
changes no other.

Main statements: `content?_createDirs`, and `exists_of_saved` for what is written.
-/

namespace Apidoc.Entry

/-! ## places -/

/-- the content of a file; a directory has none -/
def content : Entry → Option ByteArray
  | file b => some b
  | directory _ => none

/-- nothing, or a directory (`some none`), or a file with its content -/
def kind? (root : Entry) (place : List String) : Option (Option ByteArray) :=
  (root.find place).toOption.map content

def content? (root : Entry) (place : List String) : Option ByteArray := (root.kind? place).join

section
variable {root root' new : Entry} {place p : List String}

theorem kind?_nil (root : Entry) : root.kind? [] = some root.content := by
  cases root <;> rfl

theorem kind?_directory_cons (es : List (String × Entry)) (n : String) (ns : List String) :
    (directory es).kind? (n :: ns) = (es.lookup n).bind fun e => e.kind? ns := by
  rw [kind?, find]
  cases es.lookup n <;> rfl

theorem kind?_insert_self (es : List (String × Entry)) (n : String) (e : Entry)
    (ns : List String) : (directory (insertBinding n e es)).kind? (n :: ns) = e.kind? ns := by
  rw [kind?_directory_cons, lookup_insertBinding_self, Option.bind_some]

theorem kind?_insert_of_ne (es : List (String × Entry)) {n m : String} (h : m ≠ n) (e : Entry)
    (ms : List String) :
    (directory (insertBinding n e es)).kind? (m :: ms) = (directory es).kind? (m :: ms) := by
  rw [kind?_directory_cons, kind?_directory_cons, lookup_insertBinding_of_ne h]

theorem kind?_append_of_find {e : Entry} (h : root.find place = .ok e) (rest : List String) :
    root.kind? (place ++ rest) = e.kind? rest := by
  induction place generalizing root with
  | nil =>
    obtain rfl := Except.ok.inj h
    rfl
  | cons n ns ih =>
    cases root with
    | file b => cases h
    | directory es =>
      rw [List.cons_append, kind?_directory_cons]
      rw [find] at h
      cases hn : es.lookup n with
      | none => rw [hn] at h; cases h
      | some e' =>
        rw [hn] at h
        exact ih h

/-- below a place with nothing there is nothing -/
theorem kind?_append_of_none (h : root.kind? place = none) (rest : List String) :
    root.kind? (place ++ rest) = none := by
  induction place generalizing root with
  | nil => rw [kind?_nil] at h; cases h
  | cons n ns ih =>
    cases root with
    | file b => rfl
    | directory es =>
      rw [List.cons_append, kind?_directory_cons] at *
      cases hn : es.lookup n with
      | none => rfl
      | some e =>
        rw [hn, Option.bind_some] at h
        exact ih h

/-! ## putting entries -/

theorem kind?_put_append (h : put new root place = .ok root') (rest : List String) :
    root'.kind? (place ++ rest) = new.kind? rest := by
  induction place generalizing root root' with
  | nil =>
    obtain rfl := Except.ok.inj h
    rfl
  | cons n ns ih =>
    cases root with
    | file b => cases h
    | directory es =>
      rw [put] at h
      split at h
      next e hn =>
        obtain ⟨e', he, h⟩ := bind_eq_ok_iff.1 h
        obtain rfl := Except.ok.inj h
        rw [List.cons_append, kind?_insert_self]
        exact ih he
      next =>
        split at h
        next hns =>
          obtain rfl := Except.ok.inj h
          rw [List.isEmpty_iff.1 hns, List.singleton_append, kind?_insert_self]
        next => cases h

theorem kind?_put_outside (h : put new root place = .ok root') (hp : ¬place <+: p) :
    root'.kind? p = root.kind? p := by
  induction place generalizing root root' p with
  | nil => exact absurd List.nil_prefix hp
  | cons n ns ih =>
    cases root with
    | file b => cases h
    | directory es =>
      rw [put] at h
      split at h
      next e hn =>
        obtain ⟨e', he, h⟩ := bind_eq_ok_iff.1 h
        obtain rfl := Except.ok.inj h
        cases p with
        | nil => rfl
        | cons m ms =>
          by_cases hm : m = n
          · subst hm
            have hms : ¬ns <+: ms := fun hpre => hp (List.cons_prefix_cons.2 ⟨rfl, hpre⟩)
            rw [kind?_insert_self, kind?_directory_cons, hn, Option.bind_some, ih he hms]
          · exact kind?_insert_of_ne es hm e' ms
      next =>
        split at h
        next hns =>
          obtain rfl := Except.ok.inj h
          cases p with
          | nil => rfl
          | cons m ms =>
            have hm : m ≠ n := by
              rintro rfl
              rw [List.isEmpty_iff.1 hns] at hp
              exact hp (List.cons_prefix_cons.2 ⟨rfl, List.nil_prefix⟩)
            exact kind?_insert_of_ne es hm new ms
        next => cases h

theorem kind?_eq_none_of_error {f : SystemFault} (h : root.find place = .error f) :
    root.kind? place = none := by
  rw [kind?, h]
  rfl

/-! ## directories -/

variable {c : Caller}

/-- what the system grants is what the tree allows -/
theorem eq_of_granted {r : Request} {e e' : Entry}
    (h : (do c.ask r; .ok e : Except SystemFault Entry) = .ok e') : e = e' := by
  obtain ⟨_, -, h⟩ := bind_eq_ok_iff.1 h
  exact Except.ok.inj h

theorem content?_createDir {path : String} (h : root.createDir path c = .ok root') :
    root'.content? = root.content? := by
  obtain ⟨place, -, h⟩ := bind_eq_ok_iff.1 h
  cases hfind : root.find place with
  | ok e => rw [hfind] at h; cases h
  | error f =>
    rw [hfind] at h
    obtain ⟨made, hmade, h⟩ := bind_eq_ok_iff.1 h
    obtain rfl := eq_of_granted h
    have hnone := kind?_append_of_none (kind?_eq_none_of_error hfind)
    funext p
    by_cases hp : place <+: p
    · obtain ⟨rest, rfl⟩ := hp
      rw [content?, content?, kind?_put_append hmade, hnone]
      cases rest <;> rfl
    · rw [content?, content?, kind?_put_outside hmade hp]

theorem content?_ensureDir {path : String} (h : root.ensureDir path c = .ok root') :
    root'.content? = root.content? := by
  rw [ensureDir] at h
  split at h
  next =>
    split at h
    · obtain rfl := Except.ok.inj h
      rfl
    · cases h
  next hcreate =>
    obtain rfl := Except.ok.inj h
    exact content?_createDir hcreate

theorem content?_createDirsWithin {fuel : Nat} {path : String}
    (h : createDirsWithin c fuel root path = .ok root') : root'.content? = root.content? := by
  induction fuel generalizing root root' path with
  | zero => cases h
  | succ fuel ih =>
    rw [createDirsWithin] at h
    split at h
    next =>
      obtain rfl := Except.ok.inj h
      rfl
    next =>
      split at h
      next =>
        split at h
        next => cases h
        next parent _ =>
          obtain ⟨above, habove, h⟩ := bind_eq_ok_iff.1 h
          exact (content?_ensureDir h).trans (ih habove)
      next => exact content?_ensureDir h

/-- creating directories changes no file -/
theorem content?_createDirs {path : String} (h : root.createDirs path c = .ok root') :
    root'.content? = root.content? :=
  content?_createDirsWithin h

/-! ## files -/

/-- where a file may be put, there is nothing below -/
theorem content?_put_file {b : ByteArray} (h : put (file b) root place = .ok root')
    (hplace : root.kind? place ≠ some none) :
    root'.content? = Function.update root.content? place (some b) := by
  funext p
  by_cases hp : place <+: p
  · obtain ⟨rest, rfl⟩ := hp
    rw [content?, kind?_put_append h]
    cases rest with
    | nil => rw [List.append_nil, Function.update_self]; rfl
    | cons n ns =>
      have hne : place ++ n :: ns ≠ place := by simp
      rw [Function.update_of_ne hne, content?]
      cases hfind : root.find place with
      | error f => rw [kind?_append_of_none (kind?_eq_none_of_error hfind)]; rfl
      | ok e =>
        rw [kind?_append_of_find hfind]
        cases e with
        | file b' => rfl
        | directory es =>
          refine absurd ?_ hplace
          rw [kind?, hfind]
          rfl
  · have hne : p ≠ place := fun he => hp (he ▸ List.prefix_rfl)
    rw [Function.update_of_ne hne, content?, content?, kind?_put_outside h hp]

theorem isDirectory_iff_kind? :
    (∃ e, root.find p = .ok e ∧ e.isDirectory = true) ↔ root.kind? p = some none := by
  rw [kind?]
  cases root.find p with
  | error f => simp [Except.toOption]
  | ok e => cases e <;> simp [Except.toOption, isDirectory, content]

/-- a path leads to the same place in a tree that has the same directories -/
theorem follow_of_kind? {here : List String} {ps : List (List Char)}
    (hdirs : ∀ p, root.kind? p = some none → root'.kind? p = some none)
    (h : follow root here ps = .ok place) : follow root' here ps = .ok place := by
  induction ps generalizing here with
  | nil => exact h
  | cons q ps ih =>
    obtain ⟨e, he, h⟩ := bind_eq_ok_iff.1 h
    split at h
    next => cases h
    next hdir =>
      have hdir' : e.isDirectory = true := by simpa using hdir
      obtain ⟨e', he', hdir'⟩ := isDirectory_iff_kind?.2
        (hdirs here (isDirectory_iff_kind?.1 ⟨e, he, hdir'⟩))
      refine bind_eq_ok_iff.2 ⟨e', he', ?_⟩
      rw [if_neg (by simp [hdir'])]
      split at h
      next hq => rw [if_pos hq]; exact ih h
      next hq =>
        rw [if_neg hq]
        split at h
        next hq' => rw [if_pos hq']; exact ih h
        next hq' => rw [if_neg hq']; exact ih h

theorem locate_of_kind? {path : String}
    (hdirs : ∀ p, root.kind? p = some none → root'.kind? p = some none)
    (h : root.locate path c = .ok place) : root'.locate path c = .ok place := by
  rw [locate] at h ⊢
  split at h
  next => cases h
  next hpath =>
    rw [if_neg hpath]
    exact follow_of_kind? hdirs h

/-- what is written stands at the place of the path, and all other files are as they were -/
theorem exists_of_write {path : String} {b : ByteArray} (h : root.write path b c = .ok root') :
    ∃ place, root'.locate path c = .ok place
      ∧ root'.content? = Function.update root.content? place (some b) := by
  rw [write] at h
  split at h
  next =>
    obtain ⟨_, -, h⟩ := bind_eq_ok_iff.1 h
    cases h
  next =>
    obtain ⟨place, hplace, h⟩ := bind_eq_ok_iff.1 h
    split at h
    next => cases h
    next hfind =>
      obtain ⟨stored, hstored, h⟩ := bind_eq_ok_iff.1 h
      obtain rfl := eq_of_granted h
      have hkind : root.kind? place ≠ some none := by
        intro hk
        obtain ⟨e, he, hdir⟩ := isDirectory_iff_kind?.2 hk
        cases e with
        | file b => cases hdir
        | directory es => exact hfind es he
      refine ⟨place, locate_of_kind? (fun p hp => ?_) hplace, content?_put_file hstored hkind⟩
      rw [kind?_put_outside hstored, hp]
      rintro ⟨rest, rfl⟩
      cases hf : root.find place with
      | error f =>
        rw [kind?_append_of_none (kind?_eq_none_of_error hf)] at hp
        cases hp
      | ok e =>
        rw [kind?_append_of_find hf] at hp
        cases e with
        | file b => cases rest <;> cases hp
        | directory es => exact hfind es hf

end

/-! ## saving -/

def prepared (root : Entry) (path : String) (c : Caller) : Except SystemFault Entry :=
  match Path.parent? path with
  | none => .ok root
  | some parent => root.createDirs parent c

def saved (root : Entry) (path text : String) (c : Caller) : Except SystemFault Entry := do
  (← root.prepared path c).write path text.toUTF8 c

section
variable {root root' : Entry} {path text : String} {c : Caller}

theorem content?_prepared (h : root.prepared path c = .ok root') :
    root'.content? = root.content? := by
  rw [prepared] at h
  split at h
  next =>
    obtain rfl := Except.ok.inj h
    rfl
  next => exact content?_createDirs h

theorem exists_of_saved (h : root.saved path text c = .ok root') :
    ∃ place, root'.locate path c = .ok place
      ∧ root'.content? = Function.update root.content? place (some text.toUTF8) := by
  obtain ⟨dirs, hdirs, h⟩ := bind_eq_ok_iff.1 h
  rw [← content?_prepared hdirs]
  exact exists_of_write h

end

end Apidoc.Entry
