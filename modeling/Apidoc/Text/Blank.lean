/-!
# Blank characters and trimming

A character is *blank* when Unicode gives it the property White_Space.  Texts are lists of
characters here; everything in the library that says "blank", "trimmed" or "empty line" means
the functions of this module.

* `isBlank`            the White_Space characters;
* `trimStart`, `trimEnd`, `trim`  a text without its leading blanks, its trailing blanks, both;
* `allBlank`           a text with nothing but blanks (also the empty one);
* `trimmed`            `trim` on strings.
-/

namespace Apidoc.Text

/-! ## the class -/

/-- White_Space: tab to carriage return, space, next line, no-break space, ogham space, the
spaces of U+2000 to U+200A, line and paragraph separator, three more spaces -/
def isBlank (c : Char) : Bool :=
  let n := c.toNat
  (0x09 ≤ n && n ≤ 0x0D) || n == 0x20 || n == 0x85 || n == 0xA0 || n == 0x1680
    || (0x2000 ≤ n && n ≤ 0x200A) || n == 0x2028 || n == 0x2029 || n == 0x202F
    || n == 0x205F || n == 0x3000

/-! ## trimming -/

def trimStart (s : List Char) : List Char := s.dropWhile isBlank

def trimEnd (s : List Char) : List Char := (s.reverse.dropWhile isBlank).reverse

def trim (s : List Char) : List Char := trimEnd (trimStart s)

def allBlank (s : List Char) : Bool := s.all isBlank

def trimmed (s : String) : String := .ofList (trim s.toList)

theorem trimStart_cons_of_blank {c : Char} (h : isBlank c = true) (s : List Char) :
    trimStart (c :: s) = trimStart s := by
  simp [trimStart, h]

theorem trimStart_cons_of_not_blank {c : Char} (h : isBlank c = false) (s : List Char) :
    trimStart (c :: s) = c :: s := by
  simp [trimStart, h]

/-- a text loses its leading blanks at once -/
theorem trimStart_trimStart (s : List Char) : trimStart (trimStart s) = trimStart s := by
  induction s with
  | nil => rfl
  | cons c s ih =>
    cases h : isBlank c with
    | true => rw [trimStart_cons_of_blank h, ih]
    | false => rw [trimStart_cons_of_not_blank h, trimStart_cons_of_not_blank h]

theorem trimStart_eq_nil_iff (s : List Char) : trimStart s = [] ↔ allBlank s = true := by
  induction s with
  | nil => simp [trimStart, allBlank]
  | cons c s ih =>
    cases h : isBlank c with
    | true => simpa [trimStart_cons_of_blank h, allBlank, h] using ih
    | false => simp [trimStart_cons_of_not_blank h, allBlank, h]

theorem trimEnd_eq_nil_iff (s : List Char) : trimEnd s = [] ↔ allBlank s = true := by
  show (trimStart s.reverse).reverse = [] ↔ _
  rw [List.reverse_eq_nil_iff, trimStart_eq_nil_iff, allBlank, List.all_reverse, allBlank]

/-- a text trims to nothing exactly when it is all blank -/
theorem trim_eq_nil_iff (s : List Char) : trim s = [] ↔ allBlank s = true := by
  rw [trim, trimEnd_eq_nil_iff]
  induction s with
  | nil => rfl
  | cons c s ih =>
    cases h : isBlank c with
    | true => simpa [trimStart_cons_of_blank h, allBlank, h] using ih
    | false => simp [trimStart_cons_of_not_blank h, allBlank, h]

theorem length_trimStart_le (s : List Char) : (trimStart s).length ≤ s.length :=
  (List.dropWhile_sublist _).length_le

theorem length_trimEnd_le (s : List Char) : (trimEnd s).length ≤ s.length := by
  simpa [trimEnd, trimStart] using length_trimStart_le s.reverse

theorem length_trim_le (s : List Char) : (trim s).length ≤ s.length :=
  Nat.le_trans (length_trimEnd_le _) (length_trimStart_le s)

end Apidoc.Text
