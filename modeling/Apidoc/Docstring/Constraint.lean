import Apidoc.DataType
import Apidoc.Number.Decimal

/-!
# Annotations in descriptions

A description may end with annotations: keywords with a colon and a value, as in
`The age. minimum: 1 maximum: 200`.  A colon after a backslash belongs to the text.

* `lastColon?`          cuts a text at its last colon that is not escaped;
* `lastWord`            cuts a text before its last word;
* `peel`                takes one annotation after the other off the end of a text;
* `constraintValue`     what an annotation binds its keyword to;
* `splitConstraints`    the description and the annotations of a text.

Annotations are taken off from right to left, so of two with one keyword the left one counts.
-/

namespace Apidoc

open Text (trim trimEnd)

/-! ## cutting -/

/-- the parts around the last colon without a backslash in front; `escaped` says that one stands
in front of the text -/
def lastColon? (escaped : Bool) : List Char → Option (List Char × List Char)
  | [] => none
  | c :: s =>
    match lastColon? (c == '\\') s with
    | some (a, b) => some (c :: a, b)
    | none => if c = ':' ∧ escaped = false then some ([], s) else none

theorem eq_append_of_lastColon? {e : Bool} {s a b : List Char}
    (h : lastColon? e s = some (a, b)) : s = a ++ ':' :: b := by
  induction s generalizing e a b with
  | nil => simp [lastColon?] at h
  | cons c s ih =>
    rw [lastColon?] at h
    split at h
    next a' b' h' =>
      obtain ⟨rfl, rfl⟩ : c :: a' = a ∧ b' = b := by simpa using h
      rw [ih h']; rfl
    next =>
      split at h
      next hc =>
        obtain ⟨rfl, rfl⟩ : [] = a ∧ s = b := by simpa using h
        simp [hc.1]
      next => simp at h

/-- what ends a word in front of an annotation -/
def isGap (c : Char) : Bool := c == ' ' || c == '\t' || c == '\n'

/-- the text before the gap in front of the last word, and that word -/
def lastWord (s : List Char) : List Char × List Char :=
  let r := s.reverse
  ((r.dropWhile (!isGap ·)).tail.reverse, (r.takeWhile (!isGap ·)).reverse)

theorem length_lastWord_le (s : List Char) : (lastWord s).1.length ≤ s.length := by
  have : (s.reverse.dropWhile (!isGap ·)).length ≤ s.length := by
    simpa using (List.dropWhile_sublist (!isGap ·) (l := s.reverse)).length_le
  simp only [lastWord, List.length_reverse, List.length_tail]
  omega

/-! ## taking off -/

/-- the text before the last annotation, its keyword and its value -/
def peelLast? (s : List Char) : Option (List Char × List Char × List Char) :=
  (lastColon? false s).map fun (head, value) =>
    let (rest, key) := lastWord (trimEnd head)
    (rest, key, trim value)

theorem length_lt_of_peelLast? {s rest key value : List Char}
    (h : peelLast? s = some (rest, key, value)) : rest.length < s.length := by
  obtain ⟨⟨a, b⟩, hs, he⟩ := Option.map_eq_some_iff.1 h
  have hr : (lastWord (trimEnd a)).1 = rest := congrArg Prod.fst he
  have h1 := length_lastWord_le (trimEnd a)
  have h2 := Text.length_trimEnd_le a
  rw [hr] at h1
  rw [eq_append_of_lastColon? hs, List.length_append, List.length_cons]
  omega

/-- the text before all annotations, and the annotations from right to left; a value without a
keyword is dropped -/
def peel (s : List Char) : List Char × List (List Char × List Char) :=
  match _h : peelLast? s with
  | none => (s, [])
  | some (rest, key, value) =>
    let (text, pairs) := peel rest
    (text, if key.isEmpty then pairs else (key, value) :: pairs)
termination_by s.length
decreasing_by exact length_lt_of_peelLast? _h

theorem peel_of_none {s : List Char} (h : peelLast? s = none) : peel s = (s, []) := by
  rw [peel]
  split
  next => rfl
  next h' => rw [h] at h'; cases h'

/-! ## values -/

/-- an escaped colon is a colon -/
def unescape : List Char → List Char
  | [] => []
  | '\\' :: ':' :: s => ':' :: unescape s
  | c :: s => c :: unescape s

def booleanKeywords : List String :=
  ["exclusiveMinimum", "exclusiveMaximum", "uniqueItems", "allowEmptyValue", "deprecated"]

def numericKeywords : List String :=
  ["minimum", "maximum", "multipleOf", "minItems", "maxItems", "maxLength", "minLength",
   "minProperties", "maxProperties"]

/-- the texts that mean true; all others mean false -/
def trueWords : List String := ["True", "true", "1"]

/-- an integer, or else a double -/
def readNumber? (s : List Char) : Option Value :=
  match readInteger? s with
  | some n => some (.integer n)
  | none => (readDouble? s).map .double

def constraintValue (key : String) (value : List Char) : Value :=
  if booleanKeywords.contains key then .bool (trueWords.contains (.ofList value))
  else if numericKeywords.contains key then
    (readNumber? value).getD (.text (.ofList value))
  else .text (.ofList value)

def splitConstraints (s : List Char) : String × Constraints :=
  let (text, pairs) := peel s
  (.ofList (trim (unescape text)),
    .ofList (pairs.map fun (key, value) =>
      (.ofList key, constraintValue (.ofList key) (unescape value))))

end Apidoc
