import Apidoc.DataType

/-!
# Type tokens

Types are written by short tokens: `int`, `string:date`, `[Pet]`, `enum[a, b]`, `oneOf[A, [int]]`.

* `bracketed?`       the text inside `word[...]`;
* `topParts`         the parts between the commas outside all brackets;
* `Atom.ofToken`     a token without brackets: a builtin word, perhaps with a format after a
  colon, or the name of a model;
* `DataType.ofToken`, `DataType.resolve`   any token, on characters and on strings.

Every text is a token.  Blanks around it and around its parts do not matter.
-/

namespace Apidoc

open Text (trim splitOn cutAt dropStart? dropEnd?)

/-! ## brackets -/

def bracketed? (word s : List Char) : Option (List Char) := do
  let s ← dropStart? word s
  let s ← dropStart? ['['] s
  dropEnd? [']'] s

theorem eq_of_bracketed? {word s t : List Char} (h : bracketed? word s = some t) :
    s = word ++ '[' :: t ++ [']'] := by
  simp only [bracketed?, bind, Option.bind_eq_some_iff, Text.dropStart?_eq_some_iff,
    Text.dropEnd?_eq_some_iff] at h
  obtain ⟨u, rfl, v, rfl, rfl⟩ := h
  simp

theorem bracketed?_eq_some_iff {word s t : List Char} :
    bracketed? word s = some t ↔ s = word ++ '[' :: t ++ [']'] := by
  refine ⟨eq_of_bracketed?, ?_⟩
  rintro rfl
  have hw : dropStart? word (word ++ '[' :: t ++ [']']) = some ('[' :: t ++ [']']) := by
    rw [Text.dropStart?_eq_some_iff, List.append_assoc]
  have ho : dropStart? ['['] ('[' :: t ++ [']']) = some (t ++ [']']) :=
    Text.dropStart?_eq_some_iff.2 rfl
  have he : dropEnd? [']'] (t ++ [']']) = some t := Text.dropEnd?_eq_some_iff.2 rfl
  simp only [bracketed?, hw, ho, he, bind, Option.bind_some]

theorem ne_nil_of_bracketed? {word s t : List Char} (h : bracketed? word s = some t) : s ≠ [] := by
  rw [eq_of_bracketed? h]
  simp

theorem bracketed?_of_not_mem {s : List Char} (hs : '[' ∉ s) (word : List Char) :
    bracketed? word s = none := by
  rw [Option.eq_none_iff_forall_not_mem]
  intro t ht
  refine hs ?_
  rw [eq_of_bracketed? ht]
  simp

/-- a text in brackets has one word only in front of them -/
theorem bracketed?_of_ne {word word' : List Char} (hw : '[' ∉ word) (hw' : '[' ∉ word')
    (hne : word ≠ word') (t : List Char) : bracketed? word (word' ++ '[' :: t ++ [']']) = none := by
  rw [Option.eq_none_iff_forall_not_mem]
  intro u hu
  have h : word' ++ '[' :: (t ++ [']']) = word ++ '[' :: (u ++ [']']) := by
    simpa using eq_of_bracketed? hu
  have hcut := congrArg (cutAt '[') h
  rw [Text.cutAt_append_sep hw', Text.cutAt_append_sep hw] at hcut
  exact hne (congrArg Prod.fst (Option.some.inj hcut)).symm

theorem length_lt_of_bracketed? {word s t : List Char} (h : bracketed? word s = some t) :
    t.length < s.length := by
  rw [eq_of_bracketed? h]
  simp only [List.length_append, List.length_cons, List.length_nil]
  omega

/-- the parts of a text between commas at depth zero -/
def commaParts (depth : Nat) : List Char → List (List Char)
  | [] => [[]]
  | c :: s =>
    if c = ',' ∧ depth = 0 then [] :: commaParts depth s
    else
      let depth := if c = '[' then depth + 1 else if c = ']' then depth - 1 else depth
      match commaParts depth s with
      | [] => [[c]]
      | p :: ps => (c :: p) :: ps

theorem commaParts_ne_nil (d : Nat) (s : List Char) : commaParts d s ≠ [] := by
  cases s with
  | nil => simp [commaParts]
  | cons c s =>
    rw [commaParts]
    split
    next => simp
    next => dsimp only; split <;> simp

theorem commaParts_comma (s : List Char) : commaParts 0 (',' :: s) = [] :: commaParts 0 s := by
  simp [commaParts]

/-- the depth after a character -/
def depthAfter (c : Char) (d : Nat) : Nat :=
  if c = '[' then d + 1 else if c = ']' then d - 1 else d

/-- a character that ends no part belongs to the part that it stands in -/
theorem commaParts_cons {c : Char} {d : Nat} (h : ¬(c = ',' ∧ d = 0)) (s : List Char) :
    commaParts d (c :: s) = (commaParts (depthAfter c d) s).modifyHead (c :: ·) := by
  rw [commaParts, if_neg h]
  obtain ⟨p, ps, hp⟩ := List.exists_cons_of_ne_nil (commaParts_ne_nil (depthAfter c d) s)
  rw [depthAfter] at hp ⊢
  dsimp only
  rw [hp, List.modifyHead_cons]

def topParts (s : List Char) : List (List Char) := (commaParts 0 s).map trim

theorem length_le_of_mem_commaParts {depth : Nat} {s p : List Char}
    (h : p ∈ commaParts depth s) : p.length ≤ s.length := by
  induction s generalizing depth p with
  | nil => simp_all [commaParts]
  | cons c s ih =>
    rw [commaParts] at h
    split at h
    next =>
      rcases List.mem_cons.1 h with rfl | h
      · simp
      · exact Nat.le_succ_of_le (ih h)
    next =>
      dsimp only at h
      split at h
      next => simp_all
      next q qs hq =>
        rcases List.mem_cons.1 h with rfl | h
        · exact Nat.succ_le_succ (ih (hq ▸ List.mem_cons_self))
        · exact Nat.le_succ_of_le (ih (hq ▸ List.mem_cons_of_mem _ h))

theorem length_le_of_mem_topParts {s p : List Char} (h : p ∈ topParts s) :
    p.length ≤ s.length := by
  obtain ⟨q, hq, rfl⟩ := List.mem_map.1 h
  exact Nat.le_trans (Text.length_trim_le q) (length_le_of_mem_commaParts hq)

/-! ## atoms -/

/-- the words for texts of a certain format, which is the word itself -/
def stringFormats : List String :=
  ["date", "date-time", "password", "byte", "binary", "email", "uuid", "uri", "hostname", "ipv4",
   "ipv6"]

/-- the type that a word stands for, given the format that is written after it; some words have
a format of their own, which wins -/
def Atom.ofWord (word : String) (format : Option String) : Atom :=
  if ["int", "integer"].contains word then .integer format
  else if ["int32", "int64"].contains word then .integer (some word)
  else if word = "long" then .integer (some "int64")
  else if word = "number" then .number format
  else if ["float", "double"].contains word then .number (some word)
  else if ["str", "string"].contains word then .string format
  else if stringFormats.contains word then .string (some word)
  else if ["bool", "boolean"].contains word then .boolean
  else if word = "file" then .file format
  else .model word

/-- the words with a type of their own -/
def builtinWords : List String :=
  ["int", "integer", "int32", "int64", "long", "number", "float", "double", "str", "string"]
    ++ stringFormats ++ ["bool", "boolean", "file"]

theorem Atom.ofWord_of_not_builtin {word : String} (h : word ∉ builtinWords)
    (format : Option String) : ofWord word format = .model word := by
  simp [builtinWords, stringFormats] at h
  simp [ofWord, stringFormats, h]

def Atom.ofToken (s : List Char) : Atom :=
  match cutAt ':' s with
  | none => .ofWord (.ofList s) none
  | some (word, format) =>
    let format := trim format
    .ofWord (.ofList (trim word)) (if format.isEmpty then none else some (.ofList format))

/-! ## all tokens -/

namespace DataType

/-- the operators in the order in which they are tried -/
def operators : List Operator := [.oneOf, .anyOf, .allOf, .not]

/-- the operator that a token begins with, and the text in its brackets -/
def combination? (s : List Char) : Option (Operator × List Char) :=
  operators.findSome? fun op => (bracketed? op.name.toList s).map fun t => (op, t)

theorem length_lt_of_combination? {s t : List Char} {op : Operator}
    (h : combination? s = some (op, t)) : t.length < s.length := by
  obtain ⟨op', -, h⟩ := List.exists_of_findSome?_eq_some h
  obtain ⟨u, hu, he⟩ := Option.map_eq_some_iff.1 h
  obtain ⟨-, rfl⟩ : op' = op ∧ u = t := by simpa using he
  exact length_lt_of_bracketed? hu

theorem combination?_of_not_mem {s : List Char} (hs : '[' ∉ s) : combination? s = none := by
  rw [combination?, List.findSome?_eq_none_iff]
  intro op hop
  rw [bracketed?_of_not_mem hs, Option.map_none]

theorem combination?_of_operator (op : Operator) (t : List Char) :
    combination? (op.name.toList ++ '[' :: t ++ [']']) = some (op, t) := by
  have hb : ∀ o : Operator, '[' ∉ o.name.toList := by
    intro o
    cases o <;> decide
  have hf : (fun o : Operator => (bracketed? o.name.toList
      (op.name.toList ++ '[' :: t ++ [']'])).map fun u => (o, u)) =
      fun o => if o = op then some (op, t) else none := by
    funext o
    by_cases ho : o = op
    · rw [if_pos ho, ho, bracketed?_eq_some_iff.2 rfl, Option.map_some]
    · have hne : o.name.toList ≠ op.name.toList := by
        revert ho
        cases o <;> cases op <;> decide
      rw [if_neg ho, bracketed?_of_ne (hb o) (hb op) hne, Option.map_none]
  rw [combination?, hf]
  cases op <;> rfl

/-- the type that a token writes, with the given annotations -/
def ofToken (s : List Char) (c : Constraints) : DataType :=
  let s' := trim s
  if s'.isEmpty then .atom .absent c
  else
    match _h : bracketed? [] s' with
    | some t => .array (ofToken t ∅) c
    | none =>
      match bracketed? "enum".toList s' with
      | some t => .atom (.enumeration ((splitOn ',' t).map fun v => .ofList (trim v))) c
      | none =>
        match _h : combination? s' with
        | some (op, t) => .combine op ((topParts t).attach.map fun p => ofToken p.1 ∅) c
        | none => .atom (.ofToken s') c
termination_by s.length
decreasing_by
  · exact Nat.lt_of_lt_of_le (length_lt_of_bracketed? _h) (Text.length_trim_le s)
  · exact Nat.lt_of_le_of_lt (length_le_of_mem_topParts p.2)
      (Nat.lt_of_lt_of_le (length_lt_of_combination? _h) (Text.length_trim_le s))

theorem ofToken_of_blank {s : List Char} (h : trim s = []) (c : Constraints) :
    ofToken s c = .atom .absent c := by
  rw [ofToken]; simp [h]

theorem ofToken_of_array {s t : List Char} (h : bracketed? [] (trim s) = some t)
    (c : Constraints) : ofToken s c = .array (ofToken t ∅) c := by
  have h' : trim s ≠ [] := by rintro he; rw [he] at h; simp [bracketed?, dropStart?] at h
  rw [ofToken]
  simp only [List.isEmpty_iff, h', if_false]
  split
  next t' ht' => rw [h] at ht'; cases ht'; rfl
  next ht' => rw [h] at ht'; cases ht'

theorem ofToken_of_enumeration {s t : List Char} (ha : bracketed? [] (trim s) = none)
    (h : bracketed? "enum".toList (trim s) = some t) (c : Constraints) :
    ofToken s c = .atom (.enumeration ((splitOn ',' t).map fun v => .ofList (trim v))) c := by
  rw [ofToken]
  simp only [List.isEmpty_iff, ne_nil_of_bracketed? h, if_false]
  split
  next ht' => rw [ha] at ht'; cases ht'
  next => rw [h]

theorem ofToken_of_combination {s t : List Char} {op : Operator}
    (ha : bracketed? [] (trim s) = none) (he : bracketed? "enum".toList (trim s) = none)
    (h : combination? (trim s) = some (op, t)) (hne : trim s ≠ []) (c : Constraints) :
    ofToken s c = .combine op ((topParts t).map (ofToken · ∅)) c := by
  rw [ofToken]
  simp only [List.isEmpty_iff, hne, if_false]
  split
  next ht' => rw [ha] at ht'; cases ht'
  next =>
    rw [he]
    dsimp only
    split
    next op' t' ht' =>
      rw [h] at ht'
      cases ht'
      exact congrArg (combine op · c) (List.attach_map_val (f := fun p => ofToken p ∅))
    next ht' => rw [h] at ht'; cases ht'

theorem ofToken_of_atom {s : List Char} (ha : bracketed? [] (trim s) = none)
    (he : bracketed? "enum".toList (trim s) = none) (hc : combination? (trim s) = none)
    (hne : trim s ≠ []) (c : Constraints) : ofToken s c = .atom (.ofToken (trim s)) c := by
  rw [ofToken]
  simp only [List.isEmpty_iff, hne, if_false]
  split
  next ht' => rw [ha] at ht'; cases ht'
  next =>
    rw [he]
    dsimp only
    split
    next ht' => rw [hc] at ht'; cases ht'
    next => rfl

/-- blanks around a token do not matter -/
theorem ofToken_congr {s s' : List Char} (h : trim s = trim s') (c : Constraints) :
    ofToken s c = ofToken s' c := by
  rw [ofToken, ofToken, h]

def resolve (token : String) (c : Constraints) : DataType := ofToken token.toList c

end DataType

end Apidoc
