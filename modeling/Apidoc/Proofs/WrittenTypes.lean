import Apidoc.Proofs.CommaParts
import Apidoc.Proofs.Trimming
import Mathlib.Tactic.Choose

/-!
# Written types

The tokens that write a given type, and what they are read as.

* `Atom.WellFormed`, `DataType.WellFormed`   the types that can be written, without annotations;
* `Atom.Writes`, `DataType.Writes`   a text writes a type: builtin words with a format after a
  colon, brackets, operators, and padding wherever a token allows it;
* `WellFormed.exists_writes`   every such type can be written;
* `DataType.Reads`             a text is read as a type, and no comma in it ends a part of a token;
* `Writes.reads`               what writes a type is read as it.

Main statement: `resolve_written`, the two together, with the annotations at the root.
-/

namespace Apidoc

open Text (trim cutAt joinWith IsPadding Padded)

/-! ## the types that can be written -/

/-- a text that stands in a token for itself -/
structure IsPlain (s : String) : Prop where
  trimmed : trim s.toList = s.toList
  flat : IsFlat s.toList

/-- a format, a content type or a name -/
structure IsName (s : String) : Prop extends IsPlain s where
  nonempty : s.toList ≠ []

def Atom.WellFormed : Atom → Prop
  | .absent | .boolean => True
  | .integer f | .number f | .string f | .file f => ∀ w ∈ f, IsName w
  | .enumeration vs => vs ≠ [] ∧ ∀ v ∈ vs, IsPlain v
  | .model name => IsName name ∧ ':' ∉ name.toList ∧ name ∉ builtinWords

/-- types without annotations, all of whose atoms can be written -/
inductive DataType.WellFormed : DataType → Prop
  | atom {a : Atom} (ha : a.WellFormed) : WellFormed (.atom a ∅)
  | array {t : DataType} (ht : WellFormed t) : WellFormed (.array t ∅)
  | combine {op : Operator} {ts : List DataType} (hne : ts ≠ []) (hts : ∀ t ∈ ts, WellFormed t) :
      WellFormed (.combine op ts ∅)

/-! ## writing -/

/-- the words that take a format -/
def formatWords : List (String × (Option String → Atom)) :=
  [("int", .integer), ("integer", .integer), ("number", .number), ("str", .string),
   ("string", .string), ("file", .file)]

/-- a text in brackets after a word -/
def bracketing (word t : List Char) : List Char := word ++ '[' :: t ++ [']']

inductive Atom.Writes : Atom → List Char → Prop
  | absent : Writes .absent []
  | boolean {w : String} (hw : w ∈ ["bool", "boolean"]) : Writes .boolean w.toList
  | unformatted {w : String} {kind : Option String → Atom} (hw : (w, kind) ∈ formatWords) :
      Writes (kind none) w.toList
  | formatted {w : String} {kind : Option String → Atom} {f : String} {a b : List Char}
      (hw : (w, kind) ∈ formatWords) (ha : IsPadding a) (hb : IsPadding b) :
      Writes (kind (some f)) (w.toList ++ (a ++ ':' :: b) ++ f.toList)
  | enumeration {vs : List (String × List Char)} (hvs : ∀ v ∈ vs, Padded v.1.toList v.2) :
      Writes (.enumeration (vs.map Prod.fst))
        (bracketing "enum".toList (joinWith [','] (vs.map Prod.snd)))
  | model {name : String} : Writes (.model name) name.toList

/-- the tokens of a type -/
inductive DataType.Writes : DataType → List Char → Prop
  | atom {a : Atom} {s : List Char} (h : a.Writes s) : Writes (.atom a ∅) s
  | array {t : DataType} {s : List Char} (h : Writes t s) : Writes (.array t ∅) (bracketing [] s)
  | combine {op : Operator} {ts : List (DataType × List Char)} (h : ∀ t ∈ ts, Writes t.1 t.2) :
      Writes (.combine op (ts.map Prod.fst) ∅)
        (bracketing op.name.toList (joinWith [','] (ts.map Prod.snd)))
  | padded {t : DataType} {s s' : List Char} (h : Writes t s) (hp : Padded s s') : Writes t s'

/-- the type with other annotations at its root -/
def DataType.annotated : DataType → Constraints → DataType
  | .atom a _, c => .atom a c
  | .array t _, c => .array t c
  | .combine op ts _, c => .combine op ts c

theorem DataType.WellFormed.annotated_empty {t : DataType} (h : t.WellFormed) :
    t.annotated ∅ = t := by
  cases h <;> rfl

/-! ## every type can be written -/

theorem map_fst_graph {α β : Type} (f : α → β) (l : List α) :
    (l.map fun a => (a, f a)).map Prod.fst = l := by
  rw [List.map_map]
  exact List.map_id l

theorem Atom.WellFormed.exists_writes {a : Atom} (h : a.WellFormed) : ∃ s, a.Writes s := by
  have format : ∀ {w : String} {kind : Option String → Atom} (f : Option String),
      (w, kind) ∈ formatWords → ∃ s, Writes (kind f) s := by
    intro w kind f hw
    cases f with
    | none => exact ⟨_, .unformatted hw⟩
    | some f => exact ⟨_, .formatted hw Text.isPadding_nil Text.isPadding_nil⟩
  cases a with
  | absent => exact ⟨_, .absent⟩
  | boolean => exact ⟨_, .boolean (w := "boolean") (by simp)⟩
  | integer f => exact format f (w := "int") (by simp [formatWords])
  | number f => exact format f (w := "number") (by simp [formatWords])
  | string f => exact format f (w := "string") (by simp [formatWords])
  | file f => exact format f (w := "file") (by simp [formatWords])
  | enumeration vs =>
    rw [← map_fst_graph String.toList vs]
    refine ⟨_, .enumeration ?_⟩
    intro v hv
    obtain ⟨u, -, rfl⟩ := List.mem_map.1 hv
    exact Text.padded_self _
  | model name => exact ⟨_, .model⟩

theorem DataType.WellFormed.exists_writes {t : DataType} (h : t.WellFormed) :
    ∃ s, t.Writes s := by
  induction h with
  | atom ha =>
    obtain ⟨s, hs⟩ := ha.exists_writes
    exact ⟨s, .atom hs⟩
  | array _ ih =>
    obtain ⟨s, hs⟩ := ih
    exact ⟨_, .array hs⟩
  | @combine op ts _ _ ih =>
    choose! token htoken using ih
    rw [← map_fst_graph token ts]
    refine ⟨_, .combine ?_⟩
    intro p hp
    obtain ⟨t, ht, rfl⟩ := List.mem_map.1 hp
    exact htoken t ht

/-! ## flat tokens -/

theorem IsFlat.append {s t : List Char} (hs : IsFlat s) (ht : IsFlat t) : IsFlat (s ++ t) := by
  intro c hc
  rcases List.mem_append.1 hc with h | h
  · exact hs c h
  · exact ht c h

theorem IsFlat.not_mem {s : List Char} (h : IsFlat s) : '[' ∉ s := fun hc => (h '[' hc).1 rfl

theorem isFlat_of_isPadding {s : List Char} (h : IsPadding s) : IsFlat s := by
  intro c hc
  rcases h c hc with rfl | rfl <;> decide

/-- what reading needs of a word that takes a format -/
structure IsFormatWord (w : String) (kind : Option String → Atom) : Prop where
  name : IsName w
  no_colon : ':' ∉ w.toList
  ofWord_eq : ∀ f, Atom.ofWord w f = kind f
  wellFormed_iff : ∀ f, (kind f).WellFormed ↔ ∀ v ∈ f, IsName v

theorem isFormatWord_of_mem {w : String} {kind : Option String → Atom}
    (h : (w, kind) ∈ formatWords) : IsFormatWord w kind := by
  simp only [formatWords, List.mem_cons, List.not_mem_nil, or_false, Prod.mk.injEq] at h
  rcases h with ⟨rfl, rfl⟩ | ⟨rfl, rfl⟩ | ⟨rfl, rfl⟩ | ⟨rfl, rfl⟩ | ⟨rfl, rfl⟩ | ⟨rfl, rfl⟩ <;>
    exact ⟨⟨⟨by decide, by decide⟩, by decide⟩, by decide, fun _ => rfl, fun _ => Iff.rfl⟩

theorem atom_ofToken_of_no_colon {w : String} (hw : ':' ∉ w.toList) :
    Atom.ofToken w.toList = .ofWord w none := by
  rw [Atom.ofToken, Text.cutAt_of_not_mem hw]
  exact congrArg (Atom.ofWord · none) String.ofList_toList

theorem atom_ofToken_formatted {w : String} {kind : Option String → Atom} {f : String}
    {a b : List Char} (hw : IsFormatWord w kind) (hf : IsName f) (ha : IsPadding a)
    (hb : IsPadding b) :
    Atom.ofToken (w.toList ++ (a ++ ':' :: b) ++ f.toList) = kind (some f) := by
  have hwa : ':' ∉ w.toList ++ a := by
    rw [List.mem_append, not_or]
    refine ⟨hw.no_colon, fun hmem => ?_⟩
    rcases ha ':' hmem with h | h <;> cases h
  have hcut : cutAt ':' (w.toList ++ (a ++ ':' :: b) ++ f.toList) =
      some (w.toList ++ a, b ++ f.toList) := by
    rw [← Text.cutAt_append_sep hwa]
    simp
  have hta : trim (w.toList ++ a) = w.toList := by
    rw [Text.trim_append_of_blank ha.blank, hw.name.trimmed]
  have htb : trim (b ++ f.toList) = f.toList := by
    rw [Text.trim_append_of_blank_left hb.blank, hf.trimmed]
  rw [Atom.ofToken, hcut]
  simp only [hta, htb, String.ofList_toList]
  rw [if_neg (by simpa using hf.nonempty)]
  exact hw.ofWord_eq (some f)

/-! ## tokens in brackets -/

theorem trim_bracketing {w : List Char} (hw : trim w = w) (t : List Char) :
    trim (bracketing w t) = bracketing w t := by
  cases w with
  | nil => exact Text.trim_between (s := ['[']) rfl (by simp) rfl (by simp) t
  | cons c w => exact Text.trim_between hw (by simp) rfl (by simp) ('[' :: t)

theorem ofToken_array (t : List Char) (c : Constraints) :
    DataType.ofToken (bracketing [] t) c = .array (.ofToken t ∅) c := by
  refine DataType.ofToken_of_array ?_ c
  rw [trim_bracketing rfl]
  exact bracketed?_eq_some_iff.2 rfl

theorem ofToken_enumeration (t : List Char) (c : Constraints) :
    DataType.ofToken (bracketing "enum".toList t) c =
      .atom (.enumeration ((Text.splitOn ',' t).map fun v => .ofList (trim v))) c := by
  have ht : trim (bracketing "enum".toList t) = bracketing "enum".toList t := trim_bracketing rfl t
  have harray : bracketed? [] (bracketing "enum".toList t) = none :=
    bracketed?_of_ne (by decide) (by decide) (by decide) t
  refine DataType.ofToken_of_enumeration ?_ ?_ c
  · rw [ht]
    exact harray
  · rw [ht]
    exact bracketed?_eq_some_iff.2 rfl

theorem isFlat_operator (op : Operator) : IsFlat op.name.toList := by
  cases op <;> decide

theorem ofToken_operator (op : Operator) (t : List Char) (c : Constraints) :
    DataType.ofToken (bracketing op.name.toList t) c =
      .combine op ((topParts t).map (DataType.ofToken · ∅)) c := by
  have ht : trim (bracketing op.name.toList t) = bracketing op.name.toList t :=
    trim_bracketing (by cases op <;> decide) t
  have harray : bracketed? [] (bracketing op.name.toList t) = none :=
    bracketed?_of_ne (by decide) (isFlat_operator op).not_mem (by cases op <;> decide) t
  have henum : bracketed? "enum".toList (bracketing op.name.toList t) = none :=
    bracketed?_of_ne (by decide) (isFlat_operator op).not_mem (by cases op <;> decide) t
  refine DataType.ofToken_of_combination ?_ ?_ ?_ ?_ c
  · rw [ht]
    exact harray
  · rw [ht]
    exact henum
  · rw [ht]
    exact DataType.combination?_of_operator op t
  · rw [ht]
    simp [bracketing]

theorem sealed_bracketing {w t : List Char} (hw : IsFlat w) (ht : ∀ d, Sealed (d + 1) t) (d : Nat) :
    Sealed d (bracketing w t) := by
  rw [bracketing, List.append_assoc]
  exact (hw.sealed d).append (ht d).brackets

/-! ## reading what was written -/

/-- a text that is read as the type, on its own and as a part of a token -/
structure DataType.Reads (t : DataType) (s : List Char) : Prop where
  sealed : ∀ d, Sealed d s
  ofToken_eq : ∀ c, ofToken s c = t.annotated c

namespace DataType

theorem reads_absent : Reads (.atom .absent ∅) [] where
  sealed := sealed_nil
  ofToken_eq := ofToken_of_blank rfl

theorem reads_of_flat {s : List Char} (hs : IsFlat s) (ht : trim s = s) (hne : s ≠ []) :
    Reads (.atom (.ofToken s) ∅) s where
  sealed := hs.sealed
  ofToken_eq := by
    intro c
    have h := ofToken_of_atom (s := s) (c := c)
    rw [ht] at h
    exact h (bracketed?_of_not_mem hs.not_mem _) (bracketed?_of_not_mem hs.not_mem _)
      (combination?_of_not_mem hs.not_mem) hne

theorem reads_of_isName {w : String} (hw : IsName w) :
    Reads (.atom (.ofToken w.toList) ∅) w.toList :=
  reads_of_flat hw.flat hw.trimmed hw.nonempty

theorem reads_enumeration {vs : List (String × List Char)} (hne : vs ≠ [])
    (hvs : ∀ v ∈ vs, IsPlain v.1 ∧ Padded v.1.toList v.2) :
    Reads (.atom (.enumeration (vs.map Prod.fst)) ∅)
      (bracketing "enum".toList (joinWith [','] (vs.map Prod.snd))) := by
  have hword : IsFlat "enum".toList := by decide
  have hflat : ∀ p ∈ vs.map Prod.snd, IsFlat p := by
    intro p hp
    obtain ⟨v, hv, rfl⟩ := List.mem_map.1 hp
    obtain ⟨a, b, ha, hb, he⟩ := (hvs v hv).2
    rw [he]
    exact ((isFlat_of_isPadding ha).append (hvs v hv).1.flat).append (isFlat_of_isPadding hb)
  constructor
  case sealed =>
    exact sealed_bracketing hword fun d => .joined fun p hp => (hflat p hp).sealed (d + 1)
  case ofToken_eq =>
    intro c
    have hcomma : ∀ p ∈ vs.map Prod.snd, ',' ∉ p := fun p hp hc => (hflat p hp ',' hc).2.2 rfl
    rw [ofToken_enumeration, Text.splitOn_joinWith (by simpa using hne) hcomma, List.map_map]
    refine congrArg (fun vs => atom (.enumeration vs) c) (List.map_congr_left fun v hv => ?_)
    show String.ofList (trim v.2) = v.1
    rw [Text.trim_padded (hvs v hv).2, (hvs v hv).1.trimmed, String.ofList_toList]

theorem Reads.array {t : DataType} {s : List Char} (h : Reads t s) (ht : t.annotated ∅ = t) :
    Reads (.array t ∅) (bracketing [] s) where
  sealed := sealed_bracketing (by simp [IsFlat]) fun d => h.sealed (d + 1)
  ofToken_eq := by
    intro c
    rw [ofToken_array, h.ofToken_eq, ht]
    rfl

theorem reads_combine (op : Operator) {ts : List (DataType × List Char)} (hne : ts ≠ [])
    (h : ∀ t ∈ ts, Reads t.1 t.2 ∧ t.1.annotated ∅ = t.1) :
    Reads (.combine op (ts.map Prod.fst) ∅)
      (bracketing op.name.toList (joinWith [','] (ts.map Prod.snd))) := by
  have hsealed : ∀ d, ∀ p ∈ ts.map Prod.snd, Sealed d p := by
    intro d p hp
    obtain ⟨t, ht, rfl⟩ := List.mem_map.1 hp
    exact (h t ht).1.sealed d
  constructor
  case sealed => exact sealed_bracketing (isFlat_operator op) fun d => .joined (hsealed (d + 1))
  case ofToken_eq =>
    intro c
    rw [ofToken_operator, topParts, commaParts_joinWith (by simpa using hne) (hsealed 0),
      List.map_map, List.map_map]
    refine congrArg (combine op · c) (List.map_congr_left fun t ht => ?_)
    show ofToken (trim t.2) ∅ = t.1
    rw [ofToken_congr (Text.trim_trim t.2), (h t ht).1.ofToken_eq, (h t ht).2]

theorem Reads.padded {t : DataType} {s s' : List Char} (h : Reads t s) (hp : Padded s s') :
    Reads t s' where
  sealed := by
    obtain ⟨a, b, ha, hb, rfl⟩ := hp
    intro d
    exact (((isFlat_of_isPadding ha).sealed d).append (h.sealed d)).append
      ((isFlat_of_isPadding hb).sealed d)
  ofToken_eq := by
    intro c
    rw [ofToken_congr (Text.trim_padded hp), h.ofToken_eq]

end DataType

theorem Atom.Writes.reads {a : Atom} {s : List Char} (h : a.Writes s) (ha : a.WellFormed) :
    DataType.Reads (.atom a ∅) s := by
  cases h with
  | absent => exact DataType.reads_absent
  | @boolean w hw =>
    simp only [List.mem_cons, List.not_mem_nil, or_false] at hw
    rcases hw with rfl | rfl
    · exact DataType.reads_of_isName (w := "bool") ⟨⟨rfl, by decide⟩, by decide⟩
    · exact DataType.reads_of_isName (w := "boolean") ⟨⟨rfl, by decide⟩, by decide⟩
  | @unformatted w kind hw =>
    have hword : IsFormatWord w kind := isFormatWord_of_mem hw
    have hr := DataType.reads_of_isName hword.name
    rwa [atom_ofToken_of_no_colon hword.no_colon, hword.ofWord_eq] at hr
  | @formatted w kind f a b hw hpa hpb =>
    have hword : IsFormatWord w kind := isFormatWord_of_mem hw
    have hf : IsName f := (hword.wellFormed_iff _).1 ha f rfl
    have hcolon : IsFlat [':'] := by decide
    have hmid : IsFlat (a ++ ([':'] ++ b)) :=
      (isFlat_of_isPadding hpa).append (hcolon.append (isFlat_of_isPadding hpb))
    have hr := DataType.reads_of_flat ((hword.name.flat.append hmid).append hf.flat)
      (Text.trim_between hword.name.trimmed hword.name.nonempty hf.trimmed hf.nonempty _)
      (by simp)
    rwa [List.singleton_append, atom_ofToken_formatted hword hf hpa hpb] at hr
  | @enumeration vs hvs =>
    refine DataType.reads_enumeration (by simpa using ha.1) fun v hv => ⟨?_, hvs v hv⟩
    exact ha.2 v.1 (List.mem_map_of_mem hv)
  | @model name =>
    obtain ⟨hname, hcolon, hbuiltin⟩ := ha
    have hr := DataType.reads_of_isName hname
    rwa [atom_ofToken_of_no_colon hcolon, Atom.ofWord_of_not_builtin hbuiltin] at hr

namespace DataType

theorem Writes.reads {t : DataType} {s : List Char} (h : t.Writes s)
    (ht : t.WellFormed) : t.Reads s := by
  induction h with
  | atom h =>
    cases ht with
    | atom ha => exact h.reads ha
  | array _ ih =>
    cases ht with
    | array ht => exact (ih ht).array ht.annotated_empty
  | @combine op ts _ ih =>
    cases ht with
    | combine hne hts =>
      refine reads_combine op (by simpa using hne) fun t ht => ?_
      have hw := hts t.1 (List.mem_map_of_mem ht)
      exact ⟨ih t ht hw, hw.annotated_empty⟩
  | padded _ hp ih => exact (ih ht).padded hp

/-- Every type without annotations can be written, and whatever writes it is read as that type,
with the annotations given at the root and none below. -/
theorem resolve_written {t : DataType} (ht : t.WellFormed) :
    (∃ s : String, t.Writes s.toList) ∧
      ∀ s : String, t.Writes s.toList → ∀ c, resolve s c = t.annotated c := by
  constructor
  · obtain ⟨s, hs⟩ := ht.exists_writes
    refine ⟨.ofList s, ?_⟩
    rwa [String.toList_ofList]
  · intro s hs c
    exact (hs.reads ht).ofToken_eq c

/-- a model, an array, an enumeration and no type at all, one of them -/
def oneOfFour : DataType :=
  .combine .oneOf [.atom (.model "Pet") ∅, .array (.atom (.integer (some "int32")) ∅) ∅,
    .atom (.enumeration ["a", "b"]) ∅, .atom .absent ∅] ∅

theorem wellFormed_oneOfFour : oneOfFour.WellFormed := by
  have hname : ∀ s ∈ ["Pet", "int32", "a", "b"], IsName s := by
    intro s hs
    simp only [List.mem_cons, List.not_mem_nil, or_false] at hs
    rcases hs with rfl | rfl | rfl | rfl <;>
      exact ⟨⟨by decide, by decide⟩, by decide⟩
  have hpet : Atom.WellFormed (.model "Pet") := ⟨hname "Pet" (by simp), by decide, by decide⟩
  have hint : Atom.WellFormed (.integer (some "int32")) := by
    intro w hw
    rw [← Option.some.inj hw]
    exact hname "int32" (by simp)
  have henum : Atom.WellFormed (.enumeration ["a", "b"]) :=
    ⟨by simp, fun v hv =>
      (hname v (List.mem_cons_of_mem _ (List.mem_cons_of_mem _ hv))).toIsPlain⟩
  refine .combine (by simp) fun t ht => ?_
  simp only [List.mem_cons, List.not_mem_nil, or_false] at ht
  rcases ht with rfl | rfl | rfl | rfl
  · exact .atom hpet
  · exact .array (.atom hint)
  · exact .atom henum
  · exact .atom trivial

theorem writes_oneOfFour :
    oneOfFour.Writes " oneOf[ Pet,[int :int32], enum[a , b],]\t".toList := by
  have htab : IsPadding ['\t'] := by simp [IsPadding]
  have hpet : Writes (.atom (.model "Pet") ∅) " Pet".toList :=
    .padded (.atom .model) ⟨[' '], [], Text.isPadding_space, Text.isPadding_nil, rfl⟩
  have hint : Writes (.atom (.integer (some "int32")) ∅) "int :int32".toList :=
    .atom (@Atom.Writes.formatted "int" .integer "int32" [' '] [] (by simp [formatWords])
      Text.isPadding_space Text.isPadding_nil)
  have henum : Writes (.atom (.enumeration ["a", "b"]) ∅) " enum[a , b]".toList := by
    refine .padded (.atom (@Atom.Writes.enumeration [("a", ['a', ' ']), ("b", [' ', 'b'])] ?_))
      ⟨[' '], [], Text.isPadding_space, Text.isPadding_nil, rfl⟩
    intro v hv
    simp only [List.mem_cons, List.not_mem_nil, or_false] at hv
    rcases hv with rfl | rfl
    · exact ⟨[], [' '], Text.isPadding_nil, Text.isPadding_space, rfl⟩
    · exact ⟨[' '], [], Text.isPadding_space, Text.isPadding_nil, rfl⟩
  refine .padded (@Writes.combine .oneOf [(_, " Pet".toList), (.array _ ∅, "[int :int32]".toList),
    (_, " enum[a , b]".toList), (.atom .absent ∅, [])] ?_)
    ⟨[' '], ['\t'], Text.isPadding_space, htab, rfl⟩
  intro t ht
  simp only [List.mem_cons, List.not_mem_nil, or_false] at ht
  rcases ht with rfl | rfl | rfl | rfl
  · exact hpet
  · exact .array hint
  · exact henum
  · exact .atom .absent

theorem resolve_oneOfFour :
    oneOfFour.WellFormed ∧ oneOfFour.Writes " oneOf[ Pet,[int :int32], enum[a , b],]\t".toList ∧
      resolve " oneOf[ Pet,[int :int32], enum[a , b],]\t" ∅ = oneOfFour :=
  ⟨wellFormed_oneOfFour, writes_oneOfFour,
    (resolve_written wellFormed_oneOfFour).2 _ writes_oneOfFour ∅⟩

end DataType

end Apidoc
