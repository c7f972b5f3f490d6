import Apidoc.Manifest
import Apidoc.Proofs.Bindings
import Apidoc.Proofs.Success

/-!
# Reading what was written

* `Reader.Reads`    a reader reads a value as a piece of data;
* `Record.Yields`   a record takes its fields from some entries, so that they make up the data.

Both are proved part by part: there is one lemma for each reader (`reads_text`, `reads_optional`,
`reads_listOf`, `reads_tableOf`) and one for each way of putting records together (`yields_field`,
`yields_fieldOr`, `yields_map`, `Yields.seq`).

Main statement: a record reads the object whose entries yield it (`Yields.reads`).
-/

namespace Apidoc

/-! ## trees of values -/

namespace Source

theorem follow_ofValue (s : Source) (v : Value) : s.follow (.ofValue v) = .ofValue v := by
  cases v <;> rfl

end Source

theorem Tree.ofEntries_eq_map (es : List (String × Value)) :
    Tree.ofEntries es = es.map fun e => (.ofText e.1, .ofValue e.2) := by
  induction es with
  | nil => rfl
  | cons e es ih => rw [Tree.ofEntries, ih, List.map_cons]

namespace Reader

variable {α : Type}

def Reads (r : Reader α) (v : Value) (x : α) : Prop :=
  ∀ s : Source, r s (.ofValue v) = .ok x

theorem reads_text (x : String) : Reads text (.text x) x := fun _ => rfl

theorem reads_optional {r : Reader α} {v : Value} {x : α} (h : Reads r v x) (hv : v ≠ .null) :
    Reads (optional r) v (some x) := by
  intro s
  have hr : (r s (.ofValue v)).map some = .ok (some x) := congrArg (Except.map some) (h s)
  rw [optional, Source.follow_ofValue]
  cases v with
  | null => exact absurd rfl hv
  | _ => exact hr

theorem reads_listOf {r : Reader α} {f : α → Value} (h : ∀ x, Reads r (f x) x) (xs : List α) :
    Reads (listOf r) (.list (xs.map f)) xs := by
  intro s
  have hmap : (Tree.ofValues (xs.map f)).mapM (r s) = .ok xs := by
    rw [Tree.ofValues_eq_map, mapM_eq_ok_iff, List.forall₂_map_left_iff,
      List.forall₂_map_left_iff, List.forall₂_same]
    exact fun x _ => h x s
  rw [listOf, Source.follow_ofValue]
  show (Tree.ofValues (xs.map f)).mapM (r s) >>= _ = .ok xs
  rw [hmap]
  rfl

/-- the entries of a table are bound again as they were -/
theorem reads_tableOf {r : Reader α} {f : α → Value} (h : ∀ x, Reads r (f x) x) (t : Table α) :
    Reads (tableOf r) (.ofTable (t.map f)) t := by
  intro s
  have hmap : (Tree.ofEntries (t.map f).entries).mapM (fun e => do
      let k ← text s e.1
      let v ← r s e.2
      Except.ok (k, v)) = .ok t.entries := by
    rw [Tree.ofEntries_eq_map, mapM_eq_ok_iff, List.forall₂_map_left_iff, Table.map,
      List.forall₂_map_left_iff, List.forall₂_same]
    intro e he
    have hvalue : r s (.ofValue (f e.2)) = .ok e.2 := h e.2 s
    exact bind_eq_ok_iff.2 ⟨e.1, rfl, bind_eq_ok_iff.2 ⟨e.2, hvalue, rfl⟩⟩
  rw [tableOf, Value.ofTable, Source.follow_ofValue]
  show (Tree.ofEntries (t.map f).entries).mapM _ >>= _ = Except.ok t
  rw [hmap]
  exact congrArg Except.ok t.ofList_entries

end Reader

/-! ## records -/

namespace Record

variable {α β : Type}

/-- the record with the fields from the entries is `x` -/
structure Yields (r : Record α) (es : List (String × Value)) (x : α) : Prop where
  check : ∀ s k v, es.lookup k = some v → k ∈ r.names → r.check k s (.ofValue v) = .ok ()
  build : ∀ s, r.build s (fun k => (es.lookup k).map Tree.ofValue) = .ok x

section
variable {es : List (String × Value)} {name : String} {x : α} {y : β}

theorem yields_field {r : Reader α} {v : Value} (hv : es.lookup name = some v)
    (h : r.Reads v x) : (field name r).Yields es x := by
  constructor
  · intro s k w hw hk
    obtain rfl := List.mem_singleton.1 hk
    obtain rfl := Option.some.inj (hv.symm.trans hw)
    exact congrArg (Except.map fun _ => ()) (h s)
  · intro s
    simp only [field, hv, Option.map_some]
    exact h s

theorem yields_fieldOr {r : Reader α} {default : α} {v : Value} (hv : es.lookup name = some v)
    (h : r.Reads v x) : (fieldOr name default r).Yields es x := by
  obtain ⟨hcheck, hbuild⟩ := yields_field hv h
  refine ⟨hcheck, fun s => ?_⟩
  simp only [fieldOr, hv, Option.map_some]
  exact h s

theorem yields_default {r : Reader α} (hv : es.lookup name = none) (default : α) :
    (fieldOr name default r).Yields es default := by
  constructor
  · intro s k w hw hk
    obtain rfl := List.mem_singleton.1 hk
    rw [hv] at hw
    cases hw
  · intro s
    simp only [fieldOr, hv, Option.map_none]

/-- a field that is left out when there is nothing to write -/
theorem yields_optional {r : Reader α} {f : α → Value} {o : Option α}
    {default x : Option α} (hv : es.lookup name = o.map f) (h : ∀ x, r.Reads (f x) x)
    (hf : ∀ x, f x ≠ .null) (hx : o.or default = x) :
    (fieldOr name default (Reader.optional r)).Yields es x := by
  subst hx
  cases o with
  | none => exact yields_default hv default
  | some x => exact yields_fieldOr hv (Reader.reads_optional (h x) (hf x))

theorem Yields.seq {r : Record (α → β)} {q : Record α} {g : α → β} (hr : r.Yields es g)
    (hq : q.Yields es x) : (r <*> q).Yields es (g x) := by
  constructor
  · intro s k v hv hk
    show (if r.names.contains k then r.check k else q.check k) s (.ofValue v) = .ok ()
    split
    next hc => exact hr.check s k v hv (List.contains_iff_mem.1 hc)
    next hc =>
      rcases List.mem_append.1 hk with hk | hk
      · exact absurd (List.contains_iff_mem.2 hk) hc
      · exact hq.check s k v hv hk
  · intro s
    exact bind_eq_ok_iff.2 ⟨g, hr.build s, bind_eq_ok_iff.2 ⟨x, hq.build s, rfl⟩⟩

theorem Yields.map {r : Record α} (h : r.Yields es x) (g : α → β) : (g <$> r).Yields es (g x) := by
  have hpure : (pure g : Record (α → β)).Yields es g :=
    ⟨fun _ _ _ _ hk => absurd hk List.not_mem_nil, fun _ => rfl⟩
  exact hpure.seq h

end

/-! ## objects -/

theorem collect_cons {r : Record α} {s : Source} {k : String} {v : Tree}
    {found : List (String × Tree)} (hname : k ∈ r.names) (hfound : found.lookup k = none)
    (hcheck : r.check k s v = .ok ()) (es : List (Tree × Tree)) :
    r.collect s found ((.ofText k, v) :: es) = r.collect s ((k, v) :: found) es := by
  have htext : Reader.text s (.ofText k) = .ok k := rfl
  rw [collect, htext]
  simp only [bind, Except.bind, List.contains_iff_mem.2 hname, hfound, hcheck]
  rfl

theorem collect_ofEntries {r : Record α} {s : Source} {es : List (String × Value)}
    {found : List (String × Tree)} (hnodup : (es.map Prod.fst).Nodup)
    (hnew : ∀ e ∈ es, found.lookup e.1 = none)
    (hes : ∀ e ∈ es, e.1 ∈ r.names ∧ r.check e.1 s (.ofValue e.2) = .ok ()) :
    ∃ found', r.collect s found (Tree.ofEntries es) = .ok found'
      ∧ ∀ k, found'.lookup k = (found.lookup k).or ((es.lookup k).map Tree.ofValue) := by
  -- on the entries that are still to be read; those in `found` were read before
  induction es generalizing found with
  | nil => exact ⟨found, rfl, fun k => by simp⟩
  | cons e es ih =>
    obtain ⟨k, v⟩ := e
    obtain ⟨hk, hnodup⟩ := List.nodup_cons.1 hnodup
    obtain ⟨hname, hcheck⟩ := hes (k, v) List.mem_cons_self
    have hfound : found.lookup k = none := hnew (k, v) List.mem_cons_self
    have hnew' : ∀ e ∈ es, ((k, Tree.ofValue v) :: found).lookup e.1 = none := by
      intro e he
      have hkey : e.1 ∈ es.map Prod.fst := List.mem_map_of_mem he
      have hne : e.1 ≠ k := fun h => hk (h ▸ hkey)
      rw [List.lookup_cons, beq_false_of_ne hne]
      exact hnew e (List.mem_cons_of_mem _ he)
    obtain ⟨found', hcollect, hlookup⟩ := ih hnodup hnew' fun e he =>
      hes e (List.mem_cons_of_mem _ he)
    refine ⟨found', ?_, fun l => ?_⟩
    · rw [Tree.ofEntries, collect_cons hname hfound hcheck, hcollect]
    · rw [hlookup, List.lookup_cons, List.lookup_cons]
      by_cases hl : l = k
      · subst hl
        simp [hfound]
      · simp [beq_false_of_ne hl]

/-- **A record reads an object that yields it**, if the object has fields of the record only, each
at most once. -/
theorem Yields.reads {r : Record α} {es : List (String × Value)} {x : α} (h : r.Yields es x)
    (hnames : r.names.Nodup) (hes : (es.map Prod.fst).Sublist r.names) :
    r.read.Reads (.object es) x := by
  intro s
  have hnodup : (es.map Prod.fst).Nodup := hnames.sublist hes
  have hfields : ∀ e ∈ es, e.1 ∈ r.names ∧ r.check e.1 s (.ofValue e.2) = .ok () := by
    intro e he
    have hname : e.1 ∈ r.names := hes.subset (List.mem_map_of_mem he)
    exact ⟨hname, h.check s e.1 e.2 ((lookup_eq_some_iff_of_nodup hnodup).2 he) hname⟩
  have hnew : ∀ e ∈ es, ([] : List (String × Tree)).lookup e.1 = none := fun _ _ => rfl
  obtain ⟨found, hcollect, hlookup⟩ := collect_ofEntries hnodup hnew hfields
  have hfound : (found.lookup ·) = fun k => (es.lookup k).map Tree.ofValue :=
    funext fun k => (hlookup k).trans (by simp)
  rw [read, Source.follow_ofValue]
  show r.collect s [] (Tree.ofEntries es) >>= _ = .ok x
  rw [hcollect]
  show r.build s (found.lookup ·) = .ok x
  rw [hfound]
  exact h.build s

end Record

end Apidoc
