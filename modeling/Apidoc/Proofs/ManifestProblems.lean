import Apidoc.Proofs.CatalogEntries
import Apidoc.Proofs.RunOutcome

/-!
# What is wrong with a manifest

A manifest that can be read is checked before it is used: its routes first, and then its models,
each of which must have a name that none before it has.

* `RouteEntry.Lacks`, `ModelEntry.Misnames`   what can be wrong with one entry;
* `RouteEntry.complaint`, `ModelEntry.complaint`   what is said of it then;
* `Manifest.IsSound`         manifests with nothing wrong;
* `Manifest.FirstProblem`    the first thing that is wrong with a manifest;
* `problem?_eq_some_iff`, `problem?_eq_none_iff`   it is what the check finds.

The check of the models passes on the names that it has seen; they are those of the models before
(`modelProblem?_eq_some_iff`).  Because the names of a sound manifest differ, the table of its
models holds all of them (`IsSound.schemas`).

Main statement: whatever the host, a file is loaded exactly if its manifest is sound, otherwise
the first problem is reported; and no model of a loaded manifest takes the place of another
(`loadManifest_checked`).
-/

namespace Apidoc

open Manifest (isBlank routeProblem? modelProblem?)

/-! ## routes -/

/-- a route needs an address and a handler; the address is looked at first -/
inductive RouteEntry.Lacks (r : RouteEntry) : Problem → Prop
  | url (h : isBlank r.url = true) : Lacks r (.missingUrl r.handler)
  | handler (hurl : isBlank r.url = false) (h : isBlank r.handler = true) :
      Lacks r (.missingHandler r.url)

structure RouteEntry.IsWhole (r : RouteEntry) : Prop where
  url : isBlank r.url = false
  handler : isBlank r.handler = false

def RouteEntry.complaint (r : RouteEntry) : String :=
  if isBlank r.url then "路由缺少 url (handler: " ++ r.handler ++ ")"
  else "路由 " ++ r.url ++ " 缺少 handler"

theorem RouteEntry.Lacks.message_eq {r : RouteEntry} {p : Problem} (h : r.Lacks p) :
    p.message = r.complaint := by
  rw [complaint]
  cases h with
  | url h => rw [if_pos h]; rfl
  | handler hurl h => rw [hurl]; rfl

theorem routeProblem?_eq_some_iff {r : RouteEntry} {p : Problem} :
    routeProblem? r = some p ↔ r.Lacks p := by
  rw [routeProblem?]
  constructor
  · intro h
    split at h
    next hurl => exact Option.some.inj h ▸ .url hurl
    next hurl =>
      rw [Bool.not_eq_true] at hurl
      split at h
      next hhandler => exact Option.some.inj h ▸ .handler hurl hhandler
      next => cases h
  · rintro (hurl | ⟨hurl, hhandler⟩)
    · rw [if_pos hurl]
    · rw [hurl, hhandler]
      rfl

theorem routeProblem?_eq_none_iff {r : RouteEntry} : routeProblem? r = none ↔ r.IsWhole := by
  rw [routeProblem?]
  constructor
  · intro h
    split at h
    next => cases h
    next hurl =>
      split at h
      next => cases h
      next hhandler => exact ⟨by simpa using hurl, by simpa using hhandler⟩
  · rintro ⟨hurl, hhandler⟩
    rw [hurl, hhandler]
    rfl

/-! ## models -/

/-- a model needs a name that is not among `names` -/
inductive ModelEntry.Misnames (names : List String) (e : ModelEntry) : Problem → Prop
  | blank (h : isBlank e.name = true) : Misnames names e .missingName
  | repeated (hname : isBlank e.name = false) (h : e.name ∈ names) :
      Misnames names e (.repeatedName e.name)

def ModelEntry.complaint (e : ModelEntry) : String :=
  if isBlank e.name then "模型缺少 name" else "模型 " ++ e.name ++ " 重复定义"

theorem ModelEntry.Misnames.message_eq {names : List String} {e : ModelEntry} {p : Problem}
    (h : e.Misnames names p) : p.message = e.complaint := by
  rw [complaint]
  cases h with
  | blank h => rw [if_pos h]; rfl
  | repeated hname h => rw [hname]; rfl

/-- models with names of their own, none of which is among `seen` -/
structure AreNamed (seen : List String) (es : List ModelEntry) : Prop where
  named : ∀ e ∈ es, isBlank e.name = false
  nodup : (es.map ModelEntry.name).Nodup
  fresh : ∀ e ∈ es, e.name ∉ seen

section
variable {seen : List String} {e : ModelEntry} {es : List ModelEntry} {p : Problem}

theorem areNamed_nil (seen : List String) : AreNamed seen [] := ⟨nofun, List.nodup_nil, nofun⟩

theorem areNamed_cons :
    AreNamed seen (e :: es)
      ↔ (isBlank e.name = false ∧ e.name ∉ seen) ∧ AreNamed (e.name :: seen) es := by
  constructor
  · intro h
    obtain ⟨hnot, hnodup⟩ := List.nodup_cons.1 h.nodup
    refine ⟨⟨h.named e List.mem_cons_self, h.fresh e List.mem_cons_self⟩,
      fun d hd => h.named d (List.mem_cons_of_mem e hd), hnodup, fun d hd hmem => ?_⟩
    rcases List.mem_cons.1 hmem with he | hmem
    · exact hnot (he ▸ List.mem_map_of_mem hd)
    · exact h.fresh d (List.mem_cons_of_mem e hd) hmem
  · rintro ⟨⟨hname, hseen⟩, h⟩
    refine ⟨List.forall_mem_cons.2 ⟨hname, h.named⟩, List.nodup_cons.2 ⟨fun hmem => ?_, h.nodup⟩,
      List.forall_mem_cons.2 ⟨hseen, fun d hd hmem => ?_⟩⟩
    · obtain ⟨d, hd, he⟩ := List.mem_map.1 hmem
      exact h.fresh d hd (he ▸ List.mem_cons_self)
    · exact h.fresh d hd (List.mem_cons_of_mem _ hmem)

/-- the step of the check: the first model, and then those after it -/
theorem modelProblem?_cons : modelProblem? seen (e :: es) = some p
    ↔ e.Misnames seen p
      ∨ (isBlank e.name = false ∧ e.name ∉ seen) ∧ modelProblem? (e.name :: seen) es = some p := by
  rw [modelProblem?]
  constructor
  · intro h
    split at h
    next hblank => exact .inl (Option.some.inj h ▸ .blank hblank)
    next hblank =>
      rw [Bool.not_eq_true] at hblank
      split at h
      next hseen =>
        exact .inl (Option.some.inj h ▸ .repeated hblank (List.contains_iff_mem.1 hseen))
      next hseen => exact .inr ⟨⟨hblank, mt List.contains_iff_mem.2 hseen⟩, h⟩
  · rintro ((hblank | ⟨hname, hmem⟩) | ⟨⟨hname, hnot⟩, h⟩)
    · rw [if_pos hblank]
    · rw [hname, List.contains_iff_mem.2 hmem]
      rfl
    · rw [hname, if_neg Bool.false_ne_true, if_neg (mt List.contains_iff_mem.1 hnot), h]

theorem misnames_congr {names names' : List String} (h : ∀ n, n ∈ names ↔ n ∈ names') :
    e.Misnames names p ↔ e.Misnames names' p := by
  constructor
  · rintro (hblank | ⟨hname, hmem⟩)
    · exact .blank hblank
    · exact .repeated hname ((h _).1 hmem)
  · rintro (hblank | ⟨hname, hmem⟩)
    · exact .blank hblank
    · exact .repeated hname ((h _).2 hmem)

/-- the names seen at a model are those of the models before it -/
theorem modelProblem?_eq_some_iff : modelProblem? seen es = some p
    ↔ ∃ before e after, es = before ++ e :: after ∧ AreNamed seen before
      ∧ e.Misnames (seen ++ before.map ModelEntry.name) p := by
  induction es generalizing seen with
  | nil => simp [modelProblem?]
  | cons d es ih =>
    have hnames : ∀ before : List ModelEntry, ∀ n,
        n ∈ d.name :: seen ++ before.map ModelEntry.name
          ↔ n ∈ seen ++ (d :: before).map ModelEntry.name := by
      intro before n
      simp [or_left_comm]
    rw [modelProblem?_cons, ih]
    constructor
    · rintro (h | ⟨hd, before, e, after, rfl, hbefore, h⟩)
      · exact ⟨[], d, es, rfl, areNamed_nil seen, by simpa using h⟩
      · exact ⟨d :: before, e, after, rfl, areNamed_cons.2 ⟨hd, hbefore⟩,
          (misnames_congr (hnames before)).1 h⟩
    · rintro ⟨before, e, after, hes, hbefore, h⟩
      cases before with
      | nil =>
        obtain ⟨rfl, rfl⟩ := List.cons.inj hes
        exact .inl (by simpa using h)
      | cons b before =>
        obtain ⟨rfl, rfl⟩ := List.cons.inj hes
        obtain ⟨hd, hbefore⟩ := areNamed_cons.1 hbefore
        exact .inr ⟨hd, before, e, after, rfl, hbefore, (misnames_congr (hnames before)).2 h⟩

theorem modelProblem?_eq_none_iff : modelProblem? seen es = none ↔ AreNamed seen es := by
  induction es generalizing seen with
  | nil => exact ⟨fun _ => areNamed_nil seen, fun _ => rfl⟩
  | cons e es ih =>
    rw [areNamed_cons, ← ih, modelProblem?]
    constructor
    · intro h
      split at h
      next => cases h
      next hblank =>
        split at h
        next => cases h
        next hseen => exact ⟨⟨by simpa using hblank, mt List.contains_iff_mem.2 hseen⟩, h⟩
    · rintro ⟨⟨hname, hnot⟩, h⟩
      rw [hname, if_neg Bool.false_ne_true, if_neg (mt List.contains_iff_mem.1 hnot), h]

end

/-! ## manifests -/

namespace Manifest

structure IsSound (m : Manifest) : Prop where
  routes : ∀ r ∈ m.routes, r.IsWhole
  named : ∀ e ∈ m.models, isBlank e.name = false
  nodup : (m.models.map ModelEntry.name).Nodup

/-- No entry before the one with the problem has one; the routes come before the models. -/
inductive FirstProblem (m : Manifest) (p : Problem) : Prop
  | route {before after : List RouteEntry} {r : RouteEntry}
      (hroutes : m.routes = before ++ r :: after) (hbefore : ∀ r ∈ before, r.IsWhole)
      (h : r.Lacks p)
  | model {before after : List ModelEntry} {e : ModelEntry} (hroutes : ∀ r ∈ m.routes, r.IsWhole)
      (hmodels : m.models = before ++ e :: after) (hnamed : ∀ b ∈ before, isBlank b.name = false)
      (hnodup : (before.map ModelEntry.name).Nodup)
      (h : e.Misnames (before.map ModelEntry.name) p)

/-- the first problem is told as that of the route or of the model that has it -/
theorem FirstProblem.message_eq {m : Manifest} {p : Problem} (h : m.FirstProblem p)
    (path : String) :
    (∃ r ∈ m.routes, r.Lacks p
        ∧ (Error.manifest path p).message = "清单错误 " ++ path ++ ": " ++ r.complaint)
      ∨ ∃ e ∈ m.models, (∃ names, e.Misnames names p)
        ∧ (Error.manifest path p).message = "清单错误 " ++ path ++ ": " ++ e.complaint := by
  cases h with
  | @route before after r hroutes _ h =>
    refine .inl ⟨r, hroutes ▸ List.mem_append_right before List.mem_cons_self, h, ?_⟩
    exact congrArg ("清单错误 " ++ path ++ ": " ++ ·) h.message_eq
  | @model before after e _ hmodels _ _ h =>
    refine .inr ⟨e, hmodels ▸ List.mem_append_right before List.mem_cons_self, ⟨_, h⟩, ?_⟩
    exact congrArg ("清单错误 " ++ path ++ ": " ++ ·) h.message_eq

theorem problem?_eq_none_iff {m : Manifest} : m.problem? = none ↔ m.IsSound := by
  simp only [problem?, Option.or_eq_none_iff, List.findSome?_eq_none_iff, routeProblem?_eq_none_iff,
    modelProblem?_eq_none_iff]
  exact ⟨fun h => ⟨h.1, h.2.named, h.2.nodup⟩, fun h => ⟨h.routes, h.named, h.nodup, nofun⟩⟩

theorem problem?_eq_some_iff {m : Manifest} {p : Problem} :
    m.problem? = some p ↔ m.FirstProblem p := by
  simp only [problem?, Option.or_eq_some_iff, List.findSome?_eq_some_iff,
    List.findSome?_eq_none_iff, routeProblem?_eq_some_iff, routeProblem?_eq_none_iff,
    modelProblem?_eq_some_iff, List.nil_append]
  constructor
  · rintro (⟨before, r, after, hroutes, h, hbefore⟩
      | ⟨hroutes, before, e, after, hmodels, hnamed, h⟩)
    · exact .route hroutes hbefore h
    · exact .model hroutes hmodels hnamed.named hnamed.nodup h
  · rintro (⟨hroutes, hbefore, h⟩ | ⟨hroutes, hmodels, hnamed, hnodup, h⟩)
    · exact .inl ⟨_, _, _, hroutes, h, hbefore⟩
    · exact .inr ⟨hroutes, _, _, _, hmodels, ⟨hnamed, hnodup, nofun⟩, h⟩

theorem isSound_or_firstProblem (m : Manifest) : m.IsSound ∨ ∃ p, m.FirstProblem p := by
  simp only [← problem?_eq_none_iff, ← problem?_eq_some_iff]
  cases m.problem? with
  | none => exact .inl rfl
  | some p => exact .inr ⟨p, rfl⟩

/-- names that differ bind all models -/
theorem IsSound.entries_modelTable {m : Manifest} (h : m.IsSound) :
    m.modelTable.entries.Perm (m.models.map fun e => (e.name, ModelEntry.model e)) := by
  refine Table.entries_ofList_perm ?_
  rw [List.map_map]
  exact h.nodup

theorem document_eq_ok_iff {m : Manifest} {d : Document} :
    m.document = .ok d ↔ ∃ c, m.IsCatalog c ∧ d = c.document := by
  rw [document, bind_eq_ok_iff]
  simp only [catalog_eq_ok_iff, Except.ok.injEq, eq_comm (a := d)]

/-- **The models of a sound manifest are all in the document**, each under its name. -/
theorem IsSound.schemas {m : Manifest} {d : Document} (h : m.IsSound) (hd : m.document = .ok d) :
    (d.schemas = none ↔ m.models = []) ∧ ∀ t, d.schemas = some t →
      t.entries.Perm (m.models.map fun e => (e.name, (ModelEntry.model e).schema)) := by
  obtain ⟨c, hc, rfl⟩ := document_eq_ok_iff.1 hd
  have hperm := h.entries_modelTable
  rw [← hc.models_eq] at hperm
  have hempty : c.models.isEmpty = true ↔ m.models = [] := by
    rw [Table.isEmpty, List.isEmpty_iff]
    constructor
    · intro hnil
      rw [hnil] at hperm
      exact List.map_eq_nil_iff.1 hperm.nil_eq.symm
    · intro hnil
      rw [hnil] at hperm
      exact hperm.eq_nil
  constructor
  · rw [← hempty]
    simp [Catalog.document]
  · intro t ht
    simp only [Catalog.document, Option.ite_none_left_eq_some, Option.some.injEq] at ht
    obtain ⟨-, rfl⟩ := ht
    have hmap := hperm.map fun b => (b.1, b.2.schema)
    rwa [List.map_map] at hmap

end Manifest

/-! ## files -/

section
variable {path text : String} {man : Manifest}

theorem readManifest_of_read (hread : Manifest.read (languageOf path) text = .ok man) :
    readManifest path text
      = match man.problem? with | some p => .error (.manifest path p) | none => .ok man := by
  rw [readManifest, hread]
  rfl

theorem readManifest_eq_ok_iff (hread : Manifest.read (languageOf path) text = .ok man) :
    readManifest path text = .ok man ↔ man.IsSound := by
  rw [readManifest_of_read hread, ← Manifest.problem?_eq_none_iff]
  cases man.problem? with
  | none => exact iff_of_true rfl rfl
  | some p => exact iff_of_false nofun nofun

theorem readManifest_eq_error_iff (hread : Manifest.read (languageOf path) text = .ok man)
    (p : Problem) : readManifest path text = .error (.manifest path p) ↔ man.FirstProblem p := by
  rw [readManifest_of_read hread, ← Manifest.problem?_eq_some_iff]
  cases man.problem? with
  | none => exact iff_of_false nofun nofun
  | some q => simp

theorem isSound_of_readManifest (h : readManifest path text = .ok man) : man.IsSound := by
  obtain ⟨read, -, h⟩ := bind_eq_ok_iff.1 h
  split at h
  next => cases h
  next hproblem =>
    obtain rfl := Except.ok.inj h
    exact Manifest.problem?_eq_none_iff.1 hproblem

/-- all that a host does for a manifest is to read a text -/
theorem loadManifest_eq {m : Type → Type} [Monad m] [LawfulMonad m] (h : Host m) (path : String) :
    loadManifest h path = (fun r => r.mapError .system >>= readManifest path) <$> h.read path := by
  rw [loadManifest, ← bind_pure_comp]
  congr 1
  funext r
  cases r <;> rfl

end

/-- **A manifest that can be read is loaded exactly if it is sound, and otherwise its first problem
is reported.**  So a document has a schema for each model of the manifest that it is made from. -/
theorem loadManifest_checked {m : Type → Type} [Monad m] [LawfulMonad m] (h : Host m)
    (path : String) :
    loadManifest h path = (fun r => r.mapError .system >>= readManifest path) <$> h.read path
      ∧ (∀ text man, Manifest.read (languageOf path) text = .ok man →
        (readManifest path text = .ok man ↔ man.IsSound)
          ∧ (∀ p, readManifest path text = .error (.manifest path p) ↔ man.FirstProblem p)
          ∧ (∀ p, man.FirstProblem p →
            (∃ r ∈ man.routes, r.Lacks p
                ∧ (Error.manifest path p).message = "清单错误 " ++ path ++ ": " ++ r.complaint)
              ∨ ∃ e ∈ man.models, (∃ names, e.Misnames names p)
                ∧ (Error.manifest path p).message = "清单错误 " ++ path ++ ": " ++ e.complaint)
          ∧ (man.IsSound ∨ ∃ p, man.FirstProblem p))
      ∧ ∀ text man d, readManifest path text = .ok man → man.document = .ok d →
          (d.schemas = none ↔ man.models = []) ∧ ∀ t, d.schemas = some t →
            t.entries.Perm
              (man.models.map fun e => (e.name, (Manifest.ModelEntry.model e).schema)) := by
  refine ⟨loadManifest_eq h path, fun text man hread => ?_,
    fun text man d hread hd => (isSound_of_readManifest hread).schemas hd⟩
  exact ⟨readManifest_eq_ok_iff hread, readManifest_eq_error_iff hread,
    fun p hp => hp.message_eq path, man.isSound_or_firstProblem⟩

theorem run_of_loadManifest_eq {w : World} {path text : String}
    (h : loadManifest World.host path
      = (fun r => r.mapError .system >>= readManifest path) <$> World.host.read path)
    (hfile : w.files.read path w.caller = .ok text) :
    (loadManifest World.host path).run w = (readManifest path text, w) := by
  have hread : (World.host.read path).run w = (.ok text, w) := congrArg (·, w) hfile
  rw [h, StateT.run_map, hread]
  rfl

def onePet : String := "\x7b\"schemas\": [\x7b\"name\": \"Pet\"\x7d]\x7d"

def twoPets : String :=
  "\x7b\"schemas\": [\x7b\"name\": \"Pet\"\x7d, \x7b\"name\": \"Pet\"\x7d]\x7d"

def petFiles : World :=
  { files := .directory
      [("one.json", .file onePet.toUTF8), ("two.json", .file twoPets.toUTF8)] }

/-- a second model with one name is found, and a model alone is in the document -/
theorem loadManifest_pets :
    (loadManifest World.host "two.json").run petFiles
        = (.error (.manifest "two.json" (.repeatedName "Pet")), petFiles)
      ∧ (Error.manifest "two.json" (.repeatedName "Pet")).message
        = "清单错误 two.json: 模型 Pet 重复定义"
      ∧ ∃ m d t, (loadManifest World.host "one.json").run petFiles = (.ok m, petFiles)
        ∧ m.document = .ok d ∧ d.schemas = some t ∧ t.keys = ["Pet"] := by
  have htwo : (Manifest.read .json twoPets).map (fun m => (m.routes.isEmpty, m.models))
      = .ok (true, [⟨"Pet", [], ""⟩, ⟨"Pet", [], ""⟩]) := by decide +kernel
  have hone : (Manifest.read .json onePet).map
      (fun m => (m.routes.isEmpty, m.models, m.document.toBool))
      = .ok (true, [⟨"Pet", [], ""⟩], true) := by decide +kernel
  obtain ⟨hload, hloaded, hdocument⟩ := loadManifest_checked World.host "one.json"
  refine ⟨?_, by decide, ?_⟩
  · obtain ⟨m, hread, hm⟩ := map_eq_ok_iff.1 htwo
    obtain ⟨hroutes, hmodels⟩ := Prod.mk.inj hm
    obtain ⟨htwice, hchecked, -⟩ := loadManifest_checked World.host "two.json"
    obtain ⟨-, hproblem, -⟩ := hchecked twoPets m hread
    have hwhole : ∀ r ∈ m.routes, r.IsWhole := by
      rw [List.isEmpty_iff.1 hroutes]
      exact nofun
    have hmodels' : m.models = [⟨"Pet", [], ""⟩] ++ ⟨"Pet", [], ""⟩ :: [] := hmodels
    have herror := (hproblem _).2
      (.model hwhole hmodels' (by decide) (by decide) (.repeated (by decide) (by decide)))
    have hfile : petFiles.files.read "two.json" petFiles.caller = .ok twoPets := by decide +kernel
    rw [run_of_loadManifest_eq htwice hfile, herror]
  · obtain ⟨m, hread, hm⟩ := map_eq_ok_iff.1 hone
    obtain ⟨hroutes, hm⟩ := Prod.mk.inj hm
    obtain ⟨hmodels, hm⟩ := Prod.mk.inj hm
    have hsound : m.IsSound := by
      refine ⟨?_, ?_, ?_⟩
      · rw [List.isEmpty_iff.1 hroutes]
        exact nofun
      · rw [hmodels]
        decide
      · rw [hmodels]
        decide
    have hm' := (hloaded onePet m hread).1.2 hsound
    have hfile : petFiles.files.read "one.json" petFiles.caller = .ok onePet := by decide +kernel
    have hrun : (loadManifest World.host "one.json").run petFiles = (.ok m, petFiles) := by
      rw [run_of_loadManifest_eq hload hfile, hm']
    obtain ⟨d, hd⟩ : ∃ d, m.document = .ok d := by
      cases hd : m.document with
      | error e => rw [hd] at hm; cases hm
      | ok d => exact ⟨d, rfl⟩
    obtain ⟨hnone, hsome⟩ := hdocument onePet m d hm' hd
    rw [hmodels] at hnone hsome
    obtain ⟨t, ht⟩ := Option.ne_none_iff_exists'.1 (mt hnone.1 (List.cons_ne_nil _ _))
    exact ⟨m, d, t, hrun, hd, ht, List.perm_singleton.1 ((hsome t ht).map Prod.fst)⟩

end Apidoc
