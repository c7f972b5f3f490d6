import Apidoc.Proofs.RecordReading

/-!
# Manifests that are written and read again

* `Info.reread`, `Manifest.reread`   what is read again.

Main statement: a manifest is read again as it was written, unless it describes nothing: a missing
description is read as the usual one (`decode_encode`).
-/

namespace Apidoc

open Reader (Reads reads_text reads_listOf reads_tableOf)
open Record (Yields yields_field yields_fieldOr yields_optional)

/-! ## records -/

theorem text_ne_null (s : String) : Value.text s ≠ .null := by simp

/-- a missing description is read as the usual one -/
def Info.reread (i : Info) : Info :=
  { i with description := i.description.or ({} : Info).description }

theorem reads_info (i : Info) : Info.record.read.Reads i.encode i.reread := by
  refine Yields.reads ?_ (by decide) ?_
  · refine (((yields_fieldOr ?_ (reads_text i.title)).map Info.mk).seq
      (yields_optional ?_ reads_text text_ne_null rfl)).seq
      (yields_fieldOr ?_ (reads_text i.version))
    · simp
    · simp [List.lookup_cons, List.lookup_append, maybeText]
    · simp [List.lookup_cons, List.lookup_append, maybeText]
  · rw [List.map_append, List.map_append]
    exact ((List.Sublist.refl _).append (keys_maybe_sublist _ _)).append (.refl _)

theorem reads_server (s : Server) : Server.record.read.Reads s.encode s := by
  refine Yields.reads ?_ (by decide) ?_
  · refine ((yields_field ?_ (reads_text s.url)).map Server.mk).seq
      (yields_optional ?_ reads_text text_ne_null Option.or_none)
    · simp
    · simp [List.lookup_cons, maybeText]
  · exact (keys_maybe_sublist _ _).cons_cons _

theorem reads_externalDocs (d : ExternalDocs) : ExternalDocs.record.read.Reads d.encode d := by
  refine Yields.reads ?_ (by decide) ?_
  · refine ((yields_field ?_ (reads_text d.url)).map ExternalDocs.mk).seq
      (yields_optional ?_ reads_text text_ne_null Option.or_none)
    · simp
    · simp [List.lookup_cons, maybeText]
  · exact (keys_maybe_sublist _ _).cons_cons _

theorem reads_tag (t : Tag) : Tag.record.read.Reads t.encode t := by
  have hdocs : ∀ d : ExternalDocs, d.encode ≠ .null := fun d => by simp [ExternalDocs.encode]
  refine Yields.reads ?_ (by decide) ?_
  · refine (((yields_field ?_ (reads_text t.name)).map Tag.mk).seq
      (yields_optional ?_ reads_text text_ne_null Option.or_none)).seq
      (yields_optional ?_ reads_externalDocs hdocs Option.or_none)
    · simp
    · simp [List.lookup_cons, List.lookup_append, maybeText]
    · simp [List.lookup_cons, List.lookup_append, maybeText]
  · rw [List.map_append]
    exact ((keys_maybe_sublist _ _).cons_cons _).append (keys_maybe_sublist _ _)

theorem reads_routeEntry (r : RouteEntry) : RouteEntry.record.read.Reads r.encode r := by
  refine Yields.reads ?_ (by decide) (.refl _)
  refine (((yields_field ?_ (reads_text r.url)).map RouteEntry.mk).seq
    (yields_field ?_ (reads_text r.handler))).seq
    (yields_fieldOr ?_ (reads_tableOf reads_text r.operations))
  · simp
  · simp [List.lookup_cons]
  · simp [List.lookup_cons]

theorem reads_modelEntry (m : ModelEntry) : ModelEntry.record.read.Reads m.encode m := by
  refine Yields.reads ?_ (by decide) (.refl _)
  refine (((yields_field ?_ (reads_text m.name)).map ModelEntry.mk).seq
    (yields_fieldOr ?_ (reads_listOf reads_text m.bases))).seq
    (yields_fieldOr ?_ (reads_text m.doc))
  · simp
  · simp [List.lookup_cons, Value.texts]
  · simp [List.lookup_cons]

namespace Manifest

def reread (m : Manifest) : Manifest := { m with info := m.info.reread }

theorem reads_manifest (m : Manifest) : record.read.Reads m.encode m.reread := by
  refine Yields.reads ?_ (by decide) (.refl _)
  refine (((((((yields_fieldOr ?_ (reads_info m.info)).map Manifest.mk).seq
    (yields_fieldOr ?_ (reads_listOf reads_server m.servers))).seq
    (yields_fieldOr ?_ (reads_listOf reads_tag m.tags))).seq
    (yields_fieldOr ?_ (reads_text m.jsonType))).seq
    (yields_fieldOr ?_ (reads_listOf reads_text m.enabledMethods))).seq
    (yields_fieldOr ?_ (reads_listOf reads_routeEntry m.routes))).seq
    (yields_fieldOr ?_ (reads_listOf reads_modelEntry m.models))
  · simp
  all_goals simp [List.lookup_cons, Value.texts]

/-- a source that carries the manifest as it is written -/
def written (m : Manifest) (positional : Bool) : Source :=
  { Source.ofValue m.encode with positional }

theorem decode_written (m : Manifest) (positional : Bool) :
    (m.written positional).decode record = .ok m.reread :=
  bind_eq_ok_iff.2 ⟨m.reread, reads_manifest m _, rfl⟩

theorem reread_eq_self_iff (m : Manifest) : m.reread = m ↔ m.info.description ≠ none := by
  constructor
  · intro h hnone
    have hsome : m.info.description.or ({} : Info).description = m.info.description :=
      congrArg (fun m => m.info.description) h
    rw [hnone] at hsome
    cases hsome
  · intro h
    obtain ⟨d, hd⟩ := Option.ne_none_iff_exists'.1 h
    have hinfo : m.info.reread = m.info := by
      rw [Info.reread, hd, Option.some_or, ← hd]
    rw [reread, hinfo]

/-- **A manifest that is written can be read again, and what is read differs only in a missing
description**: the usual one takes its place. -/
theorem decode_encode (m : Manifest) (positional : Bool) :
    (m.written positional).decode record = .ok m.reread
      ∧ ((m.written positional).decode record = .ok m ↔ m.info.description ≠ none) := by
  refine ⟨decode_written m positional, ?_⟩
  rw [decode_written, Except.ok.injEq]
  exact reread_eq_self_iff m

def undescribed : String := "\x7b\"info\": \x7b\"description\": null\x7d\x7d"

/-- a manifest may say that there is no description -/
theorem not_decode_undescribed :
    ∃ m, read .json undescribed = .ok m
      ∧ ∀ positional, (m.written positional).decode record ≠ .ok m := by
  have hread : (read .json undescribed).toOption.map (fun m => m.info.description) = some none := by
    decide +kernel
  obtain ⟨m, hm, hnone⟩ := Option.map_eq_some_iff.1 hread
  refine ⟨m, ?_, fun positional h => ?_⟩
  · cases hr : read .json undescribed with
    | error e =>
      rw [hr] at hm
      cases hm
    | ok m' =>
      rw [hr] at hm
      exact congrArg Except.ok (Option.some.inj hm)
  · rw [decode_written, Except.ok.injEq] at h
    exact (reread_eq_self_iff m).1 h hnone

end Manifest

end Apidoc
