import Apidoc.DataType.Token

/-!
# Commas inside and outside of brackets

A part of a type token ends at a comma that stands in no brackets.  A text is *sealed* at a depth
when reading it there ends no part and leads back to that depth.

* `IsFlat s`             a text without brackets and commas;
* `Sealed d s`           `s` is sealed at depth `d`;
* `Sealed.append`        sealed texts one after the other;
* `Sealed.brackets`      brackets around a text that is sealed one level further in;
* `Sealed.joined`        sealed texts with commas between them, inside brackets.

Main statement: `commaParts_joinWith`, the parts of sealed texts with commas between them are
these texts.
-/

namespace Apidoc

open Text (joinWith joinWith_cons_cons)

/-! ## sealed texts -/

def IsFlat (s : List Char) : Prop := ∀ c ∈ s, c ≠ '[' ∧ c ≠ ']' ∧ c ≠ ','

instance (s : List Char) : Decidable (IsFlat s) := List.decidableBAll _ s

def Sealed (d : Nat) (s : List Char) : Prop :=
  ∀ rest, commaParts d (s ++ rest) = (commaParts d rest).modifyHead (s ++ ·)

theorem modifyHead_nil_append {α : Type} (l : List (List α)) : l.modifyHead ([] ++ ·) = l := by
  cases l with
  | nil => rfl
  | cons a l => rfl

theorem sealed_nil (d : Nat) : Sealed d [] := by
  intro rest
  rw [modifyHead_nil_append, List.nil_append]

theorem sealed_of_cons {c : Char} {d : Nat} {s : List Char} (hc : ¬(c = ',' ∧ d = 0))
    (hd : depthAfter c d = d) (hs : Sealed d s) : Sealed d (c :: s) := by
  intro rest
  rw [List.cons_append, commaParts_cons hc, hd, hs rest, List.modifyHead_modifyHead]
  rfl

theorem IsFlat.sealed {s : List Char} (h : IsFlat s) (d : Nat) : Sealed d s := by
  induction s with
  | nil => exact sealed_nil d
  | cons c s ih =>
    obtain ⟨ho, hc, hs⟩ := h c List.mem_cons_self
    refine sealed_of_cons (fun hcd => hs hcd.1) ?_ (ih fun e he => h e (List.mem_cons_of_mem c he))
    rw [depthAfter, if_neg ho, if_neg hc]

theorem Sealed.append {d : Nat} {s t : List Char} (hs : Sealed d s) (ht : Sealed d t) :
    Sealed d (s ++ t) := by
  intro rest
  rw [List.append_assoc, hs (t ++ rest), ht rest, List.modifyHead_modifyHead]
  congr 1
  funext p
  exact (List.append_assoc s t p).symm

/-- what is sealed inside brackets is sealed with them -/
theorem Sealed.brackets {d : Nat} {s : List Char} (hs : Sealed (d + 1) s) :
    Sealed d ('[' :: s ++ [']']) := by
  intro rest
  have ho : commaParts d ('[' :: (s ++ ([']'] ++ rest))) =
      (commaParts (d + 1) (s ++ ([']'] ++ rest))).modifyHead ('[' :: ·) :=
    commaParts_cons (by simp) _
  have hc : commaParts (d + 1) (']' :: rest) = (commaParts d rest).modifyHead (']' :: ·) :=
    commaParts_cons (by simp) _
  show commaParts d ('[' :: s ++ [']'] ++ rest) = _
  rw [List.append_assoc, List.cons_append, ho, hs ([']'] ++ rest), List.singleton_append, hc,
    List.modifyHead_modifyHead, List.modifyHead_modifyHead]
  congr 1
  funext p
  simp

/-- a comma inside brackets ends no part -/
theorem sealed_comma (d : Nat) : Sealed (d + 1) [','] :=
  sealed_of_cons (by simp) rfl (sealed_nil (d + 1))

theorem Sealed.joined {d : Nat} {ps : List (List Char)} (h : ∀ p ∈ ps, Sealed (d + 1) p) :
    Sealed (d + 1) (joinWith [','] ps) := by
  induction ps with
  | nil => exact sealed_nil (d + 1)
  | cons p ps ih =>
    have hp : Sealed (d + 1) p := h p List.mem_cons_self
    cases ps with
    | nil => exact hp
    | cons q qs =>
      rw [joinWith_cons_cons]
      exact (hp.append (sealed_comma d)).append (ih fun r hr => h r (List.mem_cons_of_mem p hr))

/-! ## parts -/

theorem commaParts_sealed {p : List Char} (hp : Sealed 0 p) : commaParts 0 p = [p] := by
  have h := hp []
  rw [List.append_nil] at h
  rw [h]
  show [p ++ []] = [p]
  rw [List.append_nil]

theorem commaParts_sealed_comma {p : List Char} (hp : Sealed 0 p) (s : List Char) :
    commaParts 0 (p ++ [','] ++ s) = p :: commaParts 0 s := by
  rw [List.append_assoc, hp, List.singleton_append, commaParts_comma, List.modifyHead_cons,
    List.append_nil]

theorem commaParts_joinWith {ps : List (List Char)} (hne : ps ≠ []) (h : ∀ p ∈ ps, Sealed 0 p) :
    commaParts 0 (joinWith [','] ps) = ps := by
  induction ps with
  | nil => exact absurd rfl hne
  | cons p ps ih =>
    have hp : Sealed 0 p := h p List.mem_cons_self
    cases ps with
    | nil => exact commaParts_sealed hp
    | cons q qs =>
      have hqs := ih (by simp) fun r hr => h r (List.mem_cons_of_mem p hr)
      rw [joinWith_cons_cons, commaParts_sealed_comma hp, hqs]

end Apidoc
