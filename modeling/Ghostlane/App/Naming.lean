import Ghostlane.App.Import

/-!
# Ghostlane.App.Naming

The names `uniqueStorageId` gives. A name is new (`uniqueStorageId_not_mem`):
the candidates for one base differ, so one of them is free. And a name is plain,
without white space and not empty (`plain_uniqueStorageId`), so no round of
normalizing changes it.
-/

namespace Ghostlane.App

open Ghostlane.Lib

/-! ### Plain texts -/

/-- A text with something in it and no white space. -/
def Plain (t : Text) : Prop := t ≠ [] ∧ ∀ c ∈ t, isWhitespace c = false

theorem Plain.trim_eq {t : Text} (h : Plain t) : trim t = t := trimBy_of_forall h.2

theorem Plain.not_blank {t : Text} (h : Plain t) : isBlank t = false := by
  obtain ⟨hne, hall⟩ := h
  cases t with
  | nil => exact absurd rfl hne
  | cons c t => rw [isBlank, List.all_cons, hall c List.mem_cons_self, Bool.false_and]

theorem isWhitespace_of_slugChar {c : Char} (h : isSlugChar c = true) :
    isWhitespace c = false := by
  simp only [isSlugChar, Bool.or_eq_true, Bool.and_eq_true, decide_eq_true_eq, beq_iff_eq] at h
  simp only [isWhitespace, Bool.or_eq_false_iff, Bool.and_eq_false_iff, decide_eq_false_iff_not,
    beq_eq_false_iff_ne, ne_eq]
  omega

theorem isWhitespace_of_digit {c : Char} (h : c.isDigit = true) : isWhitespace c = false := by
  refine isWhitespace_of_slugChar ?_
  have hrange : 48 ≤ c.toNat ∧ c.toNat ≤ 57 := by
    simpa [Char.isDigit, UInt32.le_iff_toNat_le] using h
  simp only [isSlugChar, Bool.or_eq_true, Bool.and_eq_true, decide_eq_true_eq, beq_iff_eq]
  omega

theorem slugChar_of_mem_slugRuns {inRun : Bool} {t : Text} {c : Char}
    (h : c ∈ slugRuns inRun t) : isSlugChar c = true := by
  induction t generalizing inRun with
  | nil => cases h
  | cons d t ih =>
      simp only [slugRuns] at h
      split at h
      · rcases List.mem_cons.mp h with rfl | h
        · assumption
        · exact ih h
      · split at h
        · exact ih h
        · rcases List.mem_cons.mp h with rfl | h
          · decide
          · exact ih h

/-- A slug is plain, whatever it is the slug of. -/
theorem plain_storageSlug (t : Text) : Plain (storageSlug t) := by
  unfold storageSlug ifBlank
  split
  · have hall : (txt "location").all (fun c => !isWhitespace c) = true := by decide
    refine ⟨by decide, fun c hc => ?_⟩
    simpa using List.all_eq_true.mp hall c hc
  · rename_i hblank
    refine ⟨fun hnil => hblank (hnil ▸ rfl), fun c hc => ?_⟩
    have hmem := mem_of_mem_trimBy (List.mem_of_mem_take hc)
    exact isWhitespace_of_slugChar (slugChar_of_mem_slugRuns hmem)

theorem ifBlank_storageSlug (c : LocationConfig) (fallback : Text) :
    ifBlank c.storageSlug fallback = c.storageSlug := by
  have hplain : isBlank c.storageSlug = false := (plain_storageSlug _).not_blank
  rw [ifBlank, hplain]
  rfl

/-! ### Names -/

theorem nameCandidate_injective (base : Text) : Function.Injective (nameCandidate base) := by
  intro m n h
  cases m with
  | zero =>
      cases n with
      | zero => rfl
      | succ n => simp [nameCandidate] at h
  | succ m =>
      cases n with
      | zero => simp [nameCandidate] at h
      | succ n =>
          have hdigits := (List.cons.inj (List.append_cancel_left h)).2
          have hval := decimal_injective hdigits
          omega

theorem plain_nameCandidate {base : Text} (h : Plain base) (n : Nat) :
    Plain (nameCandidate base n) := by
  cases n with
  | zero => exact h
  | succ n =>
      refine ⟨by simp [nameCandidate], fun c hc => ?_⟩
      rcases List.mem_append.mp hc with hc | hc
      · exact h.2 c hc
      · rcases List.mem_cons.mp hc with rfl | hc
        · decide
        · exact isWhitespace_of_digit (Nat.isDigit_of_mem_toDigits (by decide) (by decide) hc)

/-- **A name is new.** -/
theorem uniqueStorageId_not_mem (base : Text) (used : List Text) :
    uniqueStorageId base used ∉ used :=
  firstFree_not_mem (nameCandidate_injective _) used

theorem plain_uniqueStorageId (base : Text) (used : List Text) :
    Plain (uniqueStorageId base used) :=
  plain_nameCandidate (plain_storageSlug base) _

section Names

variable {used bases : List Text}

@[simp] theorem length_uniqueStorageIds (used bases : List Text) :
    (uniqueStorageIds used bases).length = bases.length := by
  induction bases generalizing used with
  | nil => rfl
  | cons base bases ih => exact congrArg (· + 1) (ih _)

theorem not_mem_of_mem_uniqueStorageIds {id : Text} (h : id ∈ uniqueStorageIds used bases) :
    id ∉ used := by
  induction bases generalizing used with
  | nil => cases h
  | cons base bases ih =>
      rcases List.mem_cons.mp h with rfl | h
      · exact uniqueStorageId_not_mem base used
      · exact fun hused => ih h (List.mem_cons_of_mem _ hused)

theorem nodup_uniqueStorageIds (used bases : List Text) : (uniqueStorageIds used bases).Nodup := by
  induction bases generalizing used with
  | nil => exact List.nodup_nil
  | cons base bases ih =>
      exact List.nodup_cons.mpr
        ⟨fun hmem => not_mem_of_mem_uniqueStorageIds hmem List.mem_cons_self, ih _⟩

theorem plain_of_mem_uniqueStorageIds {id : Text} (h : id ∈ uniqueStorageIds used bases) :
    Plain id := by
  induction bases generalizing used with
  | nil => cases h
  | cons base bases ih =>
      rcases List.mem_cons.mp h with rfl | h
      · exact plain_uniqueStorageId base used
      · exact ih h

end Names

end Ghostlane.App
