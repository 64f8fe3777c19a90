import Mathlib.Data.List.Induction

/-!
# Ghostlane.Lib.Since

**What is remembered of a history.** A log grows at its end, and after each entry something is
worked out anew from what it was before. Two rules say what that comes to over a whole log:

* a mark that some entries set, and that the others leave only where they keep it, is there when an
  entry set it and every one since has kept it (`since_iff_foldl`);
* a value that some entries replace is what the last of them said (`lastSaid`).
-/

namespace Ghostlane.Lib

variable {α β κ : Type*}

/-- Some entry of the log set it, and every later one kept it. -/
def Since (keep set : α → Prop) (log : List α) : Prop :=
  ∃ before a after, log = before ++ a :: after ∧ set a ∧ ∀ b ∈ after, keep b

section Since

variable {keep set : α → Prop}

theorem not_since_nil : ¬Since keep set [] := by
  rintro ⟨before, a, after, h, -, -⟩
  exact List.append_ne_nil_of_right_ne_nil before (List.cons_ne_nil a after) h.symm

/-- The last entry decides, or leaves it to the others. -/
theorem since_concat {log : List α} {a : α} :
    Since keep set (log ++ [a]) ↔ set a ∨ (keep a ∧ Since keep set log) := by
  constructor
  · rintro ⟨before, b, after, h, hset, hkeep⟩
    cases after using List.reverseRecOn with
    | nil =>
        obtain ⟨-, ha⟩ := List.append_inj' h rfl
        rw [List.singleton_inj.mp ha]
        exact .inl hset
    | append_singleton after c =>
        rw [← List.cons_append, ← List.append_assoc] at h
        obtain ⟨rfl, hc⟩ := List.append_inj' h rfl
        obtain rfl : a = c := List.singleton_inj.mp hc
        exact .inr ⟨hkeep a (by simp), before, b, after, rfl, hset,
          fun d hd => hkeep d (List.mem_append_left _ hd)⟩
  · rintro (hset | ⟨hkeep, before, b, after, rfl, hset, hafter⟩)
    · exact ⟨log, a, [], rfl, hset, fun _ h => nomatch h⟩
    · refine ⟨before, b, after ++ [a], by simp, hset, fun c hc => ?_⟩
      rcases List.mem_append.mp hc with hc | hc
      · exact hafter c hc
      · rwa [List.mem_singleton.mp hc]

theorem since_congr {keep' set' : α → Prop} {log : List α}
    (hkeep : ∀ a ∈ log, keep a ↔ keep' a) (hset : ∀ a ∈ log, set a ↔ set' a) :
    Since keep set log ↔ Since keep' set' log := by
  refine exists_congr fun before => exists_congr fun a => exists_congr fun after => ?_
  refine and_congr_right ?_
  rintro rfl
  refine and_congr (hset a (by simp)) (forall₂_congr fun b hb => hkeep b (by simp [hb]))

theorem since_iff_foldl {f : β → α → β} {holds : β → Prop} {start : β} (hstart : ¬holds start)
    (hf : ∀ b a, holds (f b a) ↔ set a ∨ (keep a ∧ holds b)) (log : List α) :
    holds (log.foldl f start) ↔ Since keep set log := by
  induction log using List.reverseRecOn with
  | nil => exact iff_of_false hstart not_since_nil
  | append_singleton log a ih =>
      rw [List.foldl_append, List.foldl_cons, List.foldl_nil, hf, ih, since_concat]

end Since

/-- The last of a log's entries that says anything. -/
def lastSaid (said : α → Option β) (log : List α) : Option β :=
  log.foldl (fun last a => (said a).or last) none

@[simp] theorem lastSaid_concat (said : α → Option β) (log : List α) (a : α) :
    lastSaid said (log ++ [a]) = (said a).or (lastSaid said log) :=
  List.foldl_append

theorem lastSaid_append (said : α → Option β) (log more : List α) :
    lastSaid said (log ++ more) = (lastSaid said more).or (lastSaid said log) := by
  induction more using List.reverseRecOn with
  | nil => simp [lastSaid]
  | append_singleton more a ih =>
      rw [← List.append_assoc, lastSaid_concat, lastSaid_concat, ih, Option.or_assoc]

end Ghostlane.Lib
