import Mathlib.Data.List.DropRight
import Mathlib.Data.List.Infix

/-!
# Ghostlane.Lib.Stretch

Stretches of a list: the longest run of one kind at its front (`takeWhile`) or at its end
(`rtakeWhile`), and where in `a ++ b` a stretch or an infix lies. What `b` begins with decides
whether anything reaches over from `a`.
-/

namespace Ghostlane.Lib

variable {α : Type*} {p : α → Bool} {a b w : List α}

/-- The stretch at the front ends before an element of another kind. -/
theorem takeWhile_append_of_exists (h : ∃ c ∈ a, p c = false) (b : List α) :
    (a ++ b).takeWhile p = a.takeWhile p := by
  induction a with
  | nil =>
      obtain ⟨c, hc, -⟩ := h
      cases hc
  | cons d a ih =>
      cases hd : p d with
      | false => simp [hd]
      | true =>
          obtain ⟨c, hc, hpc⟩ := h
          have hrest : ∃ c ∈ a, p c = false := by
            rcases List.mem_cons.mp hc with rfl | hc
            · rw [hd] at hpc
              cases hpc
            · exact ⟨c, hc, hpc⟩
          simp [hd, ih hrest]

/-- A list is cut at its first element of another kind. -/
theorem cut_of_exists (h : ∃ c ∈ a, p c = false) :
    ∃ u c v, a = u ++ c :: v ∧ (∀ d ∈ u, p d = true) ∧ p c = false := by
  have hne : a.dropWhile p ≠ [] := fun hnil => by
    obtain ⟨c, hc, hpc⟩ := h
    rw [List.dropWhile_eq_nil_iff] at hnil
    rw [hnil c hc] at hpc
    cases hpc
  obtain ⟨c, v, hcv⟩ := List.exists_cons_of_ne_nil hne
  refine ⟨a.takeWhile p, c, v, ?_, fun d hd => List.mem_takeWhile_imp hd, ?_⟩
  · rw [← hcv, List.takeWhile_append_dropWhile]
  · have := List.head?_dropWhile_not p a
    rw [hcv] at this
    exact this

/-- Behind the stretch at the front. -/
theorem drop_takeWhile (p : α → Bool) (t : List α) :
    t.drop (t.takeWhile p).length = t.dropWhile p := by
  calc t.drop (t.takeWhile p).length
      = (t.takeWhile p ++ t.dropWhile p).drop (t.takeWhile p).length := by
        rw [List.takeWhile_append_dropWhile]
    _ = t.dropWhile p := List.drop_left

/-- The stretch at the front does not enter what begins with another kind. -/
theorem takeWhile_append_of_head (ha : ∀ c ∈ a, p c = true)
    (hb : ∀ c, b.head? = some c → p c = false) :
    (a ++ b).takeWhile p = a := by
  rw [List.takeWhile_append_of_pos ha]
  cases b with
  | nil => simp
  | cons c b => simp [hb c rfl]

theorem rtakeWhile_append_of_forall (hb : ∀ c ∈ b, p c = true) :
    (a ++ b).rtakeWhile p = a.rtakeWhile p ++ b := by
  simp only [List.rtakeWhile, List.reverse_append]
  rw [List.takeWhile_append_of_pos (fun c hc => hb c (List.mem_reverse.mp hc))]
  simp

theorem rtakeWhile_append_of_exists (hb : ∃ c ∈ b, p c = false) :
    (a ++ b).rtakeWhile p = b.rtakeWhile p := by
  obtain ⟨c, hc, hpc⟩ := hb
  simp only [List.rtakeWhile, List.reverse_append]
  rw [takeWhile_append_of_exists ⟨c, List.mem_reverse.mpr hc, hpc⟩]

/-- Every element is of the kind, or one is not. -/
theorem forall_or_exists_false (p : α → Bool) (b : List α) :
    (∀ c ∈ b, p c = true) ∨ ∃ c ∈ b, p c = false := by
  by_cases h : ∀ c ∈ b, p c = true
  · exact .inl h
  · simp only [not_forall, Bool.not_eq_true, exists_prop] at h
    exact .inr h

/-- An infix lies on one side of a seam when what stands there does not occur in it. -/
theorem infix_append_of_seam
    (h : (∀ c, b.head? = some c → c ∉ w) ∨ ∀ c, a.getLast? = some c → c ∉ w) :
    w <:+: a ++ b ↔ w <:+: a ∨ w <:+: b := by
  rw [List.infix_append_iff]
  constructor
  · rintro (ha | hb | ⟨w₁, w₂, rfl, hw₁, hw₂⟩)
    · exact .inl ha
    · exact .inr hb
    · rcases h with h | h
      · cases w₂ with
        | nil =>
            rw [List.append_nil]
            exact .inl hw₁.isInfix
        | cons c w₂ =>
            obtain ⟨rest, rfl⟩ := hw₂
            exact absurd (List.mem_append_right w₁ (List.mem_cons_self ..)) (h c rfl)
      · rcases List.eq_nil_or_concat w₁ with rfl | ⟨w₀, c, rfl⟩
        · exact .inr hw₂.isInfix
        · obtain ⟨rest, rfl⟩ := hw₁
          refine absurd ?_ (h c (by simp))
          simp
  · rintro (ha | hb)
    · exact .inl ha
    · exact .inr (.inl hb)

/-- A suffix begins in the second part or in the first. -/
theorem suffix_append_cases (h : w <:+ a ++ b) : w <:+ b ∨ ∃ a', a' <:+ a ∧ w = a' ++ b := by
  rcases List.suffix_or_suffix_of_suffix h (List.suffix_append a b) with hw | ⟨a', rfl⟩
  · exact .inl hw
  · exact .inr ⟨a', List.suffix_append_self_iff.mp h, rfl⟩

/-- A suffix ends within what ends with an element it does not hold. -/
theorem suffix_append_of_seam (ha : ∀ c, a.getLast? = some c → c ∉ w) (h : w <:+ a ++ b) :
    w <:+ b := by
  rcases suffix_append_cases h with hw | ⟨a', ha', rfl⟩
  · exact hw
  · rcases List.eq_nil_or_concat a' with rfl | ⟨r, c, rfl⟩
    · simp
    · obtain ⟨u, rfl⟩ := ha'
      exact absurd (by simp) (ha c (by simp))

/-! ### Joined parts -/

/-- What fewer parts take is the front of what more do, and the last may be cut short. -/
theorem intercalate_append_isPrefix {c : α} {x last : List α} (h : last <+: x)
    (a rest : List (List α)) : [c].intercalate (a ++ [last]) <+: [c].intercalate
      (a ++ x :: rest) := by
  induction a with
  | nil =>
      rw [List.nil_append, List.intercalate_singleton]
      refine h.trans ?_
      cases rest with
      | nil => simp
      | cons y rest =>
          rw [List.nil_append, List.intercalate_cons_cons, List.append_assoc]
          exact List.prefix_append ..
  | cons y a ih =>
      have hne : ∀ z, a ++ z :: rest ≠ [] := fun z => by simp
      have hne' : a ++ [last] ≠ [] := by simp
      rw [List.cons_append, List.cons_append, List.intercalate_cons_of_ne_nil hne',
        List.intercalate_cons_of_ne_nil (hne x)]
      exact (List.prefix_append_right_inj _).mpr ih

theorem intercalate_isPrefix {c : α} {a b : List (List α)} (h : a <+: b) :
    [c].intercalate a <+: [c].intercalate b := by
  rcases List.eq_nil_or_concat a with rfl | ⟨a, x, rfl⟩
  · exact List.nil_prefix
  · obtain ⟨rest, rfl⟩ := h
    rw [List.concat_eq_append, List.append_assoc]
    exact intercalate_append_isPrefix (List.prefix_refl x) a rest

/-- A part stands in what is joined of them. -/
theorem infix_intercalate {part sep : List α} {l : List (List α)} (h : part ∈ l) :
    part <:+: sep.intercalate l := by
  induction l with
  | nil => cases h
  | cons x l ih =>
      by_cases hnil : l = []
      · rw [hnil, List.mem_singleton] at h
        rw [hnil, h, List.intercalate_singleton]
      · rw [List.intercalate_cons_of_ne_nil hnil]
        rcases List.mem_cons.mp h with rfl | h
        · rw [List.append_assoc]
          exact (List.prefix_append _ _).isInfix
        · exact (ih h).trans (List.suffix_append _ _).isInfix

theorem infix_of_mem_splitOn [DecidableEq α] {c : α} {part t : List α} (h : part ∈ t.splitOn c) :
    part <:+: t := by
  have hin : part <:+: [c].intercalate (t.splitOn c) := infix_intercalate h
  rwa [List.intercalate_splitOn] at hin

end Ghostlane.Lib
