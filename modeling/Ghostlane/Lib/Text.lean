import Mathlib.Data.List.DropRight

/-!
# Ghostlane.Lib.Text

Text as a list of characters, with the trimming both languages of the
repository use. What counts as white space differs between them, so it is a
parameter here (`trimBy`).
-/

namespace Ghostlane.Lib

/-- A well-formed text: its Unicode scalar values in order. -/
abbrev Text := List Char

instance lawfulBEqText : LawfulBEq Text := inferInstance

/-- The characters of a literal. -/
abbrev txt (s : String) : Text := s.toList

/-- A question about the characters of a text is settled along it, not by going
through every character there is. -/
instance (priority := 2000) decidableForallMem (p : Char → Prop) [DecidablePred p] (t : Text) :
    Decidable (∀ c ∈ t, p c) := List.decidableBAll p t

/-- What is said of every character of ASCII is said one by one. -/
theorem forall_ascii {p : Char → Prop} (h : ∀ n ∈ List.range 0x80, p (Char.ofNat n)) {c : Char}
    (hc : c.toNat < 0x80) : p c := by
  have hspec := h c.toNat (List.mem_range.mpr hc)
  rwa [Char.ofNat_toNat] at hspec

section Trim

variable {α : Type*}

/-- Drop the elements satisfying `p` at both ends. -/
def trimBy (p : α → Bool) (t : List α) : List α :=
  (t.dropWhile p).rdropWhile p

variable {p : α → Bool} {t : List α}

@[simp] theorem trimBy_nil (p : α → Bool) : trimBy p ([] : List α) = [] := rfl

/-- A text neither of whose ends is dropped is already trimmed. -/
theorem trimBy_eq_self (hhead : ∀ c, t.head? = some c → p c = false)
    (hlast : ∀ c, t.getLast? = some c → p c = false) : trimBy p t = t := by
  have hdrop : t.dropWhile p = t := by
    rw [List.dropWhile_eq_self_iff]
    intro hl
    rw [hhead _ (List.head?_eq_getElem? ▸ List.getElem?_eq_getElem hl)]
    simp
  rw [trimBy, hdrop, List.rdropWhile_eq_self_iff]
  intro hl
  rw [hlast _ (List.getLast?_eq_some_getLast hl)]
  simp

theorem head?_trimBy (c : α) (h : (trimBy p t).head? = some c) : p c = false := by
  have hd := List.head?_dropWhile_not p t
  obtain ⟨suf, hsuf⟩ := List.rdropWhile_prefix p (t.dropWhile p)
  have hhead : (t.dropWhile p).head? = some c := by
    rw [← hsuf, List.head?_append]
    rw [trimBy] at h
    rw [h]
    rfl
  rw [hhead] at hd
  exact hd

theorem getLast?_trimBy (c : α) (h : (trimBy p t).getLast? = some c) : p c = false := by
  have hne : (t.dropWhile p).rdropWhile p ≠ [] := by
    intro hnil
    rw [trimBy, hnil] at h
    simp at h
  have hlast := List.rdropWhile_last_not p (t.dropWhile p) hne
  rw [trimBy, List.getLast?_eq_some_getLast hne] at h
  rw [Option.some.inj h] at hlast
  simpa using hlast

@[simp] theorem trimBy_trimBy (p : α → Bool) (t : List α) :
    trimBy p (trimBy p t) = trimBy p t :=
  trimBy_eq_self head?_trimBy getLast?_trimBy

theorem infix_trimBy (p : α → Bool) (t : List α) : trimBy p t <:+: t :=
  (List.rdropWhile_prefix _ _).isInfix.trans (List.dropWhile_suffix _).isInfix

theorem mem_of_mem_trimBy {a : α} (h : a ∈ trimBy p t) : a ∈ t :=
  (infix_trimBy p t).subset h

/-- Nothing is trimmed off a text without a character to trim. -/
theorem trimBy_of_forall (h : ∀ c ∈ t, p c = false) : trimBy p t = t :=
  trimBy_eq_self (fun c hc => h c (List.mem_of_mem_head? hc))
    (fun c hc => h c (List.mem_of_mem_getLast? hc))

/-- Trimming leaves nothing exactly of the texts made of trimmed characters. -/
theorem trimBy_eq_nil_iff : trimBy p t = [] ↔ t.all p = true := by
  rw [trimBy, List.rdropWhile_eq_nil_iff, List.all_eq_true]
  constructor
  · intro h
    have hnil : t.dropWhile p = [] := by
      cases hd : t.dropWhile p with
      | nil => rfl
      | cons a r =>
          have ha := List.head?_dropWhile_not p t
          rw [hd] at ha h
          exact absurd (h a (List.mem_cons_self ..)) (by simp [show p a = false from ha])
    exact List.dropWhile_eq_nil_iff.mp hnil
  · intro h x hx
    exact h x ((List.dropWhile_suffix p).subset hx)

end Trim

end Ghostlane.Lib
