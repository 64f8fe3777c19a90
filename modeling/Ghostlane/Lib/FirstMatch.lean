import Mathlib.Data.List.Basic

/-!
# Ghostlane.Lib.FirstMatch

**Ordered rule lists.** A rule either ends the walk with a verdict or passes the
subject on, changed or not, to the rules after it; what no rule ends is the final
clause's. `firstMatch` is that walk. A list built in parts is read part by part, what
follows a part being that part's final clause (`firstMatch_append`), and a part
written for another kind of subject is read there (`firstMatch_map`).
-/

namespace Ghostlane.Lib

/-- What a rule does with a subject. -/
inductive Ruling (σ δ : Type*) where
  | ends (verdict : δ)
  | passes (subject : σ)

section FirstMatch

variable {ρ σ δ : Type*}

/-- The verdict of the first rule that ends the walk, or `final`. -/
def firstMatch (rule : ρ → σ → Ruling σ δ) (final : δ) : List ρ → σ → δ
  | [], _ => final
  | r :: rs, s =>
      match rule r s with
      | .ends verdict => verdict
      | .passes s' => firstMatch rule final rs s'

variable {rule : ρ → σ → Ruling σ δ} {final : δ}

@[simp]
theorem firstMatch_nil (s : σ) : firstMatch rule final [] s = final := rfl

theorem firstMatch_cons_ends {r : ρ} {s : σ} {d : δ} (h : rule r s = .ends d) (rs : List ρ) :
    firstMatch rule final (r :: rs) s = d := by
  simp only [firstMatch, h]

theorem firstMatch_cons_passes {r : ρ} {s s' : σ} (h : rule r s = .passes s') (rs : List ρ) :
    firstMatch rule final (r :: rs) s = firstMatch rule final rs s' := by
  simp only [firstMatch, h]

/-- A rule with a condition, which passes on unchanged what it does not match. -/
theorem firstMatch_cons_ite {r : ρ} {s : σ} {p : Prop} [Decidable p] {d : δ}
    (h : rule r s = if p then .ends d else .passes s) (rs : List ρ) :
    firstMatch rule final (r :: rs) s = if p then d else firstMatch rule final rs s := by
  by_cases hp : p
  · rw [if_pos hp] at h ⊢
    exact firstMatch_cons_ends h rs
  · rw [if_neg hp] at h ⊢
    exact firstMatch_cons_passes h rs

/-- Rules that change no subject: what follows a list of them is its final clause. -/
theorem firstMatch_append (hkeep : ∀ r s s', rule r s = .passes s' → s' = s) (rs rest : List ρ)
    (s : σ) :
    firstMatch rule final (rs ++ rest) s = firstMatch rule (firstMatch rule final rest s) rs s := by
  induction rs with
  | nil => rfl
  | cons r rs ih =>
      cases h : rule r s with
      | ends d => rw [List.cons_append, firstMatch_cons_ends h, firstMatch_cons_ends h]
      | passes s' =>
          obtain rfl := hkeep r s s' h
          rw [List.cons_append, firstMatch_cons_passes h, firstMatch_cons_passes h, ih]

/-- A list of conditional rules that each mean at `s'` what they were written to mean at `s`. -/
theorem firstMatch_map {ρ' σ' δ' : Type*} {rule' : ρ' → σ' → Ruling σ' δ'} {f : ρ → ρ'} {v : δ → δ'}
    {s : σ} {s' : σ'} {matched : ρ → Bool} {verdict : ρ → δ} {rs : List ρ}
    (hrule : ∀ r ∈ rs, rule r s = if matched r then .ends (verdict r) else .passes s)
    (hrule' : ∀ r ∈ rs, rule' (f r) s' = if matched r then .ends (v (verdict r)) else .passes s') :
    firstMatch rule' (v final) (rs.map f) s' = v (firstMatch rule final rs s) := by
  induction rs with
  | nil => rfl
  | cons r rs ih =>
      have hrest := ih (fun x hx => hrule x (List.mem_cons_of_mem _ hx))
        (fun x hx => hrule' x (List.mem_cons_of_mem _ hx))
      rw [List.map_cons, firstMatch_cons_ite (hrule r List.mem_cons_self),
        firstMatch_cons_ite (hrule' r List.mem_cons_self), hrest]
      split <;> rfl

end FirstMatch

end Ghostlane.Lib
