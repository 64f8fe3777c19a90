import Mathlib.Data.List.Basic

/-!
# Ghostlane.Lib.Commands

Commands given to a program outside, one after another, each of which may fail: it may not apply
where it is given, or fail for reasons of its own (`faults`, by its place among those given). One
caller stops at the first that fails (`untilFailure`), another goes on (`each`).
-/

namespace Ghostlane.Lib

variable {σ γ : Type*}

/-- One command, the `i`-th. -/
def attempt (apply : σ → γ → Option σ) (faults : Nat → Bool) (i : Nat) (s : σ) (c : γ) : Option σ :=
  if faults i then none else apply s c

/-- Commands up to the first that fails. -/
def untilFailure (apply : σ → γ → Option σ) (faults : Nat → Bool) : Nat → σ → List γ → σ
  | _, s, [] => s
  | i, s, c :: cs =>
      match attempt apply faults i s c with
      | none => s
      | some s' => untilFailure apply faults (i + 1) s' cs

/-- Those of them that do not fail. -/
def effective (apply : σ → γ → Option σ) (faults : Nat → Bool) : Nat → σ → List γ → List γ
  | _, _, [] => []
  | i, s, c :: cs =>
      match attempt apply faults i s c with
      | none => []
      | some s' => c :: effective apply faults (i + 1) s' cs

/-- All commands, whichever fail. -/
def each (apply : σ → γ → Option σ) (faults : Nat → Bool) : Nat → σ → List γ → σ
  | _, s, [] => s
  | i, s, c :: cs => each apply faults (i + 1) ((attempt apply faults i s c).getD s) cs

section Rules

variable {apply : σ → γ → Option σ} {faults : Nat → Bool} {P : σ → Prop} {C : γ → Prop}

/-- What every command that meets `C` keeps, commands keep if those that do not fail meet it. -/
theorem untilFailure_inv (hstep : ∀ s c s', P s → C c → apply s c = some s' → P s') {i : Nat}
    {s : σ} {cs : List γ} (hs : P s) (hC : ∀ c ∈ effective apply faults i s cs, C c) :
    P (untilFailure apply faults i s cs) := by
  induction cs generalizing i s with
  | nil => exact hs
  | cons c cs ih =>
      rw [untilFailure]
      rw [effective] at hC
      cases hattempt : attempt apply faults i s c with
      | none => exact hs
      | some s' =>
          rw [hattempt] at hC
          obtain ⟨hc, hrest⟩ := List.forall_mem_cons.mp hC
          rw [attempt] at hattempt
          split at hattempt
          · cases hattempt
          · exact ih (hstep s c s' hs hc hattempt) hrest

theorem effective_subset (i : Nat) (s : σ) (cs : List γ) :
    ∀ c ∈ effective apply faults i s cs, c ∈ cs := by
  induction cs generalizing i s with
  | nil => exact fun c hc => hc
  | cons c cs ih =>
      intro d hd
      rw [effective] at hd
      cases hattempt : attempt apply faults i s c with
      | none =>
          rw [hattempt] at hd
          cases hd
      | some s' =>
          rw [hattempt] at hd
          rcases List.mem_cons.mp hd with rfl | hd
          · exact List.mem_cons_self
          · exact List.mem_cons_of_mem c (ih (i + 1) s' d hd)

/-- Where none fails for reasons of its own, each is applied where it applies. -/
theorem each_of_faultless {i : Nat} {s : σ} {cs : List γ}
    (h : ∀ j, i ≤ j → j < i + cs.length → faults j = false) :
    each apply faults i s cs = cs.foldl (fun s c => (apply s c).getD s) s := by
  induction cs generalizing i s with
  | nil => rfl
  | cons c cs ih =>
      rw [List.length_cons] at h
      rw [each, attempt, h i (Nat.le_refl i) (by omega),
        ih fun j hj hlt => h j (by omega) (by omega)]
      rfl

end Rules

end Ghostlane.Lib
