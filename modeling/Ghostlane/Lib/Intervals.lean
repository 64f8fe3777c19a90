import Mathlib

/-!
# Ghostlane.Lib.Intervals

How many integers some closed intervals hold together. Sorted by where they begin, the intervals
are walked once, with the end reached so far: what a further interval adds is what it has behind
that end (`card_sweep`).

The invariant (`Swept`) is that no integer between the last beginning and the end reached is
missing, so that a later interval has nothing new in front of that end.
-/

namespace Ghostlane.Lib

/-- The integers that some intervals, each given by its two ends, hold together. -/
noncomputable def heldBy (rs : List (Int × Int)) : Finset Int :=
  rs.toFinset.biUnion fun r => Finset.Icc r.1 r.2

@[simp] theorem mem_heldBy {rs : List (Int × Int)} {x : Int} :
    x ∈ heldBy rs ↔ ∃ r ∈ rs, r.1 ≤ x ∧ x ≤ r.2 := by
  simp [heldBy]

theorem heldBy_cons (r : Int × Int) (rs : List (Int × Int)) :
    heldBy (r :: rs) = Finset.Icc r.1 r.2 ∪ heldBy rs := by
  ext x
  simp

/-- What intervals hold does not depend on their order. -/
theorem heldBy_perm {rs rs' : List (Int × Int)} (h : rs.Perm rs') : heldBy rs = heldBy rs' := by
  ext x
  simp [h.mem_iff]

/-- The integers counted, and the end reached: one more interval. -/
def sweepStep (s r : Int × Int) : Int × Int :=
  if r.2 ≤ s.2 then s else (s.1 + (r.2 - max r.1 (s.2 + 1) + 1), r.2)

/-- The integers of `u` are counted, and none from `first` to the end reached is missing. -/
structure Swept (u : Finset Int) (first : Int) (s : Int × Int) : Prop where
  counted : s.1 = u.card
  behind : ∀ x ∈ u, x ≤ s.2
  filled : ∀ x, first ≤ x → x ≤ s.2 → x ∈ u

theorem Swept.step {u : Finset Int} {first : Int} {s r : Int × Int} (h : Swept u first s)
    (hfirst : first ≤ r.1) (hr : r.1 ≤ r.2) :
    Swept (u ∪ Finset.Icc r.1 r.2) r.1 (sweepStep s r) := by
  by_cases hend : r.2 ≤ s.2
  · -- The interval lies between the first beginning and the end reached.
    have hsame : u ∪ Finset.Icc r.1 r.2 = u := by
      refine Finset.union_eq_left.mpr fun x hx => ?_
      obtain ⟨hlo, hhi⟩ := Finset.mem_Icc.mp hx
      exact h.filled x (by omega) (by omega)
    rw [sweepStep, if_pos hend, hsame]
    exact ⟨h.counted, h.behind, fun x hlo hhi => h.filled x (by omega) hhi⟩
  · have hsplit : u ∪ Finset.Icc r.1 r.2 = u ∪ Finset.Icc (max r.1 (s.2 + 1)) r.2 := by
      ext x
      simp only [Finset.mem_union, Finset.mem_Icc]
      constructor
      · rintro (hx | ⟨hlo, hhi⟩)
        · exact .inl hx
        · by_cases hold : x ≤ s.2
          · exact .inl (h.filled x (by omega) hold)
          · exact .inr ⟨by omega, hhi⟩
      · rintro (hx | ⟨hlo, hhi⟩)
        · exact .inl hx
        · exact .inr ⟨by omega, hhi⟩
    have hdisjoint : Disjoint u (Finset.Icc (max r.1 (s.2 + 1)) r.2) := by
      refine Finset.disjoint_left.mpr fun x hx hnew => ?_
      have hold := h.behind x hx
      have hlo := (Finset.mem_Icc.mp hnew).1
      omega
    rw [sweepStep, if_neg hend]
    refine ⟨?_, fun x hx => ?_, fun x hlo hhi => ?_⟩
    · have hcounted := h.counted
      rw [hsplit, Finset.card_union_of_disjoint hdisjoint, Int.card_Icc]
      dsimp only
      omega
    · rcases Finset.mem_union.mp hx with hx | hx
      · have hold := h.behind x hx
        dsimp only
        omega
      · exact (Finset.mem_Icc.mp hx).2
    · exact Finset.mem_union_right _ (Finset.mem_Icc.mpr ⟨hlo, hhi⟩)

theorem Swept.run {u : Finset Int} {first : Int} {s : Int × Int} (h : Swept u first s)
    {rs : List (Int × Int)} (hsorted : rs.Pairwise fun a b => a.1 ≤ b.1)
    (hfirst : ∀ r ∈ rs, first ≤ r.1) (hrs : ∀ r ∈ rs, r.1 ≤ r.2) :
    (rs.foldl sweepStep s).1 = ((u ∪ heldBy rs).card : Int) := by
  induction rs generalizing u first s with
  | nil => simpa [heldBy] using h.counted
  | cons r rs ih =>
      obtain ⟨hr, hrest⟩ := List.pairwise_cons.mp hsorted
      have hstep := h.step (hfirst r List.mem_cons_self) (hrs r List.mem_cons_self)
      rw [List.foldl_cons, ih hstep hrest hr fun r' hr' => hrs r' (List.mem_cons_of_mem r hr'),
        heldBy_cons, Finset.union_assoc]

/-- **A sweep counts what the intervals hold together,** whichever of them overlap, touch or lie
in one another. -/
theorem card_sweep {rs : List (Int × Int)} (hsorted : rs.Pairwise fun a b => a.1 ≤ b.1)
    (hrs : ∀ r ∈ rs, 0 ≤ r.1 ∧ r.1 ≤ r.2) :
    (rs.foldl sweepStep (0, -1)).1 = ((heldBy rs).card : Int) := by
  have hnone : Swept ∅ 0 (0, -1) :=
    ⟨rfl, fun x hx => absurd hx (Finset.notMem_empty x), fun x hlo hhi => by
      dsimp only at hhi
      omega⟩
  have hrun := hnone.run hsorted (fun r hr => (hrs r hr).1) fun r hr => (hrs r hr).2
  rwa [Finset.empty_union] at hrun

end Ghostlane.Lib
