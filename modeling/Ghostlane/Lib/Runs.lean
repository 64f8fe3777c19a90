import Mathlib.Data.List.Basic

/-!
# Ghostlane.Lib.Runs

**Runs of a stepping system.** A system is a partial function
`step : σ → ε → Option σ`: an event carries every choice the step makes (which
thread moves, what the outside world answers), and `none` says the event is not
enabled. Quantifying over event lists is then quantifying over interleavings.

Three rules are all the developments above need:

* `run_inv`: an invariant kept by every step that meets a side condition holds
  after every run whose steps all meet it (`AllSteps`);
* `run_erased`: a relation kept while one system runs a schedule and another
  runs it with some events erased;
* `run_append_eq_some`: runs compose, so a fact about a later part of a run may
  be stated from the state the earlier part reached.
-/

namespace Ghostlane.Lib

variable {σ τ ε : Type*}

/-- Run a schedule; `none` as soon as one event is not enabled. -/
def run (step : σ → ε → Option σ) : σ → List ε → Option σ
  | s, [] => some s
  | s, e :: es => (step s e).bind (run step · es)

/-- Every step of the schedule meets `C` in the state it is taken from. -/
def AllSteps (step : σ → ε → Option σ) (C : σ → ε → Prop) : σ → List ε → Prop
  | _, [] => True
  | s, e :: es => C s e ∧ ∀ s', step s e = some s' → AllSteps step C s' es

/-- A side condition that can be decided can be decided along a schedule. -/
instance decidableAllSteps (step : σ → ε → Option σ) (C : σ → ε → Prop)
    [∀ s e, Decidable (C s e)] : ∀ s es, Decidable (AllSteps step C s es)
  | _, [] => isTrue trivial
  | s, e :: es =>
      match h : step s e with
      | none => decidable_of_iff (C s e) ⟨fun hc => ⟨hc, fun _ h' => nomatch h.symm.trans h'⟩,
          And.left⟩
      | some t =>
          have := decidableAllSteps step C t es
          decidable_of_iff (C s e ∧ AllSteps step C t es)
            ⟨fun hc => ⟨hc.1, fun _ h' => Option.some.inj (h.symm.trans h') ▸ hc.2⟩,
              fun hc => ⟨hc.1, hc.2 t h⟩⟩

section Rules

variable {step : σ → ε → Option σ} {C : σ → ε → Prop}

@[simp] theorem run_nil (s : σ) : run step s [] = some s := rfl

theorem run_cons_eq_some {s s' : σ} {e : ε} {es : List ε} :
    run step s (e :: es) = some s' ↔ ∃ t, step s e = some t ∧ run step t es = some s' :=
  Option.bind_eq_some_iff

/-- Runs compose. -/
theorem run_append_eq_some {s s' : σ} {es fs : List ε} :
    run step s (es ++ fs) = some s' ↔ ∃ t, run step s es = some t ∧ run step t fs = some s' := by
  induction es generalizing s with
  | nil => simp
  | cons e es ih =>
      simp only [List.cons_append, run_cons_eq_some, ih]
      constructor
      · rintro ⟨t, ht, u, hu, hs⟩
        exact ⟨u, ⟨t, ht, hu⟩, hs⟩
      · rintro ⟨u, ⟨t, ht, hu⟩, hs⟩
        exact ⟨t, ht, u, hu, hs⟩

theorem allSteps_cons {s t : σ} {e : ε} {es : List ε} (ht : step s e = some t) (hc : C s e)
    (hes : AllSteps step C t es) : AllSteps step C s (e :: es) :=
  ⟨hc, fun _ ht' => Option.some.inj (ht.symm.trans ht') ▸ hes⟩

/-- The side condition holds along every earlier part of a schedule it holds along. -/
theorem AllSteps.left {s : σ} {es fs : List ε} (h : AllSteps step C s (es ++ fs)) :
    AllSteps step C s es := by
  induction es generalizing s with
  | nil => trivial
  | cons e es ih => exact ⟨h.1, fun t ht => ih (h.2 t ht)⟩

/-- And along the rest, from the state that part reaches. -/
theorem AllSteps.right {s t : σ} {es fs : List ε} (h : AllSteps step C s (es ++ fs))
    (hrun : run step s es = some t) : AllSteps step C t fs := by
  induction es generalizing s with
  | nil =>
      cases hrun
      exact h
  | cons e es ih =>
      obtain ⟨u, hu, hrest⟩ := run_cons_eq_some.mp hrun
      exact ih (h.2 u hu) hrest

/-- The side condition holds along two schedules, the second from where the first ends. -/
theorem AllSteps.append {s : σ} {es fs : List ε} (h : AllSteps step C s es)
    (hrest : ∀ t, run step s es = some t → AllSteps step C t fs) :
    AllSteps step C s (es ++ fs) := by
  induction es generalizing s with
  | nil => exact hrest s rfl
  | cons e es ih =>
      exact ⟨h.1, fun t ht => ih (h.2 t ht) fun u hu =>
        hrest u (run_cons_eq_some.mpr ⟨t, ht, hu⟩)⟩

/-- A weaker side condition holds along the same schedule. -/
theorem AllSteps.imp {D : σ → ε → Prop} (hCD : ∀ s e, C s e → D s e) {s : σ} {es : List ε}
    (h : AllSteps step C s es) : AllSteps step D s es := by
  induction es generalizing s with
  | nil => trivial
  | cons e es ih => exact ⟨hCD _ _ h.1, fun t ht => ih (h.2 t ht)⟩

theorem AllSteps.and {D : σ → ε → Prop} {s : σ} {es : List ε} (hC : AllSteps step C s es)
    (hD : AllSteps step D s es) : AllSteps step (fun s e => C s e ∧ D s e) s es := by
  induction es generalizing s with
  | nil => trivial
  | cons e es ih => exact ⟨⟨hC.1, hD.1⟩, fun t ht => ih (hC.2 t ht) (hD.2 t ht)⟩

theorem allSteps_of_forall {s : σ} {es : List ε} (h : ∀ s, ∀ e ∈ es, C s e) :
    AllSteps step C s es := by
  induction es generalizing s with
  | nil => trivial
  | cons e es ih =>
      exact ⟨h s e (List.mem_cons_self ..),
        fun t _ => ih (fun u f hf => h u f (List.mem_cons_of_mem _ hf))⟩

/-- **The invariant rule.** What every step that meets `C` keeps, every run
whose steps all meet `C` keeps. -/
theorem run_inv {Inv : σ → Prop}
    (hstep : ∀ s e s', Inv s → C s e → step s e = some s' → Inv s')
    {s s' : σ} {es : List ε} (h0 : Inv s) (hC : AllSteps step C s es)
    (hrun : run step s es = some s') : Inv s' := by
  induction es generalizing s with
  | nil =>
      cases hrun
      exact h0
  | cons e es ih =>
      obtain ⟨t, ht, hrest⟩ := run_cons_eq_some.mp hrun
      exact ih (hstep s e t h0 hC.1 ht) (hC.2 t ht) hrest

/-- What an invariant and `C` give of a step is so of every step of a run. -/
theorem AllSteps.of_inv {Inv : σ → Prop} {D : σ → ε → Prop}
    (hstep : ∀ s e s', Inv s → C s e → step s e = some s' → Inv s')
    (hD : ∀ s e, Inv s → C s e → D s e) {s : σ} {es : List ε} (h0 : Inv s)
    (hC : AllSteps step C s es) : AllSteps step D s es := by
  induction es generalizing s with
  | nil => trivial
  | cons e es ih =>
      exact ⟨hD s e h0 hC.1, fun t ht => ih (hstep s e t h0 hC.1 ht) (hC.2 t ht)⟩

/-- **The variant rule.** Where every step that meets `C` reaches a goal that no step leaves, or
lowers a variant, every run longer than the variant ends at the goal. -/
theorem run_variant {Inv Goal : σ → Prop} (variant : σ → Nat)
    (hstep : ∀ s e s', Inv s → C s e → step s e = some s' →
      Inv s' ∧ (Goal s' ∨ variant s' < variant s))
    (hgoal : ∀ s e s', Goal s → step s e = some s' → Goal s')
    {s s' : σ} {es : List ε} (h0 : Inv s) (hC : AllSteps step C s es)
    (hlen : variant s < es.length) (hrun : run step s es = some s') : Goal s' := by
  induction es generalizing s with
  | nil => cases hlen
  | cons e es ih =>
      obtain ⟨t, ht, hrest⟩ := run_cons_eq_some.mp hrun
      obtain ⟨hinv, hreached | hlower⟩ := hstep s e t h0 hC.1 ht
      · exact run_inv (C := fun _ _ => True) (fun s e s' hg _ => hgoal s e s' hg) hreached
          (allSteps_of_forall fun _ _ _ => trivial) hrest
      · refine ih hinv (hC.2 t ht) ?_ hrest
        simp only [List.length_cons] at hlen
        omega

/-- **The erasure rule.** Two systems run schedules that agree on the events
`seen`, except that the second never sees those `keep` rejects; what is not seen
each does as it likes. A relation that every such step keeps holds at the end. -/
theorem run_erased {stepT : τ → ε → Option τ} {R : σ → τ → Prop} {seen keep : ε → Bool}
    (hleft : ∀ s t e s', R s t → C s e → seen e = false → step s e = some s' → R s' t)
    (hright : ∀ s t e t', R s t → seen e = false → stepT t e = some t' → R s t')
    (hdrop : ∀ s t e s', R s t → C s e → seen e = true → keep e = false → step s e = some s' →
      R s' t)
    (hboth : ∀ s t e s' t', R s t → C s e → seen e = true → keep e = true → step s e = some s' →
      stepT t e = some t' → R s' t')
    {s s' : σ} {t t' : τ} {es fs : List ε} (hR : R s t) (hC : AllSteps step C s es)
    (hfs : fs.filter seen = (es.filter seen).filter keep)
    (hs : run step s es = some s') (ht : run stepT t fs = some t') : R s' t' := by
  have hsilent : ∀ {s : σ} {t t' : τ} {fs : List ε}, R s t → (∀ e ∈ fs, seen e = false) →
      run stepT t fs = some t' → R s t' := fun {s t t' fs} hR hfs ht =>
    run_inv (fun t e t' hR hc ht => hright s t e t' hR hc ht) hR
      (allSteps_of_forall fun _ e he => hfs e he) ht
  induction es generalizing s t fs with
  | nil =>
      cases hs
      refine hsilent hR (fun e he => ?_) ht
      simpa using (List.filter_eq_nil_iff.mp hfs) e he
  | cons e es ih =>
      obtain ⟨u, hu, hrest⟩ := run_cons_eq_some.mp hs
      cases hseen : seen e with
      | false =>
          rw [List.filter_cons_of_neg (by simp [hseen])] at hfs
          exact ih (hleft s t e u hR hC.1 hseen hu) (hC.2 u hu) hfs hrest ht
      | true =>
          rw [List.filter_cons_of_pos hseen] at hfs
          cases hkeep : keep e with
          | false =>
              rw [List.filter_cons_of_neg (by simp [hkeep])] at hfs
              exact ih (hdrop s t e u hR hC.1 hseen hkeep hu) (hC.2 u hu) hfs hrest ht
          | true =>
              rw [List.filter_cons_of_pos hkeep] at hfs
              obtain ⟨before, after, rfl, hbefore, -, hafter⟩ := List.filter_eq_cons_iff.mp hfs
              obtain ⟨v, hv, hw⟩ := run_append_eq_some.mp ht
              obtain ⟨w, hw, hrest'⟩ := run_cons_eq_some.mp hw
              have hRv : R s v := hsilent hR (fun f hf => by simpa using hbefore f hf) hv
              exact ih (hboth s v e u w hRv hC.1 hseen hkeep hu hw) (hC.2 u hu) hafter hrest hrest'

end Rules

end Ghostlane.Lib
