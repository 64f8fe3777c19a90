import Ghostlane.App.Blocks
import Ghostlane.App.ImportStored

/-!
# Ghostlane.App.Answers

A refresh by its answers. Reading an answer may throw, and then the refresh does
and saves nothing; otherwise it makes one bundle of them (`refreshedBy`) and
saves it unless every list stays as it was (`refresh_eq`).
-/

namespace Ghostlane.App

open Ghostlane.Lib

section

variable [Build]

/-! ### The answers -/

/-- What a list is answered, nothing where reading the answer throws. -/
def answerOf (b : LocationBundleV4) (w : Text → World) (url : Text) : Option Resolution :=
  (askList b (w url) url).toOption.join

/-- Reading every answer returns. -/
def AllAnswered (b : LocationBundleV4) (only : Option (List Text)) (w : Text → World) : Prop :=
  ∀ url ∈ b.targetUrls only, ∃ answer, askList b (w url) url = .ok answer

/-- The lists asked, each decided. -/
def askedLists (b : LocationBundleV4) (only : Option (List Text)) (w : Text → World) :
    List (Text × Outcome) :=
  (b.targetUrls only).map fun url => (url, outcomeOf (answerOf b w url))

/-- No answer moves its list. -/
def Unmoved (b : LocationBundleV4) (only : Option (List Text)) (w : Text → World) : Prop :=
  ∀ url ∈ b.targetUrls only, ∀ answer, answerOf b w url = some answer →
    answer.source.movedTo = none

section Answers

variable {b : LocationBundleV4} {only : Option (List Text)} {w : Text → World}

theorem answerOf_eq {url : Text} {answer : Option Resolution}
    (h : askList b (w url) url = .ok answer) : answerOf b w url = answer := by
  rw [answerOf, h]
  cases answer <;> rfl

/-- An answer that is read was resolved, from its list's address or the spare. -/
theorem askList_parsed {w : World} {url : Text} {source : ImportSource} {parsed : ParsedImport}
    (h : askList b w url = .ok (some (.parsed source parsed))) :
    ∃ text hours, resolveParsedImport w text hours = .ok (some (.parsed source parsed)) := by
  unfold askList at h
  obtain ⟨first, hfirst, h⟩ := bind_eq_ok.mp h
  split at h
  · cases h
    exact ⟨_, _, hfirst⟩
  · cases h
  · exact ⟨_, _, h⟩

omit [Build] in
theorem outcomeOf_eq_served {answer : Option Resolution} {source : ImportSource}
    {lines : List LocationEntry} (h : outcomeOf answer = .served source lines) :
    ∃ parsed, answer = some (.parsed source parsed) ∧ lines = parsed.bundle.locations ∧
      lines ≠ [] := by
  unfold outcomeOf at h
  split at h
  · cases h
  · cases h
  · split at h
    · cases h
    · rename_i hne
      cases h
      exact ⟨_, rfl, rfl, hne⟩

theorem answerOf_parsed {url : Text} {source : ImportSource} {parsed : ParsedImport}
    (h : answerOf b w url = some (.parsed source parsed)) :
    askList b (w url) url = .ok (some (.parsed source parsed)) := by
  unfold answerOf at h
  cases hask : askList b (w url) url with
  | error err =>
      rw [hask] at h
      cases h
  | ok answer =>
      rw [hask] at h
      cases answer with
      | none => cases h
      | some resolution => exact congrArg Except.ok h

/-- What is served to a list is a body's lines. -/
theorem whole_askedLists {p : Text × Outcome} (hp : p ∈ askedLists b only w) : p.2.Whole := by
  obtain ⟨url, -, rfl⟩ := List.mem_map.mp hp
  cases houtcome : outcomeOf (answerOf b w url) with
  | kept => trivial
  | refused source => trivial
  | served source lines =>
      obtain ⟨parsed, hanswer, rfl, -⟩ := outcomeOf_eq_served houtcome
      obtain ⟨text, hours, hresolved⟩ := askList_parsed (answerOf_parsed hanswer)
      exact resolved_lines hresolved

theorem nodup_askedLists : ((askedLists b only w).map Prod.fst).Nodup := by
  have hurls : (askedLists b only w).map Prod.fst = b.targetUrls only := by
    rw [askedLists, List.map_map]
    exact List.map_id _
  rw [hurls]
  exact b.nodup_targetUrls only

theorem asked_askedLists (hmoved : Unmoved b only w) : Asked (askedLists b only w) where
  nodup := nodup_askedLists
  url p hp := by
    obtain ⟨url, hurl, rfl⟩ := List.mem_map.mp hp
    exact LocationBundleV4.of_mem_targetUrls hurl
  stays p hp := by
    obtain ⟨url, hurl, rfl⟩ := List.mem_map.mp hp
    cases houtcome : outcomeOf (answerOf b w url) with
    | kept => rfl
    | refused source => rfl
    | served source lines =>
        obtain ⟨parsed, hanswer, rfl, -⟩ := outcomeOf_eq_served houtcome
        exact hmoved url hurl _ hanswer

/-- What a refresh makes of its answers. -/
def refreshedBy (b : LocationBundleV4) (only : Option (List Text)) (w : Text → World) :
    Refreshing :=
  handleAll b only w ((b.targetUrls only).map fun url => (url, answerOf b w url))

theorem refreshedBy_locations :
    (refreshedBy b only w).locations = b.locations.filter (b.notAsked only) ++
      filedAll b w ((b.locations.filter (b.notAsked only)).map (·.storageId))
        (askedLists b only w) := by
  rw [refreshedBy, handleAll_locations, LocationBundleV4.start_locations, List.map_map]
  rfl

/-- **A refresh whose answers are all read** returns, and saves unless every
list stays as it was. -/
theorem refresh_eq {s s₁ : Store} (hread : s.getBundleUnlocked = .ok (b, s₁))
    (hanswered : AllAnswered b only w) :
    s.refreshSubscriptionsUnlocked only w =
      if (refreshedBy b only w).successfulRefreshes = 0 ∧ (refreshedBy b only w).refusals = 0 then
        .ok (s₁, {})
      else
        .ok (s₁.save ((refreshedBy b only w).bundle b),
          { updatedCount := (refreshedBy b only w).successfulRefreshes
            refusedSelection := (refreshedBy b only w).refusedSelection }) := by
  have hanswers : (b.targetUrls only).mapM
      (fun url => do return (url, ← askList b (w url) url) : Text → Except Thrown _) =
      .ok ((b.targetUrls only).map fun url => (url, answerOf b w url)) := by
    refine mapM_eq_ok fun url hurl => ?_
    obtain ⟨answer, hanswer⟩ := hanswered url hurl
    rw [hanswer, answerOf_eq hanswer]
    rfl
  simp only [bind, Except.bind, pure, Except.pure] at hanswers
  unfold Store.refreshSubscriptionsUnlocked
  simp only [hread, hanswers, bind, Except.bind, pure, Except.pure]
  rfl

/-- A refresh that returned had all its answers read. -/
theorem allAnswered_of_refresh {s s₁ s' : Store} {report : SubscriptionRefreshReport}
    (hread : s.getBundleUnlocked = .ok (b, s₁))
    (h : s.refreshSubscriptionsUnlocked only w = .ok (s', report)) : AllAnswered b only w := by
  unfold Store.refreshSubscriptionsUnlocked at h
  obtain ⟨r, hr, h⟩ := bind_eq_ok.mp h
  rw [hread] at hr
  cases hr
  obtain ⟨answers, hanswers, -⟩ := bind_eq_ok.mp h
  intro url hurl
  obtain ⟨answer, hanswer⟩ := of_mapM_eq_ok hanswers url hurl
  obtain ⟨a, ha, -⟩ := bind_eq_ok.mp hanswer
  exact ⟨a, ha⟩

end Answers

/-! ### Refreshes that change something -/

def Outcome.isKept : Outcome → Bool
  | kept => true
  | _ => false

omit [Build] in
/-- Every list that is served or refused is counted. -/
theorem foldl_handle_counts (b : LocationBundleV4) (w : Text → World)
    (answers : List (Text × Option Resolution)) (r : Refreshing) :
    (answers.foldl (fun r a => r.handle b (w a.1) a.1 a.2) r).successfulRefreshes +
        (answers.foldl (fun r a => r.handle b (w a.1) a.1 a.2) r).refusals =
      r.successfulRefreshes + r.refusals + answers.countP fun a => !(outcomeOf a.2).isKept := by
  induction answers generalizing r with
  | nil => rfl
  | cons a answers ih =>
      have hstep : (r.handle b (w a.1) a.1 a.2).successfulRefreshes +
          (r.handle b (w a.1) a.1 a.2).refusals =
          r.successfulRefreshes + r.refusals + if !(outcomeOf a.2).isKept then 1 else 0 := by
        rw [Refreshing.handle_eq]
        cases outcomeOf a.2 with
        | kept =>
            simp only [Refreshing.keepAsItWas, foldl_preserve]
            rfl
        | refused source => exact (Nat.add_assoc _ _ _).symm
        | served source lines => exact Nat.add_right_comm _ _ _
      rw [List.foldl_cons, ih, hstep, List.countP_cons]
      omega

theorem isKept_of_counts {b : LocationBundleV4} {only : Option (List Text)} {w : Text → World}
    (h : (refreshedBy b only w).successfulRefreshes = 0 ∧ (refreshedBy b only w).refusals = 0) :
    ∀ p ∈ askedLists b only w, p.2 = .kept := by
  have hcounts := foldl_handle_counts b w
    ((b.targetUrls only).map fun url => (url, answerOf b w url)) (.start b only)
  have hzero : ((b.targetUrls only).map fun url => (url, answerOf b w url)).countP
      (fun a => !(outcomeOf a.2).isKept) = 0 := by
    have h₁ := h.1
    have h₂ := h.2
    simp only [refreshedBy, handleAll] at h₁ h₂
    omega
  intro p hp
  obtain ⟨url, hurl, rfl⟩ := List.mem_map.mp hp
  have hkept := List.countP_eq_zero.mp hzero _ (List.mem_map_of_mem hurl)
  cases houtcome : outcomeOf (answerOf b w url) with
  | kept => rfl
  | refused source => simp [houtcome, Outcome.isKept] at hkept
  | served source lines => simp [houtcome, Outcome.isKept] at hkept

end

end Ghostlane.App
