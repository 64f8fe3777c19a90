import Ghostlane.App.Deletion
import Ghostlane.App.Origin
import Ghostlane.App.Settled
import Ghostlane.App.TransportGroup

/-!
# Ghostlane.App.Moved

A list whose host says it lives at another address from now on. Its address is the key of
its entries, of its refused record, and of what the person chose for it: folds, Lowest, pins,
and the transport that last got through each of its exits (`SmartConnect.groupKey`). A refresh
files the entries and the record under the new address and leaves the settings as they are.
-/

namespace Ghostlane.App

open Ghostlane.Lib

/-! ### What settings keep under an address -/

/-- Nothing is kept under the address. -/
structure SubscriptionSettings.Silent (s : SubscriptionSettings) (u : Text) : Prop where
  lowest : u ∉ s.lowestSubscriptionUrls
  folded : u ∉ s.foldedSubscriptionUrls
  pins : ∀ p ∈ s.pinnedLocations, p.subscriptionUrl ≠ u
  exits : ∀ p ∈ s.lastKnownGoodTransport, ¬ (u ++ ['\n']) <+: p.1

/-- What was kept under `u` is kept under `v`. -/
structure SubscriptionSettings.Follows (s s' : SubscriptionSettings) (u v : Text) : Prop where
  lowest : u ∈ s.lowestSubscriptionUrls → v ∈ s'.lowestSubscriptionUrls
  folded : u ∈ s.foldedSubscriptionUrls → v ∈ s'.foldedSubscriptionUrls
  pins : ∀ p ∈ s.pinnedLocations, p.subscriptionUrl = u →
    { p with subscriptionUrl := v } ∈ s'.pinnedLocations
  exits : ∀ base storageId, (u ++ '\n' :: base, storageId) ∈ s.lastKnownGoodTransport →
    (v ++ '\n' :: base, storageId) ∈ s'.lastKnownGoodTransport

theorem SubscriptionSettings.Silent.follows {s : SubscriptionSettings} {u : Text} (h : s.Silent u)
    (s' : SubscriptionSettings) (v : Text) : s.Follows s' u v where
  lowest hmem := absurd hmem h.lowest
  folded hmem := absurd hmem h.folded
  pins p hp hurl := absurd hurl (h.pins p hp)
  exits base storageId hmem := by
    refine absurd ⟨base, ?_⟩ (h.exits _ hmem)
    rw [List.append_assoc, List.singleton_append]

/-- The list at `u` has taken everything along to `v`: nothing is filed under `u`, and every
choice is kept under `v`. -/
structure LocationBundleV4.TakesAlong (b b' : LocationBundleV4) (u v : Text) : Prop where
  locations : ∀ e ∈ b'.locations, e.listUrl ≠ some u
  refused : ∀ r ∈ b'.refusedLists, trim r.subscriptionUrl ≠ u
  silent : b'.settings.Silent u
  follows : b.settings.Follows b'.settings u v

section

variable [Build]

/-! ### A refresh that moves a list -/

/-- In this refresh the host of the list at `u` says that it lives at `v` from now on, whether it
serves it or refuses it, and no other host says that its list lives at `u`. -/
structure Moves (b : LocationBundleV4) (only : Option (List Text)) (w : Text → World)
    (u v : Text) : Prop where
  asked : u ∈ b.targetUrls only
  answered : ∃ answer, answerOf b w u = some answer ∧ answer.source.movedTo = some v ∧
    outcomeOf (some answer) ≠ .kept
  away : isBlank v = false ∧ trim v ≠ u
  others : ∀ url ∈ b.targetUrls only, url ≠ u → ∀ answer, answerOf b w url = some answer →
    ∀ there, answer.source.movedTo = some there → isBlank there = false ∧ trim there ≠ u

variable {b : LocationBundleV4} {only : Option (List Text)} {w : Text → World} {u v : Text}

/-- No answer files its list at `u`. -/
theorem Moves.filesElsewhere (h : Moves b only w u v) {url : Text} (hurl : url ∈ b.targetUrls only)
    {answer : Resolution} (hanswer : answerOf b w url = some answer) :
    ¬ answer.source.FilesAt url u := by
  have hfiled : isBlank (answer.source.movedTo.getD url) = false ∧
      trim (answer.source.movedTo.getD url) ≠ u := by
    by_cases heq : url = u
    · subst heq
      obtain ⟨answer', hanswer', hmoved, -⟩ := h.answered
      obtain rfl : answer = answer' := Option.some.inj (hanswer.symm.trans hanswer')
      rw [hmoved]
      exact h.away
    · cases hmoved : answer.source.movedTo with
      | none =>
          obtain ⟨htrim, hblank⟩ := LocationBundleV4.of_mem_targetUrls hurl
          rw [Option.getD_none, htrim]
          exact ⟨hblank, heq⟩
      | some there => exact h.others url hurl heq answer hanswer there hmoved
  rintro (hat | hblank)
  · exact hfiled.2 hat
  · rw [hfiled.1] at hblank
    cases hblank

/-- The list that moves does not stay as it was. -/
theorem Moves.not_kept (h : Moves b only w u v) : outcomeOf (answerOf b w u) ≠ .kept := by
  obtain ⟨answer, hanswer, -, hdecided⟩ := h.answered
  rw [hanswer]
  exact hdecided

/-- No entry is filed under the old address. -/
theorem Moves.listUrl_ne (h : Moves b only w u v) :
    ∀ e ∈ (refreshedBy b only w).locations, e.listUrl ≠ some u := by
  intro e he hlist
  rw [refreshedBy_locations] at he
  rcases List.mem_append.mp he with he | he
  · have hnot := (List.mem_filter.mp he).2
    rw [LocationBundleV4.notAsked, hlist, Option.all_some, decide_eq_true_eq] at hnot
    exact hnot h.asked
  · obtain ⟨p, hp, used, hfiled⟩ := exists_of_mem_filedAll he
    obtain ⟨url, hurl, rfl⟩ := List.mem_map.mp hp
    dsimp only at hfiled
    cases houtcome : outcomeOf (answerOf b w url) with
    | kept =>
        rw [houtcome] at hfiled
        have hat := (List.mem_filter.mp ((distinctFrom_sublist _ _).subset hfiled)).2
        rw [decide_eq_true_eq, hlist, Option.some.injEq] at hat
        exact h.not_kept (hat ▸ houtcome)
    | refused source =>
        rw [houtcome] at hfiled
        cases hfiled
    | served source lines =>
        rw [houtcome] at hfiled
        obtain ⟨parsed, hanswer, -, -⟩ := outcomeOf_eq_served houtcome
        have helsewhere := h.filesElsewhere hurl hanswer
        obtain ⟨line, -, id, -, rfl⟩ := exists_of_mem_zipWith hfiled
        have hnot : isBlank (source.movedTo.getD url) = false := by
          rw [← Bool.not_eq_true]
          exact fun hblank => helsewhere (.inr hblank)
        rw [LocationEntry.listUrl, refile_subscriptionUrl b (w url) url source line id hnot,
          Option.bind_some] at hlist
        exact helsewhere (.inl (nonBlank_eq_some.mp hlist).2)

/-- No refusal is recorded under it. -/
theorem Moves.refusedUrl_ne (h : Moves b only w u v) :
    ∀ r ∈ (refreshedBy b only w).refusedLists, trim r.subscriptionUrl ≠ u := by
  intro r hr hat
  rcases of_mem_refusedLists_foldl hr with hr | ⟨a, ha, hkept, -, hurl⟩ | ⟨a, ha, source, houtcome,
    rfl⟩
  · have hnot := (List.mem_filter.mp hr).2
    rw [decide_eq_true_eq, hat] at hnot
    exact hnot h.asked
  · obtain ⟨url, -, rfl⟩ := List.mem_map.mp ha
    refine h.not_kept ?_
    rw [← hat, hurl]
    exact hkept
  · obtain ⟨url, hurl, rfl⟩ := List.mem_map.mp ha
    dsimp only at houtcome hat
    obtain ⟨originLink, hanswer⟩ :
        ∃ originLink, answerOf b w url = some (.refused source originLink) := by
      unfold outcomeOf at houtcome
      split at houtcome
      · cases houtcome
      · rename_i hanswer
        cases houtcome
        exact ⟨_, hanswer⟩
      · split at houtcome <;> cases houtcome
    exact h.filesElsewhere hurl hanswer (.inl ((trim_trim _).symm.trans hat))

/-- The settings that are read are settled. -/
theorem settings_of_read {s s₁ : Store} (hread : s.getBundleUnlocked = .ok (b, s₁)) :
    b.settings.normalized = b.settings := by
  have hstored : ∀ d, s.stored = some d → d.settings.normalized = d.settings := by
    intro d hd
    obtain ⟨d₀, -, rfl⟩ := Option.map_eq_some_iff.mp hd
    exact SubscriptionSettings.normalized_normalized d₀.settings
  cases Store.reads_of_getBundleUnlocked hread with
  | stored hb hne => exact hstored b hb
  | @empty _ legacy hlegacy hnil hb hempty =>
      cases hs : s.stored with
      | none =>
          rw [hs, Option.getD_none] at hb
          rw [← hb]
          exact SubscriptionSettings.normalized_normalized legacy.settings
      | some d =>
          rw [hs, Option.getD_some] at hb
          exact hb ▸ hstored d hs
  | @adopted legacy hlegacy hempty hne =>
      cases hs : s.stored with
      | none => exact SubscriptionSettings.normalized_normalized legacy.settings
      | some d => exact hstored d hs

/-- What a refresh that moves a list stores. -/
theorem Moves.stored (h : Moves b only w u v) {s s₁ s' : Store} {report : SubscriptionRefreshReport}
    (hread : s.getBundleUnlocked = .ok (b, s₁))
    (hrefresh : s.refreshSubscriptionsUnlocked only w = .ok (s', report)) :
    s'.bundle = some ((refreshedBy b only w).bundle b).normalized := by
  rw [refresh_eq hread (allAnswered_of_refresh hread hrefresh), if_neg] at hrefresh
  · cases hrefresh
    rfl
  · intro hcounts
    have hmem : (u, outcomeOf (answerOf b w u)) ∈ askedLists b only w :=
      List.mem_map_of_mem (f := fun url => (url, outcomeOf (answerOf b w url))) h.asked
    exact h.not_kept (isKept_of_counts hcounts _ hmem)

/-- **A list that moves takes everything along exactly when the settings keep nothing under its
address**: its entries and its record move, a choice never does. -/
theorem move_takes_along_iff {s s₁ s' : Store} {report : SubscriptionRefreshReport}
    {b' : LocationBundleV4} (hread : s.getBundleUnlocked = .ok (b, s₁))
    (hmoves : Moves b only w u v)
    (hrefresh : s.refreshSubscriptionsUnlocked only w = .ok (s', report))
    (hstored : s'.bundle = some b') : b.TakesAlong b' u v ↔ b.settings.Silent u := by
  obtain rfl := Option.some.inj ((hmoves.stored hread hrefresh).symm.trans hstored)
  have hsettings : ((refreshedBy b only w).bundle b).normalized.settings = b.settings := by
    change b.settings.normalized = b.settings
    exact settings_of_read hread
  constructor
  · intro halong
    rw [← hsettings]
    exact halong.silent
  · intro hsilent
    refine ⟨?_, ?_, hsettings.symm ▸ hsilent, hsilent.follows _ v⟩
    · intro e he
      obtain ⟨⟨e₀, he₀, rfl⟩, -⟩ := LocationBundleV4.of_mem_normalizedLocations he
      obtain ⟨e₁, rfl⟩ := (storable_refreshedBy only w
        (Store.clean_getBundleUnlocked hread) e₀ he₀).normalized
      have hurl : e₁.normalized.normalized.subscriptionUrl = e₁.normalized.subscriptionUrl :=
        LocationEntry.urlOf_urlOf _ _
      rw [LocationEntry.listUrl, hurl]
      exact hmoves.listUrl_ne _ he₀
    · intro r hr
      obtain ⟨r₀, hr₀, rfl⟩ := List.mem_map.mp (List.mem_filter.mp (mem_of_mem_associateBy hr)).1
      rw [show r₀.normalized.subscriptionUrl = trim r₀.subscriptionUrl from rfl, trim_trim]
      exact hmoves.refusedUrl_ne r₀ hr₀

/-- A refresh that asks the list at `u` alone. -/
theorem moves_of_one (hone : b.targetUrls only = [u])
    (hmoved : (answerOf b w u).any (fun answer => answer.source.movedTo = some v &&
      !(outcomeOf (some answer)).isKept) = true)
    (haway : isBlank v = false ∧ trim v ≠ u) : Moves b only w u v where
  asked := by rw [hone]; exact List.mem_singleton_self u
  answered := by
    obtain ⟨answer, hanswer, hsays⟩ := (Option.any_eq_true _ _).mp hmoved
    obtain ⟨hto, hdecided⟩ := Bool.and_eq_true_iff.mp hsays
    refine ⟨answer, hanswer, of_decide_eq_true hto, ?_⟩
    intro hkept
    rw [hkept] at hdecided
    cases hdecided
  away := haway
  others url hurl hne := by
    rw [hone] at hurl
    exact absurd (List.mem_singleton.mp hurl) hne

end

/-! ### One list on the move -/

section

attribute [local instance] Build.plain

/-- Every address serves one body, and says that its list lives at another. -/
def World.moving (body there : Text) : World where
  downloadTextFromUrl _ _ := some { content := body, profile := some { movedTo := some there } }

def newHome : Text := txt "https://new.example/l"

/-- The refresh in which the list with one exit moves. -/
abbrev oneExitMove (s : Store) : Except Thrown (Store × SubscriptionRefreshReport) :=
  s.refreshSubscriptionsUnlocked none fun _ => .moving oneExit newHome

theorem oneExitMove_stored {s : Store} {b' : LocationBundleV4}
    (h : (oneExitMove s).toOption.bind (·.1.bundle) = some b') :
    ∃ s' report, oneExitMove s = .ok (s', report) ∧ s'.bundle = some b' := by
  cases hmove : oneExitMove s with
  | error err =>
      rw [hmove] at h
      cases h
  | ok r =>
      rw [hmove] at h
      exact ⟨r.1, r.2, rfl, h⟩

theorem move_takes_along_oneExit :
    ∃ s' report b', oneExitMove oneExitStore = .ok (s', report) ∧ s'.bundle = some b' ∧
      oneExitBundle.TakesAlong b' someList newHome := by
  have hsome : ((oneExitMove oneExitStore).toOption.bind (·.1.bundle)).isSome = true := by
    decide
  obtain ⟨b', hb'⟩ := Option.isSome_iff_exists.mp hsome
  obtain ⟨s', report, hrefresh, hstored⟩ := oneExitMove_stored hb'
  refine ⟨s', report, b', hrefresh, hstored,
    (move_takes_along_iff read_oneExit (moves_of_one ?_ ?_ ?_) hrefresh hstored).mpr ?_⟩
  · decide
  · decide
  · decide
  · have hnothing : oneExitBundle.settings.lowestSubscriptionUrls = [] ∧
        oneExitBundle.settings.foldedSubscriptionUrls = [] ∧
        oneExitBundle.settings.pinnedLocations = [] ∧
        oneExitBundle.settings.lastKnownGoodTransport = [] := by decide
    obtain ⟨hlowest, hfolded, hpins, hexits⟩ := hnothing
    exact ⟨by simp [hlowest], by simp [hfolded], by simp [hpins], by simp [hexits]⟩

/-- The exit of the list went over to its other transport. -/
def usedExitStore : Store :=
  (oneExitStore.step (.moveActive (txt "imported_nl") (txt "imported_nl_hysteria2")
    (someList ++ txt "\nNL"))).getD (.fresh [] none)

def usedExitBundle : LocationBundleV4 := usedExitStore.stored.getD {}

theorem read_usedExit : usedExitStore.getBundleUnlocked = .ok (usedExitBundle, usedExitStore) := by
  refine Store.getBundleUnlocked_of_stored ?_ (by decide)
  have hsome : usedExitStore.stored.isSome = true := by decide
  obtain ⟨b, hb⟩ := Option.isSome_iff_exists.mp hsome
  rw [usedExitBundle, hb, Option.getD_some]

/-- **The transport that got through is left behind**: the entries move, its key does not. -/
theorem moved_list_leaves_its_exit :
    ∃ s' report b', usedExitStore.getBundleUnlocked = .ok (usedExitBundle, usedExitStore) ∧
      Moves usedExitBundle none (fun _ => .moving oneExit newHome) someList newHome ∧
      oneExitMove usedExitStore = .ok (s', report) ∧ s'.bundle = some b' ∧
      b'.locations.map (fun e => (e.listUrl, e.storageId)) =
        [(some newHome, txt "imported_nl"), (some newHome, txt "imported_nl_hysteria2")] ∧
      b'.settings.lastKnownGoodTransport =
        [(someList ++ txt "\nNL", txt "imported_nl_hysteria2")] ∧
      ¬ usedExitBundle.TakesAlong b' someList newHome := by
  have hafter : ((oneExitMove usedExitStore).toOption.bind (·.1.bundle)).any (fun b' =>
      b'.locations.map (fun e => (e.listUrl, e.storageId)) =
        [(some newHome, txt "imported_nl"), (some newHome, txt "imported_nl_hysteria2")] ∧
      b'.settings.lastKnownGoodTransport =
        [(someList ++ txt "\nNL", txt "imported_nl_hysteria2")]) = true := by decide +kernel
  obtain ⟨b', hb', hleft⟩ := (Option.any_eq_true _ _).mp hafter
  obtain ⟨hfiled, hexits⟩ := of_decide_eq_true hleft
  obtain ⟨s', report, hrefresh, hstored⟩ := oneExitMove_stored hb'
  refine ⟨s', report, b', read_usedExit, moves_of_one ?_ ?_ ?_, hrefresh, hstored, hfiled, hexits,
    fun halong => halong.silent.exits _ (hexits ▸ List.mem_singleton_self _) ?_⟩
  · decide
  · decide
  · decide
  · exact ⟨txt "NL", by decide⟩

end

end Ghostlane.App
