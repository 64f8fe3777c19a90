import Ghostlane.App.Answers
import Ghostlane.App.Operations

/-!
# Ghostlane.App.Steps

What one operation can do to the store, said once. Every operation changes
nothing, only reads (which may adopt the storage before bundles), or saves what
it makes of the bundle it read; `Rewrites` has a case for each thing it can make.
An invariant of histories is then a fact about reads and one about each case.
-/

namespace Ghostlane.App

open Ghostlane.Lib

variable [Build]

/-- What an operation saves, over the bundle it read. -/
inductive Rewrites (b : LocationBundleV4) : StoreEvent → LocationBundleV4 → Prop
  | refresh {only : Option (List Text)} {w : Text → World} :
      Rewrites b (.refresh only w) ((refreshedBy b only w).bundle b)
  | imported {text : Text} {w : World} {source : ImportSource} {parsed : ParsedImport}
      (hresolved : resolveParsedImport w text none = .ok (some (.parsed source parsed))) :
      Rewrites b (.paste text w) (Store.mergeImportedBundle b parsed.bundle.normalized
        (parsed.mode = .restore))
  | refused {text : Text} {w : World} {source : ImportSource} {originLink : Option Text}
      (hresolved : resolveParsedImport w text none = .ok (some (.refused source originLink)))
      {url : Text} (hurl : url = source.subscriptionUrl.getD (trim text))
      {previous : List LocationEntry}
      (hprevious : previous = b.locations.filter (·.subscriptionUrl.map trim = some url))
      {refusal : Option RefusedList}
      (hrefusal : refusal = b.refusedLists.find? (·.subscriptionUrl = url)) :
      Rewrites b (.paste text w) (Store.withRefusal b <| Store.refusedListOf w.nowEpochMs source url
        ((originLink.or (Store.originLinkOf previous)).or (refusal.bind (·.subscriptionOriginLink)))
        ((Store.subscriptionOf previous).or (refusal.bind (·.subscription))))
  | setInterval {url : Text} {hours : Int} :
      Rewrites b (.setInterval url hours)
        { b with
          locations := b.locations.map fun e =>
            if e.subscriptionUrl.map trim = some (trim url) then
              LocationEntry.normalized
                { e with
                  metadata := LocationMetadata.withSubscriptionInterval e.metadata
                    (some (SubscriptionMetadata.coerceInterval hours)) }
            else e }
  | saveLocation {storageId : Text} {location : LocationConfig} {id : Text}
      (hid : id = ifBlank storageId location.storageSlug) {current : Option LocationEntry}
      (hcurrent : current = b.locations.find? (·.storageId = id)) {entry : LocationEntry}
      (hentry : entry = LocationEntry.fromLocation id location
        (current.bind (·.subscriptionUrl)) none
        (current.bind (·.metadata))) :
      Rewrites b (.saveLocation storageId location)
        { b with
          activeLocationId := some entry.storageId
          locations := b.locations.filter (·.storageId ≠ entry.storageId) ++ [entry] }
  | deleteSubscription {url : Text} {remaining : List LocationEntry}
      (hremaining : remaining = b.locations.filter (·.subscriptionUrl.map trim ≠ some (trim url))) :
      Rewrites b (.deleteSubscription url)
        { b with
          activeLocationId := b.activeLocationId.filter (LocationBundleV4.holds remaining)
          locations := remaining
          refusedLists := b.refusedLists.filter (trim ·.subscriptionUrl ≠ trim url)
          settings := b.settings.withoutSubscription (trim url) }
  | deleteLocation {id : Text} :
      Rewrites b (.deleteLocation id)
        { b with
          activeLocationId := b.activeLocationId.filter (· ≠ id)
          locations := b.locations.filter (·.storageId ≠ id) }
  | setActive {id : Option Text} :
      Rewrites b (.setActive id)
        { b with activeLocationId := id.filter (LocationBundleV4.holds b.locations) }
  | moveActive {old new group : Text} (hactive : b.activeLocationId = some old)
      (hholds : LocationBundleV4.holds b.locations new = true) :
      Rewrites b (.moveActive old new group)
        { b with
          activeLocationId := some new
          settings := b.settings.normalized.withLastKnownGood group new }
  | changeSettings {f : SubscriptionSettings → SubscriptionSettings} :
      Rewrites b (.changeSettings f) { b with settings := (f b.settings.normalized).normalized }
  | saveRouting {settings : RoutingSettings} :
      Rewrites b (.saveRouting settings) { b with routing := settings }
  | acceptDisclosure {atMillis : Int} (hfirst : b.vpnDisclosureAcceptedAt = none) :
      Rewrites b (.acceptDisclosure atMillis) { b with vpnDisclosureAcceptedAt := some atMillis }
  | setOnboarding {atMillis : Option Int} :
      Rewrites b (.setOnboarding atMillis) { b with onboardingSeenAt := atMillis }

/-- What a step does. -/
inductive Performs (s : Store) (e : StoreEvent) : Store → Prop
  | nothing : Performs s e s
  | reads {b : LocationBundleV4} {s₁ : Store} (hread : s.getBundleUnlocked = .ok (b, s₁)) :
      Performs s e s₁
  | saves {b b' : LocationBundleV4} {s₁ : Store} (hread : s.getBundleUnlocked = .ok (b, s₁))
      (hrewrites : Rewrites b e b') : Performs s e (s₁.save b')
  /-- A refresh of what is due reads once more. -/
  | rereads {b b' : LocationBundleV4} {s₁ s₂ : Store} (hread : s.getBundleUnlocked = .ok (b, s₁))
      (hreread : s₁.getBundleUnlocked = .ok (b', s₂)) : Performs s e s₂
  | savesDue {now : Int} {w : Text → World} {b b' : LocationBundleV4} {s₁ s₂ : Store}
      (he : e = .refreshDue now w) (hread : s.getBundleUnlocked = .ok (b, s₁))
      (hreread : s₁.getBundleUnlocked = .ok (b', s₂)) :
      Performs s e (s₂.save ((refreshedBy b' (some (Store.dueUrls b now)) w).bundle b'))
  | saveBundle {bundle : LocationBundleV4} (he : e = .saveBundle bundle) :
      Performs s e (s.save bundle)

namespace Store

variable {s s' : Store} {e : StoreEvent}

theorem performs_of_change {f : LocationBundleV4 → LocationBundleV4} (h : s.change f = .ok s')
    (hf : ∀ b, Rewrites b e (f b)) : Performs s e s' := by
  obtain ⟨⟨b, s₁⟩, hread, hsave⟩ := bind_eq_ok.mp h
  cases hsave
  exact .saves hread (hf b)

/-- A refresh saves what its answers make of the bundle, or nothing. -/
theorem refresh_cases {only : Option (List Text)} {w : Text → World}
    {report : SubscriptionRefreshReport}
    (h : s.refreshSubscriptionsUnlocked only w = .ok (s', report)) :
    ∃ b s₁, s.getBundleUnlocked = .ok (b, s₁) ∧
      (s' = s₁ ∨ s' = s₁.save ((refreshedBy b only w).bundle b)) := by
  have hbind := h
  unfold refreshSubscriptionsUnlocked at hbind
  obtain ⟨⟨b, s₁⟩, hread, -⟩ := bind_eq_ok.mp hbind
  rw [refresh_eq hread (allAnswered_of_refresh hread h)] at h
  refine ⟨b, s₁, hread, ?_⟩
  split at h
  · cases h
    exact .inl rfl
  · cases h
    exact .inr rfl

theorem performs_of_moveActive {old new group : Text} {moved : Bool}
    (h : s.moveActiveLocation old new group = .ok (s', moved)) :
    Performs s (.moveActive old new group) s' := by
  unfold moveActiveLocation at h
  obtain ⟨⟨b, s₁⟩, hread, hrest⟩ := bind_eq_ok.mp h
  dsimp only at hrest
  by_cases hactive : b.activeLocationId = some old
  · rw [if_neg (not_not.mpr hactive)] at hrest
    cases hholds : LocationBundleV4.holds b.locations new with
    | true =>
        rw [hholds] at hrest
        cases hrest
        exact .saves hread (.moveActive hactive hholds)
    | false =>
        rw [hholds] at hrest
        cases hrest
        exact .reads hread
  · rw [if_pos hactive] at hrest
    cases hrest
    exact .reads hread

theorem performs_of_perform (h : s.perform e = .ok s') : Performs s e s' := by
  cases e with
  | read =>
      obtain ⟨⟨b, s₁⟩, hread, rfl⟩ := map_eq_ok.mp h
      exact .reads hread
  | refresh only w =>
      obtain ⟨⟨s₁, report⟩, hrefresh, rfl⟩ := map_eq_ok.mp h
      obtain ⟨b, s₂, hread, rfl | rfl⟩ := refresh_cases hrefresh
      · exact .reads hread
      · exact .saves hread .refresh
  | refreshDue now w =>
      obtain ⟨⟨s₁, report⟩, hdue, rfl⟩ := map_eq_ok.mp h
      obtain ⟨⟨b, s₂⟩, hread, hrest⟩ := bind_eq_ok.mp hdue
      dsimp only at hrest
      split at hrest
      · cases hrest
        exact .reads hread
      · obtain ⟨b', s₃, hreread, rfl | rfl⟩ := refresh_cases hrest
        · exact .rereads hread hreread
        · exact .savesDue rfl hread hreread
  | paste text w =>
      obtain ⟨⟨s₁, report⟩, hpaste, rfl⟩ := map_eq_ok.mp h
      unfold importReport at hpaste
      obtain ⟨resolution, hresolved, hpaste⟩ := bind_eq_ok.mp hpaste
      match resolution with
      | none =>
          cases hpaste
          exact .nothing
      | some (.parsed source parsed) =>
          obtain ⟨s₂, hchange, hpaste⟩ := bind_eq_ok.mp hpaste
          cases hpaste
          exact performs_of_change hchange fun b => .imported hresolved
      | some (.refused source originLink) =>
          obtain ⟨s₂, hchange, hpaste⟩ := bind_eq_ok.mp hpaste
          cases hpaste
          exact performs_of_change hchange fun b => .refused hresolved rfl rfl rfl
  | setInterval url hours =>
      unfold perform setSubscriptionUpdateInterval at h
      dsimp only at h
      split at h
      · cases h
        exact .nothing
      · exact performs_of_change h fun b => .setInterval
  | changeSettings f =>
      unfold perform changeSubscriptionSettings at h
      exact performs_of_change h fun b => .changeSettings
  | saveRouting settings =>
      unfold perform saveRoutingSettings at h
      exact performs_of_change h fun b => .saveRouting
  | acceptDisclosure atMillis =>
      obtain ⟨⟨b, s₁⟩, hread, hsave⟩ := bind_eq_ok.mp h
      dsimp only at hsave
      split at hsave
      · cases hsave
        exact .reads hread
      · rename_i hfirst
        cases hsave
        exact .saves hread (.acceptDisclosure (by simpa using hfirst))
  | setOnboarding atMillis =>
      unfold perform setOnboardingSeen at h
      exact performs_of_change h fun b => .setOnboarding
  | deleteSubscription url =>
      obtain ⟨⟨s₁, removed⟩, hdelete, rfl⟩ := map_eq_ok.mp h
      unfold deleteSubscription at hdelete
      dsimp only at hdelete
      split at hdelete
      · cases hdelete
        exact .nothing
      · obtain ⟨⟨b, s₂⟩, hread, hrest⟩ := bind_eq_ok.mp hdelete
        dsimp only at hrest
        split at hrest
        · cases hrest
          exact .saves hread (.deleteSubscription rfl)
        · cases hrest
          exact .reads hread
  | deleteLocation id =>
      unfold perform deleteLocation at h
      exact performs_of_change h fun b => .deleteLocation
  | saveLocation id location =>
      unfold perform saveLocation at h
      exact performs_of_change h fun b => .saveLocation rfl rfl rfl
  | setActive id =>
      unfold perform setActiveLocationId at h
      exact performs_of_change h fun b => .setActive
  | moveActive old new group =>
      obtain ⟨⟨s₁, moved⟩, hmove, rfl⟩ := map_eq_ok.mp h
      exact performs_of_moveActive hmove
  | saveBundle bundle =>
      cases h
      exact .saveBundle rfl

/-- **What one step of a history does.** -/
theorem performs_of_step (h : s.step e = some s') : Performs s e s' := by
  unfold step at h
  split at h
  · rename_i hperform
    cases h
    exact performs_of_perform hperform
  · cases h
    exact .nothing
  · cases h
    unfold afterRead
    split
    · rename_i hread
      exact .reads hread
    · exact .nothing

end Store

end Ghostlane.App
