import Ghostlane.App.RefreshSound
import Ghostlane.App.Steps
import Ghostlane.App.TransportGroup
import Ghostlane.App.WellFormed

/-!
# Ghostlane.App.Deletion

What a removed list leaves behind. A list is known by its address, and for an
encrypted one the address is what its link was hiding, so `deleteSubscription`
is meant to leave it nowhere in the bundle: not in an entry, not in a refused
record, not in the settings.

It clears the places by name. The places it knows are entries, refused records,
folds, pins and Lowest choices; the record of the transport that last got
through an exit (`SmartConnect.groupKey`) has the address in its key and stays.
What is remembered so comes from moves of the selection alone, and from settings
and bundles that are handed in whole (`unremembered_step`).
-/

namespace Ghostlane.App

open Ghostlane.Lib

/-! ### Every string of a bundle -/

def SubscriptionMetadata.strings (m : SubscriptionMetadata) : List Text :=
  [m.name, m.update, m.refresh, m.color, m.icon, m.used, m.available, m.supportUrl, m.webPageUrl,
    m.announce, m.fallbackUrl].filterMap id

def LocationMetadata.strings (m : LocationMetadata) : List Text :=
  [m.name, m.color, m.icon, m.used, m.available, m.ip, m.comment, m.mimo,
    m.requestedTransport].filterMap id ++ m.subscription.toList.flatMap (·.strings)

def LocationEntry.strings (e : LocationEntry) : List Text :=
  e.storageId :: e.name :: e.failoverRooms ++
    (e.endpoint.toList.flatMap fun p => [p.roomId, p.key]) ++ e.transport.toList.map (·.type) ++
    [e.subscriptionUrl, e.subscriptionOriginLink, e.authProvider, e.rawLink, e.legacyCarrier,
      e.legacySubscriptionUrl, e.legacyId, e.legacyRoomId, e.legacyServer, e.legacyKey,
      e.legacyPassword, e.legacyBypassProvider, e.legacyBypassProviderCamel,
      e.legacyProvider].filterMap id ++ e.metadata.toList.flatMap (·.strings)

def RefusedList.strings (r : RefusedList) : List Text :=
  r.subscriptionUrl :: r.subscriptionOriginLink.toList ++ r.subscription.toList.flatMap (·.strings)

def PinnedLocation.strings (p : PinnedLocation) : List Text := [p.subscriptionUrl, p.wire, p.name]

namespace SubscriptionSettings

/-- The transports that last got through: the exits they were for, and their ids. -/
def exits (s : SubscriptionSettings) : List Text :=
  s.lastKnownGoodTransport.flatMap fun p => [p.1, p.2]

def strings (s : SubscriptionSettings) : List Text :=
  s.lowestSubscriptionUrls ++ s.foldedSubscriptionUrls ++ s.pinnedLocations.flatMap (·.strings) ++
    s.exits ++ s.transportFilter.toList

end SubscriptionSettings

def RoutingSettings.strings (r : RoutingSettings) : List Text := r.directRules ++ r.tunnelRules

def LocationBundleV4.strings (b : LocationBundleV4) : List Text :=
  b.activeLocationId.toList ++ b.locations.flatMap (·.strings) ++ b.settings.strings ++
    b.routing.strings ++ b.refusedLists.flatMap (·.strings)

/-! ### What normalizing does to a string -/

theorem part_of_contains {t needle : Text} (h : contains t needle = true) : needle <:+: t := by
  induction t with
  | nil =>
      rw [contains, beq_iff_eq] at h
      subst h
      exact List.infix_rfl
  | cons c t ih =>
      rw [contains, Bool.or_eq_true] at h
      rcases h with h | h
      · exact (List.isPrefixOf_iff_prefix.mp h).isInfix
      · exact (ih h).trans (List.suffix_cons c t).isInfix

/-- What is not in a string is in no part of it. -/
theorem not_contains_of_part {t t' needle : Text} (hpart : t <:+: t')
    (h : contains t' needle = false) : contains t needle = false := by
  by_contra hnot
  have hin := (part_of_contains (Bool.not_eq_false _ ▸ hnot)).trans hpart
  rw [contains_of_part hin] at h
  cases h

/-- Normalizing only cuts strings. -/
def Cuts (after before : List Text) : Prop := ∀ t ∈ after, ∃ t' ∈ before, t <:+: t'

theorem Cuts.free {after before : List Text} (h : Cuts after before) {u : Text}
    (hfree : ∀ t ∈ before, contains t u = false) : ∀ t ∈ after, contains t u = false := by
  intro t ht
  obtain ⟨t', ht', hpart⟩ := h t ht
  exact not_contains_of_part hpart (hfree t' ht')

theorem part_of_clean {v : Option Text} {t : Text} (h : cleanMetadataValue v = some t) :
    ∃ t', v = some t' ∧ t <:+: t' := by
  obtain ⟨t', hv, ht⟩ := Option.bind_eq_some_iff.mp h
  obtain ⟨-, rfl⟩ := nonEmpty_eq_some.mp ht
  exact ⟨t', hv, infix_of_trim t'⟩

/-- Optional values that each only cut the one in the same place. -/
theorem cuts_filterMap {after before : List (Option Text)}
    (h : List.Forall₂ (fun v v' => ∀ t, v = some t → ∃ t', v' = some t' ∧ t <:+: t') after before) :
    Cuts (after.filterMap id) (before.filterMap id) := by
  induction h with
  | nil => exact fun t ht => absurd ht List.not_mem_nil
  | @cons v v' after before hv _ ih =>
      intro t ht
      rcases List.mem_filterMap.mp ht with ⟨w, hw, hwt⟩
      rcases List.mem_cons.mp hw with rfl | hw
      · obtain ⟨t', hv', hpart⟩ := hv t hwt
        exact ⟨t', List.mem_filterMap.mpr ⟨v', List.mem_cons_self .., hv'⟩, hpart⟩
      · obtain ⟨t', ht', hpart⟩ := ih t (List.mem_filterMap.mpr ⟨w, hw, hwt⟩)
        obtain ⟨w', hw', hwt'⟩ := List.mem_filterMap.mp ht'
        exact ⟨t', List.mem_filterMap.mpr ⟨w', List.mem_cons_of_mem _ hw', hwt'⟩, hpart⟩

/-- Of metadata that was normalized before, another round only trims the note. -/
theorem SubscriptionMetadata.cuts_normalized (m : SubscriptionMetadata) :
    Cuts m.normalized.normalized.strings m.normalized.strings := by
  have hclean : ∀ (v : Option Text) (t : Text), cleanMetadataValue v = some t →
      ∃ t', v = some t' ∧ t <:+: t' := fun _ _ => part_of_clean
  have hnote : ∀ t, cleanAnnounce (cleanAnnounce m.announce) = some t →
      ∃ t', cleanAnnounce m.announce = some t' ∧ t <:+: t' := by
    intro t ht
    cases hv : m.announce with
    | none =>
        rw [hv] at ht
        cases ht
    | some note =>
        rw [hv] at ht
        by_cases hblank : trim note = []
        · rw [cleanAnnounce_blank hblank] at ht
          cases ht
        · rw [cleanAnnounce_some hblank, cleanAnnounce_cut hblank] at ht
          cases ht
          exact ⟨_, cleanAnnounce_some hblank, infix_of_trim _⟩
  refine cuts_filterMap ?_
  repeat' constructor
  all_goals first | exact hnote | exact hclean _

theorem Cuts.append {after after' before before' : List Text} (h : Cuts after before)
    (h' : Cuts after' before') : Cuts (after ++ after') (before ++ before') := by
  intro t ht
  rcases List.mem_append.mp ht with ht | ht
  · obtain ⟨t', ht', hpart⟩ := h t ht
    exact ⟨t', List.mem_append_left _ ht', hpart⟩
  · obtain ⟨t', ht', hpart⟩ := h' t ht
    exact ⟨t', List.mem_append_right _ ht', hpart⟩

theorem cuts_of_subset {after before : List Text} (h : after ⊆ before) : Cuts after before :=
  fun t ht => ⟨t, h ht, List.infix_rfl⟩

/-- Of a record that was normalized before, another round only cuts strings. -/
theorem RefusedList.cuts_normalized (r : RefusedList) :
    Cuts r.normalized.normalized.strings r.normalized.strings := by
  have hurl : Cuts [trim r.normalized.subscriptionUrl] [r.normalized.subscriptionUrl] := by
    intro t ht
    rw [List.mem_singleton.mp ht]
    exact ⟨_, List.mem_singleton_self _, infix_of_trim _⟩
  have horigin :
      Cuts (r.normalized.subscriptionOriginLink.bind fun link => nonBlank (trim link)).toList
        r.normalized.subscriptionOriginLink.toList := by
    intro t ht
    obtain ⟨link, hlink, ht⟩ := Option.bind_eq_some_iff.mp (Option.mem_toList.mp ht)
    obtain ⟨-, rfl⟩ := nonBlank_eq_some.mp ht
    exact ⟨link, Option.mem_toList.mpr hlink, infix_of_trim link⟩
  have hmeta : Cuts ((SubscriptionMetadata.cleaned r.normalized.subscription).toList.flatMap
      (·.strings))
      (r.normalized.subscription.toList.flatMap (·.strings)) := by
    intro t ht
    obtain ⟨m, hm, ht⟩ := List.mem_flatMap.mp ht
    obtain ⟨hm, -⟩ := Option.filter_eq_some_iff.mp (Option.mem_toList.mp hm)
    obtain ⟨m₁, hm₁, rfl⟩ := Option.map_eq_some_iff.mp hm
    obtain ⟨hm₀, -⟩ := Option.filter_eq_some_iff.mp hm₁
    obtain ⟨m₀, -, rfl⟩ := Option.map_eq_some_iff.mp hm₀
    obtain ⟨t', ht', hpart⟩ := m₀.cuts_normalized t ht
    exact ⟨t', List.mem_flatMap.mpr ⟨_, Option.mem_toList.mpr hm₁, ht'⟩, hpart⟩
  exact (hurl.append horigin).append hmeta

theorem PinnedLocation.cuts_normalized (p : PinnedLocation) :
    Cuts p.normalized.strings p.strings := by
  intro t ht
  simp only [strings, normalized, List.mem_cons, List.not_mem_nil, or_false] at ht
  rcases ht with rfl | rfl | rfl
  · exact ⟨p.subscriptionUrl, by simp [strings], infix_of_trim _⟩
  · exact ⟨p.wire, by simp [strings], infix_of_trim _⟩
  · exact ⟨p.name, by simp [strings], infix_of_trim _⟩

namespace SubscriptionSettings

theorem cuts_addresses (urls : List Text) : Cuts (addresses urls) urls := by
  intro t ht
  obtain ⟨url, hurl, ht⟩ := List.mem_filterMap.mp (mem_distinct.mp ht)
  obtain ⟨-, rfl⟩ := nonEmpty_eq_some.mp ht
  exact ⟨url, hurl, infix_of_trim url⟩

theorem cuts_normalized (s : SubscriptionSettings) : Cuts s.normalized.strings s.strings := by
  have hpins : Cuts (s.normalized.pinnedLocations.flatMap (·.strings))
      (s.pinnedLocations.flatMap (·.strings)) := by
    intro t ht
    obtain ⟨p, hp, ht⟩ := List.mem_flatMap.mp ht
    have hp := (List.mem_filter.mp (mem_distinct.mp (List.mem_of_mem_drop hp))).1
    obtain ⟨p₀, hp₀, rfl⟩ := List.mem_map.mp hp
    obtain ⟨t', ht', hpart⟩ := p₀.cuts_normalized t ht
    exact ⟨t', List.mem_flatMap.mpr ⟨p₀, hp₀, ht'⟩, hpart⟩
  have hfilter : Cuts s.normalized.transportFilter.toList s.transportFilter.toList := by
    intro t ht
    obtain ⟨key, hkey, ht⟩ := Option.bind_eq_some_iff.mp (Option.mem_toList.mp ht)
    obtain ⟨-, rfl⟩ := nonEmpty_eq_some.mp ht
    exact ⟨key, Option.mem_toList.mpr hkey, infix_of_trim key⟩
  exact ((((cuts_addresses _).append (cuts_addresses _)).append hpins).append
    (cuts_of_subset (List.Subset.refl _))).append hfilter

end SubscriptionSettings

/-! ### A list that is removed -/

/-- No string contains the address. -/
def Free (u : Text) (ts : List Text) : Prop := ∀ t ∈ ts, contains t u = false

instance (u : Text) (ts : List Text) : Decidable (Free u ts) :=
  inferInstanceAs (Decidable (∀ t ∈ ts, contains t u = false))

theorem Free.append {u : Text} {ts ts' : List Text} (h : Free u ts) (h' : Free u ts') :
    Free u (ts ++ ts') := by
  intro t ht
  exact (List.mem_append.mp ht).elim (h t) (h' t)

theorem Free.flatMap {α : Type} {u : Text} {as : List α} {f : α → List Text}
    (h : ∀ a ∈ as, Free u (f a)) : Free u (as.flatMap f) := by
  intro t ht
  obtain ⟨a, ha, ht⟩ := List.mem_flatMap.mp ht
  exact h a ha t ht

theorem SubscriptionSettings.free_withoutSubscription {s : SubscriptionSettings} {u : Text}
    (hlists : ∀ t ∈ s.lowestSubscriptionUrls ++ s.foldedSubscriptionUrls, t ≠ u →
      contains t u = false)
    (hpins : ∀ p ∈ s.pinnedLocations, trim p.subscriptionUrl ≠ u → Free u p.strings)
    (hexits : Free u s.exits) (hfilter : Free u s.transportFilter.toList) (hu : isBlank u = false)
    (htrim : trim u = u) : Free u (s.withoutSubscription u).strings := by
  have hne : trim u ≠ [] := by
    rw [htrim]
    rintro rfl
    cases hu
  rw [withoutSubscription, if_neg hne, htrim]
  refine (cuts_normalized _).free ?_
  have hkept : ∀ urls : List Text, (∀ t ∈ urls, t ≠ u → contains t u = false) →
      Free u (urls.filter (· ≠ u)) := by
    intro urls h t ht
    obtain ⟨hmem, hneu⟩ := List.mem_filter.mp ht
    exact h t hmem (of_decide_eq_true hneu)
  have hpinned : Free u ((s.pinnedLocations.filter (trim ·.subscriptionUrl ≠ u)).flatMap
      (·.strings)) := by
    refine .flatMap fun p hp => ?_
    obtain ⟨hmem, hother⟩ := List.mem_filter.mp hp
    exact hpins p hmem (of_decide_eq_true hother)
  exact ((((hkept _ fun t ht => hlists t (List.mem_append_left _ ht)).append
    (hkept _ fun t ht =>
      hlists t (List.mem_append_right _ ht))).append hpinned).append hexits).append
    hfilter

/-- The exits after one more transport got through. -/
theorem SubscriptionSettings.free_withLastKnownGood {s : SubscriptionSettings} {u group id : Text}
    (h : Free u s.exits) (hgroup : contains group u = false) (hid : contains id u = false) :
    Free u (s.withLastKnownGood group id).exits := by
  have hnew : Free u [group, id] := by
    intro t ht
    simp only [List.mem_cons, List.not_mem_nil, or_false] at ht
    rcases ht with rfl | rfl
    · exact hgroup
    · exact hid
  have hold : ∀ p ∈ s.lastKnownGoodTransport, Free u [p.1, p.2] := fun p hp t ht =>
    h t (List.mem_flatMap.mpr ⟨p, hp, ht⟩)
  refine .flatMap fun p hp => ?_
  rw [withLastKnownGood] at hp
  dsimp only at hp
  split at hp
  · obtain ⟨q, hq, rfl⟩ := List.mem_map.mp hp
    split
    · exact hnew
    · exact hold q hq
  · rcases List.mem_append.mp hp with hp | hp
    · exact hold p hp
    · rw [List.mem_singleton.mp hp]
      exact hnew

/-- The operation remembers no transport by `u`: it moves the selection with other exits and other
ids, and brings no settings of its own that have it. -/
def StoreEvent.Unremembering (u : Text) : StoreEvent → Prop
  | .moveActive _ new group => contains group u = false ∧ contains new u = false
  | .changeSettings f => ∀ s, Free u s.exits → Free u (f s).exits
  | .saveBundle b => Free u b.settings.exits
  | _ => True

section

variable [Build]

namespace LocationBundleV4

/-- What is normalized contains nothing more. -/
theorem free_normalized {b : LocationBundleV4} {u : Text}
    (hsettled : ∀ e ∈ b.locations, e.normalized = e)
    (hrecorded : ∀ r ∈ b.refusedLists, ∃ r₀ : RefusedList, r₀.normalized = r)
    (hlocations : ∀ e ∈ b.locations, Free u e.strings) (hsettings : Free u b.settings.strings)
    (hrouting : Free u b.routing.strings) (hrefused : ∀ r ∈ b.refusedLists, Free u r.strings) :
    Free u b.normalized.strings := by
  have hentries : ∀ e ∈ b.normalized.locations, Free u e.strings := by
    intro e he
    obtain ⟨⟨e₀, he₀, rfl⟩, -⟩ := of_mem_normalizedLocations he
    rw [hsettled e₀ he₀]
    exact hlocations e₀ he₀
  have hactive : Free u b.normalized.activeLocationId.toList := by
    intro id hid
    obtain ⟨e, he, hsame⟩ := List.any_eq_true.mp (selected_normalized (Option.mem_toList.mp hid))
    rw [← beq_iff_eq.mp hsame]
    exact hentries e he _ (by simp [LocationEntry.strings])
  have hrecords : ∀ r ∈ b.normalized.refusedLists, Free u r.strings := by
    intro r hr
    have hr := (List.mem_filter.mp (mem_of_mem_associateBy hr)).1
    obtain ⟨r₁, hr₁, rfl⟩ := List.mem_map.mp hr
    obtain ⟨r₀, rfl⟩ := hrecorded r₁ hr₁
    exact r₀.cuts_normalized.free (hrefused _ hr₁)
  exact (((hactive.append (.flatMap hentries)).append
    (b.settings.cuts_normalized.free hsettings)).append
    hrouting).append (.flatMap hrecords)

/-- The list at `u` is there, with servers or refused. -/
def Lists (b : LocationBundleV4) (u : Text) : Prop :=
  (∃ e ∈ b.locations, e.subscriptionUrl.map trim = some u) ∨
    ∃ r ∈ b.refusedLists, trim r.subscriptionUrl = u

omit [Build] in
/-- A list is there exactly when its removal leaves fewer entries or refused records. -/
theorem lists_iff (b : LocationBundleV4) {u : Text} :
    b.Lists u ↔
      0 < b.locations.length - (b.locations.filter (·.subscriptionUrl.map trim ≠ some u)).length ∨
        (b.refusedLists.filter (trim ·.subscriptionUrl ≠ u)).length < b.refusedLists.length := by
  rw [Lists, Nat.sub_pos_iff_lt, List.length_filter_lt_length_iff_exists,
    List.length_filter_lt_length_iff_exists]
  simp only [decide_not, Bool.not_eq_true', decide_eq_false_iff_not, Decidable.not_not, ne_eq]

/-- The list at `u` can be removed without a trace: it is there, no transport was
remembered for one of its exits, and nothing that is not about it contains its
address. -/
structure Removable (b : LocationBundleV4) (u : Text) : Prop where
  found : b.Lists u
  exits : Free u b.settings.exits
  locations : ∀ e ∈ b.locations, e.subscriptionUrl.map trim ≠ some u → Free u e.strings
  refused : ∀ r ∈ b.refusedLists, trim r.subscriptionUrl ≠ u → Free u r.strings
  pins : ∀ p ∈ b.settings.pinnedLocations, trim p.subscriptionUrl ≠ u → Free u p.strings
  lists : ∀ t ∈ b.settings.lowestSubscriptionUrls ++ b.settings.foldedSubscriptionUrls,
    t ≠ u → contains t u = false
  rest : Free u (b.settings.transportFilter.toList ++ b.routing.strings)

end LocationBundleV4

namespace Store

/-- When the step removes a list, it can be removed without a trace, or it is not
there and was never mentioned. -/
def RemovesCleanly (s : Store) (e : StoreEvent) : Prop :=
  ∀ u, e = .deleteSubscription u → isBlank u = false →
    ∀ b s', s.getBundleUnlocked = .ok (b, s') →
      b.Removable (trim u) ∨
        ¬ b.Lists (trim u) ∧ ∀ d, s'.bundle = some d → Free (trim u) d.strings

/-- When the step removes a list, no string of the bundle on disk contains its address after it. -/
def LeavesNothing (s : Store) (e : StoreEvent) : Prop :=
  ∀ u, e = .deleteSubscription u → isBlank u = false →
    ∀ s' n, s.deleteSubscription u = .ok (s', n) → ∀ b, s'.bundle = some b → Free (trim u) b.strings

/-- A read returns records that were normalized. -/
theorem recorded_of_getBundleUnlocked {s s' : Store} {b : LocationBundleV4}
    (h : s.getBundleUnlocked = .ok (b, s')) :
    ∀ r ∈ b.refusedLists, ∃ r₀ : RefusedList, r₀.normalized = r := by
  have hnormalized : ∀ (b : LocationBundleV4), ∀ r ∈ b.normalized.refusedLists,
      ∃ r₀ : RefusedList, r₀.normalized = r := by
    intro b r hr
    obtain ⟨r₀, -, heq⟩ := List.mem_map.mp (List.mem_filter.mp (mem_of_mem_associateBy hr)).1
    exact ⟨r₀, heq⟩
  have hstored : ∀ b, s.stored = some b → ∀ r ∈ b.refusedLists,
      ∃ r₀ : RefusedList, r₀.normalized = r := by
    intro b hb
    obtain ⟨b₀, -, rfl⟩ := Option.map_eq_some_iff.mp hb
    exact hnormalized b₀
  cases reads_of_getBundleUnlocked h with
  | stored hb hne => exact hstored b hb
  | @empty _ legacy hlegacy hnil hb hempty =>
      subst hb
      cases hcase : s.stored with
      | none => exact hnormalized legacy
      | some b₀ => exact hstored b₀ hcase
  | @adopted legacy hlegacy hempty hne =>
      cases hcase : s.stored with
      | none => exact hnormalized legacy
      | some b₀ => exact hstored b₀ hcase

theorem leavesNothing_of_removable {s : Store} {e : StoreEvent} (h : s.RemovesCleanly e) :
    s.LeavesNothing e := by
  rintro u rfl hu s' n hdelete b' hb'
  have hblank : isBlank (trim u) = false := (isBlank_trim u).trans hu
  unfold deleteSubscription at hdelete
  rw [if_neg (by simp [hblank])] at hdelete
  obtain ⟨⟨b, s₁⟩, hread, hrest⟩ := bind_eq_ok.mp hdelete
  have hclean := clean_getBundleUnlocked hread
  dsimp only at hrest
  rcases h u rfl hu b s₁ hread with hrem | ⟨hnot, hfree⟩
  case inr =>
    -- the deletion finds nothing, and saves nothing
    rw [if_neg (mt b.lists_iff.mpr hnot)] at hrest
    cases hrest
    exact hfree b' hb'
  rw [if_pos (b.lists_iff.mp hrem.found)] at hrest
  cases hrest
  cases hb'
  refine LocationBundleV4.free_normalized (fun e he => ?_) (fun r hr => ?_) (fun e he => ?_) ?_ ?_
    (fun r hr => ?_)
  · exact hclean.settled e (List.mem_filter.mp he).1
  · exact recorded_of_getBundleUnlocked hread r (List.mem_filter.mp hr).1
  · obtain ⟨hmem, hother⟩ := List.mem_filter.mp he
    exact hrem.locations e hmem (of_decide_eq_true hother)
  · exact SubscriptionSettings.free_withoutSubscription hrem.lists hrem.pins hrem.exits
      (fun t ht => hrem.rest t (List.mem_append_left _ ht)) hblank (trim_trim u)
  · exact fun t ht => hrem.rest t (List.mem_append_right _ ht)
  · obtain ⟨hmem, hother⟩ := List.mem_filter.mp hr
    exact hrem.refused r hmem (of_decide_eq_true hother)

/-! ### What a history remembers -/

/-- No transport is remembered by `u` in what is read. -/
def Unremembered (s : Store) (u : Text) : Prop :=
  ∀ b s', s.getBundleUnlocked = .ok (b, s') → Free u b.settings.exits

/-- The bundle on disk, whatever is read of it. -/
def UnrememberedOnDisk (s : Store) (u : Text) : Prop :=
  ∀ b, s.stored = some b → Free u b.settings.exits

variable {s s₁ s' : Store} {b b' : LocationBundleV4} {e : StoreEvent} {u : Text}

/-- A read adopts locations, and no settings. -/
theorem UnrememberedOnDisk.read (h : s.UnrememberedOnDisk u)
    (hread : s.getBundleUnlocked = .ok (b, s₁)) :
    Free u b.settings.exits ∧ s₁.UnrememberedOnDisk u := by
  have hlegacy : ∀ {legacy : LocationBundleV4}, s.legacyBundle = .ok legacy →
      Free u legacy.normalized.settings.exits := by
    intro legacy hlegacy
    obtain ⟨found, -, hfound⟩ := bind_eq_ok.mp hlegacy
    cases hfound
    exact fun t ht => absurd ht List.not_mem_nil
  cases reads_of_getBundleUnlocked hread with
  | stored hb hne => exact ⟨h _ hb, h⟩
  | empty hfound hnil hb hempty =>
      refine ⟨?_, h⟩
      subst hb
      cases hstored : s.stored with
      | none => exact hlegacy hfound
      | some b₀ => exact h b₀ hstored
  | @adopted legacy hfound hempty hne =>
      have hadopted : Free u (withLegacy s.stored legacy.normalized).settings.exits := by
        cases hstored : s.stored with
        | none => exact hlegacy hfound
        | some b₀ => exact h b₀ hstored
      refine ⟨hadopted, fun b hb => ?_⟩
      cases hb
      exact hadopted

/-- What an operation saves remembers no more than was read, but for the operation's own. -/
theorem free_rewrites (h : Free u b.settings.exits) (he : e.Unremembering u)
    (hrewrites : Rewrites b e b') : Free u b'.settings.exits := by
  cases hrewrites with
  | refresh => exact h
  | @imported text w source parsed hresolved =>
      unfold mergeImportedBundle
      dsimp only
      split <;> exact h
  | refused => exact h
  | setInterval => exact h
  | saveLocation => exact h
  | deleteSubscription =>
      unfold SubscriptionSettings.withoutSubscription
      dsimp only
      split <;> exact h
  | deleteLocation => exact h
  | setActive => exact h
  | moveActive => exact SubscriptionSettings.free_withLastKnownGood h he.1 he.2
  | changeSettings => exact he _ h
  | saveRouting => exact h
  | acceptDisclosure => exact h
  | setOnboarding => exact h

theorem unremembered_save (h : Free u b.settings.exits) : (s.save b).UnrememberedOnDisk u := by
  intro b' hb'
  rw [stored_save] at hb'
  cases hb'
  exact h

/-- **One operation remembers a transport by `u` only if it is one that does.** -/
theorem unremembered_step (h : s.UnrememberedOnDisk u) (he : e.Unremembering u)
    (hstep : s.step e = some s') : s'.UnrememberedOnDisk u := by
  cases performs_of_step hstep with
  | nothing => exact h
  | reads hread => exact (h.read hread).2
  | saves hread hrewrites => exact unremembered_save (free_rewrites (h.read hread).1 he hrewrites)
  | rereads hread hreread => exact ((h.read hread).2.read hreread).2
  | @savesDue now w b b' s₁ s₂ hdue hread hreread =>
      have hrefresh : (StoreEvent.refresh (some (dueUrls b now)) w).Unremembering u := trivial
      exact unremembered_save (free_rewrites ((h.read hread).2.read hreread).1 hrefresh .refresh)
  | saveBundle hbundle =>
      subst hbundle
      exact unremembered_save he

/-- **A removed list leaves nothing behind**, in every history whose removals each
find their list (or no mention of one), with no transport remembered for one of its
exits and no mention of its address outside of what is about it; and no transport is
remembered for one in a history that never moves the selection by the address. -/
theorem deletions_leave_nothing {legacyLocations : List (Text × Text)}
    {legacyActiveLocationId : Option Text} {es : List StoreEvent}
    (h : AllSteps step RemovesCleanly (fresh legacyLocations legacyActiveLocationId) es) :
    AllSteps step LeavesNothing (fresh legacyLocations legacyActiveLocationId) es ∧
      ∀ u, (∀ e ∈ es, e.Unremembering u) →
        AllSteps step (fun s _ => s.Unremembered u)
          (fresh legacyLocations legacyActiveLocationId) es := by
  refine ⟨AllSteps.imp (fun _ _ => leavesNothing_of_removable) h, fun u hes => ?_⟩
  have hfresh : (fresh legacyLocations legacyActiveLocationId).UnrememberedOnDisk u :=
    fun b hb => by cases hb
  exact AllSteps.of_inv (fun s e s' => unremembered_step)
    (fun s e hs _ b s' hread => (hs.read hread).1) hfresh (allSteps_of_forall fun _ => hes)

end Store

end

/-! ### The exits of a list -/

section

attribute [local instance] Build.plain

/-- A list with one exit over two transports. -/
def oneExit : Text := txt "hy2://a@h.example:1#NL\nhy2://b@h.example:2#NL · Hysteria2"

/-- The store after the list was pasted. -/
def oneExitStore : Store :=
  ((Store.fresh [] none).step (.paste someList (.serving oneExit))).getD (.fresh [] none)

def oneExitBundle : LocationBundleV4 := oneExitStore.stored.getD {}

theorem step_oneExit :
    (Store.fresh [] none).step (.paste someList (.serving oneExit)) = some oneExitStore := by
  have hsome : ((Store.fresh [] none).step (.paste someList (.serving oneExit))).isSome = true := by
    decide
  obtain ⟨s, hs⟩ := Option.isSome_iff_exists.mp hsome
  rw [oneExitStore, hs, Option.getD_some]

theorem read_oneExit : oneExitStore.getBundleUnlocked = .ok (oneExitBundle, oneExitStore) := by
  refine Store.getBundleUnlocked_of_stored ?_ (by decide)
  have hsome : oneExitStore.stored.isSome = true := by decide
  obtain ⟨b, hb⟩ := Option.isSome_iff_exists.mp hsome
  rw [oneExitBundle, hb, Option.getD_some]

theorem deletions_leave_nothing_oneExit :
    AllSteps Store.step Store.LeavesNothing (.fresh [] none)
        [.paste someList (.serving oneExit), .deleteSubscription someList] ∧
      AllSteps Store.step (fun s _ => s.Unremembered someList) (.fresh [] none)
        [.paste someList (.serving oneExit), .deleteSubscription someList] := by
  suffices hclean : AllSteps Store.step Store.RemovesCleanly (.fresh [] none)
      [.paste someList (.serving oneExit), .deleteSubscription someList] by
    obtain ⟨hnothing, hremembered⟩ := Store.deletions_leave_nothing hclean
    exact ⟨hnothing, hremembered someList (by simp [StoreEvent.Unremembering])⟩
  refine allSteps_cons step_oneExit ?_ ⟨?_, fun _ _ => trivial⟩
  · intro u hu
    cases hu
  · rintro u hu - b s' hread
    cases hu
    cases read_oneExit.symm.trans hread
    have hchecked : Free someList oneExitBundle.settings.exits ∧
        (∀ e ∈ oneExitBundle.locations, e.subscriptionUrl.map trim = some someList) ∧
        (∃ e ∈ oneExitBundle.locations, e.subscriptionUrl.map trim = some someList) ∧
        oneExitBundle.refusedLists = [] ∧ oneExitBundle.settings.pinnedLocations = [] ∧
        oneExitBundle.settings.lowestSubscriptionUrls ++
          oneExitBundle.settings.foldedSubscriptionUrls = [] ∧
        Free someList (oneExitBundle.settings.transportFilter.toList ++
          oneExitBundle.routing.strings) ∧ trim someList = someList := by decide
    obtain ⟨hexits, hits, hfound, hrefused, hpins, hlists, hrest, htrim⟩ := hchecked
    rw [htrim]
    refine .inl ⟨.inl hfound, hexits, fun e he hother => absurd (hits e he) hother, ?_, ?_, ?_,
      hrest⟩
    · rw [hrefused]
      simp
    · rw [hpins]
      simp
    · rw [hlists]
      simp

/-- The exit moves to its other transport, and the list is removed. -/
def movedAndDeleted : List StoreEvent :=
  [.moveActive (txt "imported_nl") (txt "imported_nl_hysteria2") (someList ++ txt "\nNL"),
    .deleteSubscription someList]

/-- **The address of a removed list stays in the settings**, in the key of the exit
whose other transport got through. -/
theorem removed_list_stays_remembered :
    ∃ s b, run Store.step (.fresh [] none)
        (.paste someList (.serving oneExit) :: movedAndDeleted) = some s ∧ s.bundle = some b ∧
      (oneExitBundle.locations.find? (some ·.storageId = oneExitBundle.activeLocationId)).map
        SmartConnect.groupKey = some (someList ++ txt "\nNL") ∧
      b.locations = [] ∧ b.refusedLists = [] ∧
      b.settings.lastKnownGoodTransport =
        [(someList ++ txt "\nNL", txt "imported_nl_hysteria2")] ∧
      ¬ Free someList b.strings := by
  have hrun : ((run Store.step oneExitStore movedAndDeleted).bind (·.bundle)).any
      (fun b => b.locations = [] ∧ b.refusedLists = [] ∧ b.settings.lastKnownGoodTransport =
        [(someList ++ txt "\nNL", txt "imported_nl_hysteria2")] ∧ ¬ Free someList b.strings) =
      true := by decide
  obtain ⟨b, hb, hleft⟩ := (Option.any_eq_true _ _).mp hrun
  obtain ⟨s, hs, hbundle⟩ := Option.bind_eq_some_iff.mp hb
  exact ⟨s, b, run_cons_eq_some.mpr ⟨_, step_oneExit, hs⟩, hbundle, by decide,
    of_decide_eq_true hleft⟩

end

end Ghostlane.App
