import Ghostlane.App.WellFormed

/-!
# Ghostlane.App.Settled

**What a second round of normalizing changes.** It is run on every read and on
every write, and all of it but one step gives its own result back. The step is
the cut of a list's note: a note is trimmed and then cut to its length, the cut
may leave white space at its end, and the next round trims that
(`cleanAnnounce_twice_iff`). A bundle is settled after one round exactly when no
note it keeps is cut there (`normalized_normalized_iff`).
-/

namespace Ghostlane.App

open Ghostlane.Lib

/-! ### Notes -/

/-- The cut of a note does not fall behind white space. -/
def settledNote (t : Text) : Bool :=
  (takeUnits SubscriptionMetadata.announceMaxChars (trim t)).getLast?.all (!isWhitespace ·)

/-- **A second round changes a note exactly when the cut left white space at its end.** -/
theorem cleanAnnounce_twice_iff (v : Option Text) :
    cleanAnnounce (cleanAnnounce v) = cleanAnnounce v ↔ v.all settledNote = true := by
  cases v with
  | none => simp [cleanAnnounce, cleanMetadataValue]
  | some t =>
      rw [Option.all_some]
      by_cases h : trim t = []
      · rw [cleanAnnounce_blank h, settledNote, h]
        exact iff_of_true rfl rfl
      · rw [cleanAnnounce_some h, cleanAnnounce_cut h, Option.some.injEq, settledNote,
          Option.all_eq_true]
        constructor
        · intro heq c hc
          rw [← heq] at hc
          rw [getLast?_trimBy c hc]
          rfl
        · intro hlast
          refine trimBy_eq_self (head?_cut_trim t) fun c hc => ?_
          simpa using hlast c hc

/-- Half a pair that is left behind a space keeps it from the end. -/
example : settledNote (List.replicate 198 'a' ++ [' ', '🎉']) = true := by decide +kernel

/-! ### Metadata -/

/-- Normalizing and then leaving out what is empty settles at once when normalizing does. -/
theorem cleaned_twice_iff {α : Type} {norm : α → α} {empty settled : α → Bool}
    (hnorm : ∀ a, norm (norm a) = norm a ↔ settled a = true)
    (hempty : ∀ a, empty (norm (norm a)) = empty (norm a))
    (hquiet : ∀ a, empty (norm a) = true → settled a = true) (m : Option α) :
    (((m.map norm).filter (!empty ·)).map norm).filter (!empty ·) = (m.map norm).filter (!empty ·) ↔
      m.all settled = true := by
  cases m with
  | none => simp
  | some a =>
      cases h : empty (norm a) with
      | true => simp [Option.filter, h, hquiet a h]
      | false => simp [Option.filter, h, hempty, hnorm]

namespace SubscriptionMetadata

def settled (m : SubscriptionMetadata) : Bool := m.announce.all settledNote

theorem normalized_twice_iff (m : SubscriptionMetadata) :
    m.normalized.normalized = m.normalized ↔ m.settled = true := by
  have hrest : m.normalized.normalized =
      { m.normalized with announce := cleanAnnounce (cleanAnnounce m.announce) } := by
    simp only [normalized, clean_clean, filter_pos_filter, Option.map_map, cleanAnnounce]
    congr 1
    cases m.updateIntervalHours <;> simp
  rw [settled, ← cleanAnnounce_twice_iff, hrest]
  refine ⟨fun h => congrArg announce h, fun h => ?_⟩
  rw [h]
  rfl

theorem cleaned_twice_iff (m : Option SubscriptionMetadata) :
    cleaned (cleaned m) = cleaned m ↔ m.all settled = true := by
  refine App.cleaned_twice_iff normalized_twice_iff isEmpty_normalized_normalized (fun a h => ?_) m
  have hblank : isNullOrBlank a.announce = true := by
    rw [← isNullOrBlank_cleanAnnounce]
    simp only [isEmpty, normalized_announce, List.all_cons, List.all_nil, Bool.and_eq_true] at h
    tauto
  cases hv : a.announce with
  | none => simp [settled, hv]
  | some t =>
      rw [hv, isNullOrBlank, ← trim_eq_nil_iff] at hblank
      rw [settled, hv, Option.all_some, settledNote, hblank]
      rfl

end SubscriptionMetadata

namespace LocationMetadata

def settled (m : LocationMetadata) : Bool := m.subscription.all (·.settled)

theorem normalized_twice_iff (m : LocationMetadata) :
    m.normalized.normalized = m.normalized ↔ m.settled = true := by
  have hrest : m.normalized.normalized = { m.normalized with
      subscription :=
        SubscriptionMetadata.cleaned (SubscriptionMetadata.cleaned m.subscription) } := by
    simp only [normalized, clean_clean]
  rw [settled, ← SubscriptionMetadata.cleaned_twice_iff, hrest]
  refine ⟨fun h => congrArg subscription h, fun h => ?_⟩
  rw [h]
  rfl

theorem cleaned_twice_iff (m : Option LocationMetadata) :
    cleaned (cleaned m) = cleaned m ↔ m.all settled = true := by
  refine App.cleaned_twice_iff normalized_twice_iff isEmpty_normalized_normalized (fun a h => ?_) m
  have hnone : SubscriptionMetadata.cleaned a.subscription = none := by
    simp only [isEmpty, Bool.and_eq_true] at h
    rw [← Option.isNone_iff_eq_none, ← SubscriptionMetadata.all_isEmpty_cleaned]
    exact h.2
  rw [settled, ← SubscriptionMetadata.cleaned_twice_iff, hnone]
  rfl

end LocationMetadata

/-! ### Entries and records -/

def LocationEntry.settled (e : LocationEntry) : Bool := e.metadata.all (·.settled)

/-- An entry made of what is kept of a location is one made of the location. -/
theorem LocationEntry.ofConfig_stored {c : LocationConfig} (hc : c.normalized = c)
    (storageId : Text) (url origin : Option Text) (m : Option LocationMetadata) :
    ofConfig storageId c.stored url origin m = ofConfig storageId c url origin m := by
  unfold LocationConfig.stored
  split
  · rfl
  · rename_i htransport
    have htype : LocationTransportConfig.fromConfig c.withoutVp8 = .fromConfig c := by
      unfold LocationTransportConfig.fromConfig
      rw [LocationConfig.normalized_withoutVp8, hc]
      dsimp only
      rw [if_neg htransport]
      exact congrArg (LocationTransportConfig.mk c.transport) (if_neg htransport)
    unfold ofConfig
    rw [htype]
    rfl

theorem LocationEntry.normalized_twice_iff (e : LocationEntry) :
    e.normalized.normalized = e.normalized ↔ e.settled = true := by
  have hrest : e.normalized.normalized = ofConfig (trim e.storageId) e.location
      (urlOf e.subscriptionUrl e.legacySubscriptionUrl)
      (e.subscriptionOriginLink.bind fun link => nonBlank (trim link))
      (LocationMetadata.cleaned (LocationMetadata.cleaned e.metadata)) := by
    rw [normalized_eq e.normalized, location_normalized, ofConfig_stored e.normalized_location]
    show ofConfig (trim (trim e.storageId)) _ (urlOf (urlOf _ _) none)
      ((e.subscriptionOriginLink.bind _).bind _) _ = _
    rw [trim_trim, urlOf_urlOf, origin_origin]
    rfl
  rw [settled, ← LocationMetadata.cleaned_twice_iff, hrest, normalized_eq]
  refine ⟨fun h => congrArg metadata h, fun h => ?_⟩
  rw [h]

def RefusedList.settled (r : RefusedList) : Bool := r.subscription.all (·.settled)

theorem RefusedList.normalized_twice_iff (r : RefusedList) :
    r.normalized.normalized = r.normalized ↔ r.settled = true := by
  have hrest : r.normalized.normalized = { r.normalized with
      subscription :=
        SubscriptionMetadata.cleaned (SubscriptionMetadata.cleaned r.subscription) } := by
    simp only [normalized, trim_trim, LocationEntry.origin_origin]
  rw [settled, ← SubscriptionMetadata.cleaned_twice_iff, hrest]
  refine ⟨fun h => congrArg subscription h, fun h => ?_⟩
  rw [h]
  rfl

/-! ### Settings -/

namespace SubscriptionSettings

@[simp] theorem addresses_addresses (urls : List Text) :
    addresses (addresses urls) = addresses urls := by
  have hsame : ∀ url ∈ addresses urls, nonEmpty (trim url) = some url := by
    intro url hurl
    obtain ⟨url₀, -, h⟩ := List.mem_filterMap.mp (mem_distinct.mp hurl)
    obtain ⟨hne, rfl⟩ := nonEmpty_eq_some.mp h
    rw [trim_trim, h]
  show distinct ((addresses urls).filterMap _) = addresses urls
  rw [List.filterMap_congr hsame, List.filterMap_some]
  exact distinctBy_eq_self_iff.mpr (distinctBy_nodup _)

/-- The pins as `normalized` leaves them. -/
def keptPins (pins : List PinnedLocation) : List PinnedLocation :=
  let pinned := distinct ((pins.map (·.normalized)).filter (·.name ≠ []))
  pinned.drop (pinned.length - maxPinned)

@[simp] theorem keptPins_keptPins (pins : List PinnedLocation) :
    keptPins (keptPins pins) = keptPins pins := by
  have hpin : ∀ p ∈ keptPins pins, p.normalized = p ∧ p.name ≠ [] := by
    intro p hp
    obtain ⟨hp, hname⟩ := List.mem_filter.mp (mem_distinct.mp (List.mem_of_mem_drop hp))
    obtain ⟨p₀, -, rfl⟩ := List.mem_map.mp hp
    exact ⟨by simp [PinnedLocation.normalized], of_decide_eq_true hname⟩
  have hmap : (keptPins pins).map (·.normalized) = keptPins pins := by
    conv_rhs => rw [← List.map_id (keptPins pins)]
    exact List.map_congr_left fun p hp => (hpin p hp).1
  have hfilter : (keptPins pins).filter (·.name ≠ []) = keptPins pins :=
    List.filter_eq_self.mpr fun p hp => decide_eq_true (hpin p hp).2
  have hdistinct : distinct (keptPins pins) = keptPins pins := by
    refine distinctBy_eq_self_iff.mpr ?_
    rw [List.map_id']
    exact (nodup_distinct _).sublist (List.drop_sublist _ _)
  have hlength : (keptPins pins).length - maxPinned = 0 := by
    rw [keptPins, List.length_drop]
    omega
  rw [keptPins, hmap, hfilter, hdistinct, hlength, List.drop_zero]

/-- Settings are settled after one round. -/
@[simp] theorem normalized_normalized (s : SubscriptionSettings) :
    s.normalized.normalized = s.normalized := by
  have hpins : s.normalized.normalized.pinnedLocations = s.normalized.pinnedLocations :=
    keptPins_keptPins s.pinnedLocations
  have hfilter : s.normalized.normalized.transportFilter = s.normalized.transportFilter :=
    clean_clean s.transportFilter
  have hinterval : s.normalized.normalized.updateIntervalHours = s.normalized.updateIntervalHours :=
    coerceIn_coerceIn (show minIntervalHours ≤ maxIntervalHours by decide)
  have heq : s.normalized.normalized = { s.normalized with
      updateIntervalHours := s.normalized.normalized.updateIntervalHours
      lowestSubscriptionUrls := addresses (addresses s.lowestSubscriptionUrls)
      foldedSubscriptionUrls := addresses (addresses s.foldedSubscriptionUrls)
      transportFilter := s.normalized.normalized.transportFilter
      pinnedLocations := s.normalized.normalized.pinnedLocations } := rfl
  rw [heq, hpins, hfilter, hinterval, addresses_addresses, addresses_addresses]
  rfl

end SubscriptionSettings

/-! ### The bundle -/

namespace LocationBundleV4

section

variable [Build]

/-- The entries a bundle keeps, as they are before they are normalized. -/
def keptLocations (b : LocationBundleV4) : List LocationEntry :=
  distinctBy (trim ·.storageId) (b.locations.filter keeps)

/-- The addresses they are filed under. -/
def servedUrls (b : LocationBundleV4) : List Text :=
  b.keptLocations.filterMap fun e =>
    (LocationEntry.urlOf e.subscriptionUrl e.legacySubscriptionUrl).bind fun url =>
      nonEmpty (trim url)

/-- The records of refused lists it keeps. -/
def keptRefusals (b : LocationBundleV4) : List RefusedList :=
  associateBy (trim ·.subscriptionUrl) (b.refusedLists.filter fun r =>
    trim r.subscriptionUrl ≠ [] ∧ trim r.subscriptionUrl ∉ b.servedUrls)

/-- The notes of what a bundle keeps are cut behind no white space. -/
def settled (b : LocationBundleV4) : Bool :=
  b.keptLocations.all (·.settled) && b.keptRefusals.all (·.settled)

theorem keeps_of_normalized (e : LocationEntry) : keeps e.normalized = keeps e := by
  have hid : e.normalized.storageId = trim e.storageId := rfl
  rw [keeps, keeps, hid, isBlank_trim, LocationConfig.isComplete_eq_dials,
    LocationConfig.isComplete_eq_dials, LocationEntry.line_normalized]

theorem locations_normalized (b : LocationBundleV4) :
    b.normalized.locations = b.keptLocations.map (·.normalized) := by
  rw [normalized_locations, normalizedLocations, List.filter_map, distinctBy_map]
  have hkeeps : (keeps ∘ fun e : LocationEntry => e.normalized) = keeps :=
    funext keeps_of_normalized
  rw [hkeeps]
  rfl

theorem refusedLists_normalized (b : LocationBundleV4) :
    b.normalized.refusedLists = b.keptRefusals.map (·.normalized) := by
  have hserved : (b.normalized.locations.filterMap fun e =>
      e.subscriptionUrl.bind fun url => nonEmpty (trim url)) = b.servedUrls := by
    rw [locations_normalized, List.filterMap_map]
    rfl
  show associateBy _ (((b.refusedLists.map _).filter _)) = _
  rw [normalized_locations] at hserved
  rw [hserved, List.filter_map, associateBy_map]
  rfl

/-- Another round drops no location. -/
theorem locations_normalized_twice (b : LocationBundleV4) :
    b.normalized.normalized.locations = b.keptLocations.map fun e => e.normalized.normalized := by
  have hkept : ∀ e ∈ b.normalized.locations, isBlank e.storageId = false ∧
      e.location.isComplete = true := by
    intro e he
    have hkeeps := (of_mem_normalizedLocations he).2
    rwa [keeps, Bool.and_eq_true, Bool.not_eq_true'] at hkeeps
  have hids : b.normalized.locations.map (trim ·.storageId) =
      b.normalized.locations.map (·.storageId) := by
    rw [locations_normalized, List.map_map, List.map_map]
    exact List.map_congr_left fun e _ => trim_trim e.storageId
  have hnodup : (b.normalized.locations.map (trim ·.storageId)).Nodup :=
    hids ▸ normalizedLocations_nodup b.locations
  rw [normalized_locations b.normalized, normalizedLocations_eq_map hkept hnodup,
    locations_normalized, List.map_map]
  rfl

/-- The lists it serves are the same after another round. -/
theorem servedUrls_normalized (b : LocationBundleV4) :
    (b.normalized.normalized.locations.filterMap fun e =>
      e.subscriptionUrl.bind fun url => nonEmpty (trim url)) = b.servedUrls := by
  rw [locations_normalized_twice, List.filterMap_map]
  refine List.filterMap_congr fun e _ => ?_
  show (LocationEntry.urlOf (LocationEntry.urlOf _ _) none).bind _ = _
  rw [LocationEntry.urlOf_urlOf]

/-- Another round drops no record. -/
theorem refusedLists_normalized_twice (b : LocationBundleV4) :
    b.normalized.normalized.refusedLists = b.keptRefusals.map fun r => r.normalized.normalized := by
  have hkept : ∀ r ∈ b.keptRefusals, trim r.subscriptionUrl ≠ [] ∧
      trim r.subscriptionUrl ∉ b.servedUrls :=
    fun r hr => of_decide_eq_true (List.mem_filter.mp (mem_of_mem_associateBy hr)).2
  have hfilter : (b.keptRefusals.map fun r => r.normalized.normalized).filter
      (fun r => r.subscriptionUrl ≠ [] ∧ r.subscriptionUrl ∉ b.servedUrls) =
        b.keptRefusals.map fun r => r.normalized.normalized := by
    refine List.filter_eq_self.mpr fun r hr => decide_eq_true ?_
    obtain ⟨r₀, hr₀, rfl⟩ := List.mem_map.mp hr
    show trim (trim _) ≠ [] ∧ trim (trim _) ∉ _
    rw [trim_trim]
    exact hkept r₀ hr₀
  have hnodup : ((b.keptRefusals.map fun r => r.normalized.normalized).map
      (·.subscriptionUrl)).Nodup := by
    have hkeys : (b.keptRefusals.map fun r => r.normalized.normalized).map (·.subscriptionUrl) =
        b.keptRefusals.map (trim ·.subscriptionUrl) := by
      rw [List.map_map]
      exact List.map_congr_left fun r _ => trim_trim r.subscriptionUrl
    exact hkeys ▸ associateBy_nodup _
  have hserved := b.servedUrls_normalized
  show associateBy _ ((b.normalized.refusedLists.map _).filter _) = _
  rw [normalized_locations b.normalized] at hserved
  rw [hserved, refusedLists_normalized, List.map_map]
  exact (congrArg (associateBy _) hfilter).trans (associateBy_eq_self hnodup)

/-- The selection is settled after one round. -/
theorem selection_normalized_twice (b : LocationBundleV4) :
    b.normalized.normalized.activeLocationId = b.normalized.activeLocationId ∧
      b.normalized.normalized.selectionWithdrawn = b.normalized.selectionWithdrawn := by
  have hids : b.normalized.normalized.locations.map (·.storageId) =
      b.normalized.locations.map (·.storageId) := by
    rw [locations_normalized_twice, locations_normalized, List.map_map, List.map_map]
    exact List.map_congr_left fun e _ => trim_trim e.storageId
  have hempty : b.normalized.normalized.locations = [] ↔ b.normalized.locations = [] := by
    rw [← List.map_eq_nil_iff, hids, List.map_eq_nil_iff]
  have hactive : b.normalized.normalized.activeLocationId =
      (b.normalized.activeLocationId.filter (holds b.normalized.normalized.locations)).or
        (if b.normalized.normalized.selectionWithdrawn then none
          else b.normalized.normalized.locations.head?.map (·.storageId)) := rfl
  have hwithdrawn : b.normalized.normalized.selectionWithdrawn = (b.normalized.selectionWithdrawn &&
      (b.normalized.activeLocationId.filter (holds b.normalized.normalized.locations)).isNone &&
      !b.normalized.normalized.locations.isEmpty) := rfl
  cases hchosen : b.normalized.activeLocationId with
  | some id =>
      have hholds : holds b.normalized.normalized.locations id = true := by
        have hany : ∀ es : List LocationEntry, holds es id = (es.map (·.storageId)).any (· == id) :=
          fun es => by rw [List.any_map]; rfl
        rw [hany, hids, ← hany]
        exact selected_normalized hchosen
      have hselected : b.normalized.selectionWithdrawn = false := by
        rw [← Bool.not_eq_true]
        intro h
        rw [b.unselected_normalized.mpr (.inr h)] at hchosen
        cases hchosen
      rw [hactive, hwithdrawn, hchosen, Option.filter_some, if_pos hholds, hselected]
      exact ⟨rfl, rfl⟩
  | none =>
      rw [hactive, hwithdrawn, hchosen, Option.filter_none, Option.none_or]
      rcases b.unselected_normalized.mp hchosen with hnil | hgone
      · rw [hempty.mpr hnil, Store.withdrawn_of_empty hnil]
        exact ⟨rfl, rfl⟩
      · have hsome : b.normalized.normalized.locations.isEmpty = false := by
          rw [← Bool.not_eq_true, List.isEmpty_iff, hempty]
          intro hnil
          rw [Store.withdrawn_of_empty hnil] at hgone
          cases hgone
        rw [hgone, hsome]
        exact ⟨rfl, rfl⟩

/-- **A second round changes a bundle exactly when** a note it keeps was cut behind white space. -/
theorem normalized_normalized_iff (b : LocationBundleV4) :
    b.normalized.normalized = b.normalized ↔ b.settled = true := by
  have hlocations : b.normalized.normalized.locations = b.normalized.locations ↔
      b.keptLocations.all (·.settled) = true := by
    rw [locations_normalized_twice, locations_normalized, List.map_inj_left, List.all_eq_true]
    exact forall₂_congr fun e _ => e.normalized_twice_iff
  have hrefused : b.normalized.normalized.refusedLists = b.normalized.refusedLists ↔
      b.keptRefusals.all (·.settled) = true := by
    rw [refusedLists_normalized_twice, refusedLists_normalized, List.map_inj_left, List.all_eq_true]
    exact forall₂_congr fun r _ => r.normalized_twice_iff
  rw [settled, Bool.and_eq_true, ← hlocations, ← hrefused]
  refine ⟨fun h => by rw [h]; exact ⟨rfl, rfl⟩, fun ⟨hl, hr⟩ => ?_⟩
  obtain ⟨hactive, hwithdrawn⟩ := b.selection_normalized_twice
  have heq : b.normalized.normalized = { b.normalized with
      activeLocationId := b.normalized.normalized.activeLocationId
      locations := b.normalized.normalized.locations
      settings := b.settings.normalized.normalized
      refusedLists := b.normalized.normalized.refusedLists
      selectionWithdrawn := b.normalized.normalized.selectionWithdrawn } := rfl
  rw [heq, hactive, hl, hr, hwithdrawn, SubscriptionSettings.normalized_normalized]
  rfl

end

end LocationBundleV4

/-! ### A note cut behind a space -/

section

attribute [local instance] Build.plain

/-- A list that was refused, with a note of 202 characters whose two hundredth is a space. -/
def notedRefusal : RefusedList :=
  { subscriptionUrl := txt "https://a.example/l"
    subscription := some { announce := some (List.replicate 199 'a' ++ txt " bb") } }

/-- The first round cuts the note behind the space, the second takes the space. -/
theorem note_drifts :
    let b : LocationBundleV4 := { refusedLists := [notedRefusal] }
    b.normalized.normalized ≠ b.normalized := by
  decide +kernel

end

end Ghostlane.App
