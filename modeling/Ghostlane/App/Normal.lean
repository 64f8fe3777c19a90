import Ghostlane.App.Bundle

/-!
# Ghostlane.App.Normal

What normalizing keeps. A location is normalized once and for all
(`LocationConfig.normalized_normalized`); an entry is settled after two rounds
and not after one (`LocationEntry.normalized_thrice`), because a note is
trimmed before it is cut to its length and the cut may leave a space at its
end. Every read normalizes what a write normalized, so what a read returns is
settled.

Which server an entry is does not change at all: `LocationConfig.line` is what
dials it, and it comes through every round (`LocationEntry.line_normalized`).
-/

namespace Ghostlane.App

open Ghostlane.Lib

/-! ### Values -/

@[simp] theorem nonEmpty_trim_trim (t : Text) : nonEmpty (trim (trim t)) = nonEmpty (trim t) := by
  rw [trim_trim]

theorem nonEmpty_eq_some {t u : Text} : nonEmpty t = some u ↔ t ≠ [] ∧ t = u := by
  unfold nonEmpty
  split <;> simp_all

@[simp] theorem clean_clean (v : Option Text) :
    cleanMetadataValue (cleanMetadataValue v) = cleanMetadataValue v := by
  cases v with
  | none => rfl
  | some t =>
      simp only [cleanMetadataValue, Option.bind_some]
      cases ht : nonEmpty (trim t) with
      | none => rfl
      | some u =>
          obtain ⟨-, rfl⟩ := nonEmpty_eq_some.mp ht
          rw [Option.bind_some, trim_trim, ht]

@[simp] theorem isNullOrBlank_clean (v : Option Text) :
    isNullOrBlank (cleanMetadataValue v) = isNullOrBlank v := by
  cases v with
  | none => rfl
  | some t =>
      simp only [cleanMetadataValue, Option.bind_some, nonEmpty]
      split
      · rename_i hnil
        exact (trim_eq_nil_iff.mp hnil).symm
      · exact isBlank_trim t

@[simp] theorem filter_pos_filter (v : Option Int) :
    (v.filter fun n => decide (0 < n)).filter (fun n => decide (0 < n)) =
      v.filter fun n => decide (0 < n) := by
  cases v with
  | none => rfl
  | some n => by_cases h : 0 < n <;> simp [Option.filter, h]

@[simp] theorem coerceInterval_coerceInterval (n : Int) :
    SubscriptionMetadata.coerceInterval (SubscriptionMetadata.coerceInterval n) =
      SubscriptionMetadata.coerceInterval n :=
  coerceIn_coerceIn (by decide)

/-! ### A note cut to its length -/

/-- The announcement as `normalized` leaves it. -/
def cleanAnnounce (v : Option Text) : Option Text :=
  (cleanMetadataValue v).map (takeUnits SubscriptionMetadata.announceMaxChars)

/-- A text that begins with no white space is only trimmed at its end. -/
theorem trim_prefix_of_head {t : Text} (h : ∀ c, t.head? = some c → isWhitespace c = false) :
    trim t <+: t := by
  have hdrop : t.dropWhile isWhitespace = t := by
    rw [List.dropWhile_eq_self_iff]
    intro hl
    rw [h _ (List.head?_eq_getElem? ▸ List.getElem?_eq_getElem hl)]
    simp
  rw [trim, trimBy, hdrop]
  exact List.rdropWhile_prefix _ _

/-- The cut keeps the first character. -/
theorem head?_takeUnits {n : Nat} (hn : 2 ≤ n) (t : Text) : (takeUnits n t).head? = t.head? := by
  cases t with
  | nil => rfl
  | cons c t =>
      have hfits : units c ≤ n := by
        unfold units
        split <;> omega
      rw [takeUnits, if_pos hfits]
      rfl

theorem head?_cut_trim (t : Text) (c : Char)
    (h : (takeUnits SubscriptionMetadata.announceMaxChars (trim t)).head? = some c) :
    isWhitespace c = false := by
  rw [head?_takeUnits (by decide)] at h
  exact head?_trimBy c h

/-- Some note is left of one that says something. -/
theorem cut_trim_not_blank {t : Text} (h : trim t ≠ []) :
    isBlank (takeUnits SubscriptionMetadata.announceMaxChars (trim t)) = false := by
  have hhead := head?_takeUnits (show 2 ≤ SubscriptionMetadata.announceMaxChars by decide) (trim t)
  rw [List.head?_eq_some_head h] at hhead
  obtain ⟨rest, hrest⟩ := List.head?_eq_some_iff.mp hhead
  rw [hrest, isBlank, List.all_cons, head?_cut_trim t _ hhead, Bool.false_and]

theorem cleanAnnounce_some {t : Text} (h : trim t ≠ []) :
    cleanAnnounce (some t) =
      some (takeUnits SubscriptionMetadata.announceMaxChars (trim t)) := by
  rw [cleanAnnounce, cleanMetadataValue, Option.bind_some, nonEmpty_eq_some.mpr ⟨h, rfl⟩,
    Option.map_some]

@[simp] theorem isNullOrBlank_cleanAnnounce (v : Option Text) :
    isNullOrBlank (cleanAnnounce v) = isNullOrBlank v := by
  cases v with
  | none => rfl
  | some t =>
      by_cases h : trim t = []
      · rw [cleanAnnounce, cleanMetadataValue, Option.bind_some, h]
        exact (trim_eq_nil_iff.mp h).symm
      · rw [cleanAnnounce_some h]
        rw [isNullOrBlank, cut_trim_not_blank h, isNullOrBlank, ← isBlank_trim]
        exact (Bool.eq_false_iff.mpr fun hb => h (isBlank_trim_iff.mp hb)).symm

/-- A note cut once is only trimmed by the next round. -/
theorem cleanAnnounce_cut {t : Text} (h : trim t ≠ []) :
    cleanAnnounce (some (takeUnits SubscriptionMetadata.announceMaxChars (trim t))) =
      some (trim (takeUnits SubscriptionMetadata.announceMaxChars (trim t))) := by
  have hne : trim (takeUnits SubscriptionMetadata.announceMaxChars (trim t)) ≠ [] := by
    intro hnil
    have hblank := cut_trim_not_blank h
    rw [trim_eq_nil_iff.mp hnil] at hblank
    exact absurd hblank (by decide)
  rw [cleanAnnounce_some hne, takeUnits_of_prefix (trim_prefix_of_head (head?_cut_trim t))]

/-- A note nothing is left of. -/
theorem cleanAnnounce_blank {t : Text} (h : trim t = []) : cleanAnnounce (some t) = none := by
  rw [cleanAnnounce, cleanMetadataValue, Option.bind_some, h]
  rfl

/-- **A note is settled after two rounds**: the second trims what the first cut,
and nothing is left to cut or to trim. -/
@[simp] theorem cleanAnnounce_thrice (v : Option Text) :
    cleanAnnounce (cleanAnnounce (cleanAnnounce v)) = cleanAnnounce (cleanAnnounce v) := by
  cases v with
  | none => rfl
  | some t =>
      by_cases h : trim t = []
      · rw [cleanAnnounce_blank h]
        rfl
      · have hcut := takeUnits_of_prefix (trim_prefix_of_head (head?_cut_trim t))
        rw [cleanAnnounce_some h, cleanAnnounce_cut h]
        set u := takeUnits SubscriptionMetadata.announceMaxChars (trim t) with hu
        have hne : trim (trim u) ≠ [] := by
          intro hnil
          have hblank := cut_trim_not_blank h
          rw [← hu, trim_eq_nil_iff.mp (trim_trim u ▸ hnil)] at hblank
          exact absurd hblank (by decide)
        rw [cleanAnnounce_some hne, trim_trim, hcut]

/-! ### Metadata -/

/-- Normalizing and then leaving out what is empty settles when normalizing
does. -/
theorem cleaned_thrice {α : Type} {norm : α → α} {empty : α → Bool}
    (hnorm : ∀ a, norm (norm (norm a)) = norm (norm a))
    (hempty : ∀ a, empty (norm (norm a)) = empty (norm a)) (m : Option α) :
    ((((((m.map norm).filter (!empty ·)).map norm).filter (!empty ·)).map norm).filter
      (!empty ·)) = (((m.map norm).filter (!empty ·)).map norm).filter (!empty ·) := by
  cases m with
  | none => rfl
  | some a =>
      cases h : empty (norm a) with
      | true => simp [Option.filter, h]
      | false => simp [Option.filter, h, hempty, hnorm]

namespace SubscriptionMetadata

@[simp] theorem normalized_announce (m : SubscriptionMetadata) :
    m.normalized.announce = cleanAnnounce m.announce := rfl

theorem normalized_thrice (m : SubscriptionMetadata) :
    m.normalized.normalized.normalized = m.normalized.normalized := by
  have h := cleanAnnounce_thrice m.announce
  simp only [cleanAnnounce] at h
  simp only [normalized, clean_clean, filter_pos_filter, Option.map_map, h]
  congr 1
  cases m.updateIntervalHours <;> simp

theorem isEmpty_normalized_normalized (m : SubscriptionMetadata) :
    m.normalized.normalized.isEmpty = m.normalized.isEmpty := by
  have h := isNullOrBlank_cleanAnnounce
  simp only [cleanAnnounce] at h
  simp only [isEmpty, normalized, List.all_cons, List.all_nil, isNullOrBlank_clean, h,
    Option.isNone_map, filter_pos_filter]

theorem cleaned_thrice (m : Option SubscriptionMetadata) :
    cleaned (cleaned (cleaned m)) = cleaned (cleaned m) :=
  App.cleaned_thrice normalized_thrice isEmpty_normalized_normalized m

/-- What was left in is left in again. -/
theorem isEmpty_of_cleaned (m : Option SubscriptionMetadata) :
    (cleaned (cleaned m)).isNone = (cleaned m).isNone := by
  cases m with
  | none => rfl
  | some a =>
      cases h : a.normalized.isEmpty with
      | true => simp [cleaned, Option.filter, h]
      | false => simp [cleaned, Option.filter, h, isEmpty_normalized_normalized]

theorem all_isEmpty_cleaned (m : Option SubscriptionMetadata) :
    (cleaned m).all (·.isEmpty) = (cleaned m).isNone := by
  cases m with
  | none => rfl
  | some a => cases h : a.normalized.isEmpty <;> simp [cleaned, Option.filter, h]

end SubscriptionMetadata

namespace LocationMetadata

theorem normalized_thrice (m : LocationMetadata) :
    m.normalized.normalized.normalized = m.normalized.normalized := by
  simp only [normalized, clean_clean, SubscriptionMetadata.cleaned_thrice]

theorem isEmpty_normalized_normalized (m : LocationMetadata) :
    m.normalized.normalized.isEmpty = m.normalized.isEmpty := by
  simp only [isEmpty, normalized, List.all_cons, List.all_nil, clean_clean,
    SubscriptionMetadata.all_isEmpty_cleaned, SubscriptionMetadata.isEmpty_of_cleaned]

theorem cleaned_thrice (m : Option LocationMetadata) :
    cleaned (cleaned (cleaned m)) = cleaned (cleaned m) :=
  App.cleaned_thrice normalized_thrice isEmpty_normalized_normalized m

end LocationMetadata

/-! ### Carriers and transports -/

theorem normalizeProvider_mem (v : Text) :
    normalizeProvider v ∈ [providerTelemost, providerWbStream, providerJitsi, providerSaluteJazz,
      providerVkCalls, providerMtsLink] := by
  unfold normalizeProvider defaultBypassProvider
  dsimp only
  split_ifs <;> simp only [List.mem_cons, true_or, or_true]

@[simp] theorem normalizeProvider_normalizeProvider (v : Text) :
    normalizeProvider (normalizeProvider v) = normalizeProvider v := by
  have hfix : ∀ p ∈ [providerTelemost, providerWbStream, providerJitsi, providerSaluteJazz,
      providerVkCalls, providerMtsLink], normalizeProvider p = p := by decide
  exact hfix _ (normalizeProvider_mem v)

/-- A carrier's name is not blank. -/
theorem isBlank_normalizeProvider (v : Text) : isBlank (normalizeProvider v) = false := by
  have hnot : ∀ p ∈ [providerTelemost, providerWbStream, providerJitsi, providerSaluteJazz,
      providerVkCalls, providerMtsLink], isBlank p = false := by decide
  exact hnot _ (normalizeProvider_mem v)

theorem trim_normalizeProvider (v : Text) : trim (normalizeProvider v) = normalizeProvider v := by
  have hfix : ∀ p ∈ [providerTelemost, providerWbStream, providerJitsi, providerSaluteJazz,
      providerVkCalls, providerMtsLink], trim p = p := by decide
  exact hfix _ (normalizeProvider_mem v)

theorem supportedTransports_cases (p : Text) :
    supportedTransportsForProvider p ∈ [[transportVp8Channel, transportSeiChannel],
      [transportDataChannel], [transportVp8Channel],
      [transportDataChannel, transportVp8Channel, transportSeiChannel]] := by
  unfold supportedTransportsForProvider
  dsimp only
  split_ifs <;> simp only [List.mem_cons, true_or, or_true]

theorem normalizeTransport_mem (v p : Text) :
    normalizeTransport v p ∈ supportedTransportsForProvider p := by
  have hhead : ∀ l ∈ [[transportVp8Channel, transportSeiChannel], [transportDataChannel],
      [transportVp8Channel], [transportDataChannel, transportVp8Channel, transportSeiChannel]],
      l.head?.getD defaultTransport ∈ l := by decide
  unfold normalizeTransport
  dsimp only
  split
  · assumption
  · exact hhead _ (supportedTransports_cases p)

@[simp] theorem normalizeTransport_normalizeTransport (v p : Text) :
    normalizeTransport (normalizeTransport v p) p = normalizeTransport v p := by
  have hfix : ∀ l ∈ [[transportVp8Channel, transportSeiChannel], [transportDataChannel],
      [transportVp8Channel], [transportDataChannel, transportVp8Channel, transportSeiChannel]],
      ∀ t ∈ l, (transportOrNull t).getD defaultTransport = t := by decide
  have hmem := normalizeTransport_mem v p
  have hname := hfix _ (supportedTransports_cases p) _ hmem
  rw [normalizeTransport, hname, if_pos hmem]

/-! ### Locations -/

/-- What dials a server: the room of an olcRTC location, the link of any other. -/
inductive Line
  | room (provider transport id key : Text)
  | link (raw : Option Text)
  deriving DecidableEq, Repr

/-- Can the line be dialled: a room with its key, or a link that parses. -/
def Line.dials [JsonReader] : Line → Bool
  | room _ _ id key => !isBlank id && !isBlank key
  | link raw => raw.any fun link => (LinkParser.parse link).isSome

namespace LocationConfig

/-- The line a location stands for. -/
def line (c : LocationConfig) : Line :=
  match c.kind with
  | .olcrtc => .room c.bypassProvider c.transport c.id c.key
  | _ => .link c.rawLink

/-- A location with the default options of the video channel. -/
def withoutVp8 (c : LocationConfig) : LocationConfig :=
  { c with vp8Fps := defaultVp8Fps, vp8Batch := defaultVp8Batch }

/-- What an entry keeps of a location: the options of the video channel go with
any other transport. -/
def stored (c : LocationConfig) : LocationConfig :=
  if c.transport = transportVp8Channel then c else c.withoutVp8

theorem failover_normalized (id : Text) (rooms : List Text) :
    let keep (l : List Text) : List Text :=
      distinct ((l.map trim).filter fun room => !isBlank room && room ≠ trim id)
    keep (keep rooms) = keep rooms := by
  intro keep
  have hmem : ∀ room ∈ keep rooms, trim room = room ∧
      (!isBlank room && decide (room ≠ trim id)) = true := by
    intro room hroom
    have hfiltered := (distinctBy_sublist _).subset hroom
    rw [List.mem_filter, List.mem_map] at hfiltered
    obtain ⟨⟨room₀, -, rfl⟩, hkeep⟩ := hfiltered
    exact ⟨trim_trim room₀, hkeep⟩
  have htrim : (keep rooms).map trim = keep rooms := by
    conv_rhs => rw [← List.map_id (keep rooms)]
    exact List.map_congr_left fun room hroom => (hmem room hroom).1
  have hfilter : (keep rooms).filter (fun room => !isBlank room && room ≠ trim id) =
      keep rooms := List.filter_eq_self.mpr fun room hroom => (hmem room hroom).2
  show distinct (((keep rooms).map trim).filter _) = keep rooms
  rw [htrim, hfilter]
  exact distinctBy_eq_self_iff.mpr (distinctBy_nodup _)

@[simp] theorem normalized_normalized (c : LocationConfig) :
    c.normalized.normalized = c.normalized := by
  have hrooms := failover_normalized c.id c.failoverRoomIds
  simp only at hrooms
  simp only [normalized, trim_trim, normalizeProvider_normalizeProvider,
    normalizeTransport_normalizeTransport, sanitizeVp8Fps, sanitizeVp8Batch,
    coerceIn_coerceIn (show (1 : Int) ≤ 120 by decide),
    coerceIn_coerceIn (show (1 : Int) ≤ 64 by decide), hrooms]

theorem normalized_withoutVp8 (c : LocationConfig) :
    c.withoutVp8.normalized = c.normalized.withoutVp8 := by
  have hfps : sanitizeVp8Fps defaultVp8Fps = defaultVp8Fps := by decide
  have hbatch : sanitizeVp8Batch defaultVp8Batch = defaultVp8Batch := by decide
  simp only [normalized, withoutVp8, hfps, hbatch]
  rfl

@[simp] theorem stored_stored (c : LocationConfig) : c.stored.stored = c.stored := by
  by_cases h : c.transport = transportVp8Channel
  · simp only [stored, if_pos h]
  · simp only [stored, if_neg h]
    exact if_neg h

@[simp] theorem stored_transport (c : LocationConfig) : c.stored.transport = c.transport := by
  unfold stored
  split <;> rfl

@[simp] theorem line_stored (c : LocationConfig) : c.stored.line = c.line := by
  unfold stored
  split <;> rfl

/-- Whether a location can be dialled depends on its line alone. -/
theorem isComplete_eq_dials [JsonReader] (c : LocationConfig) : c.isComplete = c.line.dials := by
  unfold isComplete line
  cases c.kind <;> rfl

end LocationConfig

/-! ### Entries -/

namespace LocationEntry

/-- The entry of a normalized location, before it is normalized itself. -/
def ofConfig (storageId : Text) (c : LocationConfig) (subscriptionUrl originLink : Option Text)
    (metadata : Option LocationMetadata) : LocationEntry where
  storageId := storageId
  name := c.name
  subscriptionUrl := subscriptionUrl
  subscriptionOriginLink := originLink
  endpoint := some { roomId := c.id, key := c.key }
  failoverRooms := c.failoverRoomIds
  authProvider := some c.bypassProvider
  transport := some (.fromConfig c)
  metadata := metadata
  kind := c.kind
  rawLink := c.rawLink

/-- The list address of an entry, from either of its fields. -/
def urlOf (url legacy : Option Text) : Option Text := nonBlank (firstNotBlank [url, legacy])

theorem normalized_eq (e : LocationEntry) :
    e.normalized = ofConfig (trim e.storageId) e.location
      (urlOf e.subscriptionUrl e.legacySubscriptionUrl)
      (e.subscriptionOriginLink.bind fun link => nonBlank (trim link))
      (LocationMetadata.cleaned e.metadata) := rfl

theorem fromLocation_eq (storageId : Text) (c : LocationConfig) (url origin : Option Text)
    (m : Option LocationMetadata) :
    fromLocation storageId c url origin m =
      (ofConfig storageId c.normalized url origin m).normalized := rfl

theorem firstNotBlank_cons_none (t : Text) (rest : List (Option Text))
    (hrest : ∀ v ∈ rest, v = none) (ht : isBlank t = true → t = []) :
    firstNotBlank (some t :: rest) = t := by
  by_cases hblank : isBlank t = true
  · have hnone : (some t :: rest).find? (fun v => !isNullOrBlank v) = none := by
      rw [List.find?_eq_none]
      intro v hv
      rcases List.mem_cons.mp hv with rfl | hv
      · simp [isNullOrBlank, hblank]
      · simp [hrest v hv, isNullOrBlank]
    rw [firstNotBlank, hnone, ht hblank]
    rfl
  · rw [firstNotBlank, List.find?_cons_of_pos (by simpa [isNullOrBlank] using hblank)]
    rfl

/-- **The entry of a location gives it back**, up to what `stored` leaves out. -/
theorem location_ofConfig {c : LocationConfig} (hc : c.normalized = c) (storageId : Text)
    (url origin : Option Text) (m : Option LocationMetadata) :
    (ofConfig storageId c url origin m).location = c.stored := by
  have hid : trim c.id = c.id := congrArg LocationConfig.id hc
  have hkey : trim c.key = c.key := congrArg LocationConfig.key hc
  have hprovider : normalizeProvider c.bypassProvider = c.bypassProvider :=
    congrArg LocationConfig.bypassProvider hc
  have hblank : ∀ {t : Text}, trim t = t → isBlank t = true → t = [] := fun ht hb =>
    ht ▸ trim_eq_nil_iff.mpr hb
  have h₁ : firstNotBlank [some c.id, none, none, none] = c.id :=
    firstNotBlank_cons_none _ _ (by simp) (hblank hid)
  have h₂ : firstNotBlank [some c.key, none, none] = c.key :=
    firstNotBlank_cons_none _ _ (by simp) (hblank hkey)
  have h₃ : firstNotBlank [some c.bypassProvider, none, none, none, none] = c.bypassProvider := by
    refine firstNotBlank_cons_none _ _ (by simp) fun hb => ?_
    rw [← hprovider, isBlank_normalizeProvider] at hb
    exact absurd hb (by decide)
  -- What is left is the two shapes of the stored transport.
  unfold location ofConfig LocationTransportConfig.fromConfig
  simp only [Option.getD_some, Option.map_some, h₁, h₂, h₃, hc]
  unfold LocationConfig.stored
  split
  · have hfps : sanitizeVp8Fps c.vp8Fps = c.vp8Fps := congrArg LocationConfig.vp8Fps hc
    have hbatch : sanitizeVp8Batch c.vp8Batch = c.vp8Batch := congrArg LocationConfig.vp8Batch hc
    simpa [hfps, hbatch] using hc
  · have hdefault := LocationConfig.normalized_withoutVp8 c
    rw [hc] at hdefault
    rw [← hdefault]
    simp only [LocationConfig.withoutVp8, Option.map_none, Option.or_none, Option.getD_none]

@[simp] theorem normalized_location (e : LocationEntry) : e.location.normalized = e.location :=
  LocationConfig.normalized_normalized _

theorem location_normalized (e : LocationEntry) : e.normalized.location = e.location.stored := by
  rw [normalized_eq]
  exact location_ofConfig e.normalized_location _ _ _ _

theorem location_fromLocation (storageId : Text) (c : LocationConfig) (url origin : Option Text)
    (m : Option LocationMetadata) :
    (fromLocation storageId c url origin m).location = c.normalized.stored := by
  rw [fromLocation_eq, location_normalized, location_ofConfig c.normalized_normalized,
    LocationConfig.stored_stored]

/-- **Normalizing an entry does not change its line.** -/
@[simp] theorem line_normalized (e : LocationEntry) :
    e.normalized.location.line = e.location.line := by
  rw [location_normalized, LocationConfig.line_stored]

theorem urlOf_urlOf (url legacy : Option Text) :
    urlOf (urlOf url legacy) none = urlOf url legacy := by
  unfold urlOf
  cases h : nonBlank (firstNotBlank [url, legacy]) with
  | none => rfl
  | some v =>
      obtain ⟨hv, rfl⟩ := nonBlank_eq_some.mp h
      rw [firstNotBlank_cons_none _ _ (by simp) (fun hb => absurd hb (by simp [hv]))]
      exact h

theorem origin_origin (link : Option Text) :
    (link.bind fun l => nonBlank (trim l)).bind (fun l => nonBlank (trim l)) =
      link.bind fun l => nonBlank (trim l) := by
  cases link with
  | none => rfl
  | some l =>
      rw [Option.bind_some]
      cases h : nonBlank (trim l) with
      | none => rfl
      | some v =>
          obtain ⟨-, rfl⟩ := nonBlank_eq_some.mp h
          rw [Option.bind_some, trim_trim, h]

/-- **An entry is settled after two rounds.** -/
theorem normalized_thrice (e : LocationEntry) :
    e.normalized.normalized.normalized = e.normalized.normalized := by
  have hloc : e.normalized.normalized.location = e.normalized.location := by
    rw [location_normalized, location_normalized, LocationConfig.stored_stored]
  rw [normalized_eq e.normalized.normalized, hloc, normalized_eq e.normalized]
  show ofConfig (trim (trim (trim e.storageId))) _ (urlOf (urlOf (urlOf _ _) none) none)
    (((e.subscriptionOriginLink.bind _).bind _).bind _)
    (LocationMetadata.cleaned (LocationMetadata.cleaned (LocationMetadata.cleaned e.metadata))) =
    ofConfig (trim (trim e.storageId)) _ (urlOf (urlOf _ _) none)
      ((e.subscriptionOriginLink.bind _).bind _)
      (LocationMetadata.cleaned (LocationMetadata.cleaned e.metadata))
  rw [trim_trim, urlOf_urlOf, origin_origin, LocationMetadata.cleaned_thrice]

end LocationEntry

end Ghostlane.App
