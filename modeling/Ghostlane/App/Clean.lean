import Ghostlane.App.ImportSound
import Ghostlane.App.Repository

/-!
# Ghostlane.App.Clean

What a read returns. Its entries are settled, each can be dialled, and no two
share an id (`LocationBundleV4.Clean`); so normalizing it once more, as every
write does, changes none of them. This holds of every store, whether the bundle
comes from disk or is adopted from the storage before bundles
(`Store.clean_getBundleUnlocked`).
-/

namespace Ghostlane.App

open Ghostlane.Lib

variable [Build]

namespace LocationBundleV4

/-- Nothing is left to normalize in the locations. -/
structure Clean (b : LocationBundleV4) : Prop where
  settled : ∀ e ∈ b.locations, e.normalized = e
  kept : ∀ e ∈ b.locations, keeps e = true
  nodup : (b.locations.map (·.storageId)).Nodup

/-- An id that normalizing leaves as it is. -/
theorem Clean.trim_id {b : LocationBundleV4} (h : b.Clean) {e : LocationEntry}
    (he : e ∈ b.locations) : trim e.storageId = e.storageId :=
  congrArg LocationEntry.storageId (h.settled e he)

omit [Build] in
theorem keeps_normalized [JsonReader] (e : LocationEntry) :
    keeps e.normalized = (!isBlank e.storageId && e.location.isComplete) := by
  have hid : e.normalized.storageId = trim e.storageId := rfl
  rw [keeps, hid, isBlank_trim, LocationConfig.isComplete_eq_dials,
    LocationConfig.isComplete_eq_dials, LocationEntry.line_normalized]

/-- Nothing is lost of entries that are all kept and share no id. -/
theorem normalizedLocations_eq_map {es : List LocationEntry}
    (hkept : ∀ e ∈ es, isBlank e.storageId = false ∧ e.location.isComplete = true)
    (hnodup : (es.map (trim ·.storageId)).Nodup) :
    normalizedLocations es = es.map (·.normalized) := by
  have hfilter : (es.map (·.normalized)).filter keeps = es.map (·.normalized) := by
    refine List.filter_eq_self.mpr fun e he => ?_
    obtain ⟨e₀, he₀, rfl⟩ := List.mem_map.mp he
    obtain ⟨hid, hcomplete⟩ := hkept e₀ he₀
    rw [keeps_normalized, hid, hcomplete]
    rfl
  rw [normalizedLocations, hfilter]
  refine distinctBy_eq_self_iff.mpr ?_
  rw [List.map_map]
  exact hnodup

theorem Clean.isComplete {b : LocationBundleV4} (h : b.Clean) {e : LocationEntry}
    (he : e ∈ b.locations) : isBlank e.storageId = false ∧ e.location.isComplete = true := by
  have hkeeps := h.kept e he
  rw [keeps, Bool.and_eq_true, Bool.not_eq_true'] at hkeeps
  exact hkeeps

theorem Clean.trim_ids {b : LocationBundleV4} (h : b.Clean) :
    b.locations.map (trim ·.storageId) = b.locations.map (·.storageId) :=
  List.map_congr_left fun _ he => h.trim_id he

theorem Clean.map_normalized {b : LocationBundleV4} (h : b.Clean) :
    b.locations.map (·.normalized) = b.locations := by
  conv_rhs => rw [← List.map_id b.locations]
  exact List.map_congr_left fun e he => h.settled e he

/-- **A clean bundle keeps its locations when it is normalized.** -/
theorem Clean.normalizedLocations_eq {b : LocationBundleV4} (h : b.Clean) :
    normalizedLocations b.locations = b.locations := by
  rw [normalizedLocations_eq_map (fun e he => h.isComplete he) (h.trim_ids ▸ h.nodup),
    h.map_normalized]

/-- Two rounds make any bundle clean. -/
theorem Written.clean_normalized {b : LocationBundleV4} (h : b.Written) : b.normalized.Clean where
  settled e he := by
    obtain ⟨⟨e₁, he₁, rfl⟩, -⟩ := of_mem_normalizedLocations he
    obtain ⟨e₀, rfl⟩ := h e₁ he₁
    exact e₀.normalized_thrice
  kept e he := (of_mem_normalizedLocations he).2
  nodup := normalizedLocations_nodup b.locations

theorem clean_of_nil {b : LocationBundleV4} (h : b.locations = []) : b.Clean where
  settled e he := absurd (h ▸ he) List.not_mem_nil
  kept e he := absurd (h ▸ he) List.not_mem_nil
  nodup := by simp [h]

end LocationBundleV4

namespace Store

theorem clean_stored {s : Store} {b : LocationBundleV4} (h : s.stored = some b) : b.Clean := by
  obtain ⟨b₀, hb₀, rfl⟩ := Option.map_eq_some_iff.mp h
  exact (s.written b₀ hb₀).clean_normalized

theorem written_legacyBundle {s : Store} {b : LocationBundleV4} (h : s.legacyBundle = .ok b) :
    b.Written := by
  obtain ⟨found, hfound, h⟩ := bind_eq_ok.mp h
  cases h
  intro e he
  obtain ⟨e', he', rfl⟩ := List.mem_filterMap.mp he
  -- Every entry found came out of one text.
  have hread : ∀ (texts : List (Text × Text)) (es : List (Option LocationEntry)),
      texts.mapM (fun p => parseSingleLocation p.2 (some p.1)) = .ok es →
      some e ∈ es → ∃ e₀ : LocationEntry, e₀.normalized = e := by
    intro texts
    induction texts with
    | nil =>
        intro es hes hmem
        cases hes
        cases hmem
    | cons p texts ih =>
        intro es hes hmem
        rw [List.mapM_cons, bind_eq_ok] at hes
        obtain ⟨e₁, he₁, hes⟩ := hes
        obtain ⟨es', hes', hes⟩ := bind_eq_ok.mp hes
        cases hes
        rcases List.mem_cons.mp hmem with rfl | hmem
        · exact wellRead_of_parseSingleLocation he₁
        · exact ih es' hes' hmem
  exact hread s.legacyLocations found hfound he'

/-- What a read returns, and the store after it. -/
inductive Reads (s : Store) : LocationBundleV4 → Store → Prop
  /-- The bundle on disk has locations. -/
  | stored {b : LocationBundleV4} (hb : s.stored = some b) (hne : b.locations ≠ []) : Reads s b s
  /-- There are none, here or in the storage before bundles. -/
  | empty {b : LocationBundleV4} {legacy : LocationBundleV4} (hlegacy : s.legacyBundle = .ok legacy)
      (hnil : legacy.normalized.locations = []) (hb : s.stored.getD legacy.normalized = b)
      (hempty : b.locations = []) : Reads s b s
  /-- The storage before bundles has some, and they are taken in. -/
  | adopted {legacy : LocationBundleV4} (hlegacy : s.legacyBundle = .ok legacy)
      (hempty : ∀ b, s.stored = some b → b.locations = [])
      (hne : legacy.normalized.locations ≠ []) :
      Reads s (withLegacy s.stored legacy.normalized)
        (s.put (withLegacy s.stored legacy.normalized) (written_withLegacy _ legacy))

theorem reads_of_getBundleUnlocked {s s' : Store} {b : LocationBundleV4}
    (h : s.getBundleUnlocked = .ok (b, s')) : Reads s b s' := by
  unfold getBundleUnlocked at h
  cases hfilter : s.stored.filter (!·.locations.isEmpty) with
  | some b₀ =>
      rw [hfilter] at h
      cases h
      obtain ⟨hstored, hne⟩ := Option.filter_eq_some_iff.mp hfilter
      exact .stored hstored (by simpa using hne)
  | none =>
      have hempty : ∀ b, s.stored = some b → b.locations = [] := by
        intro b hb
        simpa [hb, Option.filter_some] using hfilter
      rw [hfilter] at h
      obtain ⟨legacy, hlegacy, h⟩ := bind_eq_ok.mp h
      by_cases hnil : legacy.normalized.locations = []
      · rw [if_pos hnil] at h
        cases h
        refine .empty hlegacy hnil rfl ?_
        cases hstored : s.stored with
        | none => exact hnil
        | some b => exact hempty b hstored
      · rw [if_neg hnil] at h
        cases h
        exact .adopted hlegacy hempty hnil

/-- A store that has locations is read as it is. -/
theorem getBundleUnlocked_of_stored {s : Store} {b : LocationBundleV4} (h : s.stored = some b)
    (hne : b.locations ≠ []) : s.getBundleUnlocked = .ok (b, s) := by
  have hfilter : s.stored.filter (!·.locations.isEmpty) = some b := by
    rw [h, Option.filter_some, if_pos (by simpa using hne)]
  unfold getBundleUnlocked
  rw [hfilter]

omit [Build] in
theorem locations_withLegacy (stored : Option LocationBundleV4) (legacy : LocationBundleV4) :
    (withLegacy stored legacy).locations = legacy.locations := by
  cases stored <;> rfl

theorem Reads.clean {s s' : Store} {b : LocationBundleV4} (h : Reads s b s') : b.Clean := by
  cases h with
  | stored hb hne => exact clean_stored hb
  | empty hlegacy hnil hb hempty => exact LocationBundleV4.clean_of_nil hempty
  | @adopted legacy hlegacy hempty hne =>
      have hclean := (written_legacyBundle hlegacy).clean_normalized
      have hlocations := locations_withLegacy s.stored legacy.normalized
      exact ⟨hlocations ▸ hclean.settled, hlocations ▸ hclean.kept, hlocations ▸ hclean.nodup⟩

/-- **What a read returns is clean.** -/
theorem clean_getBundleUnlocked {s s' : Store} {b : LocationBundleV4}
    (h : s.getBundleUnlocked = .ok (b, s')) : b.Clean :=
  (reads_of_getBundleUnlocked h).clean

/-- The locations on disk, as a read sees them. -/
def locations (s : Store) : List LocationEntry := entriesIn s.stored

/-- A read leaves on disk the locations it returned. -/
theorem Reads.locations_eq {s s' : Store} {b : LocationBundleV4} (h : Reads s b s') :
    s'.locations = b.locations := by
  have hclean := h.clean
  cases h with
  | stored hb hne =>
      rw [locations, hb]
      rfl
  | empty hlegacy hnil hb hempty =>
      rw [hempty, locations]
      cases hstored : s.stored with
      | none => rfl
      | some b₀ =>
          rw [hstored, Option.getD_some] at hb
          exact hb ▸ hempty
  | adopted hlegacy hempty hne => exact hclean.normalizedLocations_eq

@[simp] theorem stored_save (s : Store) (b : LocationBundleV4) :
    (s.save b).stored = some b.normalized.normalized := rfl

/-- The locations on disk after a save, for entries that share no id. -/
theorem locations_save {s : Store} {b : LocationBundleV4}
    (hkept : ∀ e ∈ b.locations, isBlank e.storageId = false ∧ e.location.isComplete = true)
    (hnodup : (b.locations.map (trim ·.storageId)).Nodup) :
    (s.save b).locations = b.locations.map (·.normalized.normalized) := by
  have hfirst : b.normalized.locations = b.locations.map (·.normalized) :=
    LocationBundleV4.normalizedLocations_eq_map hkept hnodup
  show LocationBundleV4.normalizedLocations b.normalized.locations = _
  rw [hfirst, LocationBundleV4.normalizedLocations_eq_map, List.map_map]
  · rfl
  · intro e he
    obtain ⟨e₀, he₀, rfl⟩ := List.mem_map.mp he
    have hkeeps := hkept e₀ he₀
    refine ⟨(isBlank_trim _).trans hkeeps.1, ?_⟩
    rw [LocationConfig.isComplete_eq_dials, LocationEntry.line_normalized,
      ← LocationConfig.isComplete_eq_dials]
    exact hkeeps.2
  · rw [List.map_map]
    have htrim : ((trim ·.storageId) ∘ LocationEntry.normalized) =
        fun e : LocationEntry => trim e.storageId := by
      funext e
      exact trim_trim e.storageId
    rw [htrim]
    exact hnodup

end Store

end Ghostlane.App
