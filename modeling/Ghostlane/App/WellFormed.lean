import Ghostlane.App.Clean
import Ghostlane.App.Operations

/-!
# Ghostlane.App.WellFormed

What a read of the store promises its caller. Normalizing makes any bundle well
formed (`wellFormed_normalized`), and every read normalizes what is on disk. One
read returns more than it normalized: the one that adopts the locations of the
storage before bundles puts them beside the refused lists of the stored bundle,
and a list may then be served and refused at once.
-/

namespace Ghostlane.App

open Ghostlane.Lib

section

variable [Build]

namespace LocationBundleV4

/-- A bundle the rest of the app can rely on. -/
structure WellFormed (b : LocationBundleV4) : Prop where
  nonblank : ∀ e ∈ b.locations, isBlank e.storageId = false
  distinct : (b.locations.map (·.storageId)).Nodup
  complete : ∀ e ∈ b.locations, e.location.isComplete = true
  /-- What is selected is there. -/
  selected : ∀ id, b.activeLocationId = some id → holds b.locations id = true
  unselected : b.activeLocationId = none ↔ b.locations = [] ∨ b.selectionWithdrawn = true
  /-- No list is both served and refused. -/
  apart : ∀ e ∈ b.locations, ∀ r ∈ b.refusedLists, e.listUrl ≠ some r.subscriptionUrl
  oneRecord : (b.refusedLists.map (·.subscriptionUrl)).Nodup

omit [Build] in
theorem listUrl_eq (e : LocationEntry) :
    (e.subscriptionUrl.bind fun url => nonEmpty (trim url)) = e.listUrl := by
  refine congrArg (e.subscriptionUrl.bind ·) (funext fun url => ?_)
  simp only [nonEmpty, nonBlank, isBlank_trim_iff]

omit [Build] in
theorem holds_of_mem {locations : List LocationEntry} {e : LocationEntry} (he : e ∈ locations) :
    holds locations e.storageId = true :=
  List.any_eq_true.mpr ⟨e, he, beq_self_eq_true _⟩

/-- What is selected in a normalized bundle is there. -/
theorem selected_normalized {b : LocationBundleV4} {id : Text}
    (h : b.normalized.activeLocationId = some id) : holds b.normalized.locations id = true := by
  rcases Option.or_eq_some_iff.mp h with hchosen | ⟨-, hfirst⟩
  · exact (Option.filter_eq_some_iff.mp hchosen).2
  · split at hfirst
    · cases hfirst
    · obtain ⟨e, he, rfl⟩ := Option.map_eq_some_iff.mp hfirst
      exact holds_of_mem (List.mem_of_mem_head? he)

/-- Nothing is selected in a normalized bundle when there is nothing to select,
and when the selection is withdrawn. -/
theorem unselected_normalized (b : LocationBundleV4) : b.normalized.activeLocationId = none ↔
    b.normalized.locations = [] ∨ b.normalized.selectionWithdrawn = true := by
  simp only [normalized]
  cases hlocations : normalizedLocations b.locations with
  | nil => simp [holds]
  | cons e rest =>
      cases hchosen : b.activeLocationId.filter (holds (e :: rest)) with
      | some id => simp
      | none => cases b.selectionWithdrawn <;> simp

/-- **Normalizing makes any bundle well formed.** -/
theorem wellFormed_normalized (b : LocationBundleV4) : b.normalized.WellFormed := by
  have hkept : ∀ e ∈ b.normalized.locations, isBlank e.storageId = false ∧
      e.location.isComplete = true := by
    intro e he
    have hkeeps := (of_mem_normalizedLocations he).2
    rwa [keeps, Bool.and_eq_true, Bool.not_eq_true'] at hkeeps
  refine ⟨fun e he => (hkept e he).1, normalizedLocations_nodup _, fun e he => (hkept e he).2,
    fun _ => selected_normalized, unselected_normalized b, fun e he r hr hsame => ?_,
    associateBy_nodup _⟩
  have hrefused := List.of_mem_filter (mem_of_mem_associateBy hr)
  simp only [decide_eq_true_eq] at hrefused
  refine hrefused.2 (List.mem_filterMap.mpr ⟨e, he, ?_⟩)
  rw [listUrl_eq, hsame]

end LocationBundleV4

namespace Store

/-- Every read of the store returns a well-formed bundle. -/
def ReadsWellFormed (s : Store) : Prop :=
  ∀ b s', s.getBundleUnlocked = .ok (b, s') → b.WellFormed

/-- The bundle on disk has no locations, and the storage before bundles has one of
a list that is refused there. -/
def AdoptsRefused (s : Store) : Prop :=
  ∃ b legacy, s.stored = some b ∧ b.locations = [] ∧ s.legacyBundle = .ok legacy ∧
    ∃ e ∈ legacy.normalized.locations, ∃ r ∈ b.refusedLists, e.listUrl = some r.subscriptionUrl

theorem wellFormed_stored {s : Store} {b : LocationBundleV4} (h : s.stored = some b) :
    b.WellFormed := by
  obtain ⟨b₀, -, rfl⟩ := Option.map_eq_some_iff.mp h
  exact b₀.wellFormed_normalized

/-- Where there is nothing to select no selection is withdrawn. -/
theorem withdrawn_of_empty {b : LocationBundleV4} (h : b.normalized.locations = []) :
    b.normalized.selectionWithdrawn = false := by
  rw [LocationBundleV4.normalized_locations] at h
  simp [LocationBundleV4.normalized, h]

theorem withdrawn_legacyBundle {s : Store} {legacy : LocationBundleV4}
    (h : s.legacyBundle = .ok legacy) : legacy.normalized.selectionWithdrawn = false := by
  obtain ⟨found, -, hlegacy⟩ := bind_eq_ok.mp h
  cases hlegacy
  rfl

/-- What the adopting read returns is well formed but for the lists it serves. -/
theorem wellFormed_adopted {s : Store} {b legacy : LocationBundleV4} (hb : s.stored = some b)
    (hempty : b.locations = []) (hlegacy : s.legacyBundle = .ok legacy)
    (hapart : ∀ e ∈ legacy.normalized.locations, ∀ r ∈ b.refusedLists,
      e.listUrl ≠ some r.subscriptionUrl) :
    (withLegacy (some b) legacy.normalized).WellFormed := by
  have hnew := legacy.wellFormed_normalized
  refine ⟨hnew.nonblank, hnew.distinct, hnew.complete, hnew.selected, hnew.unselected.trans ?_,
    hapart, (wellFormed_stored hb).oneRecord⟩
  have hwithdrawn : b.selectionWithdrawn = false := by
    obtain ⟨b₀, -, rfl⟩ := Option.map_eq_some_iff.mp hb
    exact withdrawn_of_empty hempty
  rw [withdrawn_legacyBundle hlegacy]
  show _ ↔ legacy.normalized.locations = [] ∨ b.selectionWithdrawn = true
  rw [hwithdrawn]

/-- A store without locations adopts those of the storage before bundles. -/
theorem getBundleUnlocked_adopts {s : Store} {b legacy : LocationBundleV4} (hb : s.stored = some b)
    (hempty : b.locations = []) (hlegacy : s.legacyBundle = .ok legacy)
    (hne : legacy.normalized.locations ≠ []) :
    ∃ s', s.getBundleUnlocked = .ok (withLegacy (some b) legacy.normalized, s') := by
  have hfilter : s.stored.filter (!·.locations.isEmpty) = none := by
    simp [hb, Option.filter_some, hempty]
  refine ⟨s.put (withLegacy s.stored legacy.normalized) (written_withLegacy _ legacy), ?_⟩
  unfold getBundleUnlocked
  rw [hfilter]
  show (s.legacyBundle >>= _) = _
  rw [hlegacy]
  simp only [bind, Except.bind, hne, if_false, hb]
  rfl

/-- **A read is well formed exactly when it adopts no list that is refused.** -/
theorem readsWellFormed_iff (s : Store) : s.ReadsWellFormed ↔ ¬ s.AdoptsRefused := by
  constructor
  · rintro h ⟨b, legacy, hb, hempty, hlegacy, e, he, r, hr, hsame⟩
    obtain ⟨s', hread⟩ := getBundleUnlocked_adopts hb hempty hlegacy (List.ne_nil_of_mem he)
    exact (h _ _ hread).apart e he r hr hsame
  · intro h b s' hread
    cases reads_of_getBundleUnlocked hread with
    | stored hb => exact wellFormed_stored hb
    | @empty _ legacy hlegacy hnil hb =>
        cases hstored : s.stored with
        | none =>
            rw [hstored, Option.getD_none] at hb
            exact hb ▸ legacy.wellFormed_normalized
        | some b₀ =>
            rw [hstored, Option.getD_some] at hb
            exact hb ▸ wellFormed_stored hstored
    | @adopted legacy hlegacy hempty hne =>
        cases hstored : s.stored with
        | none => exact legacy.wellFormed_normalized
        | some b₀ =>
            refine wellFormed_adopted hstored (hempty b₀ hstored) hlegacy fun e he r hr hsame => ?_
            exact h ⟨b₀, legacy, hstored, hempty b₀ hstored, hlegacy, e, he, r, hr, hsame⟩

/-- A store nothing was written to, with what the storage before bundles left. -/
def fresh (legacyLocations : List (Text × Text)) (legacyActiveLocationId : Option Text) : Store :=
  { empty with legacyLocations, legacyActiveLocationId }

/-- **Every bundle a history reads is well formed**, whatever is pasted, answered,
saved or adopted, exactly as long as no read adopts a list that is refused. -/
theorem history_wellFormed_iff (legacyLocations : List (Text × Text))
    (legacyActiveLocationId : Option Text) (es : List StoreEvent) :
    AllSteps step (fun s _ => s.ReadsWellFormed) (fresh legacyLocations legacyActiveLocationId) es ↔
    AllSteps step (fun s _ => ¬ s.AdoptsRefused)
      (fresh legacyLocations legacyActiveLocationId) es :=
  ⟨AllSteps.imp fun s _ => s.readsWellFormed_iff.mp,
    AllSteps.imp fun s _ => s.readsWellFormed_iff.mpr⟩

end Store

end

/-! ### A legacy record of a list that is refused -/

section

/-- The address of a list. -/
def recordedList : Text := txt "https://a.example/l"

/-- The record of one of its servers, as the storage before bundles has it. -/
def legacyRecord : Text :=
  txt "\x7b\"storage_id\":\"nl\",\"subscription_url\":\"https://a.example/l\"," ++
    txt "\"kind\":\"hysteria2\",\"raw_link\":\"hy2://pw@a.example:443#NL\"\x7d"

def legacyEntry : LocationEntry :=
  { storageId := txt "nl", subscriptionUrl := some recordedList, kind := .hysteria2,
    rawLink := some (txt "hy2://pw@a.example:443#NL") }

/-- A build whose JSON library reads that record. -/
@[reducible] def Build.readingRecord : Build where
  parseToJsonElement t :=
    if t = legacyRecord then
      some (.object [(txt "storage_id", .primitive (txt "nl")),
        (txt "subscription_url", .primitive recordedList),
        (txt "kind", .primitive (txt "hysteria2")),
        (txt "raw_link", .primitive (txt "hy2://pw@a.example:443#NL"))])
    else none
  intOrNull _ := none
  decodeEntry _ := some legacyEntry
  cryptCodec := none

attribute [local instance] Build.readingRecord

/-- The store after the list was pasted and refused. -/
def refusedStore : Store :=
  (run Store.step
    (.fresh [(txt "nl", legacyRecord)] none) [.paste recordedList .refusing]).getD .empty

/-- The list is refused when it is pasted, and its server is adopted again at the
next read: that read returns it served and refused. -/
theorem adopted_list_stays_refused :
    run Store.step (.fresh [(txt "nl", legacyRecord)] none) [.paste recordedList .refusing] =
      some refusedStore ∧
    ∃ b s', refusedStore.getBundleUnlocked = .ok (b, s') ∧
      b.locations.map (·.listUrl) = [some recordedList] ∧
      b.refusedLists.map (·.subscriptionUrl) = [recordedList] ∧ ¬ b.WellFormed := by
  have hrun : (run Store.step (.fresh [(txt "nl", legacyRecord)] none)
      [.paste recordedList .refusing]).isSome = true := by decide +kernel
  have hread : (refusedStore.getBundleUnlocked.toOption.any fun r =>
      r.1.locations.map (·.listUrl) = [some recordedList] ∧
        r.1.refusedLists.map (·.subscriptionUrl) = [recordedList]) = true := by decide +kernel
  obtain ⟨s, hs⟩ := Option.isSome_iff_exists.mp hrun
  refine ⟨by rw [refusedStore, hs, Option.getD_some], ?_⟩
  cases h : refusedStore.getBundleUnlocked with
  | error _ =>
      rw [h] at hread
      cases hread
  | ok p =>
      obtain ⟨b, s'⟩ := p
      simp only [h, Except.toOption, Option.any_some, decide_eq_true_eq] at hread
      refine ⟨b, s', rfl, hread.1, hread.2, fun hb => ?_⟩
      obtain ⟨e, he, hlist⟩ :=
        List.mem_map.mp (hread.1 ▸ List.mem_singleton_self (some recordedList))
      obtain ⟨r, hr, hurl⟩ := List.mem_map.mp (hread.2 ▸ List.mem_singleton_self recordedList)
      exact hb.apart e he r hr (hlist.trans (congrArg some hurl.symm))

end

end Ghostlane.App
