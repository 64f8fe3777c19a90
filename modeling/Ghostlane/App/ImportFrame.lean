import Ghostlane.App.ImportStored
import Ghostlane.App.Operations

/-!
# Ghostlane.App.ImportFrame

What an import does to the entries that were there. It is meant to add one list:
the entries of other lists and those made by hand are not its host's.

A merge passes over an entry in two ways only. With duplicates prevented, every
list that an imported entry names is taken out first; and a JSON bundle is a
backup to it, whose entries replace the stored ones of the same id. Both are read
from the body, so what an import spares depends on what its host wrote there.
-/

namespace Ghostlane.App

open Ghostlane.Lib

/-! ### The parts of a merge -/

namespace LocationBundleV4

/-- The entry's list is one that is imported, and is taken out for it. -/
def Displaces (b imported : LocationBundleV4) (e : LocationEntry) : Prop :=
  b.settings.preventDuplicates = true ∧
    ∃ url ∈ e.listUrl, url ∈ imported.locations.filterMap (·.listUrl)

instance (b imported : LocationBundleV4) (e : LocationEntry) : Decidable (b.Displaces imported e) :=
  inferInstanceAs (Decidable (_ ∧ _))

/-- The entries that stay in their place. -/
def keptUnder (b imported : LocationBundleV4) : List LocationEntry :=
  b.locations.filter fun e => ¬ b.Displaces imported e

/-- The imported entries that replace none. -/
def addedUnder (b imported : LocationBundleV4) (restore : Bool) : List LocationEntry :=
  imported.locations.filter fun e =>
    !(restore && decide (e.storageId ∈ (b.keptUnder imported).map (·.storageId)))

/-- The imported entries that replace none, as they are filed. -/
def filedUnder (b imported : LocationBundleV4) (restore : Bool) : List LocationEntry :=
  List.zipWith renamed (b.addedUnder imported restore)
    (uniqueStorageIds ((b.keptUnder imported).map (·.storageId))
      ((b.addedUnder imported restore).map (·.storageId)))

/-- What takes the place of an entry that is kept. -/
def replacement (imported : LocationBundleV4) (restore : Bool) (e : LocationEntry) :
    LocationEntry :=
  (imported.locations.filter fun e' => restore && e'.storageId == e.storageId).getLast?.getD e

/-- The imported entries that replace none, each with the id it is filed under: the first spelling
of its own that no entry kept has, nor one filed before it. -/
inductive FilesUnder (kept : List Text) (restore : Bool) :
    (taken : List Text) → List LocationEntry → List (LocationEntry × Text) → Prop
  | nil {taken : List Text} : FilesUnder kept restore taken [] []
  | replaces {taken : List Text} {e : LocationEntry} {es : List LocationEntry}
      {filed : List (LocationEntry × Text)} (hkept : restore = true ∧ e.storageId ∈ kept)
      (hrest : FilesUnder kept restore taken es filed) :
      FilesUnder kept restore taken (e :: es) filed
  | files {taken : List Text} {e : LocationEntry} {es : List LocationEntry} {id : Text}
      {filed : List (LocationEntry × Text)} (hnone : ¬ (restore = true ∧ e.storageId ∈ kept))
      (hfree : IsFirstFree (nameCandidate (storageSlug e.storageId)) taken id)
      (hrest : FilesUnder kept restore (id :: taken) es filed) :
      FilesUnder kept restore taken (e :: es) ((e, id) :: filed)

/-- The imported bundle spares the entry: its list stays and nothing is imported under its id, or
what takes its place is the entry again; or its list is taken out, and one of the imported entries
is the entry again under the id it is filed under. -/
def Spares (b imported : LocationBundleV4) (restore : Bool) (e : LocationEntry) : Prop :=
  let kept := (b.locations.filter fun e' => ¬ b.Displaces imported e').map (·.storageId)
  if b.Displaces imported e then
    ∃ filed, FilesUnder kept restore kept imported.locations filed ∧
      ∃ p ∈ filed, renamed p.1 p.2 = e
  else restore = true → ∀ e' ∈ imported.locations, e'.storageId = e.storageId → e'.normalized = e

theorem filesUnder_iff {kept taken : List Text} {restore : Bool} {es : List LocationEntry}
    {filed : List (LocationEntry × Text)} :
    FilesUnder kept restore taken es filed ↔
      (es.filter fun e => !(restore && decide (e.storageId ∈ kept))).zip (uniqueStorageIds taken
        ((es.filter fun e => !(restore && decide (e.storageId ∈ kept))).map (·.storageId))) =
          filed := by
  induction es generalizing taken filed with
  | nil =>
      constructor
      · intro h
        cases h
        rfl
      · intro h
        rw [← h]
        exact .nil
  | cons e es ih =>
      by_cases hkept : restore = true ∧ e.storageId ∈ kept
      · rw [List.filter_cons_of_neg (by simpa using hkept), ← ih]
        constructor
        · intro h
          cases h with
          | replaces _ hrest => exact hrest
          | files hnone => exact absurd hkept hnone
        · exact .replaces hkept
      · have hadded : (!(restore && decide (e.storageId ∈ kept))) = true := by
          rw [Bool.not_eq_true', ← Bool.not_eq_true, Bool.and_eq_true, decide_eq_true_eq]
          exact hkept
        rw [List.filter_cons, if_pos hadded, List.map_cons, uniqueStorageIds, List.zip_cons_cons]
        constructor
        · intro h
          cases h with
          | replaces hkept' => exact absurd hkept' hkept
          | files _ hfree hrest =>
              rw [← ih.mp hrest, uniqueStorageId,
                (firstFree_eq_iff (nameCandidate_injective _)).mpr hfree]
        · intro h
          rw [← h]
          exact .files hkept (isFirstFree_firstFree (nameCandidate_injective _) _) (ih.mpr rfl)

/-- **What a merge files, said of the entries it imports.** -/
theorem mem_filedUnder_iff {b imported : LocationBundleV4} {restore : Bool} {e : LocationEntry} :
    e ∈ b.filedUnder imported restore ↔
      ∃ filed, FilesUnder ((b.keptUnder imported).map (·.storageId)) restore
        ((b.keptUnder imported).map (·.storageId)) imported.locations filed ∧
          ∃ p ∈ filed, renamed p.1 p.2 = e := by
  simp only [filesUnder_iff, exists_eq_left']
  rw [filedUnder, ← List.map_uncurry_zip_eq_zipWith, List.mem_map]
  rfl

/-- The list of an entry, as the merge looks for it among the imported ones. -/
theorem list_imported_iff {imported : LocationBundleV4} {e : LocationEntry} :
    (e.subscriptionUrl.map trim).all (· ∉ imported.locations.filterMap (·.listUrl)) = true ↔
      ¬ ∃ url ∈ e.listUrl, url ∈ imported.locations.filterMap (·.listUrl) := by
  cases hurl : e.subscriptionUrl with
  | none => simp [LocationEntry.listUrl, hurl]
  | some url =>
      have hlist : e.listUrl = nonBlank (trim url) := by
        rw [LocationEntry.listUrl, hurl, Option.bind_some]
      rw [Option.map_some, Option.all_some, decide_eq_true_eq, hlist]
      by_cases hb : isBlank (trim url) = true
      · -- a blank address is no list's, and no list imported has one
        rw [show nonBlank (trim url) = none from if_pos hb]
        simp only [Option.mem_def, reduceCtorEq, false_and, exists_false, not_false_eq_true,
          iff_true]
        intro hmem
        obtain ⟨e', -, he'⟩ := List.mem_filterMap.mp hmem
        obtain ⟨url', -, hnonblank⟩ := Option.bind_eq_some_iff.mp he'
        obtain ⟨hnot, htrim⟩ := nonBlank_eq_some.mp hnonblank
        rw [htrim, hb] at hnot
        cases hnot
      · rw [show nonBlank (trim url) = some (trim url) from if_neg hb]
        simp only [Option.mem_def, Option.some.injEq, exists_eq_left']

theorem keptUnder_eq (b imported : LocationBundleV4) :
    b.keptUnder imported =
      if b.settings.preventDuplicates then
        b.locations.filter fun e =>
          (e.subscriptionUrl.map trim).all (· ∉ imported.locations.filterMap (·.listUrl))
      else b.locations := by
  unfold keptUnder
  by_cases hprevent : b.settings.preventDuplicates = true
  · rw [if_pos hprevent]
    refine List.filter_congr fun e _ => ?_
    rw [Bool.eq_iff_iff, list_imported_iff, decide_eq_true_eq, Displaces]
    simp only [hprevent, true_and]
  · rw [if_neg hprevent]
    exact List.filter_eq_self.mpr fun e _ => decide_eq_true fun h => hprevent h.1

variable [Build]

/-- The locations of a merge over a bundle that has some. -/
theorem locations_merge {b imported : LocationBundleV4} (hclean : b.Clean) (hne : b.locations ≠ [])
    (restore : Bool) :
    (Store.mergeImportedBundle b imported restore).locations =
      (b.keptUnder imported).map (replacement imported restore) ++
        b.filedUnder imported restore := by
  have hcurrent : b.normalized.locations = b.locations := hclean.normalizedLocations_eq
  have hkept : (if b.normalized.settings.preventDuplicates then
      b.normalized.locations.filter fun e =>
        (e.subscriptionUrl.map trim).all (· ∉ imported.locations.filterMap (·.listUrl))
      else b.normalized.locations) = b.keptUnder imported := by
    rw [hcurrent, keptUnder_eq]
    rfl
  have hreplaced : (b.keptUnder imported).map (fun e =>
      (imported.locations.filter fun e' =>
        (restore && decide (e'.storageId ∈ (b.keptUnder imported).map (·.storageId))) &&
          e'.storageId == e.storageId).getLast?.getD e) =
      (b.keptUnder imported).map (replacement imported restore) := by
    refine List.map_congr_left fun e he => ?_
    have hsame : (imported.locations.filter fun e' =>
        (restore && decide (e'.storageId ∈ (b.keptUnder imported).map (·.storageId))) &&
          e'.storageId == e.storageId) =
        imported.locations.filter fun e' => restore && e'.storageId == e.storageId := by
      refine List.filter_congr fun e' _ => ?_
      by_cases hid : e'.storageId = e.storageId
      · have hmem : e'.storageId ∈ (b.keptUnder imported).map (·.storageId) :=
          List.mem_map.mpr ⟨e, he, hid.symm⟩
        simp [hmem]
      · rw [beq_eq_false_iff_ne.mpr hid, Bool.and_false, Bool.and_false]
    rw [hsame]
    rfl
  unfold Store.mergeImportedBundle
  dsimp only
  rw [if_neg (hcurrent ▸ hne), hkept, hreplaced]
  rfl

/-! ### What a merge stores -/

omit [Build] in
theorem replacement_cases (imported : LocationBundleV4) (restore : Bool) (e : LocationEntry) :
    replacement imported restore e = e ∨
      replacement imported restore e ∈ imported.locations ∧ restore = true ∧
        (replacement imported restore e).storageId = e.storageId := by
  unfold replacement
  cases hlast : (imported.locations.filter fun e' =>
      restore && e'.storageId == e.storageId).getLast? with
  | none => exact .inl rfl
  | some e' =>
      obtain ⟨hmem, hsame⟩ := List.mem_filter.mp (List.mem_of_getLast? hlast)
      rw [Bool.and_eq_true, beq_iff_eq] at hsame
      exact .inr ⟨hmem, hsame⟩

omit [Build] in
theorem replacement_id (imported : LocationBundleV4) (restore : Bool) (e : LocationEntry) :
    (replacement imported restore e).storageId = e.storageId := by
  rcases replacement_cases imported restore e with h | ⟨-, -, h⟩
  · rw [h]
  · exact h

omit [Build] in
/-- In a backup, the entry of the same id takes the place. -/
theorem replacement_eq {imported : LocationBundleV4}
    (hnodup : (imported.locations.map (·.storageId)).Nodup) {e e' : LocationEntry}
    (he' : e' ∈ imported.locations) (hid : e'.storageId = e.storageId) :
    replacement imported true e = e' := by
  have hmem : e' ∈ imported.locations.filter fun e' => true && e'.storageId == e.storageId :=
    List.mem_filter.mpr ⟨he', by simp [hid]⟩
  unfold replacement
  cases hlast : (imported.locations.filter fun e' =>
      true && e'.storageId == e.storageId).getLast? with
  | none => exact absurd (List.getLast?_eq_none_iff.mp hlast ▸ hmem) List.not_mem_nil
  | some e₁ =>
      obtain ⟨hin, hsame⟩ := List.mem_filter.mp (List.mem_of_getLast? hlast)
      refine List.inj_on_of_nodup_map hnodup hin he' ?_
      rw [hid]
      simpa using hsame

/-- Entries as they come out of a merge need no more normalizing. -/
theorem filedUnder_settled {b p : LocationBundleV4} {restore : Bool} {e : LocationEntry}
    (he : e ∈ b.filedUnder p.normalized restore) : e.normalized = e := by
  obtain ⟨e', he', id, hid, rfl⟩ := exists_of_mem_zipWith he
  obtain ⟨⟨e₀, -, rfl⟩, -⟩ := of_mem_normalizedLocations (List.mem_filter.mp he').1
  have hplain : trim id = id := (plain_of_mem_uniqueStorageIds hid).trim_eq
  have hagain : ({ e₀.normalized with storageId := id } : LocationEntry) =
      ({ e₀ with storageId := id } : LocationEntry).normalized := by
    conv_lhs => rw [← hplain]
    rfl
  rw [renamed, hagain]
  exact LocationEntry.normalized_thrice _

omit [Build] in
theorem filedUnder_ids (b imported : LocationBundleV4) (restore : Bool) :
    (b.filedUnder imported restore).map (trim ·.storageId) =
      uniqueStorageIds ((b.keptUnder imported).map (·.storageId))
        ((b.addedUnder imported restore).map (·.storageId)) := by
  conv_rhs => rw [← List.map_id (uniqueStorageIds _ _)]
  refine map_zipWith_right (by simp) fun e id hid => ?_
  exact (trim_trim id).trans (plain_of_mem_uniqueStorageIds hid).trim_eq

/-- Nothing a merge puts together is lost when it is saved. -/
theorem locations_save_merge {s : Store} {b p : LocationBundleV4} (hclean : b.Clean)
    (hne : b.locations ≠ []) (restore : Bool) :
    (s.save (Store.mergeImportedBundle b p.normalized restore)).locations =
      (b.keptUnder p.normalized).map
          (fun e => (replacement p.normalized restore e).normalized.normalized) ++
        b.filedUnder p.normalized restore := by
  have hkeptMem : ∀ e ∈ b.keptUnder p.normalized, e ∈ b.locations := fun e he =>
    (List.mem_filter.mp he).1
  have himported : ∀ e ∈ p.normalized.locations,
      isBlank e.storageId = false ∧ e.location.isComplete = true ∧
        trim e.storageId = e.storageId := by
    intro e he
    obtain ⟨⟨e₀, -, rfl⟩, hkeeps⟩ := of_mem_normalizedLocations he
    rw [keeps, Bool.and_eq_true, Bool.not_eq_true'] at hkeeps
    exact ⟨hkeeps.1, hkeeps.2, trim_trim e₀.storageId⟩
  have hlocations := @locations_merge _ b p.normalized hclean hne restore
  have hkept : ∀ e ∈ (Store.mergeImportedBundle b p.normalized restore).locations,
      isBlank e.storageId = false ∧ e.location.isComplete = true := by
    intro e he
    rw [hlocations] at he
    rcases List.mem_append.mp he with he | he
    · obtain ⟨k, hk, rfl⟩ := List.mem_map.mp he
      rcases replacement_cases p.normalized restore k with h | ⟨hin, -, -⟩
      · rw [h]
        exact hclean.isComplete (hkeptMem k hk)
      · exact ⟨(himported _ hin).1, (himported _ hin).2.1⟩
    · obtain ⟨e₀, he₀, id, hid, rfl⟩ := exists_of_mem_zipWith he
      refine ⟨(isBlank_trim id).trans (plain_of_mem_uniqueStorageIds hid).not_blank, ?_⟩
      have hcomplete := (himported e₀ (List.mem_filter.mp he₀).1).2.1
      rw [LocationConfig.isComplete_eq_dials] at hcomplete ⊢
      rw [line_renamed]
      exact hcomplete
  have hkeptIds : ((b.keptUnder p.normalized).map (replacement p.normalized restore)).map
      (trim ·.storageId) = (b.keptUnder p.normalized).map (·.storageId) := by
    rw [List.map_map]
    refine List.map_congr_left fun e he => ?_
    rw [Function.comp_apply, replacement_id]
    exact hclean.trim_id (hkeptMem e he)
  have hnodup : ((Store.mergeImportedBundle b p.normalized restore).locations.map
      (trim ·.storageId)).Nodup := by
    rw [hlocations, List.map_append, hkeptIds, filedUnder_ids]
    refine List.nodup_append'.mpr ⟨?_, nodup_uniqueStorageIds _ _, ?_⟩
    · exact hclean.nodup.sublist (List.filter_sublist.map _)
    · intro id hid hid'
      exact not_mem_of_mem_uniqueStorageIds hid' hid
  rw [Store.locations_save hkept hnodup, hlocations, List.map_append, List.map_map]
  congr 1
  conv_rhs => rw [← List.map_id (b.filedUnder p.normalized restore)]
  refine List.map_congr_left fun e he => ?_
  rw [filedUnder_settled he, filedUnder_settled he, id]

/-- **An entry is still there exactly when the import spares it.** -/
theorem mem_save_merge_iff {s : Store} {b p : LocationBundleV4} (hclean : b.Clean) (restore : Bool)
    {e : LocationEntry} (he : e ∈ b.locations) :
    e ∈ (s.save (Store.mergeImportedBundle b p.normalized restore)).locations ↔
      b.Spares p.normalized restore e := by
  have hnodup : (p.normalized.locations.map (·.storageId)).Nodup :=
    normalizedLocations_nodup p.locations
  rw [locations_save_merge hclean (List.ne_nil_of_mem he), List.mem_append, List.mem_map, Spares]
  -- what stands in an entry's place has its id, so an entry can stay in its own place only
  have hplace : ∀ k ∈ b.keptUnder p.normalized,
      (replacement p.normalized restore k).normalized.normalized = e → k = e := by
    intro k hk heq
    have hk := (List.mem_filter.mp hk).1
    refine List.inj_on_of_nodup_map hclean.nodup hk he ?_
    rw [← heq]
    show k.storageId = trim (trim (replacement p.normalized restore k).storageId)
    rw [trim_trim, replacement_id, hclean.trim_id hk]
  by_cases hout : b.Displaces p.normalized e
  · rw [if_pos hout]
    refine ⟨?_, fun hfiled => .inr (mem_filedUnder_iff.mpr hfiled)⟩
    rintro (⟨k, hk, heq⟩ | hfiled)
    · obtain rfl := hplace k hk heq
      exact absurd hout (of_decide_eq_true (List.mem_filter.mp hk).2)
    · exact mem_filedUnder_iff.mp hfiled
  · rw [if_neg hout]
    have hkept : e ∈ b.keptUnder p.normalized := List.mem_filter.mpr ⟨he, decide_eq_true hout⟩
    constructor
    · rintro (⟨k, hk, heq⟩ | hfiled) rfl e' he' hid
      · obtain rfl := hplace k hk heq
        obtain ⟨⟨e₀, -, rfl⟩, -⟩ := of_mem_normalizedLocations he'
        rw [replacement_eq hnodup he' hid, LocationEntry.normalized_thrice] at heq
        exact heq
      · have htaken : trim e.storageId ∈ (b.filedUnder p.normalized true).map (trim ·.storageId) :=
          List.mem_map.mpr ⟨e, hfiled, rfl⟩
        rw [filedUnder_ids, hclean.trim_id he] at htaken
        exact absurd (List.mem_map.mpr ⟨e, hkept, rfl⟩) (not_mem_of_mem_uniqueStorageIds htaken)
    · intro hspared
      refine .inl ⟨e, hkept, ?_⟩
      rcases replacement_cases p.normalized restore e with h | ⟨hin, hrestore, hid⟩
      · rw [h, hclean.settled e he, hclean.settled e he]
      · rw [hspared hrestore _ hin hid, hclean.settled e he]

/-- A refusal takes the entries of its list, and no other. -/
theorem mem_save_withRefusal_iff {s : Store} {b : LocationBundleV4} (hclean : b.Clean)
    {refused : RefusedList} {e : LocationEntry} (he : e ∈ b.locations) :
    e ∈ (s.save (Store.withRefusal b refused)).locations ↔
      e.subscriptionUrl.map trim ≠ some refused.subscriptionUrl := by
  have hrest : (Store.withRefusal b refused).Clean :=
    { settled := fun e he => hclean.settled e (List.mem_filter.mp he).1
      kept := fun e he => hclean.kept e (List.mem_filter.mp he).1
      nodup := hclean.nodup.sublist (List.filter_sublist.map _) }
  have hlocations : (s.save (Store.withRefusal b refused)).locations =
      b.locations.filter (·.subscriptionUrl.map trim ≠ some refused.subscriptionUrl) := by
    show normalizedLocations (normalizedLocations (Store.withRefusal b refused).locations) = _
    rw [hrest.normalizedLocations_eq, hrest.normalizedLocations_eq]
    rfl
  rw [hlocations, List.mem_filter, decide_eq_true_eq]
  exact and_iff_right he

end LocationBundleV4

/-! ### Importing a list -/

namespace Store

variable [Build]

/-- What the pasted text came to spares the entry: the body does, or the refusal is
of another list. -/
def Spares (s : Store) (w : World) (text : Text) (e : LocationEntry) : Prop :=
  ∀ b, s.stored = some b →
    match resolveParsedImport w text none with
    | .ok (some (.parsed _ parsed)) =>
        b.Spares parsed.bundle.normalized (decide (parsed.mode = .restore)) e
    | .ok (some (.refused source _)) =>
        e.subscriptionUrl.map trim ≠ some (trim (source.subscriptionUrl.getD (trim text)))
    | _ => True

/-- A paste that throws changes nothing. -/
theorem step_paste (s : Store) (w : World) (text : Text) :
    s.step (.paste text w) = some (((s.importReport w text).toOption.map Prod.fst).getD s) := by
  have hperform : s.perform (.paste text w) = Prod.fst <$> s.importReport w text := rfl
  unfold step
  rw [hperform]
  cases s.importReport w text with
  | error err => rfl
  | ok r => rfl

theorem mem_step_paste_iff {s s' : Store} {w : World} {text : Text} {e : LocationEntry}
    (he : e ∈ s.locations) (hstep : s.step (.paste text w) = some s') :
    e ∈ s'.locations ↔ s.Spares w text e := by
  obtain ⟨b, hb, heb⟩ : ∃ b, s.stored = some b ∧ e ∈ b.locations := by
    unfold locations entriesIn at he
    cases hb : s.stored with
    | none =>
        rw [hb] at he
        exact absurd he List.not_mem_nil
    | some b =>
        rw [hb] at he
        exact ⟨b, rfl, he⟩
  have hclean := clean_stored hb
  have hread : s.getBundleUnlocked = .ok (b, s) :=
    getBundleUnlocked_of_stored hb (List.ne_nil_of_mem heb)
  have hspares : s.Spares w text e ↔
      match resolveParsedImport w text none with
      | .ok (some (.parsed _ parsed)) =>
          b.Spares parsed.bundle.normalized (decide (parsed.mode = .restore)) e
      | .ok (some (.refused source _)) =>
          e.subscriptionUrl.map trim ≠ some (trim (source.subscriptionUrl.getD (trim text)))
      | _ => True := by
    unfold Spares
    simp only [hb, Option.some.injEq, forall_eq']
  rw [hspares]
  rw [step_paste] at hstep
  unfold importReport change at hstep
  rw [hread] at hstep
  cases hresolved : resolveParsedImport w text none with
  | error err =>
      rw [hresolved] at hstep
      cases hstep
      exact iff_true_intro he
  | ok resolution =>
      rw [hresolved] at hstep
      match resolution with
      | none =>
          cases hstep
          exact iff_true_intro he
      | some (.parsed source parsed) =>
          cases hstep
          exact LocationBundleV4.mem_save_merge_iff hclean _ heb
      | some (.refused source originLink) =>
          cases hstep
          exact LocationBundleV4.mem_save_withRefusal_iff hclean heb

/-- **An import leaves the entries of other lists as they were**, those of no list
among them, exactly when what its host answered spares each of them. -/
theorem import_leaves_others_iff (s : Store) (w : World) (url : Text) :
    (∀ s', s.step (.paste url w) = some s' → ∀ e ∈ s.locations, e.listUrl ≠ some (trim url) →
      e ∈ s'.locations) ↔
    ∀ e ∈ s.locations, e.listUrl ≠ some (trim url) → s.Spares w url e := by
  constructor
  · intro h e he hother
    have hs' := s.step_paste w url
    exact (mem_step_paste_iff he hs').mp (h _ hs' e he hother)
  · intro h s' hs' e he hother
    exact (mem_step_paste_iff he hs').mpr (h e he hother)

/-- A body of lines spares the entries of every other list. -/
theorem spares_of_linesText {w : World} {input text : Text} {source : ImportSource}
    {parsed : ParsedImport} {e : LocationEntry}
    (hresolved : resolveParsedImport w input none = .ok (some (.parsed source parsed)))
    (hbody : linesText (normalizedImportText source.content) = some text)
    (hother : ∀ url, source.subscriptionUrl = some url → e.listUrl ≠ some (trim url)) (s : Store) :
    s.Spares w input e := by
  intro b _
  obtain ⟨hmode, -, -, hfiled⟩ := resolved_of_linesText hresolved hbody
  rw [hresolved]
  show b.Spares parsed.bundle.normalized (decide (parsed.mode = .restore)) e
  have hstays : ¬ b.Displaces parsed.bundle.normalized e := by
    rintro ⟨-, url, hurl, himported⟩
    obtain ⟨e', he', hurl'⟩ := List.mem_filterMap.mp himported
    obtain ⟨⟨e₀, he₀, rfl⟩, -⟩ := LocationBundleV4.of_mem_normalizedLocations he'
    obtain ⟨v, hv, rfl⟩ := hfiled e₀ he₀ url hurl'
    exact hother v hv hurl
  rw [LocationBundleV4.Spares, if_neg hstays, hmode]
  intro hrestore
  cases hrestore

end Store

/-! ### A body that says which entries it replaces -/

section

/-- A link of one's own, kept beside the lists. -/
def ownLink : Text := txt "hy2://pw@home.example:443#Home"

/-- A list whose body is a bundle: its one entry has the id of the link's. -/
def hostileBody : Text :=
  txt "\x7b\"locations\":[\x7b\"storage_id\":\"imported_home\",\"kind\":\"hysteria2\"," ++
    txt "\"raw_link\":\"hy2://pw@other.example:443#Home\"\x7d]\x7d"

def hostileEntry : LocationEntry :=
  { storageId := txt "imported_home", kind := .hysteria2
    rawLink := some (txt "hy2://pw@other.example:443#Home") }

/-- A build whose JSON library reads that body. -/
@[reducible] def Build.readingBundle : Build where
  parseToJsonElement t :=
    if t = hostileBody then
      some (.object [(txt "locations", .array [.object
        [(txt "storage_id", .primitive (txt "imported_home")),
         (txt "kind", .primitive (txt "hysteria2")),
         (txt "raw_link", .primitive (txt "hy2://pw@other.example:443#Home"))]])])
    else none
  intOrNull _ := none
  decodeEntry _ := some hostileEntry
  cryptCodec := none

attribute [local instance] Build.readingBundle

/-- The store with the link in it. -/
def ownStore : Store := (Store.empty.step (.paste ownLink .failing)).getD .empty

/-- **A list takes the place of a link of one's own**, which its body names by id. -/
theorem import_replaces_own_link :
    run Store.step .empty [.paste ownLink .failing] = some ownStore ∧
    ∃ s', ownStore.step (.paste someList (.serving hostileBody)) = some s' ∧
      (ownStore.locations.map fun e => (e.storageId, e.listUrl, e.rawLink)) =
        [(txt "imported_home", none, some ownLink)] ∧
      (s'.locations.map fun e => (e.storageId, e.listUrl, e.rawLink)) =
        [(txt "imported_home", some someList, some (txt "hy2://pw@other.example:443#Home"))] ∧
      ∃ e ∈ ownStore.locations, e.listUrl ≠ some (trim someList) ∧ e ∉ s'.locations := by
  have hstep : (Store.empty.step (.paste ownLink .failing)).isSome = true := by decide
  obtain ⟨s, hs⟩ := Option.isSome_iff_exists.mp hstep
  refine ⟨run_cons_eq_some.mpr ⟨s, hs, by rw [ownStore, hs]; rfl⟩, _, Store.step_paste .., ?_⟩
  decide +kernel

end

end Ghostlane.App
