import Ghostlane.App.Fetch

/-!
# Ghostlane.App.Repository

The store and its operations (`LocationsRepositoryImpl` in
`data/datasource/LocationsDatasource.kt`).

Every operation holds the one mutex from its read to its write, so here each is
a function from a store to a store, and a history is a list of them. A store
holds only what this repository wrote: entries come out of `normalized`, and
`Store.written` says so.
-/

namespace Ghostlane.App

open Ghostlane.Lib

/-- A bundle all of whose entries came out of `normalized`. -/
def LocationBundleV4.Written (b : LocationBundleV4) : Prop :=
  ∀ e ∈ b.locations, ∃ e₀ : LocationEntry, e₀.normalized = e

/-- What is on disk: the bundle, if one was written, and what the storage
before bundles left. -/
structure Store where
  bundle : Option LocationBundleV4 := none
  legacyLocations : List (Text × Text) := []
  legacyActiveLocationId : Option Text := none
  written : ∀ b, bundle = some b → b.Written := by simp

/-- The store of a first launch. -/
def Store.empty : Store := {}

section

variable [Build]

theorem LocationBundleV4.written_normalized (b : LocationBundleV4) : b.normalized.Written := by
  intro e he
  obtain ⟨⟨e₀, -, h⟩, -⟩ := LocationBundleV4.of_mem_normalizedLocations he
  exact ⟨e₀, h⟩

namespace Store

/-! ### Reading and writing -/

/-- `dataSource.saveLocationBundle`. -/
def put (s : Store) (b : LocationBundleV4) (h : b.Written) : Store :=
  { s with bundle := some b, written := fun _ hb => Option.some.inj hb ▸ h }

/-- `saveBundleUnlocked`. -/
def save (s : Store) (b : LocationBundleV4) : Store := s.put b.normalized b.written_normalized

/-- The stored bundle as every read sees it. -/
def stored (s : Store) : Option LocationBundleV4 := s.bundle.map (·.normalized)

/-- `migrateLegacyBundle`, before it is normalized. -/
def legacyBundle (s : Store) : Except Thrown LocationBundleV4 := do
  let found ← s.legacyLocations.mapM fun p => parseSingleLocation p.2 (some p.1)
  let locations := found.filterMap fun e => e
  return { activeLocationId := s.legacyActiveLocationId.filter (LocationBundleV4.holds locations)
           locations }

/-- The locations of the storage before bundles, taken into a bundle that has
none. -/
def withLegacy (stored : Option LocationBundleV4) (legacy : LocationBundleV4) :
    LocationBundleV4 :=
  match stored with
  | some b => { b with activeLocationId := legacy.activeLocationId, locations := legacy.locations }
  | none => legacy

theorem written_withLegacy (stored : Option LocationBundleV4) (legacy : LocationBundleV4) :
    (withLegacy stored legacy.normalized).Written := by
  cases stored with
  | none => exact legacy.written_normalized
  | some b => exact legacy.written_normalized

/-- The bundle, and the store after it was read: a store without locations
adopts what the storage before bundles has. -/
def getBundleUnlocked (s : Store) : Except Thrown (LocationBundleV4 × Store) :=
  match s.stored.filter (!·.locations.isEmpty) with
  | some b => .ok (b, s)
  | none => do
      let legacy ← s.legacyBundle
      if legacy.normalized.locations = [] then
        return (s.stored.getD legacy.normalized, s)
      else
        let adopted := withLegacy s.stored legacy.normalized
        return (adopted, s.put adopted (written_withLegacy _ legacy))

/-- An operation that reads the bundle and saves another. -/
def change (s : Store) (f : LocationBundleV4 → LocationBundleV4) : Except Thrown Store := do
  let (b, s) ← s.getBundleUnlocked
  return s.save (f b)

/-! ### Imports -/

/-- `mergeImportedBundle`. The current bundle is normalized here once more. -/
def mergeImportedBundle (current imported : LocationBundleV4) (replaceMatchingStorageIds : Bool) :
    LocationBundleV4 :=
  let current := current.normalized
  if current.locations = [] then
    { current with activeLocationId := imported.activeLocationId, locations := imported.locations }
  else
    let importedUrls := imported.locations.filterMap (·.listUrl)
    let kept := if current.settings.preventDuplicates then
        current.locations.filter fun e => (e.subscriptionUrl.map trim).all (· ∉ importedUrls)
      else current.locations
    let keptIds := kept.map (·.storageId)
    let replaces (e : LocationEntry) : Bool :=
      replaceMatchingStorageIds && e.storageId ∈ keptIds
    -- The last entry of an id replaces it in place; the others are named anew.
    let merged := kept.map fun e =>
      (imported.locations.filter fun e' =>
        replaces e' && e'.storageId == e.storageId).getLast?.getD e
    let fresh := imported.locations.filter (!replaces ·)
    let ids := uniqueStorageIds keptIds (fresh.map (·.storageId))
    let merged := merged ++
      List.zipWith (fun e id => LocationEntry.normalized { e with storageId := id }) fresh ids
    let renamed := (fresh.map (·.storageId)).zip ids
    let importedActive := (imported.activeLocationId.map fun id => (lastValue renamed id).getD id)
      |>.filter (LocationBundleV4.holds merged)
    { current with
      activeLocationId := (importedActive.or
        (current.activeLocationId.filter (LocationBundleV4.holds merged))).or
        (merged.head?.map (·.storageId))
      locations := merged }

/-- What is kept of a list its host refused. -/
def refusedListOf (now : Int) (source : ImportSource) (listUrl : Text) (originLink : Option Text)
    (previous : Option SubscriptionMetadata) : RefusedList :=
  let subscription := (SubscriptionMetadata.withProfile previous source.profile).getD {}
  RefusedList.normalized
    { subscriptionUrl := listUrl
      subscriptionOriginLink := originLink
      subscription := some
        { subscription with
          announce := (source.profile.bind (·.announce)).bind nonEmpty
          updateIntervalHours := some ((source.updateIntervalHours.or
            (previous.bind (·.updateIntervalHours))).getD
            SubscriptionMetadata.defaultUpdateIntervalHours)
          lastRefreshAtEpochMs := some now }
      refusal := (source.profile.bind (·.deviceRefusal)).getD .limitReached }

/-- `withRefusal`: the list kept with none of its servers. -/
def withRefusal (b : LocationBundleV4) (refused : RefusedList) : LocationBundleV4 :=
  let gone := b.locations.filter (·.subscriptionUrl.map trim = some refused.subscriptionUrl)
  let selectionGone := b.activeLocationId.any (LocationBundleV4.holds gone)
  { b with
    activeLocationId := if selectionGone then none else b.activeLocationId
    locations := b.locations.filter (·.subscriptionUrl.map trim ≠ some refused.subscriptionUrl)
    refusedLists := b.refusedLists.filter (trim ·.subscriptionUrl ≠ refused.subscriptionUrl)
      ++ [refused]
    selectionWithdrawn := b.selectionWithdrawn || selectionGone }

/-- The first origin link of some entries. -/
def originLinkOf (entries : List LocationEntry) : Option Text :=
  entries.findSome? (·.subscriptionOriginLink)

/-- The first subscription metadata of some entries. -/
def subscriptionOf (entries : List LocationEntry) : Option SubscriptionMetadata :=
  entries.findSome? fun e => e.metadata.bind (·.subscription)

structure ImportReport where
  imported : Bool
  refused : Option DeviceRefusal := none

def importReport (s : Store) (w : World) (text : Text) : Except Thrown (Store × ImportReport) := do
  match ← resolveParsedImport w text none with
  | none => return (s, { imported := false })
  | some (.parsed _ parsed) =>
      let s ← s.change fun current =>
        mergeImportedBundle current parsed.bundle.normalized (parsed.mode = .restore)
      return (s, { imported := true })
  | some (.refused source originLink) =>
      let listUrl := source.subscriptionUrl.getD (trim text)
      let s ← s.change fun current =>
        let previousEntries :=
          current.locations.filter (·.subscriptionUrl.map trim = some listUrl)
        let previousRefusal := current.refusedLists.find? (·.subscriptionUrl = listUrl)
        withRefusal current <| refusedListOf w.nowEpochMs source listUrl
          ((originLink.or (originLinkOf previousEntries)).or
            (previousRefusal.bind (·.subscriptionOriginLink)))
          ((subscriptionOf previousEntries).or (previousRefusal.bind (·.subscription)))
      return (s, { imported := false, refused := source.profile.bind (·.deviceRefusal) })

end Store

end

end Ghostlane.App
