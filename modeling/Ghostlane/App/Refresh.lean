import Ghostlane.App.Repository

/-!
# Ghostlane.App.Refresh

A refresh (`refreshSubscriptionsUnlocked` in
`data/datasource/LocationsDatasource.kt`). Every list asked is decided by its
answer: a list that is served gets the lines of its body, each under the id of
the entry it inherits or under a new name; a refused one loses its entries; one
whose answer came to nothing stays as it was.

The lists are handled one after another over an accumulator (`Refreshing`).
What a list is asked depends on the stored bundle alone, so all the answers are
had first and handled after.
-/

namespace Ghostlane.App

open Ghostlane.Lib

/-- What makes two lines one server to a refresh. -/
def subscriptionSignature (location : LocationConfig) : Text :=
  let c := location.normalized
  c.bypassProvider ++ '|' :: c.transport ++ '|' :: c.id ++ '|' :: c.key

/-- Which previous entry each refreshed line inherits: the first one left of
its signature. -/
def inherited : (previous refreshed : List LocationEntry) → List (Option LocationEntry)
  | _, [] => []
  | previous, line :: refreshed =>
      let same (e : LocationEntry) : Bool :=
        subscriptionSignature e.location == subscriptionSignature line.location
      previous.find? same :: inherited (previous.eraseP same) refreshed

/-- The ids of refreshed lines in order: the inherited one, or a new name. -/
def assignIds (used : List Text) : List (Option Text × Text) → List Text
  | [] => []
  | (some id, _) :: lines => id :: assignIds used lines
  | (none, base) :: lines =>
      let id := uniqueStorageId base used
      id :: assignIds (id :: used) lines

/-- What a new line is named after. -/
def nameBase (index : Nat) (line : LocationEntry) : Text :=
  txt "imported_" ++ ifBlank line.location.storageSlug (txt "location_" ++ decimal (index + 1))

/-- The ids of a list's refreshed lines. Every inherited id is taken before any
new line is named. -/
def refreshedIds (used : List Text) (previous refreshed : List LocationEntry) : List Text :=
  let reused := (inherited previous refreshed).map (·.map (·.storageId))
  assignIds (reused.filterMap (fun id => id) ++ used) (reused.zip (refreshed.mapIdx nameBase))

namespace LocationBundleV4

/-- The entries of the list at an address. -/
def entriesOf (b : LocationBundleV4) (url : Text) : List LocationEntry :=
  b.locations.filter (·.listUrl = some url)

/-- The addresses of the lists that have entries, in order. -/
def listUrls (b : LocationBundleV4) : List Text := distinct (b.locations.filterMap (·.listUrl))

/-- The record of a refusal at an address, the last one. A list with entries is
not asked about one. -/
def refusalAt (b : LocationBundleV4) (url : Text) : Option RefusedList :=
  if url ∈ b.listUrls then none
  else (b.refusedLists.filter fun r => trim r.subscriptionUrl = url).getLast?

/-- The lists a refresh asks: those with entries, then the refused ones without. -/
def targetUrls (b : LocationBundleV4) (onlyUrls : Option (List Text)) : List Text :=
  let asked (url : Text) : Bool := onlyUrls.all (url ∈ ·)
  let grouped := b.listUrls.filter asked
  grouped ++ (distinct (b.refusedLists.map (trim ·.subscriptionUrl))).filter fun url =>
    !isBlank url && url ∉ grouped && asked url

end LocationBundleV4

section

variable [Build]

/-- What asking for a list comes to: its own address first, then the spare its
provider arranged. -/
def askList (b : LocationBundleV4) (w : World) (url : Text) :
    Except Thrown (Option Resolution) := do
  let previous := b.entriesOf url
  let refusal := (b.refusalAt url).bind (·.subscription)
  let interval := (previous.findSome? fun e =>
      (e.metadata.bind (·.subscription)).bind (·.updateIntervalHours)).or
    (refusal.bind (·.updateIntervalHours))
  let spare := ((previous.findSome? fun e =>
      (e.metadata.bind (·.subscription)).bind (·.fallbackUrl)).or
    (refusal.bind (·.fallbackUrl))).filter (· ≠ url)
  match ← resolveParsedImport w url interval, spare with
  | some resolution, _ => return some resolution
  | none, none => return none
  | none, some spare => resolveParsedImport w spare interval

end

/-- What a refresh has made so far. -/
structure Refreshing where
  locations : List LocationEntry
  refusedLists : List RefusedList
  usedStorageIds : List Text
  activeAfter : Option Text
  successfulRefreshes : Nat := 0
  refusals : Nat := 0
  refusedSelection : Bool := false

namespace Refreshing

/-- Before any list is handled: the entries of no list and of lists not asked. -/
def start (b : LocationBundleV4) (onlyUrls : Option (List Text)) : Refreshing :=
  let targets := b.targetUrls onlyUrls
  let others := b.locations.filter fun e =>
    match e.listUrl with
    | none => true
    | some url => onlyUrls.isSome && url ∉ targets
  { locations := others
    refusedLists := b.refusedLists.filter (trim ·.subscriptionUrl ∉ targets)
    usedStorageIds := others.map (·.storageId)
    activeAfter := b.activeLocationId }

/-- `preservePreviousEntries`. -/
def preserve (r : Refreshing) (e : LocationEntry) : Refreshing :=
  if e.storageId ∈ r.usedStorageIds then r
  else
    { r with
      locations := r.locations ++ [e]
      usedStorageIds := e.storageId :: r.usedStorageIds }

/-- A list whose answer changed nothing stays as it was: its servers, or its refusal. -/
def keepAsItWas (b : LocationBundleV4) (url : Text) (r : Refreshing) : Refreshing :=
  let r := (b.entriesOf url).foldl preserve r
  { r with refusedLists := r.refusedLists ++ (b.refusalAt url).toList }

/-- Is the selected server one of the list's? -/
def holdsActive (b : LocationBundleV4) (url : Text) : Bool :=
  b.activeLocationId.any (LocationBundleV4.holds (b.entriesOf url))

/-- The previous entries' encrypted link, or the refused list's. -/
def previousOriginLink (b : LocationBundleV4) (url : Text) : Option Text :=
  (Store.originLinkOf (b.entriesOf url)).or ((b.refusalAt url).bind (·.subscriptionOriginLink))

/-- The host said no: the list keeps none of its servers, and a selection that
was one of them is withdrawn. -/
def refuse (b : LocationBundleV4) (w : World) (url : Text) (source : ImportSource)
    (r : Refreshing) : Refreshing :=
  { r with
    refusedLists := r.refusedLists ++ [Store.refusedListOf w.nowEpochMs source
      (source.movedTo.getD url) (previousOriginLink b url)
      ((Store.subscriptionOf (b.entriesOf url)).or ((b.refusalAt url).bind (·.subscription)))]
    refusals := r.refusals + 1
    activeAfter := if holdsActive b url then none else r.activeAfter
    refusedSelection := r.refusedSelection || holdsActive b url }

/-- What the list says about itself over what its entries remember of it. -/
def carriedProfile (b : LocationBundleV4) (url : Text) (source : ImportSource) :
    Option SubscriptionProfile :=
  let profile := source.profile.getD {}
  let remembered (f : SubscriptionMetadata → Option Text) : Option Text :=
    (b.entriesOf url).findSome? fun e => (e.metadata.bind (·.subscription)).bind f
  let carried :=
    { profile with
      announce := profile.announce.or (remembered (·.announce))
      fallbackUrl := (profile.fallbackUrl.or (remembered (·.fallbackUrl))).or
        (((b.refusalAt url).bind (·.subscription)).bind (·.fallbackUrl)) }
  if carried.isEmpty then none else some carried

/-- A refreshed line under its id, filed at its list. -/
def refile (b : LocationBundleV4) (w : World) (url : Text) (source : ImportSource)
    (line : LocationEntry) (storageId : Text) : LocationEntry :=
  let interval := ((b.entriesOf url).findSome? fun e =>
      (e.metadata.bind (·.subscription)).bind (·.updateIntervalHours)).or
    (((b.refusalAt url).bind (·.subscription)).bind (·.updateIntervalHours))
  LocationEntry.normalized
    { line with
      storageId
      subscriptionUrl := some (source.movedTo.getD url)
      subscriptionOriginLink := line.subscriptionOriginLink.or (previousOriginLink b url)
      metadata := some <| LocationMetadata.withSubscriptionRefreshState line.metadata
        ((source.updateIntervalHours.or interval).getD
          SubscriptionMetadata.defaultUpdateIntervalHours)
        (some w.nowEpochMs) (carriedProfile b url source) }

/-- The list is served: its lines take the place of its entries. The selection
moves only when the server it points at is gone. -/
def serve (b : LocationBundleV4) (w : World) (url : Text) (source : ImportSource)
    (refreshed : List LocationEntry) (r : Refreshing) : Refreshing :=
  let ids := refreshedIds r.usedStorageIds (b.entriesOf url) refreshed
  let reassigned := List.zipWith (refile b w url source) refreshed ids
  { r with
    locations := r.locations ++ reassigned
    usedStorageIds := ids ++ r.usedStorageIds
    activeAfter :=
      if holdsActive b url && !r.activeAfter.any (LocationBundleV4.holds reassigned) then
        reassigned.head?.map (·.storageId)
      else r.activeAfter
    successfulRefreshes := r.successfulRefreshes + 1 }

/-- One list, by its answer. -/
def handle (b : LocationBundleV4) (w : World) (url : Text) (answer : Option Resolution)
    (r : Refreshing) : Refreshing :=
  match answer with
  | none => r.keepAsItWas b url
  | some (.refused source _) => r.refuse b w url source
  | some (.parsed source parsed) =>
      if parsed.bundle.locations = [] then r.keepAsItWas b url
      else r.serve b w url source parsed.bundle.locations

end Refreshing

structure SubscriptionRefreshReport where
  updatedCount : Nat := 0
  refusedSelection : Bool := false
  deriving DecidableEq, Repr

section

variable [Build]

/-- Every list handled, by the answers it got. -/
def handleAll (b : LocationBundleV4) (onlyUrls : Option (List Text)) (w : Text → World)
    (answers : List (Text × Option Resolution)) : Refreshing :=
  answers.foldl (fun r a => r.handle b (w a.1) a.1 a.2) (.start b onlyUrls)

/-- The bundle a refresh saves, over the one it read. -/
def Refreshing.bundle (b : LocationBundleV4) (r : Refreshing) : LocationBundleV4 :=
  { b with
    activeLocationId := r.activeAfter
    locations := r.locations
    refusedLists := r.refusedLists
    selectionWithdrawn := b.selectionWithdrawn || r.refusedSelection }

/-- `w` is the network as each list finds it when it is asked. -/
def Store.refreshSubscriptionsUnlocked (s : Store) (onlyUrls : Option (List Text))
    (w : Text → World) : Except Thrown (Store × SubscriptionRefreshReport) := do
  let (b, s) ← s.getBundleUnlocked
  let answers ← (b.targetUrls onlyUrls).mapM fun url => return (url, ← askList b (w url) url)
  let r := handleAll b onlyUrls w answers
  if r.successfulRefreshes = 0 ∧ r.refusals = 0 then return (s, {})
  return (s.save (r.bundle b),
    { updatedCount := r.successfulRefreshes, refusedSelection := r.refusedSelection })

end

end Ghostlane.App
