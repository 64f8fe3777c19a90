import Ghostlane.App.Refresh
import Ghostlane.Lib.Runs

/-!
# Ghostlane.App.Operations

The other operations of the store (`LocationsRepositoryImpl` in
`data/datasource/LocationsDatasource.kt`), and histories of them.

An operation that throws has saved nothing but what its read adopted, so every
operation is enabled in every store and `step` is total.
-/

namespace Ghostlane.App

open Ghostlane.Lib

namespace Store

variable [Build]

def setSubscriptionUpdateInterval (s : Store) (subscriptionUrl : Text) (hours : Int) :
    Except Thrown Store :=
  let url := trim subscriptionUrl
  if isBlank url then .ok s
  else s.change fun b =>
    { b with
      locations := b.locations.map fun e =>
        if e.subscriptionUrl.map trim = some url then
          LocationEntry.normalized
            { e with
              metadata := LocationMetadata.withSubscriptionInterval e.metadata
                (some (SubscriptionMetadata.coerceInterval hours)) }
        else e }

def saveLocation (s : Store) (storageId : Text) (location : LocationConfig) :
    Except Thrown Store :=
  s.change fun b =>
    let id := ifBlank storageId location.storageSlug
    let current := b.locations.find? (·.storageId = id)
    let entry := LocationEntry.fromLocation id location (current.bind (·.subscriptionUrl)) none
      (current.bind (·.metadata))
    { b with
      activeLocationId := some entry.storageId
      locations := b.locations.filter (·.storageId ≠ entry.storageId) ++ [entry] }

/-- With the list goes what the settings kept about it. -/
def deleteSubscription (s : Store) (subscriptionUrl : Text) : Except Thrown (Store × Nat) :=
  let url := trim subscriptionUrl
  if isBlank url then .ok (s, 0)
  else do
    let (b, s) ← s.getBundleUnlocked
    let remaining := b.locations.filter (·.subscriptionUrl.map trim ≠ some url)
    let removed := b.locations.length - remaining.length
    let refusedRemaining := b.refusedLists.filter (trim ·.subscriptionUrl ≠ url)
    if 0 < removed ∨ refusedRemaining.length < b.refusedLists.length then
      return (s.save
        { b with
          activeLocationId := b.activeLocationId.filter (LocationBundleV4.holds remaining)
          locations := remaining
          refusedLists := refusedRemaining
          settings := b.settings.withoutSubscription url }, removed)
    else return (s, removed)

def deleteLocation (s : Store) (storageId : Text) : Except Thrown Store :=
  s.change fun b =>
    { b with
      activeLocationId := b.activeLocationId.filter (· ≠ storageId)
      locations := b.locations.filter (·.storageId ≠ storageId) }

def setActiveLocationId (s : Store) (storageId : Option Text) : Except Thrown Store :=
  s.change fun b =>
    { b with activeLocationId := storageId.filter (LocationBundleV4.holds b.locations) }

def moveActiveLocation (s : Store) (fromStorageId toStorageId group : Text) :
    Except Thrown (Store × Bool) := do
  let (b, s) ← s.getBundleUnlocked
  if b.activeLocationId ≠ some fromStorageId then return (s, false)
  if !LocationBundleV4.holds b.locations toStorageId then return (s, false)
  return (s.save
    { b with
      activeLocationId := some toStorageId
      settings := b.settings.normalized.withLastKnownGood group toStorageId }, true)

/-- `changeSubscriptionSettings`; `saveSubscriptionSettings` is the change that
does not look at the settings before. -/
def changeSubscriptionSettings (s : Store)
    (f : SubscriptionSettings → SubscriptionSettings) : Except Thrown Store :=
  s.change fun b => { b with settings := (f b.settings.normalized).normalized }

def saveRoutingSettings (s : Store) (settings : RoutingSettings) : Except Thrown Store :=
  s.change fun b => { b with routing := settings }

/-- Never overwritten once set. -/
def acceptVpnDisclosure (s : Store) (atMillis : Int) : Except Thrown Store := do
  let (b, s) ← s.getBundleUnlocked
  if b.vpnDisclosureAcceptedAt.isSome then return s
  return s.save { b with vpnDisclosureAcceptedAt := some atMillis }

def setOnboardingSeen (s : Store) (atMillis : Option Int) : Except Thrown Store :=
  s.change fun b => { b with onboardingSeenAt := atMillis }

/-- The lists whose interval has passed, refused ones included. -/
def dueUrls (b : LocationBundleV4) (now : Int) : List Text :=
  let lists :=
    (b.locations.filterMap fun e => e.listUrl.map (·, e.metadata.bind (·.subscription))) ++
      b.refusedLists.filterMap fun r =>
        (nonBlank (trim r.subscriptionUrl)).map (·, r.subscription)
  distinct <| lists.filterMap fun (url, metadata) =>
    let interval := min
      ((metadata.bind (·.updateIntervalHours)).getD SubscriptionMetadata.defaultUpdateIntervalHours)
      b.settings.normalized.updateIntervalHours
    let last := (metadata.bind (·.lastRefreshAtEpochMs)).getD 0
    if last ≤ 0 ∨ now < last ∨ interval * 3600000 ≤ now - last then some url else none

def refreshDueSubscriptions (s : Store) (now : Int) (w : Text → World) :
    Except Thrown (Store × SubscriptionRefreshReport) := do
  let (b, s) ← s.getBundleUnlocked
  if !b.settings.normalized.autoUpdate || dueUrls b now == [] then return (s, {})
  s.refreshSubscriptionsUnlocked (some (dueUrls b now)) w

end Store

/-! ### Histories -/

/-- One operation with everything it is answered. -/
inductive StoreEvent
  /-- `getBundle`, which may adopt what the storage before bundles has. -/
  | read
  | refresh (onlyUrls : Option (List Text)) (w : Text → World)
  | refreshDue (now : Int) (w : Text → World)
  | paste (text : Text) (w : World)
  | setInterval (subscriptionUrl : Text) (hours : Int)
  | changeSettings (f : SubscriptionSettings → SubscriptionSettings)
  | saveRouting (settings : RoutingSettings)
  | acceptDisclosure (atMillis : Int)
  | setOnboarding (atMillis : Option Int)
  | deleteSubscription (subscriptionUrl : Text)
  | deleteLocation (storageId : Text)
  | saveLocation (storageId : Text) (location : LocationConfig)
  | setActive (storageId : Option Text)
  | moveActive (fromStorageId toStorageId group : Text)
  | saveBundle (bundle : LocationBundleV4)

namespace Store

variable [Build]

/-- What an operation makes of the store. -/
def perform (s : Store) : StoreEvent → Except Thrown Store
  | .read => Prod.snd <$> s.getBundleUnlocked
  | .refresh onlyUrls w => Prod.fst <$> s.refreshSubscriptionsUnlocked onlyUrls w
  | .refreshDue now w => Prod.fst <$> s.refreshDueSubscriptions now w
  | .paste text w => Prod.fst <$> s.importReport w text
  | .setInterval url hours => s.setSubscriptionUpdateInterval url hours
  | .changeSettings f => s.changeSubscriptionSettings f
  | .saveRouting settings => s.saveRoutingSettings settings
  | .acceptDisclosure atMillis => s.acceptVpnDisclosure atMillis
  | .setOnboarding atMillis => s.setOnboardingSeen atMillis
  | .deleteSubscription url => Prod.fst <$> s.deleteSubscription url
  | .deleteLocation id => s.deleteLocation id
  | .saveLocation id location => s.saveLocation id location
  | .setActive id => s.setActiveLocationId id
  | .moveActive old new group => Prod.fst <$> s.moveActiveLocation old new group
  | .saveBundle bundle => .ok (s.save bundle)

/-- The store after a read, which may throw. -/
def afterRead (s : Store) : Store :=
  match s.getBundleUnlocked with
  | .ok (_, s') => s'
  | .error _ => s

/-- One step of a history. Nothing throws after it saved; a paste that throws
has not read the store yet. -/
def step (s : Store) (e : StoreEvent) : Option Store :=
  match s.perform e, e with
  | .ok s', _ => some s'
  | .error _, .paste .. => some s
  | .error _, _ => some s.afterRead

end Store

end Ghostlane.App
