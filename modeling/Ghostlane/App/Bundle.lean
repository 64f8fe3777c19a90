import Ghostlane.App.Location

/-!
# Ghostlane.App.Bundle

The one thing the app stores (`data/model/LocationConfig.kt`,
`SubscriptionSettings.kt`, `RoutingSettings.kt`, `RefusedList.kt`): every
location, which of them is selected, the lists whose host refused this device,
and the settings. `LocationBundleV4.normalized` is run on every read and on
every write.
-/

namespace Ghostlane.App

open Ghostlane.Lib

/-! ### Settings -/

structure PinnedLocation where
  subscriptionUrl : Text := []
  wire : Text := []
  name : Text := []
  deriving DecidableEq, Repr

def PinnedLocation.normalized (p : PinnedLocation) : PinnedLocation where
  subscriptionUrl := trim p.subscriptionUrl
  wire := trim p.wire
  name := trim p.name

structure SubscriptionSettings where
  /-- The flag older versions chose the fastest line by, for every list. -/
  autoSelectLowest : Bool := false
  lowestSubscriptionUrls : List Text := []
  autoUpdate : Bool := true
  updateIntervalHours : Int := 1
  /-- A list that is imported again replaces the one that is here. -/
  preventDuplicates : Bool := true
  /-- The transport that last got through, per exit. -/
  lastKnownGoodTransport : List (Text × Text) := []
  foldedSubscriptionUrls : List Text := []
  pinnedLocations : List PinnedLocation := []
  transportFilter : Option Text := none
  deriving DecidableEq, Repr

namespace SubscriptionSettings

def minIntervalHours : Int := 1
def maxIntervalHours : Int := 168
def maxPinned : Nat := 48

/-- `Set<String>.addresses`. -/
def addresses (urls : List Text) : List Text :=
  distinct (urls.filterMap fun url => nonEmpty (trim url))

def normalized (s : SubscriptionSettings) : SubscriptionSettings :=
  let pinned := distinct ((s.pinnedLocations.map (·.normalized)).filter (·.name ≠ []))
  { s with
    updateIntervalHours := coerceIn s.updateIntervalHours minIntervalHours maxIntervalHours
    lowestSubscriptionUrls := addresses s.lowestSubscriptionUrls
    foldedSubscriptionUrls := addresses s.foldedSubscriptionUrls
    transportFilter := s.transportFilter.bind fun key => nonEmpty (trim key)
    -- The newest stay.
    pinnedLocations := pinned.drop (pinned.length - maxPinned) }

/-- These settings with nothing left in them about a list that is removed. -/
def withoutSubscription (s : SubscriptionSettings) (subscriptionUrl : Text) :
    SubscriptionSettings :=
  let url := trim subscriptionUrl
  if url = [] then s
  else normalized
    { s with
      lowestSubscriptionUrls := s.lowestSubscriptionUrls.filter (· ≠ url)
      foldedSubscriptionUrls := s.foldedSubscriptionUrls.filter (· ≠ url)
      pinnedLocations := s.pinnedLocations.filter (trim ·.subscriptionUrl ≠ url) }

/-- `lastKnownGoodTransport + (group to storageId)`. -/
def withLastKnownGood (s : SubscriptionSettings) (group storageId : Text) : SubscriptionSettings :=
  let known := s.lastKnownGoodTransport
  { s with
    lastKnownGoodTransport :=
      if known.any (·.1 == group) then
        known.map fun p => if p.1 = group then (group, storageId) else p
      else known ++ [(group, storageId)] }

end SubscriptionSettings

inductive RoutingMode
  | global
  | bypassRussia
  | bypassIran
  | bypassChina
  | blockedOnly
  deriving DecidableEq, Repr

structure RoutingSettings where
  mode : RoutingMode := .global
  verboseDebugLogs : Bool := false
  olcrtcChromeDtls : Bool := false
  directRules : List Text := []
  tunnelRules : List Text := []
  killSwitch : Bool := false
  deriving DecidableEq, Repr

/-! ### Refused lists -/

/-- Why a list's host turned this device away. -/
inductive DeviceRefusal
  | limitReached
  | notSupported
  deriving DecidableEq, Repr

/-- A list whose host refused this device, kept with no servers. -/
structure RefusedList where
  subscriptionUrl : Text
  subscriptionOriginLink : Option Text := none
  subscription : Option SubscriptionMetadata := none
  refusal : DeviceRefusal := .limitReached
  deriving DecidableEq, Repr

def RefusedList.normalized (r : RefusedList) : RefusedList :=
  { r with
    subscriptionUrl := trim r.subscriptionUrl
    subscriptionOriginLink := r.subscriptionOriginLink.bind fun link => nonBlank (trim link)
    subscription := SubscriptionMetadata.cleaned r.subscription }

/-! ### The bundle -/

def currentVersion : Int := 5

structure LocationBundleV4 where
  version : Int := currentVersion
  activeLocationId : Option Text := none
  locations : List LocationEntry := []
  settings : SubscriptionSettings := {}
  routing : RoutingSettings := {}
  vpnDisclosureAcceptedAt : Option Int := none
  onboardingSeenAt : Option Int := none
  refusedLists : List RefusedList := []
  /-- Nothing is selected, on purpose, while locations exist. -/
  selectionWithdrawn : Bool := false
  deriving DecidableEq, Repr

namespace LocationBundleV4

variable [JsonReader]

/-- An entry a bundle keeps: one with an id, that can be dialled. -/
def keeps (e : LocationEntry) : Bool := !isBlank e.storageId && e.location.isComplete

/-- The locations of a bundle as `normalized` leaves them. -/
def normalizedLocations (locations : List LocationEntry) : List LocationEntry :=
  distinctBy (·.storageId) ((locations.map (·.normalized)).filter keeps)

def holds (locations : List LocationEntry) (id : Text) : Bool :=
  locations.any (·.storageId == id)

def normalized (b : LocationBundleV4) : LocationBundleV4 :=
  let locations := normalizedLocations b.locations
  let chosen := b.activeLocationId.filter (holds locations)
  let withdrawn := b.selectionWithdrawn && chosen.isNone && !locations.isEmpty
  let active := chosen.or (if withdrawn then none else locations.head?.map (·.storageId))
  -- A list with servers is not refused; one record to an address, the last.
  let servedUrls := locations.filterMap fun e =>
    e.subscriptionUrl.bind fun url => nonEmpty (trim url)
  let refused := associateBy (·.subscriptionUrl)
    ((b.refusedLists.map (·.normalized)).filter fun r =>
      r.subscriptionUrl ≠ [] ∧ r.subscriptionUrl ∉ servedUrls)
  { b with
    version := currentVersion
    activeLocationId := active
    locations
    settings := b.settings.normalized
    refusedLists := refused
    selectionWithdrawn := withdrawn }

@[simp] theorem normalized_locations (b : LocationBundleV4) :
    b.normalized.locations = normalizedLocations b.locations := rfl

/-- The ids of a normalized bundle are distinct. -/
theorem normalizedLocations_nodup (locations : List LocationEntry) :
    ((normalizedLocations locations).map (·.storageId)).Nodup :=
  distinctBy_nodup _

/-- Every entry of a normalized bundle is one it keeps, and normalized. -/
theorem of_mem_normalizedLocations {locations : List LocationEntry} {e : LocationEntry}
    (he : e ∈ normalizedLocations locations) :
    (∃ e₀ ∈ locations, e₀.normalized = e) ∧ keeps e = true := by
  have hmem := (distinctBy_sublist _).subset he
  rw [List.mem_filter, List.mem_map] at hmem
  exact hmem

end LocationBundleV4

end Ghostlane.App
