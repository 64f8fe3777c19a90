import Ghostlane.App.Location
import Mathlib.Data.List.Sort

/-!
# Ghostlane.App.TransportGroup

The lines of one exit, and the exits of one country (`net/TransportGroup.kt`,
`net/TransportSelector.kt`, `net/SessionFailover.kt`). A list publishes an exit once
for each transport and tells them apart by a suffix of the name; the name leads with
the country. Nothing else says that two lines belong together, so every selection here
is made by reading names.

When an outage is due for a look around (`SessionFailover.due`) is left out: the clock
and the counters are the caller's.
-/

namespace Ghostlane.App

open Ghostlane.Lib

/-! ### The exits of a list -/

namespace SmartConnect

/-- The suffixes that tell the transports of one exit apart. -/
def transportSuffixes : List Text := [txt " · Hysteria2", txt " · XHTTP", txt " · olcRTC"]

/-- `TransportGroup.baseName`. -/
def baseName (name : Text) : Text :=
  match transportSuffixes.find? (·.isSuffixOf (trim name)) with
  | some suffix => trim ((trim name).take ((trim name).length - suffix.length))
  | none => trim name

/-- `groupKey`: one key for each exit of a list, which the list's address begins. -/
def groupKey (active : LocationEntry) : Text :=
  active.listUrl.getD [] ++ '\n' :: baseName (ifBlank active.name active.location.displayName)

/-- `SmartConnect.Step`. -/
inductive Step where
  /-- A core transport, probed before anything is connected. -/
  | probe (entry : LocationEntry)
  /-- An olcRTC room: joining is itself the test. -/
  | connect (entry : LocationEntry)
  deriving DecidableEq, Repr

def Step.entry : Step → LocationEntry
  | .probe entry => entry
  | .connect entry => entry

end SmartConnect

namespace TransportGroup

open SmartConnect

structure Key where
  subscriptionUrl : Option Text
  baseName : Text
  deriving DecidableEq, Repr

/-- What a line is called. -/
def nameOf (e : LocationEntry) : Text := ifBlank e.name e.location.displayName

def isRoom (e : LocationEntry) : Bool := e.location.kind == .olcrtc

def keyOf (e : LocationEntry) : Key where
  subscriptionUrl := e.listUrl
  baseName := baseName (nameOf e)

/-- `siblings`: the same exit over every transport. A room never joins a group. -/
def siblings (entry : LocationEntry) (all : List LocationEntry) : List LocationEntry :=
  if isRoom entry then [entry]
  else all.filter fun candidate => !isRoom candidate && keyOf candidate == keyOf entry

/-- `countryOf`: two capital letters at the head of a name, and nothing else. -/
def countryOf (name : Text) : Option Text :=
  let first := trim (substringBefore '|' (substringBefore ' ' (trim name)))
  if first.length == 2 && first.all fun c => 'A' ≤ c && c ≤ 'Z' then some first else none

/-- `sameCountryExits`: the other exits of the country in the same list. -/
def sameCountryExits (entry : LocationEntry) (all : List LocationEntry) : List LocationEntry :=
  match entry.listUrl, countryOf (keyOf entry).baseName with
  | some url, some country =>
      all.filter fun candidate =>
        !isRoom candidate && candidate.subscriptionUrl.map trim == some url &&
          (keyOf candidate != keyOf entry && countryOf (keyOf candidate).baseName == some country)
  | _, _ => []

/-- `otherRooms`: the other rooms of a room's country in the same list. -/
def otherRooms (entry : LocationEntry) (all : List LocationEntry) : List LocationEntry :=
  if !isRoom entry then []
  else match entry.listUrl, countryOf (nameOf entry) with
    | some url, some country =>
        all.filter fun candidate =>
          candidate.storageId != entry.storageId && isRoom candidate &&
            candidate.subscriptionUrl.map trim == some url &&
              countryOf (nameOf candidate) == some country
    | _, _ => []

/-- `olcrtcFallbacks`: the rooms of a core line's country in the same list. -/
def olcrtcFallbacks (entry : LocationEntry) (all : List LocationEntry) : List LocationEntry :=
  if isRoom entry then []
  else match entry.listUrl, countryOf (keyOf entry).baseName with
    | some url, some country =>
        all.filter fun candidate =>
          isRoom candidate && candidate.subscriptionUrl.map trim == some url &&
            countryOf (nameOf candidate) == some country
    | _, _ => []

end TransportGroup

/-! ### The order of the transports -/

/-- `TransportKind`: what a location speaks, by its own link. -/
inductive TransportKind where
  | reality
  | hysteria2
  | xhttp
  | grpc
  | tls
  | plain
  | trojan
  | shadowsocks
  | vmess
  | olcrtc
  deriving DecidableEq, Repr

def LocationConfig.transportKind [JsonReader] (c : LocationConfig) : TransportKind :=
  match c.kind with
  | .olcrtc => .olcrtc
  | .hysteria2 => .hysteria2
  | .trojan => .trojan
  | .shadowsocks => .shadowsocks
  | .vmess => .vmess
  | .vless =>
      match c.rawLink.bind fun link => (LinkParser.parse link).map OutboundSpec.details with
      | some (.vless _ _ publicKey _ _ _ transport plain _) =>
          match transport with
          | .xhttp .. => .xhttp
          | .grpc .. => .grpc
          | _ => if !isBlank publicKey then .reality else if plain then .plain else .tls
      | _ => .tls

namespace TransportSelector

def defaultOrder : List TransportKind :=
  [.reality, .hysteria2, .grpc, .xhttp, .tls, .trojan, .vmess, .shadowsocks, .plain]

/-- Where a line stands in the default order; one that is not in it stands last. -/
def rank [JsonReader] (e : LocationEntry) : Nat := defaultOrder.idxOf e.location.transportKind

/-- `orderCandidates`: best first, the last winner before all others. -/
def orderCandidates [JsonReader] (group : List LocationEntry) (lastKnownGood : Option Text) :
    List LocationEntry :=
  let usable := group.filter fun e => !TransportGroup.isRoom e
  -- `sortedBy` is stable, and so is insertion from the right
  let byPreference := usable.insertionSort fun a b => rank a ≤ rank b
  match byPreference.find? fun e => some e.storageId == lastKnownGood with
  | none => byPreference
  | some promoted => promoted :: byPreference.filter fun e => e.storageId != promoted.storageId

end TransportSelector

namespace SessionFailover

open SmartConnect TransportGroup TransportSelector

/-- `candidates`: the lines to try instead of the active one, best first. -/
def candidates [JsonReader] (active : LocationEntry) (all : List LocationEntry)
    (lastKnownGood : Option Text) (whitelist : Bool) : List Step :=
  let otherExits := (groupBy keyOf (sameCountryExits active all)).flatMap fun group =>
    orderCandidates group none
  if isRoom active then
    (otherRooms active all).map .connect ++ otherExits.map .probe
  else
    let sameExit := (orderCandidates (siblings active all) lastKnownGood).filter fun e =>
      e.storageId != active.storageId
    let cores := (sameExit ++ otherExits).map .probe
    let rooms := (olcrtcFallbacks active all).map .connect
    if whitelist then rooms ++ cores else cores ++ rooms

end SessionFailover

end Ghostlane.App
