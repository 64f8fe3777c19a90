import Mathlib.Data.List.Sort
import Ghostlane.App.Bundle

/-!
# Ghostlane.App.Share

What the app hands out (`data/share/ConfigShareService.kt`): a room as a link
another client reads, and a list as the text it is shared by. A list that arrived
through an encrypted link is shared as that link: its address is what the link
was hiding.
-/

namespace Ghostlane.App

open Ghostlane.Lib

/-- A number in a text. -/
def intText (n : Int) : Text :=
  if n < 0 then '-' :: Nat.toDigits 10 n.natAbs else Nat.toDigits 10 n.natAbs

/-- The UTF-16 units of a text, by which `String` compares. -/
def codeUnits (t : Text) : List Nat :=
  t.flatMap fun c =>
    if c.toNat < 0x10000 then [c.toNat]
    else [0xD800 + (c.toNat - 0x10000) / 0x400, 0xDC00 + (c.toNat - 0x10000) % 0x400]

/-- `String.compareTo` of two texts is at most zero. -/
def unitsLe : List Nat → List Nat → Bool
  | [], _ => true
  | _ :: _, [] => false
  | a :: as, b :: bs => a < b || (a == b && unitsLe as bs)

structure SubscriptionShareItem where
  url : Text
  name : Text
  updateIntervalHours : Option Int
  lastRefreshAtEpochMs : Option Int
  locationCount : Nat
  /-- The encrypted link the list arrived as, when it did. -/
  originLink : Option Text := none

/-- What a QR code or a share hands out. -/
def SubscriptionShareItem.shareText (item : SubscriptionShareItem) : Text :=
  item.originLink.getD item.url

namespace ConfigShareService

/-- A transport with its options, as a link says it. -/
def transportToken (c : LocationConfig) : Text :=
  if c.transport = transportVp8Channel then
    txt "vp8channel<vp8-fps=" ++ intText c.vp8Fps ++ txt "&vp8-batch=" ++ intText c.vp8Batch ++
      txt ">"
  else if c.transport = transportSeiChannel then
    txt "seichannel<fps=60&batch=64&frag=900&ack-ms=2000>"
  else c.transport

def olcRtcUri (config : LocationConfig) : Text :=
  let c := config.normalized
  txt "olcrtc://" ++ c.bypassProvider ++ '?' :: transportToken c ++ '@' :: c.id ++ '#' :: c.key ++
    (if !isBlank c.displayName && c.displayName ≠ c.id then '$' :: c.displayName else [])

/-- The address a list is shared under: one of the web. -/
def sharedUrl (e : LocationEntry) : Option Text :=
  (e.subscriptionUrl.map trim).filter fun url =>
    startsWith url (txt "https://") || startsWith url (txt "http://")

/-- The item of one list. -/
def shareItem (url : Text) (entries : List LocationEntry) : SubscriptionShareItem :=
  let metadata := entries.findSome? fun e => e.metadata.bind (·.subscription)
  let firstName := entries.head?.map fun e => ifBlank e.name e.location.displayName
  { url
    name := (((metadata.bind (·.name)).bind nonBlank).or firstName).getD []
    updateIntervalHours := metadata.bind (·.updateIntervalHours)
    lastRefreshAtEpochMs := metadata.bind (·.lastRefreshAtEpochMs)
    locationCount := entries.length
    originLink := entries.findSome? (·.subscriptionOriginLink) }

/-- One item to a list, in the order of their addresses. -/
def subscriptionShareItems (entries : List LocationEntry) : List SubscriptionShareItem :=
  let urls := distinct (entries.filterMap sharedUrl)
  (urls.insertionSort fun a b => unitsLe (codeUnits a) (codeUnits b)).map fun url =>
    shareItem url (entries.filter (sharedUrl · = some url))

end ConfigShareService

end Ghostlane.App
