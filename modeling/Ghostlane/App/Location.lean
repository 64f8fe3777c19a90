import Ghostlane.App.LinkParser
import Ghostlane.Lib.Collections

/-!
# Ghostlane.App.Location

The data a server is kept as (`data/model/LocationConfig.kt`).

`LocationConfig` is what a tunnel is started with; `LocationEntry` is what is
stored, with the fields older versions wrote beside today's. Its `location`
reads either, and `normalized` writes only today's. What a line says about the
list it came from rides along as `LocationMetadata`.
-/

namespace Ghostlane.App

open Ghostlane.Lib

/-! ### Carriers and transports -/

def providerTelemost : Text := txt "telemost"
def providerWbStream : Text := txt "wbstream"
def providerJitsi : Text := txt "jitsi"
def providerSaluteJazz : Text := txt "salutejazz"
def providerVkCalls : Text := txt "vkcalls"
def providerMtsLink : Text := txt "mtslink"
def defaultBypassProvider : Text := providerWbStream

def transportDataChannel : Text := txt "datachannel"
def transportVp8Channel : Text := txt "vp8channel"
def transportSeiChannel : Text := txt "seichannel"
def defaultTransport : Text := transportVp8Channel

def defaultVp8Fps : Int := 60
def defaultVp8Batch : Int := 64

/-- The carrier a name stands for; the default for any other. -/
def normalizeProvider (value : Text) : Text :=
  let v := lowercase (trim value)
  if v ∈ [providerTelemost, txt "yandex", txt "yandex_telemost"] then providerTelemost
  else if v ∈ [providerWbStream, txt "wb-stream", txt "wildberries"] then providerWbStream
  else if v ∈ [providerJitsi, txt "jitsi-meet", txt "jitsi_meet", txt "meet"] then providerJitsi
  else if v ∈ [providerSaluteJazz, txt "jazz", txt "sberjazz", txt "sber_jazz"] then
    providerSaluteJazz
  else if v ∈ [providerVkCalls, txt "vk", txt "vkcall", txt "vk_calls", txt "vk-calls"] then
    providerVkCalls
  else if v ∈ [providerMtsLink, txt "mts", txt "mts-link", txt "mts_link"] then providerMtsLink
  else defaultBypassProvider

/-- The transport a name stands for, if any. -/
def transportOrNull (value : Text) : Option Text :=
  let v := lowercase (trim value)
  if v ∈ [transportDataChannel, txt "data", txt "dc"] then some transportDataChannel
  else if v ∈ [transportVp8Channel, txt "vp8", txt "video_vp8", txt "video-vp8"] then
    some transportVp8Channel
  else if v ∈ [transportSeiChannel, txt "sei", txt "sei_channel", txt "sei-channel",
      txt "h264_sei"] then some transportSeiChannel
  else none

def supportedTransportsForProvider (provider : Text) : List Text :=
  let p := normalizeProvider provider
  if p = providerTelemost then [transportVp8Channel, transportSeiChannel]
  else if p = providerJitsi ∨ p = providerSaluteJazz then [transportDataChannel]
  else if p = providerVkCalls ∨ p = providerMtsLink then [transportVp8Channel]
  else [transportDataChannel, transportVp8Channel, transportSeiChannel]

/-- What the value names when the carrier can carry it, else the carrier's own. -/
def normalizeTransport (value provider : Text) : Text :=
  let normalized := (transportOrNull value).getD defaultTransport
  let supported := supportedTransportsForProvider provider
  if normalized ∈ supported then normalized else supported.head?.getD defaultTransport

def sanitizeVp8Fps (value : Int) : Int := coerceIn value 1 120

def sanitizeVp8Batch (value : Int) : Int := coerceIn value 1 64

/-! ### A location -/

structure LocationConfig where
  name : Text := []
  id : Text := []
  key : Text := []
  bypassProvider : Text := defaultBypassProvider
  transport : Text := defaultTransport
  vp8Fps : Int := defaultVp8Fps
  vp8Batch : Int := defaultVp8Batch
  kind : LocationKind := .olcrtc
  rawLink : Option Text := none
  /-- The other rooms of this one's failover group. -/
  failoverRoomIds : List Text := []
  deriving DecidableEq, Repr

namespace LocationConfig

def normalized (c : LocationConfig) : LocationConfig :=
  let provider := normalizeProvider c.bypassProvider
  { c with
    name := trim c.name
    id := trim c.id
    key := trim c.key
    bypassProvider := provider
    transport := normalizeTransport c.transport provider
    vp8Fps := sanitizeVp8Fps c.vp8Fps
    vp8Batch := sanitizeVp8Batch c.vp8Batch
    failoverRoomIds := distinct
      ((c.failoverRoomIds.map trim).filter fun room => !isBlank room && room ≠ trim c.id) }

def displayName (c : LocationConfig) : Text := ifBlank c.name c.id

/-- The rooms in the order the engine walks them: the primary, then the others. -/
def failoverRooms (c : LocationConfig) : List Text :=
  distinct (((c.id :: c.failoverRoomIds).map trim).filter (!isBlank ·))

/-- Can it be dialled: a room with its key, or a link that parses. -/
def isComplete [JsonReader] (c : LocationConfig) : Bool :=
  match c.kind with
  | .olcrtc => !isBlank c.id && !isBlank c.key
  | _ => c.rawLink.any fun link => (LinkParser.parse link).isSome

end LocationConfig

/-! ### How an entry is stored -/

structure Vp8TransportConfig where
  fps : Int := defaultVp8Fps
  batch : Int := defaultVp8Batch
  deriving DecidableEq, Repr

structure LocationTransportConfig where
  type : Text := defaultTransport
  vp8 : Option Vp8TransportConfig := none
  deriving DecidableEq, Repr

/-- `LocationTransportConfig.from`: options of the video channel are kept for a
video channel only. -/
def LocationTransportConfig.fromConfig (config : LocationConfig) : LocationTransportConfig :=
  let c := config.normalized
  { type := c.transport
    vp8 := if c.transport = transportVp8Channel then
        some { fps := sanitizeVp8Fps c.vp8Fps, batch := sanitizeVp8Batch c.vp8Batch }
      else none }

structure LocationEndpointConfig where
  roomId : Text := []
  key : Text := []
  deriving DecidableEq, Repr

/-- `cleanMetadataValue`. -/
def cleanMetadataValue (value : Option Text) : Option Text := value.bind fun t => nonEmpty (trim t)

structure SubscriptionMetadata where
  name : Option Text := none
  update : Option Text := none
  refresh : Option Text := none
  color : Option Text := none
  icon : Option Text := none
  used : Option Text := none
  available : Option Text := none
  updateIntervalHours : Option Int := none
  lastRefreshAtEpochMs : Option Int := none
  expiresAtEpochMs : Option Int := none
  supportUrl : Option Text := none
  webPageUrl : Option Text := none
  announce : Option Text := none
  fallbackUrl : Option Text := none
  deriving DecidableEq, Repr

namespace SubscriptionMetadata

def defaultUpdateIntervalHours : Int := 24
def minUpdateIntervalHours : Int := 1
def maxUpdateIntervalHours : Int := 720
def announceMaxChars : Nat := 200

def coerceInterval (hours : Int) : Int :=
  coerceIn hours minUpdateIntervalHours maxUpdateIntervalHours

def normalized (m : SubscriptionMetadata) : SubscriptionMetadata where
  name := cleanMetadataValue m.name
  update := cleanMetadataValue m.update
  refresh := cleanMetadataValue m.refresh
  color := cleanMetadataValue m.color
  icon := cleanMetadataValue m.icon
  used := cleanMetadataValue m.used
  available := cleanMetadataValue m.available
  updateIntervalHours := m.updateIntervalHours.map coerceInterval
  lastRefreshAtEpochMs := m.lastRefreshAtEpochMs.filter (0 < ·)
  expiresAtEpochMs := m.expiresAtEpochMs.filter (0 < ·)
  supportUrl := cleanMetadataValue m.supportUrl
  webPageUrl := cleanMetadataValue m.webPageUrl
  announce := (cleanMetadataValue m.announce).map (takeUnits announceMaxChars)
  fallbackUrl := cleanMetadataValue m.fallbackUrl

def isEmpty (m : SubscriptionMetadata) : Bool :=
  [m.name, m.update, m.refresh, m.color, m.icon, m.used, m.available, m.supportUrl, m.webPageUrl,
    m.announce, m.fallbackUrl].all isNullOrBlank &&
  m.updateIntervalHours.isNone && m.lastRefreshAtEpochMs.isNone && m.expiresAtEpochMs.isNone

/-- `normalized()?.takeUnless { it.isEmpty() }`. -/
def cleaned (m : Option SubscriptionMetadata) : Option SubscriptionMetadata :=
  (m.map normalized).filter (!·.isEmpty)

end SubscriptionMetadata

structure LocationMetadata where
  name : Option Text := none
  color : Option Text := none
  icon : Option Text := none
  used : Option Text := none
  available : Option Text := none
  ip : Option Text := none
  comment : Option Text := none
  mimo : Option Text := none
  subscription : Option SubscriptionMetadata := none
  /-- The transport the link asked for, when its carrier cannot carry it. -/
  requestedTransport : Option Text := none
  deriving DecidableEq, Repr

namespace LocationMetadata

def normalized (m : LocationMetadata) : LocationMetadata where
  name := cleanMetadataValue m.name
  color := cleanMetadataValue m.color
  icon := cleanMetadataValue m.icon
  used := cleanMetadataValue m.used
  available := cleanMetadataValue m.available
  ip := cleanMetadataValue m.ip
  comment := cleanMetadataValue m.comment
  mimo := cleanMetadataValue m.mimo
  subscription := SubscriptionMetadata.cleaned m.subscription
  requestedTransport := cleanMetadataValue m.requestedTransport

def isEmpty (m : LocationMetadata) : Bool :=
  [m.name, m.color, m.icon, m.used, m.available, m.ip, m.comment, m.mimo,
    m.requestedTransport].all isNullOrBlank && m.subscription.all (·.isEmpty)

/-- `normalized()?.takeUnless { it.isEmpty() }`. -/
def cleaned (m : Option LocationMetadata) : Option LocationMetadata :=
  (m.map normalized).filter (!·.isEmpty)

end LocationMetadata

structure LocationEntry where
  storageId : Text
  name : Text := []
  /-- The list it came from; none for a location added by hand. -/
  subscriptionUrl : Option Text := none
  /-- The encrypted link that list arrived as. -/
  subscriptionOriginLink : Option Text := none
  endpoint : Option LocationEndpointConfig := none
  failoverRooms : List Text := []
  authProvider : Option Text := none
  transport : Option LocationTransportConfig := none
  metadata : Option LocationMetadata := none
  kind : LocationKind := .olcrtc
  rawLink : Option Text := none
  -- What earlier versions wrote.
  legacyCarrier : Option Text := none
  legacySubscriptionUrl : Option Text := none
  legacyId : Option Text := none
  legacyRoomId : Option Text := none
  legacyServer : Option Text := none
  legacyKey : Option Text := none
  legacyPassword : Option Text := none
  legacyBypassProvider : Option Text := none
  legacyBypassProviderCamel : Option Text := none
  legacyProvider : Option Text := none
  legacyVp8Fps : Option Int := none
  legacyVp8FpsCamel : Option Int := none
  legacyVp8Batch : Option Int := none
  legacyVp8BatchCamel : Option Int := none
  deriving DecidableEq, Repr

namespace LocationEntry

def location (e : LocationEntry) : LocationConfig :=
  let transport := e.transport.getD {}
  LocationConfig.normalized {
    name := e.name
    id := firstNotBlank
      [e.endpoint.map (·.roomId), e.legacyId, e.legacyRoomId, e.legacyServer]
    key := firstNotBlank [e.endpoint.map (·.key), e.legacyKey, e.legacyPassword]
    bypassProvider := firstNotBlank [e.authProvider, e.legacyCarrier, e.legacyBypassProvider,
      e.legacyBypassProviderCamel, e.legacyProvider]
    transport := transport.type
    vp8Fps := (((transport.vp8.map (·.fps)).or e.legacyVp8Fps).or e.legacyVp8FpsCamel).getD
      defaultVp8Fps
    vp8Batch := (((transport.vp8.map (·.batch)).or e.legacyVp8Batch).or
      e.legacyVp8BatchCamel).getD defaultVp8Batch
    kind := e.kind
    rawLink := e.rawLink
    failoverRoomIds := e.failoverRooms }

def normalized (e : LocationEntry) : LocationEntry :=
  let config := e.location
  { storageId := trim e.storageId
    name := config.name
    subscriptionUrl := nonBlank (firstNotBlank [e.subscriptionUrl, e.legacySubscriptionUrl])
    subscriptionOriginLink := e.subscriptionOriginLink.bind fun link => nonBlank (trim link)
    endpoint := some { roomId := config.id, key := config.key }
    failoverRooms := config.failoverRoomIds
    authProvider := some config.bypassProvider
    transport := some (.fromConfig config)
    metadata := LocationMetadata.cleaned e.metadata
    kind := config.kind
    rawLink := config.rawLink }

/-- `LocationEntry.from`: an entry for a location. -/
def fromLocation (storageId : Text) (location : LocationConfig) (subscriptionUrl : Option Text)
    (subscriptionOriginLink : Option Text) (metadata : Option LocationMetadata) : LocationEntry :=
  let config := location.normalized
  normalized {
    storageId
    name := config.name
    subscriptionUrl
    subscriptionOriginLink
    endpoint := some { roomId := config.id, key := config.key }
    failoverRooms := config.failoverRoomIds
    authProvider := some config.bypassProvider
    transport := some (.fromConfig config)
    metadata
    kind := config.kind
    rawLink := config.rawLink }

/-- The address of the list an entry belongs to; none for one added by hand. -/
def listUrl (e : LocationEntry) : Option Text :=
  e.subscriptionUrl.bind fun url => nonBlank (trim url)

end LocationEntry

end Ghostlane.App
