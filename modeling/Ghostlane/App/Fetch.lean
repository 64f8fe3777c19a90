import Ghostlane.App.Import

/-!
# Ghostlane.App.Fetch

What asking for a list comes to (`resolveParsedImport` and what it calls in
`data/datasource/LocationsDatasource.kt`): a list read, a refusal, or nothing.

The network is a `World`. It answers a request for an address in one of the two
request modes, resolves a partner's link, and says what time it is; a model of
a longer run takes a `World` for each list it asks.
-/

namespace Ghostlane.App

open Ghostlane.Lib

/-- Asked with this device's id, or as a browser. -/
inductive RequestMode
  | identity
  | compatibility
  deriving DecidableEq, Repr

/-- A successful answer: what its headers say, and its body. -/
structure DownloadedSubscription where
  content : Text
  updateIntervalHours : Option Int := none
  profile : Option SubscriptionProfile := none

inductive PartnerLinkResult
  | resolved (link : Text)
  | notFound
  | unavailable

/-- The network and the clock while one text is resolved. -/
structure World where
  downloadTextFromUrl : Text → RequestMode → Option DownloadedSubscription
  partnerLinkResolver : Option (Text → PartnerLinkResult) := none
  nowEpochMs : Int := 0

/-- What a build of the app brings along: the JSON library, and the key of the
encrypted links if it has one. -/
class Build extends Serialization where
  /-- `CryptCodec.decryptBlob` as text, in a build that has a key. -/
  cryptCodec : Option (Text → Option Text)

def isPartnerLink (t : Text) : Bool := startsWith (trim t) (txt "happ://")

def cryptLinkPrefix : Text := txt "olcrtc://crypt1/"

def isCryptLink (t : Text) : Bool := startsWith (trim t) cryptLinkPrefix

def isHttpUrl (t : Text) : Bool :=
  let value := lowercase (trim t)
  startsWith value (txt "http://") || startsWith value (txt "https://")

structure ImportSource where
  content : Text
  subscriptionUrl : Option Text := none
  updateIntervalHours : Option Int := none
  profile : Option SubscriptionProfile := none
  requestMode : RequestMode := .identity

namespace ImportSource

def refused (s : ImportSource) : Bool := s.profile.any (·.deviceRefusal.isSome)

/-- Where the answer says the list lives from now on. -/
def movedTo (s : ImportSource) : Option Text := s.profile.bind (·.movedTo)

/-- This answer, unless its host refused it. -/
def unlessRefused (s : ImportSource) : Option ImportSource := if s.refused then none else some s

end ImportSource

/-- What asking for a list came to, when it came to anything. -/
inductive Resolution
  /-- The list, read. -/
  | parsed (source : ImportSource) (parsed : ParsedImport)
  /-- The host answered this device, and said no. -/
  | refused (source : ImportSource) (originLink : Option Text)

def Resolution.source : Resolution → ImportSource
  | parsed source _ => source
  | refused source _ => source

section

variable [Build]

/-- `CryptCodec.decryptLink`, for a link that carries the marker. -/
def decryptLink (text : Text) : Option Text :=
  if isCryptLink text then
    Build.cryptCodec.bind fun decrypt => decrypt (removePrefix (trim text) cryptLinkPrefix)
  else none

/-- The text a body holds: decrypted when its address says it is encrypted and
it can be, else as it came. -/
def bodyOf (url content : Text) : Text :=
  let raw := normalizedImportText content
  if contains url (txt "crypt=1") then
    (Build.cryptCodec.bind fun decrypt => decrypt (trim raw)).getD raw
  else raw

def resolveImportSource (w : World) (text : Text) (requestMode : RequestMode) :
    Option ImportSource :=
  if isBlank text then none
  else if !isHttpUrl text then some { content := normalizedImportText text }
  else do
    let downloaded ← w.downloadTextFromUrl text requestMode
    let source : ImportSource :=
      { content := []
        subscriptionUrl := some ((downloaded.profile.bind (·.movedTo)).getD (trim text))
        updateIntervalHours := downloaded.updateIntervalHours
        profile := downloaded.profile
        requestMode }
    -- A refusal's body is never read.
    if source.refused then return source
    let content := bodyOf text downloaded.content
    if isBlank content then none
    return { source with content }

/-- The interval a list is read with: its own, the one it had, or the default. -/
def initialInterval (source : ImportSource) (fallback : Option Int) : Option Int :=
  (source.updateIntervalHours.or fallback).or
    (source.subscriptionUrl.map fun _ => SubscriptionMetadata.defaultUpdateIntervalHours)

/-- An entry stamped with what its list said and the encrypted link it came by. -/
def stamp (w : World) (source : ImportSource) (originLink : Option Text) (e : LocationEntry) :
    LocationEntry :=
  { e with
    metadata := LocationMetadata.withSubscriptionProfile e.metadata w.nowEpochMs source.profile
    subscriptionOriginLink :=
      if originLink.isSome && source.subscriptionUrl.isSome then originLink
      else e.subscriptionOriginLink }

def parseImportSource (w : World) (source : ImportSource) (fallbackInterval : Option Int)
    (originLink : Option Text) : Except Thrown (Option ParsedImport) := do
  let parsed ← parseImport (normalizedImportText source.content) source.subscriptionUrl
    (initialInterval source fallbackInterval)
  return parsed.map fun p =>
    { p with
      bundle := { p.bundle with
        locations := p.bundle.locations.map (stamp w source originLink) } }

/-- The text behind a partner's link, as its partner says it. -/
def resolvePartner (w : World) (input : Text) : Option Text :=
  match isPartnerLink input, w.partnerLinkResolver with
  | true, some resolve =>
      match resolve input with
      | .resolved link => some link
      | .notFound | .unavailable => none
  | _, _ => some input

def resolveParsedImport (w : World) (text : Text) (fallbackInterval : Option Int) :
    Except Thrown (Option Resolution) :=
  let input := normalizedImportText text
  if isBlank input then .ok none
  else
    let originLink := if isPartnerLink input || isCryptLink input then some input else none
    match resolvePartner w input with
    | none => .ok none
    | some resolvedInput =>
        let effective := (decryptLink resolvedInput).getD resolvedInput
        let identity := resolveImportSource w effective .identity
        let asBrowser : Option ImportSource :=
          if isHttpUrl effective then
            (resolveImportSource w effective .compatibility).bind (·.unlessRefused)
          else none
        match identity.filter (·.refused), identity.or asBrowser with
        | some source, _ => .ok (some (.refused source originLink))
        | none, none => .ok none
        | none, some source => do
            match ← parseImportSource w source fallbackInterval originLink with
            | some parsed => return some (.parsed source parsed)
            | none =>
                -- A body that says nothing is asked for again as a browser asks.
                match (if source.requestMode = .compatibility then none else asBrowser) with
                | none => return none
                | some source =>
                    return (← parseImportSource w source fallbackInterval originLink).map
                      (.parsed source ·)

end

/-! ### Small networks -/

/-- A build without a key. No body it is given is JSON. -/
@[reducible] def Build.plain : Build where
  parseToJsonElement _ := none
  intOrNull _ := none
  decodeEntry _ := none
  cryptCodec := none

/-- Every address serves one body. -/
def World.serving (body : Text) : World where
  downloadTextFromUrl _ _ := some { content := body }

/-- No address answers. -/
def World.failing : World where
  downloadTextFromUrl _ _ := none

/-- Every host refuses this device. -/
def World.refusing : World where
  downloadTextFromUrl _ _ :=
    some { content := [], profile := some { deviceRefusal := some .limitReached } }

end Ghostlane.App
