import Ghostlane.App.Bundle

/-!
# Ghostlane.App.Import

What a text says (`data/datasource/LocationsDatasource.kt`): a body of
`olcrtc://` lines and share links, the same in base64, a JSON bundle or a JSON
location, read into entries.

Each reader names its entries by itself, starting from no name taken
(`uniqueStorageIds []`), so an entry is its line's location paired with the
name that comes out at its place. What cannot be read is nothing, except for one
field of a JSON bundle, whose reader throws (`Thrown`).
-/

namespace Ghostlane.App

open Ghostlane.Lib

/-- The JSON library with the serializer generated for `LocationEntry`. -/
class Serialization extends JsonReader where
  /-- `decodeFromJsonElement(LocationEntry.serializer(), …)`, nothing where it throws. -/
  decodeEntry : JsonObject → Option LocationEntry

/-- An exception that reaches the caller. -/
inductive Thrown
  | illegalArgument
  deriving DecidableEq, Repr

/-! ### Names -/

/-- `[a-z0-9_-]`. -/
def isSlugChar (c : Char) : Bool :=
  let n := c.toNat
  (0x61 ≤ n && n ≤ 0x7A) || (0x30 ≤ n && n ≤ 0x39) || n == 0x5F || n == 0x2D

/-- One underscore for each run of other characters. -/
def slugRuns (inRun : Bool) : Text → Text
  | [] => []
  | c :: t =>
      if isSlugChar c then c :: slugRuns false t
      else if inRun then slugRuns true t
      else '_' :: slugRuns true t

/-- `String.storageSlug`. -/
def storageSlug (t : Text) : Text :=
  ifBlank ((trimBy (· == '_') (slugRuns false (lowercase t))).take 32) (txt "location")

/-- `LocationConfig.storageSlug`. -/
def LocationConfig.storageSlug (c : LocationConfig) : Text :=
  App.storageSlug (ifBlank c.displayName c.id)

/-- The names tried for a base, in order. -/
def nameCandidate (base : Text) : Nat → Text
  | 0 => base
  | n + 1 => base ++ '_' :: decimal (n + 2)

/-- `uniqueStorageId`, the first name not taken; the caller takes it. -/
def uniqueStorageId (base : Text) (used : List Text) : Text :=
  firstFree (nameCandidate (storageSlug base)) used

/-- `uniqueStorageId` for one base after another, each name taken before the next. -/
def uniqueStorageIds (used : List Text) : List Text → List Text
  | [] => []
  | base :: bases =>
      let id := uniqueStorageId base used
      id :: uniqueStorageIds (id :: used) bases

/-! ### What a subscription says about itself -/

structure SubscriptionProfile where
  title : Option Text := none
  usedBytes : Option Int := none
  totalBytes : Option Int := none
  expiresAtEpochMs : Option Int := none
  supportUrl : Option Text := none
  webPageUrl : Option Text := none
  /-- None when absent, empty when the provider takes its note down. -/
  announce : Option Text := none
  fallbackUrl : Option Text := none
  /-- Where the list lives from now on. -/
  movedTo : Option Text := none
  deviceRefusal : Option DeviceRefusal := none
  deriving DecidableEq, Repr

def SubscriptionProfile.isEmpty (p : SubscriptionProfile) : Bool :=
  isNullOrBlank p.title && p.usedBytes.isNone && p.totalBytes.isNone &&
    p.expiresAtEpochMs.isNone && isNullOrBlank p.supportUrl && isNullOrBlank p.webPageUrl &&
    p.announce.isNone && p.fallbackUrl.isNone && p.movedTo.isNone && p.deviceRefusal.isNone

/-- `formatByteSize`, in whole numbers: up to `2 ^ 53` bytes its floating point
is exact. -/
def formatByteSize (bytes : Int) : Text :=
  if bytes < 1024 then decimalInt bytes ++ txt " B"
  else
    let n := bytes.toNat
    let (unit, name) :=
      if n < 1024 * 1024 then (1024, txt " KB")
      else if n < 1024 * 1024 * 1024 then (1024 * 1024, txt " MB")
      else if n < 1024 * 1024 * 1024 * 1024 then (1024 * 1024 * 1024, txt " GB")
      else (1024 * 1024 * 1024 * 1024, txt " TB")
    let tenths := n * 10 / unit
    if n < 10 * unit then decimal (tenths / 10) ++ '.' :: decimal (tenths % 10) ++ name
    else decimal (n / unit) ++ name

namespace SubscriptionMetadata

def withSubscriptionInterval (m : Option SubscriptionMetadata) :
    Option Int → Option SubscriptionMetadata
  | none => m
  | some hours => some (normalized { m.getD {} with updateIntervalHours := some hours })

/-- Merges what the subscription said about itself. -/
def withProfile (m : Option SubscriptionMetadata) :
    Option SubscriptionProfile → Option SubscriptionMetadata
  | none => m
  | some profile =>
      let base := m.getD {}
      some <| normalized
        { base with
          name := profile.title.or base.name
          used := (profile.usedBytes.map formatByteSize).or base.used
          available := (profile.totalBytes.map formatByteSize).or base.available
          expiresAtEpochMs := profile.expiresAtEpochMs.or base.expiresAtEpochMs
          supportUrl := profile.supportUrl.or base.supportUrl
          webPageUrl := profile.webPageUrl.or base.webPageUrl
          announce := match profile.announce with
            | none => base.announce
            | some note => nonEmpty note
          fallbackUrl := profile.fallbackUrl.or base.fallbackUrl }

end SubscriptionMetadata

namespace LocationMetadata

def withSubscriptionRefreshState (m : Option LocationMetadata) (updateIntervalHours : Int)
    (lastRefreshAtEpochMs : Option Int) (profile : Option SubscriptionProfile) :
    LocationMetadata :=
  let subscription :=
    (SubscriptionMetadata.withProfile (m.bind (·.subscription)) profile).getD {}
  normalized
    { m.getD {} with
      subscription := some { subscription with
        updateIntervalHours := some updateIntervalHours
        lastRefreshAtEpochMs } }

def withSubscriptionInterval (m : Option LocationMetadata) : Option Int → Option LocationMetadata
  | none => m
  | some hours => some <| withSubscriptionRefreshState m hours
      ((m.bind (·.subscription)).bind (·.lastRefreshAtEpochMs)) none

def withSubscriptionProfile (m : Option LocationMetadata) (refreshedAtEpochMs : Int) :
    Option SubscriptionProfile → Option LocationMetadata
  | none => m
  | some profile =>
      let base := m.getD {}
      let subscription := (SubscriptionMetadata.withProfile base.subscription profile).getD {}
      some
        { base with
          subscription := some <| SubscriptionMetadata.normalized
            { subscription with lastRefreshAtEpochMs := some refreshedAtEpochMs } }

end LocationMetadata

/-! ### `olcrtc://` lines -/

def olcrtcUriPrefix : Text := txt "olcrtc://"

/-- `normalizedImportText`. -/
def normalizedImportText (t : Text) : Text :=
  trim (removePrefix (trim t) [Char.ofNat 0xFEFF])

structure ParsedOlcRtcUri where
  location : LocationConfig
  mimo : Option Text := none
  /-- What the link asked for, when the room will run over something else. -/
  requestedTransport : Option Text := none
  deriving DecidableEq, Repr

def parseTransportToken (token : Text) : Text × List (Text × Int) :=
  match (cut '<' token).bind fun (name, rest) => (cutLast '>' rest).map fun (o, _) => (name, o) with
  | none => (token, [])
  | some (transport, options) =>
      (trim transport, (splitAll (· == '&') options).filterMap fun part => do
        let (key, value) ← cut '=' part
        if key = [] then none
        return (lowercase (trim key), ← toIntOrNull 10 (trim value)))

/-- The extra rooms of a `##rooms:` header. -/
def parseFailoverRooms : Option Text → List Text
  | none => []
  | some value =>
      if isBlank value then []
      else ((splitAll (fun c => c == ',' || c == ' ' || c == '\t') value).map trim).filter (· ≠ [])

def parseSubscriptionField (value : Text) : Option (Text × Text) := do
  let (key, fieldValue) ← cut ':' value
  if key = [] then none
  return (lowercase (trim key), trim fieldValue)

section Reading

variable [JsonReader]

/-- The location of an `olcrtc://` link's parts; `rest` is what follows the `#`. -/
def olcRtcUriOf (provider transportToken room rest : Text) : Option ParsedOlcRtcUri :=
  let (transport, options) := parseTransportToken (trim transportToken)
  let roomId := trim room
  let mimo := trim (((cut '$' rest).map Prod.snd).getD [])
  let option (long short : String) (fallback : Int) : Int :=
    ((lastValue options (txt long)).or (lastValue options (txt short))).getD fallback
  let location := LocationConfig.normalized {
    name := ifBlank mimo roomId
    id := roomId
    key := trim (rest.takeWhile fun c => c != '%' && c != '$')
    bypassProvider := trim provider
    transport
    vp8Fps := option "vp8-fps" "fps" defaultVp8Fps
    vp8Batch := option "vp8-batch" "batch" defaultVp8Batch }
  if location.isComplete then
    some { location, mimo := nonBlank mimo,
           requestedTransport := (transportOrNull transport).filter (· ≠ location.transport) }
  else none

/-- `olcrtc://<provider>?<transport>@<room>#<key>%<client>$<name>`; the client
and the name are optional. -/
def parseOlcRtcUri (line : Text) : Option ParsedOlcRtcUri := do
  let (provider, rest) ← cut '?' (removePrefix line olcrtcUriPrefix)
  if provider = [] then none
  let (transportToken, rest) ← cut '@' rest
  let (room, rest) ← cut '#' rest
  olcRtcUriOf provider transportToken room rest

def buildSubscriptionMetadata (fields : List (Text × Text)) : Option SubscriptionMetadata :=
  let field (key : String) := lastValue fields (txt key)
  SubscriptionMetadata.cleaned <| some
    { name := field "name", update := field "update", refresh := field "refresh"
      color := field "color", icon := field "icon", used := field "used"
      available := field "available" }

def buildLocationMetadata (fields : List (Text × Text)) (parsed : ParsedOlcRtcUri)
    (subscription : Option SubscriptionMetadata) : Option LocationMetadata :=
  let field (key : String) := lastValue fields (txt key)
  LocationMetadata.cleaned <| some
    { name := field "name", color := field "color", icon := field "icon", used := field "used"
      available := field "available", ip := field "ip", comment := field "comment"
      mimo := parsed.mimo, subscription, requestedTransport := parsed.requestedTransport }

/-- What has been read of a body so far: the fields of the list, and each line
with its own fields, the last line first. -/
structure OlcRtcLines where
  subscriptionFields : List (Text × Text) := []
  locations : List (ParsedOlcRtcUri × List (Text × Text)) := []

/-- One line of a body. A `##` field belongs to the line read last; before any
line it is a field of the list with a `#` in its name. -/
def OlcRtcLines.read (s : OlcRtcLines) (line : Text) : OlcRtcLines :=
  if startsWith line olcrtcUriPrefix then
    match parseOlcRtcUri line with
    | some parsed => { s with locations := (parsed, []) :: s.locations }
    | none => s
  else if startsWith line (txt "#") then
    match startsWith line (txt "##"), s.locations with
    | true, (parsed, fields) :: rest =>
        match parseSubscriptionField (removePrefix line (txt "##")) with
        | some field => { s with locations := (parsed, fields ++ [field]) :: rest }
        | none => s
    | _, _ =>
        match parseSubscriptionField (removePrefix line (txt "#")) with
        | some field => { s with subscriptionFields := s.subscriptionFields ++ [field] }
        | none => s
  else s

/-- A body read line by line. -/
def readOlcRtcLines (text : Text) : OlcRtcLines :=
  (((lines text).map normalizedImportText).filter (!isBlank ·)).foldl OlcRtcLines.read {}

/-- The location and the metadata of a line with its fields. -/
def olcRtcLocation (subscription : Option SubscriptionMetadata) (parsed : ParsedOlcRtcUri)
    (fields : List (Text × Text)) : LocationConfig × Option LocationMetadata :=
  let metadata := buildLocationMetadata fields parsed subscription
  (LocationConfig.normalized
    { parsed.location with
      name := firstNotBlank [metadata.bind (·.name), parsed.mimo, some parsed.location.name]
      failoverRoomIds := parseFailoverRooms (lastValue fields (txt "rooms")) },
    metadata)

/-- Entries for locations, named in order with no name taken before. -/
def namedEntries (subscriptionUrl : Option Text)
    (found : List (LocationConfig × Option LocationMetadata)) (bases : List Text) :
    List LocationEntry :=
  List.zipWith
    (fun p storageId => LocationEntry.fromLocation storageId p.1 subscriptionUrl none p.2)
    found (uniqueStorageIds [] (bases.map (txt "imported_" ++ ·)))

/-- The entries a bundle selects the first of. -/
def bundleOf (entries : List LocationEntry) : Option LocationBundleV4 :=
  if entries = [] then none
  else some { activeLocationId := entries.head?.map (·.storageId), locations := entries }

def parseOlcRtcText (text : Text) (subscriptionUrl : Option Text)
    (updateIntervalHours : Option Int) : Option LocationBundleV4 :=
  if !contains text olcrtcUriPrefix then none
  else
    let read := readOlcRtcLines text
    let subscription := SubscriptionMetadata.withSubscriptionInterval
      (buildSubscriptionMetadata read.subscriptionFields) updateIntervalHours
    let found := read.locations.reverse.map fun p => olcRtcLocation subscription p.1 p.2
    bundleOf (namedEntries subscriptionUrl found (found.mapIdx fun index p =>
      ifBlank p.1.storageSlug (txt "location_" ++ decimal (index + 1))))

/-! ### Share links -/

def outboundToLocation (spec : OutboundSpec) (rawLine : Text) : LocationConfig :=
  { name := spec.tag
    id := spec.host ++ ':' :: decimalInt spec.port
    key := []
    kind := spec.kind
    rawLink := some (trim rawLine) }

/-- The location of one line of a body, when it is a link that parses. -/
def shareLocation (line : Text) : Option LocationConfig :=
  if LinkParser.supports line then
    (LinkParser.parse line).map fun spec => (outboundToLocation spec line).normalized
  else none

def parseSingBoxText (text : Text) (subscriptionUrl : Option Text) : Option LocationBundleV4 :=
  let found := ((lines text).map normalizedImportText).filterMap shareLocation
  bundleOf (namedEntries subscriptionUrl (found.map (·, none))
    (found.map fun location => ifBlank location.storageSlug location.name))

/-! ### Base64 bodies -/

/-- `SubscriptionBodyCodec.decodeBase64`. A letter outside ASCII passes the
source's gate and neither codec. -/
def decodeBodyBase64 (text : Text) : Option Text :=
  let compact := text.filter (!isWhitespace ·)
  if compact.length < 16 then none
  else if !compact.all (fun c => c.isAlphanum || c ∈ ['+', '/', '-', '_', '=']) then none
  else [false, true].findSome? fun urlSafe =>
    ((base64Decode urlSafe compact).map decodeToString).filter (contains · (txt "://"))

/-- Both families of lines of one text, the rooms first. -/
def parseLines (text : Text) (subscriptionUrl : Option Text) (updateIntervalHours : Option Int) :
    Option LocationBundleV4 :=
  match parseOlcRtcText text subscriptionUrl updateIntervalHours,
      parseSingBoxText text subscriptionUrl with
  | some olc, some sb => some { olc with locations := olc.locations ++ sb.locations }
  | some olc, none => some olc
  | none, sb => sb

end Reading

/-! ### JSON -/

section Json

variable [Serialization]

/-- `JsonObject.string`. -/
def JsonObject.string (o : JsonObject) (key : String) : Option Text :=
  (lastValue o (txt key)).bind JsonElement.contentOrNull

/-- `JsonObject.int`. -/
def JsonObject.int (o : JsonObject) (key : String) : Option Int :=
  (lastValue o (txt key)).bind fun
    | .primitive content => JsonReader.intOrNull content
    | _ => none

/-- `this[key]?.jsonObjectOrNull()`. -/
def JsonObject.inner (o : JsonObject) (key : String) : Option JsonObject :=
  (lastValue o (txt key)).bind JsonElement.fields?

def decodeLocationEntry (root : JsonObject) (subscriptionUrl : Option Text) :
    Option LocationEntry :=
  ((Serialization.decodeEntry root).map fun entry =>
    LocationEntry.normalized <|
      if isNullOrBlank entry.subscriptionUrl && !isNullOrBlank subscriptionUrl then
        { entry with subscriptionUrl }
      else entry).filter (·.location.isComplete)

/-- The number after a flag; with no such flag, the first word. -/
def transportArgInt (args : Text) (name : String) : Option Int :=
  if isBlank args then none
  else
    let parts := (splitAll (· ∈ [' ', '\t', '\n', '\r', Char.ofNat 0x0B, Char.ofNat 0x0C])
      args).filter (!isBlank ·)
    let index := match parts.idxOf? (txt name) with
      | some i => i + 1
      | none => 0
    parts[index]?.bind (toIntOrNull 10)

/-- The location an object describes, in any of the shapes older versions and
other clients wrote; `source` is the part of it that is about the server. -/
def locationOfObject (root source : JsonObject) : LocationConfig :=
  let transportArgs := firstNotBlank
    [source.string "transport_args", source.string "transportArgs", source.string "args",
      root.string "transport_args", root.string "transportArgs", root.string "args"]
  let option (snake camel flag : String) (fallback : Int) : Int :=
    (([source.int snake, source.int camel, root.int snake, root.int camel,
      transportArgInt transportArgs flag].find? Option.isSome).getD none).getD fallback
  LocationConfig.normalized {
    name := firstNotBlank [source.string "name", root.string "name"]
    id := firstNotBlank
      [source.string "id", source.string "room_id", source.string "server", root.string "id"]
    key := firstNotBlank
      [source.string "key", source.string "encryption_key", source.string "password",
        root.string "key"]
    bypassProvider := firstNotBlank
      [source.string "auth_provider", source.string "authProvider",
        source.string "bypass_provider", source.string "bypassProvider",
        source.string "provider", (root.inner "turn").bind (JsonObject.string · "type"),
        root.string "auth_provider", root.string "authProvider",
        root.string "bypass_provider", root.string "bypassProvider", root.string "provider"]
    transport := firstNotBlank
      [source.string "transport", root.string "transport",
        if isBlank transportArgs then none else some transportVp8Channel]
    vp8Fps := option "vp8_fps" "vp8Fps" "-vp8-fps" defaultVp8Fps
    vp8Batch := option "vp8_batch" "vp8Batch" "-vp8-batch" defaultVp8Batch }

/-- `parseSingleLocation` of an object. -/
def parseLocationObject (root : JsonObject) (fallbackStorageId subscriptionUrl : Option Text) :
    Option LocationEntry :=
  (decodeLocationEntry root subscriptionUrl).or <|
    let source := ((root.inner "location").or (root.inner "hysteria")).getD root
    let location := locationOfObject root source
    if location.isComplete then
      some <| LocationEntry.fromLocation
        (firstNotBlank [fallbackStorageId, root.string "storage_id", root.string "storageId",
          source.string "storage_id", source.string "storageId",
          some (txt "imported_" ++ location.storageSlug)])
        location subscriptionUrl none none
    else none

/-- One item of a JSON bundle. -/
def parseBundleItem (subscriptionUrl : Option Text) (updateIntervalHours : Option Int)
    (element : JsonElement) : Option LocationEntry := do
  let item ← element.fields?
  let storageId := ((item.string "storage_id").or (item.string "storageId")).or
    ((item.string "id").map fun id => txt "imported_" ++ storageSlug id)
  let entry ← (decodeLocationEntry item subscriptionUrl).or
    (parseLocationObject item storageId subscriptionUrl)
  return LocationEntry.normalized
    { entry with
      metadata := LocationMetadata.withSubscriptionInterval entry.metadata updateIntervalHours }

/-- The locations of a JSON bundle, when it has a list of them. -/
def bundleItems (root : JsonObject) : Option (List JsonElement) :=
  match lastValue root (txt "locations") with
  | some (.array items) => some items
  | _ => none

/-- The version a bundle says it is. -/
def bundleVersion (root : JsonObject) : Except Thrown Int :=
  match lastValue root (txt "version") with
  | none | some .null => .ok 3
  | some (.primitive content) => .ok ((JsonReader.intOrNull content).getD 3)
  -- `jsonPrimitive` of an array or an object.
  | some (.array _) | some (.object _) => .error .illegalArgument

def parseBundle (root : JsonObject) (subscriptionUrl : Option Text)
    (updateIntervalHours : Option Int) : Except Thrown (Option LocationBundleV4) :=
  match bundleItems root with
  | none => .ok none
  | some items => do
      let locations := items.filterMap (parseBundleItem subscriptionUrl updateIntervalHours)
      if (← bundleVersion root) < 3 ∧ locations = [] then return none
      return some
        { activeLocationId := (root.string "active_location_id").or (root.string "activeLocationId")
          locations }

/-- `parseSingleLocation` of a text, as the storage before bundles held it. -/
def parseSingleLocation (text : Text) (fallbackStorageId : Option Text) :
    Except Thrown (Option LocationEntry) :=
  match (JsonReader.parseToJsonElement text).bind JsonElement.fields? with
  | none => .ok none
  | some root => do
      match ← parseBundle root none none with
      | some bundle => return bundle.normalized.locations.head?
      | none => return parseLocationObject root fallbackStorageId none

/-! ### Any import -/

/-- `json.parseToJsonElement(text).jsonObject` of a text in braces. -/
def rootObject (text : Text) : Option JsonObject :=
  if text.head? ≠ some '\x7b' ∨ text.getLast? ≠ some '\x7d' then none
  else (JsonReader.parseToJsonElement text).bind JsonElement.fields?

inductive ImportMode
  | additive
  | restore
  deriving DecidableEq, Repr

structure ParsedImport where
  bundle : LocationBundleV4
  mode : ImportMode

def parseImport (text : Text) (subscriptionUrl : Option Text) (updateIntervalHours : Option Int) :
    Except Thrown (Option ParsedImport) :=
  match (parseLines text subscriptionUrl updateIntervalHours).or
      ((decodeBodyBase64 text).bind (parseLines · subscriptionUrl updateIntervalHours)) with
  | some bundle => .ok (some { bundle, mode := .additive })
  | none =>
      match rootObject text with
      | none => .ok none
      | some root => do
          match ← parseBundle root subscriptionUrl updateIntervalHours with
          | some bundle => return some { bundle, mode := .restore }
          | none =>
              return (parseLocationObject root none subscriptionUrl).map fun entry =>
                { bundle :=
                    { activeLocationId := some entry.storageId
                      locations := [LocationEntry.normalized
                        { entry with
                          metadata := LocationMetadata.withSubscriptionInterval entry.metadata
                            updateIntervalHours }] }
                  mode := .additive }

end Json

end Ghostlane.App
