import Ghostlane.App.Strings

/-!
# Ghostlane.App.LinkParser

Share links (`net/LinkParser.kt`, `net/OutboundSpec.kt`): VLESS, Hysteria2,
Trojan, Shadowsocks and VMess lines read into what a core dials.

A VMess link wraps a JSON object, which a library reads; `JsonReader` stands
for it.
-/

namespace Ghostlane.App

open Ghostlane.Lib

/-! ### JSON -/

/-- A JSON value as the library gives it back. A number, a string or a truth
value is its text. -/
inductive JsonElement
  | null
  | primitive (content : Text)
  | array (items : List JsonElement)
  | object (fields : List (Text × JsonElement))

abbrev JsonObject := List (Text × JsonElement)

/-- The JSON library. -/
class JsonReader where
  /-- `Json.parseToJsonElement`, nothing where it throws. -/
  parseToJsonElement : Text → Option JsonElement
  /-- `JsonPrimitive.intOrNull` of a primitive with this content. -/
  intOrNull : Text → Option Int

namespace JsonElement

/-- `jsonObject`, nothing where it throws. -/
def fields? : JsonElement → Option JsonObject
  | object fields => some fields
  | _ => none

/-- `JsonPrimitive.content`, which for null is its name. -/
def content? : JsonElement → Option Text
  | null => some (txt "null")
  | primitive content => some content
  | _ => none

/-- `JsonPrimitive.contentOrNull`. -/
def contentOrNull : JsonElement → Option Text
  | primitive content => some content
  | _ => none

end JsonElement

/-! ### What a link asks for -/

inductive LocationKind
  | olcrtc
  | vless
  | hysteria2
  | trojan
  | shadowsocks
  | vmess
  deriving DecidableEq, Repr

inductive TransportSpec
  | tcp
  | grpc (serviceName : Text)
  | xhttp (path host mode : Text)
  | ws (path host : Text)
  | httpUpgrade (path host : Text)
  | http (path : Text) (hosts : List Text)
  deriving DecidableEq, Repr

structure TlsSpec where
  sni : Text
  insecure : Bool := false
  fingerprint : Option Text := none
  alpn : List Text := []
  deriving DecidableEq, Repr

/-- What each kind of link says beside its server and its name. -/
inductive OutboundDetails
  | vless (uuid sni publicKey shortId fingerprint : Text) (flow : Option Text)
      (transport : TransportSpec) (plain insecure : Bool)
  | hysteria2 (password sni : Text) (obfsPassword : Option Text) (insecure : Bool)
      (certPinSha256 : Option Text)
  | trojan (password : Text) (tls : TlsSpec) (transport : TransportSpec)
  | shadowsocks (method password : Text)
  | vmess (uuid : Text) (alterId : Int) (security : Text) (tls : Option TlsSpec)
      (transport : TransportSpec)
  deriving DecidableEq, Repr

structure OutboundSpec where
  host : Text
  port : Int
  tag : Text
  details : OutboundDetails
  deriving DecidableEq, Repr

def OutboundSpec.kind (spec : OutboundSpec) : LocationKind :=
  match spec.details with
  | .vless .. => .vless
  | .hysteria2 .. => .hysteria2
  | .trojan .. => .trojan
  | .shadowsocks .. => .shadowsocks
  | .vmess .. => .vmess

/-! ### Decoding -/

/-- `urlDecode`, with the bytes gathered since the last character that was not
an escape. -/
def urlDecodeFrom (pending : List Nat) : Text → Text
  | [] => decodeToString pending
  | '%' :: a :: b :: t =>
      match toIntOrNull 16 [a, b] with
      | some hex => urlDecodeFrom (pending ++ [(hex % 256).toNat]) t
      | none => decodeToString pending ++ '%' :: urlDecodeFrom [] (a :: b :: t)
  | c :: t => decodeToString pending ++ (if c = '+' then ' ' else c) :: urlDecodeFrom [] t

def urlDecode (t : Text) : Text := urlDecodeFrom [] t

def parseQuery (q : Text) : List (Text × Text) :=
  (splitAll (· == '&') q).filterMap fun part =>
    (cut '=' part).map fun (key, value) => (urlDecode key, urlDecode value)

/-- Standard or URL-safe base64, padding optional, as links carry it. -/
def decodeBase64 (text : Text) : Option Text :=
  let compact := (trim text).filter fun c => !(c == '\n' || c == '\r' || c == ' ')
  if compact = [] then none
  else
    let standard := compact.map fun c => if c = '-' then '+' else if c = '_' then '/' else c
    (base64Decode false standard).map decodeToString

/-! ### The parts of a link -/

structure Parts where
  userinfo : Text
  host : Text
  port : Int
  query : List (Text × Text)
  tag : Text

/-- What is before the first `c`, and what is after it if it is there. -/
def splitFirst (c : Char) (t : Text) : Text × Option Text :=
  match cut c t with
  | some (before, after) => (before, some after)
  | none => (t, none)

theorem splitFirst_append {c : Char} {t : Text} (h : c ∉ t) (u : Text) :
    splitFirst c (t ++ c :: u) = (t, some u) := by
  rw [splitFirst, cut_append h]

theorem splitFirst_of_notMem {c : Char} {t : Text} (h : c ∉ t) : splitFirst c t = (t, none) := by
  rw [splitFirst, cut_eq_cutFirst, cutFirst_eq_none_iff.mpr h]

/-- A text is one part, or two with a separator between. -/
theorem splitFirst_cases (c : Char) (t : Text) :
    (splitFirst c t = (t, none) ∧ c ∉ t) ∨
      ∃ a b, splitFirst c t = (a, some b) ∧ t = a ++ c :: b ∧ c ∉ a := by
  rw [splitFirst, cut_eq_cutFirst]
  cases hcut : cutFirst c t with
  | none => exact .inl ⟨rfl, cutFirst_eq_none_iff.mp hcut⟩
  | some p =>
      obtain ⟨ht, ha⟩ := cutFirst_eq_some_iff.mp hcut
      exact .inr ⟨p.1, p.2, rfl, ht, ha⟩

def splitLink (s scheme : Text) : Option Parts := do
  let (beforeHash, fragment) := splitFirst '#' (removePrefix s scheme)
  let (authority, query) := splitFirst '?' beforeHash
  let (userinfo, hostPort) ← cutLast '@' authority
  let (host, port) ← cutLast ':' hostPort
  if host = [] then none
  let port ← toIntOrNull 10 port
  if isBlank host then none
  return { userinfo, host, port, query := (query.map parseQuery).getD [],
           tag := (fragment.map urlDecode).getD [] }

/-- `query[key].orEmpty()`. -/
def valueOf (query : List (Text × Text)) (key : String) : Text :=
  (lastValue query (txt key)).getD []

/-- `ifEmpty`. -/
def ifEmpty (t fallback : Text) : Text := if t = [] then fallback else t

def commaList (t : Text) : List Text :=
  ((splitAll (· == ',') t).map trim).filter (· ≠ [])

/-- The transports a link can ask for by `type`; nothing for any other. -/
def streamTransport (type : Text) (query : List (Text × Text)) : Option TransportSpec :=
  if type ∈ [txt "tcp", txt "raw", []] then some .tcp
  else if type = txt "ws" then
    some (.ws (ifEmpty (valueOf query "path") (txt "/")) (valueOf query "host"))
  else if type = txt "httpupgrade" then
    some (.httpUpgrade (ifEmpty (valueOf query "path") (txt "/")) (valueOf query "host"))
  else if type = txt "grpc" then
    some (.grpc ((lastValue query (txt "serviceName")).getD (valueOf query "servicename")))
  else if type ∈ [txt "http", txt "h2"] then
    some (.http (ifEmpty (valueOf query "path") (txt "/")) (commaList (valueOf query "host")))
  else none

def saysYes (query : List (Text × Text)) (key : String) : Bool :=
  lastValue query (txt key) = some (txt "1") || lastValue query (txt key) = some (txt "true")

def tlsOf (query : List (Text × Text)) (fallbackSni : Text) : TlsSpec where
  sni := ifEmpty (ifEmpty (valueOf query "sni") (valueOf query "peer")) fallbackSni
  insecure := saysYes query "allowInsecure" || saysYes query "insecure"
  fingerprint := (lastValue query (txt "fp")).bind fun fp => nonEmpty (trim fp)
  alpn := commaList (valueOf query "alpn")

/-! ### The five kinds -/

def vlessTransport (type : Text) (query : List (Text × Text)) : TransportSpec :=
  if type = txt "xhttp" then
    .xhttp ((lastValue query (txt "path")).getD (txt "/"))
      ((lastValue query (txt "host")).getD (valueOf query "sni"))
      ((lastValue query (txt "mode")).getD (txt "auto"))
  else if type = txt "grpc" then
    .grpc ((lastValue query (txt "serviceName")).getD (valueOf query "servicename"))
  else if type ∈ [txt "ws", txt "httpupgrade", txt "http", txt "h2"] then
    (streamTransport type query).getD .tcp
  -- A transport it does not know is kept as a readable row.
  else .tcp

def parseVless (s : Text) : Option OutboundSpec := do
  let p ← splitLink s (txt "vless://")
  let type := lowercase (ifEmpty (trim (valueOf p.query "type")) (txt "tcp"))
  let transport := vlessTransport type p.query
  let publicKey := valueOf p.query "pbk"
  return {
    host := p.host, port := p.port, tag := ifBlank p.tag p.host
    details := .vless p.userinfo (valueOf p.query "sni") publicKey (valueOf p.query "sid")
      ((lastValue p.query (txt "fp")).getD (txt "chrome"))
      (if transport = .tcp then (lastValue p.query (txt "flow")).bind nonBlank else none)
      transport
      (isBlank publicKey && (lastValue p.query (txt "security")).map (lowercase ∘ trim)
        = some (txt "none"))
      (isBlank publicKey && (tlsOf p.query []).insecure) }

def parseHy2 (s scheme : Text) : Option OutboundSpec := do
  let p ← splitLink s scheme
  return {
    host := p.host, port := p.port, tag := ifBlank p.tag p.host
    details := .hysteria2 p.userinfo (valueOf p.query "sni")
      ((lastValue p.query (txt "obfs-password")).bind nonBlank) (saysYes p.query "insecure")
      ((lastValue p.query (txt "pinSHA256")).bind nonBlank) }

def parseTrojan (s : Text) : Option OutboundSpec := do
  let p ← splitLink s (txt "trojan://")
  if isBlank p.userinfo then none
  if (lastValue p.query (txt "security")).map lowercase = some (txt "reality") then none
  let transport ← streamTransport
    (ifEmpty (lowercase (trim (valueOf p.query "type"))) (txt "tcp")) p.query
  return {
    host := p.host, port := p.port, tag := ifBlank p.tag p.host
    details := .trojan (urlDecode p.userinfo) (tlsOf p.query p.host) transport }

/-- `OutboundSpec.Shadowsocks.METHODS`. -/
def shadowsocksMethods : List Text :=
  [txt "aes-128-gcm", txt "aes-192-gcm", txt "aes-256-gcm",
    txt "chacha20-ietf-poly1305", txt "xchacha20-ietf-poly1305",
    txt "2022-blake3-aes-128-gcm", txt "2022-blake3-aes-256-gcm",
    txt "2022-blake3-chacha20-poly1305"]

/-- The credentials and the address of a Shadowsocks link, in either form. -/
def shadowsocksParts (main : Text) : Option (Text × Text) :=
  match cutLast '@' main with
  | some (userinfo, hostPort) =>
      let userinfo := urlDecode userinfo
      if ':' ∈ userinfo then some (userinfo, hostPort)
      else (decodeBase64 userinfo).map (·, hostPort)
  | none => do
      let (credentials, hostPort) ← cutLast '@' (← decodeBase64 main)
      if credentials = [] then none else some (credentials, hostPort)

def parseShadowsocks (s : Text) : Option OutboundSpec := do
  let (body, fragment) := splitFirst '#' (removePrefix s (txt "ss://"))
  let (main, query) := splitFirst '?' body
  if ((query.map parseQuery).bind (lastValue · (txt "plugin"))).any (!isBlank ·) then none
  let (credentials, hostPort) ← shadowsocksParts (main.rdropWhile (· == '/'))
  let (method, password) := splitFirst ':' credentials
  let method := lowercase (trim method)
  let password := password.getD []
  if method ∉ shadowsocksMethods ∨ password = [] then none
  let (host, port) ← cutLast ':' hostPort
  if host = [] then none
  let host := removeSuffix (removePrefix host (txt "[")) ']'
  let port ← toIntOrNull 10 port
  if isBlank host then none
  return { host, port, tag := ifBlank ((fragment.map urlDecode).getD []) host,
           details := .shadowsocks method password }

section Json

variable [JsonReader]

def parseVmess (s : Text) : Option OutboundSpec := do
  let json ← (decodeBase64 (trim (removePrefix s (txt "vmess://")))).map trim
  let fields ← (JsonReader.parseToJsonElement json).bind JsonElement.fields?
  let str (key : String) : Text :=
    trim (((lastValue fields (txt key)).bind JsonElement.content?).getD [])
  let host := str "add"
  let port ← toIntOrNull 10 (str "port")
  let uuid := str "id"
  if isBlank host ∨ isBlank uuid then none
  let net := ifEmpty (lowercase (str "net")) (txt "tcp")
  let disguise := lowercase (str "type")
  if net = txt "tcp" ∧ disguise ≠ [] ∧ disguise ≠ txt "none" then none
  let query := [(txt "path", str "path"), (txt "host", str "host"), (txt "serviceName", str "path")]
  let transport ← if net = txt "grpc" then some (.grpc (str "path")) else streamTransport net query
  let tls := if lowercase (str "tls") = txt "tls" then
      some (tlsOf [(txt "sni", ifEmpty (str "sni") (str "host")), (txt "alpn", str "alpn"),
        (txt "fp", str "fp")] host)
    else none
  return { host, port, tag := ifBlank (str "ps") host,
           details := .vmess uuid ((toIntOrNull 10 (str "aid")).getD 0)
             (ifEmpty (str "scy") (txt "auto")) tls transport }

namespace LinkParser

/-- The schemes `parse` reads. -/
def schemes : List Text :=
  [txt "vless://", txt "hysteria2://", txt "hy2://", txt "trojan://", txt "ss://", txt "vmess://"]

def supports (line : Text) : Bool := schemes.any (startsWith (trim line))

def parse (line : Text) : Option OutboundSpec :=
  let t := trim line
  if startsWith t (txt "vless://") then parseVless t
  else if startsWith t (txt "hysteria2://") then parseHy2 t (txt "hysteria2://")
  else if startsWith t (txt "hy2://") then parseHy2 t (txt "hy2://")
  else if startsWith t (txt "trojan://") then parseTrojan t
  else if startsWith t (txt "ss://") then parseShadowsocks t
  else if startsWith t (txt "vmess://") then parseVmess t
  else none

/-- White space around a line is not part of the link. -/
@[simp] theorem parse_trim (line : Text) : parse (trim line) = parse line := by
  simp only [parse, trim_trim]

end LinkParser

end Json

end Ghostlane.App
