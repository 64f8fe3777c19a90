import Ghostlane.Cli.Fetch
import Ghostlane.Cli.NetUrl
import Mathlib.Algebra.Group.Nat.Defs

/-!
# Ghostlane.Cli.Share

Share links as a list holds them (`internal/links/share.go`): `vless://` and `hysteria2://` lines,
read as bytes, since an escape stands for any byte. What is wrong with a line becomes a text, and
what such a text quotes drives nothing (`quote_clean`).
-/

namespace Ghostlane.Cli

open Ghostlane.Lib Ghostlane.Lib.Bytes

/-- The tables of Go's `unicode` behind what is quoted and lower-cased. -/
class Unicode where
  isPrint : Char → Bool
  toLower : Char → Char
  /-- Control and format characters are not printed as they are. -/
  clean_of_isPrint : ∀ {c}, isPrint c = true → Fetch.clean c = true
  /-- Letters have cases, and letters only. -/
  clean_toLower : ∀ c, Fetch.clean (toLower c) = Fetch.clean c

/-- A text with nothing in it that drives a terminal or turns it around. -/
abbrev Clean (t : Text) : Prop := ∀ c ∈ t, Fetch.clean c = true

theorem Clean.append {t u : Text} (ht : Clean t) (hu : Clean u) : Clean (t ++ u) := by
  intro c hc
  exact (List.mem_append.mp hc).elim (ht c) (hu c)

theorem Clean.of_append_right {t u : Text} (h : Clean (t ++ u)) : Clean u :=
  fun c hc => h c (List.mem_append_right t hc)

theorem Clean.append_iff {t u : Text} (ht : Clean t) : Clean (t ++ u) ↔ Clean u :=
  ⟨Clean.of_append_right, ht.append⟩

theorem Clean.cons {c : Char} {t : Text} (hc : Fetch.clean c = true) (ht : Clean t) :
    Clean (c :: t) := by
  intro d hd
  rcases List.mem_cons.mp hd with rfl | hd
  · exact hc
  · exact ht d hd

/-! ### `strconv.Quote` -/

/-- `0` to `f`. -/
def hexDigit (n : Nat) : Char := if n < 10 then Char.ofNat (48 + n) else Char.ofNat (87 + n)

/-- A number in so many hexadecimal digits. -/
def hexDigits (width n : Nat) : Text :=
  (List.range width).reverse.map fun i => hexDigit (n / 16 ^ i % 16)

section Quote

variable [Unicode]

def escapeRune : Rune → Text
  | .stray b => '\\' :: 'x' :: hexDigits 2 b.toNat
  | .char c =>
      if c = '"' ∨ c = '\\' then ['\\', c]
      else if Unicode.isPrint c then [c]
      else match c.toNat with
        | 0x07 => ['\\', 'a']
        | 0x08 => ['\\', 'b']
        | 0x0C => ['\\', 'f']
        | 0x0A => ['\\', 'n']
        | 0x0D => ['\\', 'r']
        | 0x09 => ['\\', 't']
        | 0x0B => ['\\', 'v']
        | n =>
            if n < 0x20 ∨ n = 0x7F then '\\' :: 'x' :: hexDigits 2 n
            else if n < 0x10000 then '\\' :: 'u' :: hexDigits 4 n
            else '\\' :: 'U' :: hexDigits 8 n

/-- `strconv.Quote`, and `%q`. -/
def quote (s : Bytes) : Text := '"' :: (runes s).flatMap escapeRune ++ ['"']

omit [Unicode] in
theorem hexDigits_clean (width n : Nat) : Clean (hexDigits width n) := by
  have hall : ∀ d < 16, Fetch.clean (hexDigit d) = true := by decide
  intro c hc
  obtain ⟨i, -, rfl⟩ := List.mem_map.mp hc
  exact hall _ (Nat.mod_lt _ (by decide))

theorem escapeRune_clean (r : Rune) : Clean (escapeRune r) := by
  have hslash : Fetch.clean '\\' = true := by decide
  cases r with
  | stray b => exact .cons hslash (.cons (by decide) (hexDigits_clean 2 _))
  | char c =>
      rw [escapeRune]
      split
      · rename_i hmark
        refine .cons hslash (.cons ?_ (List.forall_mem_nil _))
        rcases hmark with rfl | rfl <;> decide
      · split
        · rename_i hprint
          exact .cons (Unicode.clean_of_isPrint hprint) (List.forall_mem_nil _)
        · split
          iterate 7 decide
          split
          · exact .cons hslash (.cons (by decide) (hexDigits_clean 2 _))
          · split
            · exact .cons hslash (.cons (by decide) (hexDigits_clean 4 _))
            · exact .cons hslash (.cons (by decide) (hexDigits_clean 8 _))

/-- **What is quoted drives nothing**, whatever it is. -/
theorem quote_clean (s : Bytes) : Clean (quote s) := by
  refine .append (.cons (by decide) fun c hc => ?_) (.cons (by decide) (List.forall_mem_nil _))
  obtain ⟨r, -, hr⟩ := List.mem_flatMap.mp hc
  exact escapeRune_clean r c hr

end Quote

namespace Share

/-! ### Queries -/

/-- The pairs of a query, in order. -/
abbrev Values := List (Bytes × Bytes)

namespace Values

/-- The first value of a key. -/
def get (q : Values) (key : String) : Bytes :=
  ((q.find? (·.1 = ascii key)).map Prod.snd).getD []

end Values

inductive QueryError
  | tooMany
  | semicolon
  /-- `url.EscapeError`. -/
  | escape (bad : Bytes)
  deriving DecidableEq, Repr

/-- The first escape that is none, of up to three bytes. -/
def badEscape : Bytes → Bytes
  | [] => []
  | c :: t =>
      if c = byte '%' then
        match t with
        | a :: b :: rest => if isHex a && isHex b then badEscape rest else [c, a, b]
        | _ => c :: t
      else badEscape t

/-- `url.QueryUnescape`. -/
def queryUnescape (s : Bytes) : Except Bytes Bytes :=
  match NetUrl.unescape .queryComponent s with
  | some t => .ok t
  | none => .error (badEscape s)

/-- One pair of a query, after those read so far and the error that stands. -/
def readPair : Values × Option QueryError → Bytes → Values × Option QueryError
  | (q, e), kv =>
      if byte ';' ∈ kv then (q, some .semicolon)
      else if kv = [] then (q, e)
      else match queryUnescape (before (byte '=') kv), queryUnescape (after (byte '=') kv) with
        | .error bad, _ => (q, e.or (some (.escape bad)))
        | .ok _, .error bad => (q, e.or (some (.escape bad)))
        | .ok key, .ok value => (q ++ [(key, value)], e)

/-- `defaultMaxParams`: how many pairs of a query are read. -/
def maxQueryParams : Nat := 10000

/-- `url.ParseQuery`. -/
def parseQuery (query : Bytes) : Except QueryError Values :=
  if maxQueryParams < query.count (byte '&') + 1 then .error .tooMany
  else match (query.splitOn (byte '&')).foldl readPair ([], none) with
    | (_, some e) => .error e
    | (q, none) => .ok q

/-! ### The parts of a share link -/

inductive ShareError
  | query (e : QueryError)
  | noCredentials
  | noHostPort
  | badPort
  | emptyParts
  deriving DecidableEq, Repr

structure ShareParts where
  userinfo : Bytes
  host : Bytes
  port : Int
  query : Values
  tag : Bytes
  deriving DecidableEq, Repr

/-- A text without its escapes, as it is where one of them is none. -/
def unescaped (mode : NetUrl.Encoding) (s : Bytes) : Bytes := (NetUrl.unescape mode s).getD s

/-- The name and the port of a host. -/
def splitHost (hostPort : Bytes) : Except ShareError (Bytes × Int) :=
  match cutLast (byte ':') hostPort with
  | none | some ([], _) => .error .noHostPort
  | some (name, port) =>
      match Strings.atoi port with
      | none => .error .badPort
      | some port =>
          if port < 1 ∨ 65535 < port then .error .badPort
          else .ok (trimBy (fun b => b == byte '[' || b == byte ']') name, port)

/-- `splitShare`: what follows the scheme, as `userinfo@host:port?query#tag`. -/
def splitShare (s scheme : Bytes) : Except ShareError ShareParts :=
  let rest := if starts s scheme then s.drop scheme.length else s
  let tag := unescaped .queryComponent (after (byte '#') rest)
  let body := before (byte '#') rest
  match parseQuery (after (byte '?') body) with
  | .error e => .error (.query e)
  | .ok query =>
      match cutLast (byte '@') (before (byte '?') body) with
      | none => .error .noCredentials
      | some (userinfo, hostPort) =>
          match splitHost hostPort with
          | .error e => .error e
          | .ok (host, port) =>
              if host = [] ∨ userinfo = [] then .error .emptyParts
              else .ok { userinfo, host, port, query, tag := Strings.trimSpace tag }

/-- What a line of these parts is named: its tag, else its host. -/
def ShareParts.label (p : ShareParts) : Bytes := if p.tag = [] then p.host else p.tag

/-! ### VLESS -/

/-- The stream a line asks for. -/
inductive Transport
  | tcp
  | xhttp (path host mode : Bytes)
  deriving DecidableEq, Repr

structure VlessLine where
  uuid : Bytes
  host : Bytes
  port : Int
  sni : Bytes
  publicKey : Bytes
  shortID : Bytes
  fingerprint : Bytes
  /-- Over tcp only. -/
  flow : Bytes := []
  transport : Transport
  label : Bytes
  plain : Bool
  insecure : Bool
  deriving DecidableEq, Repr

inductive VlessError
  | notVless
  | share (e : ShareError)
  /-- `ErrUnsupportedTransport`. -/
  | transport (typ : Text)
  deriving DecidableEq, Repr

/-- How a share link spells a set flag. -/
def truthy (v : Bytes) : Bool := v = ascii "1" ∨ v = ascii "true"

/-- The value, or what stands for an empty one. -/
def orElse (v default : Bytes) : Bytes := if v = [] then default else v

section Vless

variable [Unicode]

/-- A value in lower case, without white space around it. -/
def lowered (v : Bytes) : Text := (Strings.chars (Strings.trimSpace v)).map Unicode.toLower

/-- The transport a query names. -/
def typeOf (q : Values) : Text :=
  if lowered (q.get "type") = [] then txt "tcp" else lowered (q.get "type")

/-- The transports that are read. -/
def transportOf (q : Values) : Option Transport :=
  if typeOf q = txt "tcp" ∨ typeOf q = txt "raw" then some .tcp
  else if typeOf q = txt "xhttp" then
    some (.xhttp (orElse (q.get "path") (ascii "/")) (orElse (q.get "host") (q.get "sni"))
      (orElse (q.get "mode") (ascii "auto")))
  else none

def parseVless (raw : Bytes) : Except VlessError VlessLine :=
  let line := Strings.trimSpace raw
  if starts line (ascii "vless://") then
    match splitShare line (ascii "vless://") with
    | .error e => .error (.share e)
    | .ok p =>
        let q := p.query
        match transportOf q with
        | none => .error (.transport (typeOf q))
        | some transport =>
            .ok {
              uuid := p.userinfo, host := p.host, port := p.port, sni := q.get "sni"
              publicKey := q.get "pbk", shortID := q.get "sid"
              fingerprint := orElse (q.get "fp") (ascii "chrome")
              flow := if transport = .tcp then Strings.trimSpace (q.get "flow") else []
              transport, label := p.label
              plain := q.get "pbk" = [] && lowered (q.get "security") == txt "none"
              insecure := q.get "pbk" = [] &&
                (truthy (q.get "allowInsecure") || truthy (q.get "insecure")) }
  else .error .notVless

end Vless

/-! ### Hysteria2 -/

structure Hy2Line where
  password : Bytes
  host : Bytes
  port : Int
  sni : Bytes
  obfsPassword : Bytes
  pinSHA256 : Bytes
  insecure : Bool
  label : Bytes
  deriving DecidableEq, Repr

inductive Hy2Error
  | notHy2
  | share (e : ShareError)
  deriving DecidableEq, Repr

/-- The scheme of a line, in either spelling. -/
def hy2Scheme (line : Bytes) : Option Bytes :=
  if starts line (ascii "hysteria2://") then some (ascii "hysteria2://")
  else if starts line (ascii "hy2://") then some (ascii "hy2://")
  else none

def parseHy2 (raw : Bytes) : Except Hy2Error Hy2Line :=
  let line := Strings.trimSpace raw
  match hy2Scheme line with
  | none => .error .notHy2
  | some scheme =>
      match splitShare line scheme with
      | .error e => .error (.share e)
      | .ok p =>
          let q := p.query
          .ok {
            password := p.userinfo, host := p.host, port := p.port, sni := q.get "sni"
            obfsPassword := q.get "obfs-password", pinSHA256 := q.get "pinSHA256"
            insecure := truthy (q.get "insecure"), label := p.label }

/-! ### What is wrong, in words -/

section Words

variable [Unicode]

def QueryError.text : QueryError → Text
  | tooMany => txt "number of URL query parameters exceeded limit"
  | semicolon => txt "invalid semicolon separator in query"
  | escape bad => txt "invalid URL escape " ++ quote bad

def ShareError.text : ShareError → Text
  | query e => txt "query: " ++ e.text
  | noCredentials => txt "no credentials before @"
  | noHostPort => txt "no host:port"
  | badPort => txt "bad port"
  | emptyParts => txt "empty host or credentials"

def VlessError.text : VlessError → Text
  | notVless => txt "not a vless:// line"
  | share e => txt "vless line: " ++ e.text
  | transport typ => txt "transport not supported: vless over " ++ typ

def Hy2Error.text : Hy2Error → Text
  | notHy2 => txt "not a hysteria2:// line"
  | share e => txt "hysteria2 line: " ++ e.text

theorem ShareError.text_clean (e : ShareError) : Clean e.text := by
  cases e with
  | query e =>
      refine .append (by decide) ?_
      cases e with
      | tooMany =>
          exact (by decide : Clean (txt "number of URL query parameters exceeded limit"))
      | semicolon => exact (by decide : Clean (txt "invalid semicolon separator in query"))
      | escape bad => exact .append (by decide) (quote_clean bad)
  | noCredentials => exact (by decide : Clean (txt "no credentials before @"))
  | noHostPort => exact (by decide : Clean (txt "no host:port"))
  | badPort => exact (by decide : Clean (txt "bad port"))
  | emptyParts => exact (by decide : Clean (txt "empty host or credentials"))

/-- A problem of a VLESS line drives something only as the transport the line names. -/
theorem VlessError.text_clean_iff (e : VlessError) :
    Clean e.text ↔ ∀ typ, e = .transport typ → Clean typ := by
  cases e with
  | notVless => exact iff_of_true (by decide : Clean (txt "not a vless:// line")) nofun
  | share e => exact iff_of_true (.append (by decide) e.text_clean) nofun
  | transport typ =>
      refine (Clean.append_iff (by decide)).trans ⟨fun h t ht => ?_, fun h => h typ rfl⟩
      cases ht
      exact h

theorem Hy2Error.text_clean (e : Hy2Error) : Clean e.text := by
  cases e with
  | notHy2 => exact (by decide : Clean (txt "not a hysteria2:// line"))
  | share e => exact .append (by decide) e.text_clean

end Words

end Share

end Ghostlane.Cli
