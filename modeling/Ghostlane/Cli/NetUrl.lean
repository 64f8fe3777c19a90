import Ghostlane.Lib.Bytes

/-!
# Ghostlane.Cli.NetUrl

What the daemon uses of Go's `net/url`: `Parse` as far as the fields
`store.MaskURL` reads, and the unescaping behind it. An error is `none`; its text
is never looked at.
-/

namespace Ghostlane.Cli.NetUrl

open Ghostlane.Lib Ghostlane.Lib.Bytes

/-! ### Escapes -/

/-- The part of a URL an escape stands in. -/
inductive Encoding
  | path
  | host
  | zone
  | userPassword
  | queryComponent
  | fragment
  deriving DecidableEq, Repr

/-- `shouldEscape` in a host: what is neither alphanumeric nor listed. -/
def shouldEscapeInHost (b : UInt8) : Bool :=
  !(isLetter b || isDigit b || (ascii "!$&'()*+,;=:[]<>\"-_.~").contains b)

/-- May the escape `%ab` stand there? In a host only bytes above ASCII and the
percent sign are escaped. -/
def escapeAllowed (mode : Encoding) (a b : UInt8) : Bool :=
  let percent := a == byte '2' && b == byte '5'
  let v := hexValue a * 16 + hexValue b
  match mode with
  | .host => 8 ≤ hexValue a || percent
  | .zone => percent || v == byte ' ' || !shouldEscapeInHost v
  | _ => true

/-- `unescape`. -/
def unescape (mode : Encoding) : Bytes → Option Bytes
  | [] => some []
  | c :: t =>
      if c = byte '%' then
        match t with
        | a :: b :: rest =>
            if isHex a && isHex b && escapeAllowed mode a b then
              (unescape mode rest).map ((hexValue a * 16 + hexValue b) :: ·)
            else none
        | _ => none
      else if (mode = .host ∨ mode = .zone) ∧ c < 0x80 ∧ shouldEscapeInHost c then none
      else (unescape mode t).map
        ((if c = byte '+' ∧ mode = .queryComponent then byte ' ' else c) :: ·)

theorem unescape_itself {mode : Encoding} (hmode : mode ≠ .host ∧ mode ≠ .zone) {c : UInt8}
    (hc : c ≠ byte '%') (t : Bytes) : unescape mode (c :: t) = (unescape mode t).map
      ((if c = byte '+' ∧ mode = .queryComponent then byte ' ' else c) :: ·) := by
  rw [unescape.eq_def]
  dsimp only
  rw [if_neg hc, if_neg fun h => h.1.elim hmode.1 hmode.2]

/-! ### Hosts -/

/-- `netip`'s octet: up to 255, without leading zeros. -/
def isOctet (t : Bytes) : Bool :=
  t ≠ [] && t.all isDigit && t.length ≤ 3 && (t.length == 1 || t.head? != some (byte '0')) &&
    t.foldl (fun n b => n * 10 + (b - byte '0').toNat) 0 ≤ 255

def isDottedQuad (t : Bytes) : Bool :=
  let octets := t.splitOn (byte '.')
  octets.length == 4 && octets.all isOctet

def isHexGroup (t : Bytes) : Bool := t ≠ [] && t.length ≤ 4 && t.all isHex

/-- How many 16-bit fields the groups are; a dotted quad, where one may stand, ends them. -/
def fieldsOf (quad : Bool) : List Bytes → Option Nat
  | [] => some 0
  | [g] => if isHexGroup g then some 1 else if quad && isDottedQuad g then some 2 else none
  | g :: gs => if isHexGroup g then (fieldsOf quad gs).map (· + 1) else none

def groups (t : Bytes) : List Bytes := if t = [] then [] else t.splitOn (byte ':')

/-- What stands before the first `::` and after it. -/
def cutEllipsis : Bytes → Option (Bytes × Bytes)
  | [] => none
  | c :: t =>
      if starts (c :: t) (ascii "::") then some ([], t.drop 1)
      else (cutEllipsis t).map fun (l, r) => (c :: l, r)

/-- `netip.ParseAddr` gives an IPv6 address. -/
def isIPv6 (t : Bytes) : Bool :=
  let addr := before (byte '%') t
  let zoned := !t.contains (byte '%') || after (byte '%') t ≠ []
  zoned && match cutEllipsis addr with
    | some (l, r) =>
        match fieldsOf false (groups l), fieldsOf true (groups r) with
        | some m, some n => m + n ≤ 7
        | _, _ => false
    | none => fieldsOf true (groups addr) == some 8

def validOptionalPort : Bytes → Bool
  | [] => true
  | c :: t => c == byte ':' && t.all isDigit

/-- The inside of the brackets; a zone starts at an escaped percent sign. -/
def unescapeHostname (t : Bytes) : Option Bytes :=
  let plain := t.takeWhile (· != byte '%')
  if starts (t.drop plain.length) (ascii "%25") then do
    return (← unescape .host plain) ++ (← unescape .zone (t.drop plain.length))
  else unescape .host t

/-- `parseHost`: a bracketed IPv6 address or a name, with an optional port. The
schemes of the web take one colon only. -/
def parseHost (scheme host : Bytes) : Option Bytes :=
  match cutLast (byte '[') host with
  | some (garbage, rest) => do
      if garbage ≠ [] then none
      let (name, port) ← cutLast (byte ']') rest
      if !validOptionalPort port then none
      let name ← unescapeHostname name
      if !isIPv6 name then none
      return ascii "[" ++ name ++ ascii "]" ++ port
  | none =>
      let colons := host.count (byte ':')
      let strict := scheme = [] ∨ scheme = ascii "http" ∨ scheme = ascii "https"
      if colons = 0 then unescape .host host
      else if colons > 1 ∧ strict then none
      else match cutLast (byte ':') host with
        | some (_, port) => if port.all isDigit then unescape .host host else none
        | none => none

def validUserinfo (t : Bytes) : Bool :=
  t.all fun b => isLetter b || isDigit b || (ascii "-._:~!$&'()*+,;=%@").contains b

/-- `parseAuthority`, for the host. -/
def parseAuthority (scheme authority : Bytes) : Option Bytes :=
  match cutLast (byte '@') authority with
  | none => parseHost scheme authority
  | some (userinfo, host) => do
      let host ← parseHost scheme host
      if !validUserinfo userinfo then none
      let _ ← unescape .userPassword userinfo
      return host

/-! ### `Parse` -/

/-- The fields of a `url.URL` that are read here. -/
structure URL where
  scheme : Bytes := []
  host : Bytes := []
  path : Bytes := []
  rawQuery : Bytes := []
  deriving DecidableEq, Repr

/-- `getScheme`, with the characters of a scheme read so far. -/
def getSchemeFrom (whole read : Bytes) : Bytes → Option (Bytes × Bytes)
  | [] => some ([], whole)
  | c :: t =>
      if isLetter c then getSchemeFrom whole (read ++ [c]) t
      else if isDigit c || (ascii "+-.").contains c then
        if read = [] then some ([], whole) else getSchemeFrom whole (read ++ [c]) t
      else if c = byte ':' then if read = [] then none else some (read, t)
      else some ([], whole)

def getScheme (raw : Bytes) : Option (Bytes × Bytes) := getSchemeFrom raw [] raw

/-- `parse`, on what stands before the fragment. -/
def parseURL (raw : Bytes) : Option URL := do
  if raw.any fun b => b < 0x20 || b == 0x7F then none
  if raw = ascii "*" then return { path := raw }
  let (scheme, rest) ← getScheme raw
  let scheme := scheme.map lower
  let rawQuery := after (byte '?') rest
  let rest := before (byte '?') rest
  if !starts rest (ascii "/") ∧ scheme ≠ [] then return { scheme, rawQuery }
  if !starts rest (ascii "/") ∧ (before (byte '/') rest).contains (byte ':') then none
  if (scheme ≠ [] ∨ !starts rest (ascii "///")) ∧ starts rest (ascii "//") then
    let authority := before (byte '/') (rest.drop 2)
    let host ← parseAuthority scheme authority
    let path ← unescape .path ((rest.drop 2).drop authority.length)
    return { scheme, host, path, rawQuery }
  let path ← unescape .path rest
  return { scheme, path, rawQuery }

/-- `url.Parse`. -/
def parse (raw : Bytes) : Option URL := do
  let url ← parseURL (before (byte '#') raw)
  let _ ← unescape .fragment (after (byte '#') raw)
  return url

end Ghostlane.Cli.NetUrl
