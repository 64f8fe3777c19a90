import Ghostlane.Lib.Rewrite
import Ghostlane.Lib.Scan
import Ghostlane.App.Strings
import Mathlib.Data.String.Basic

/-!
# Ghostlane.App.LogScrubber

What a log line loses before it is shown (`LogScrubber`): seven expressions, each on what the one
before left. An expression is a `Pass`, which takes the match a backtracking matcher finds first;
each stands under its own text. None of them needs to go back far: what a loop takes never
contains what has to follow the loop, so that the match is read off the longest run of the
characters it is made of.

`\d` and `\s` are ASCII's. The tables behind `\p{L}`, `\p{N}`, a word boundary and letter case
are the platform's (`CharTables`), as far as they are needed known on ASCII.
-/

namespace Ghostlane.App.LogScrubber

open Ghostlane.Lib

/-! ### Characters -/

/-- The tables of the platform. -/
class CharTables where
  /-- `\p{L}` -/
  letter : Char → Bool
  /-- `\p{N}` -/
  number : Char → Bool
  /-- A word boundary is between a character of these and one that is not. -/
  word : Char → Bool
  /-- `Char.isDigit` -/
  digit : Char → Bool
  /-- `Char.isUpperCase` -/
  upper : Char → Bool
  /-- `Char.isLowerCase` -/
  lower : Char → Bool
  /-- `String.lowercase` -/
  lowercase : Text → Text
  letter_ascii : ∀ c, c.toNat < 128 → letter c = c.isAlpha
  number_ascii : ∀ c, c.toNat < 128 → number c = c.isDigit
  word_ascii : ∀ c, c.toNat < 128 → word c = (c.isAlphanum || c == '_')
  digit_ascii : ∀ c, c.toNat < 128 → digit c = c.isDigit
  upper_ascii : ∀ c, c.toNat < 128 → upper c = c.isUpper
  lowercase_ascii : ∀ t : Text, (∀ c ∈ t, c.toNat < 128 ∧ c.isUpper = false) → lowercase t = t

/-- Tables that know ASCII only. -/
@[reducible] def asciiTables : CharTables where
  letter c := c.isAlpha
  number c := c.isDigit
  word c := c.isAlphanum || c == '_'
  digit c := c.isDigit
  upper c := c.isUpper
  lower c := c.isLower
  lowercase t := t.map Char.toLower
  letter_ascii _ _ := rfl
  number_ascii _ _ := rfl
  word_ascii _ _ := rfl
  digit_ascii _ _ := rfl
  upper_ascii _ _ := rfl
  lowercase_ascii t h := by
    refine (List.map_congr_left fun c hc => ?_).trans (List.map_id t)
    have hup : decide (c.val ≥ 'A'.val ∧ c.val ≤ 'Z'.val) = false := (h c hc).2
    exact dif_neg (decide_eq_false_iff_not.mp hup)

/-- `\s` -/
def blank (c : Char) : Bool := (txt " \t\n\x0b\x0c\r").contains c

/-- `[0-9a-fA-F]` -/
def hexDigit (c : Char) : Bool :=
  c.isDigit || ('a' ≤ c && c ≤ 'f') || ('A' ≤ c && c ≤ 'F')

variable [CharTables]

open CharTables

/-- `\b` between two characters, or at an end. -/
def boundary (before next : Option Char) : Bool := before.any word != next.any word

/-- `[\p{L}\p{N}]` -/
def alnum (c : Char) : Bool := letter c || number c

/-! ### Tags -/

/-- The UTF-16 code units of a character. -/
def codeUnits (c : Char) : List UInt64 :=
  let n := c.toNat
  if n < 0x10000 then [n.toUInt64]
  else [(0xD800 + (n - 0x10000) / 0x400).toUInt64, (0xDC00 + (n - 0x10000) % 0x400).toUInt64]

/-- FNV-1a over the salted value. -/
def fnv (salt : UInt64) (value : Text) : UInt64 :=
  (value.flatMap codeUnits).foldl (fun h u => (h ^^^ u) * 0x100000001b3)
    (0xcbf29ce484222325 ^^^ salt)

/-- Twelve hex digits of it: the six bytes above the lowest. -/
def shortHash (h : UInt64) : Text :=
  (List.range 12).map fun i => Nat.digitChar ((h.toNat / 2 ^ (8 + 4 * (11 - i))) % 16)

/-- `tag`. -/
def tag (salt : UInt64) (value : Text) : Text := txt "node#" ++ shortHash (fnv salt value)

/-! ### Addresses -/

/-- `tagIfPublicV4` counts these as local. -/
def localV4 (o : List Int) : Bool :=
  match o with
  | [a, b, c, d] =>
      a == 127 || a == 10 || a == 0 || (a == 172 && 16 ≤ b && b ≤ 31) || (a == 192 && b == 168) ||
        (a == 169 && b == 254) || (a == 100 && 64 ≤ b && b ≤ 127) ||
        (a == 255 && b == 255 && c == 255 && d == 255)
  | _ => false

/-- The numbers of a dotted address. -/
def octets (addr : Text) : List Int := (addr.splitOn '.').filterMap (toIntOrNull 10)

/-- An address that is tagged: four numbers up to 255, not local ones. -/
def publicV4 (addr : Text) : Bool :=
  (octets addr).length == 4 && (octets addr).all (· ≤ 255) && !localV4 (octets addr)

/-- `tagIfPublicV4`. -/
def tagIfPublicV4 (salt : UInt64) (addr : Text) : Text :=
  if publicV4 addr then tag salt addr else addr

/-- `tagIfPublicV6`. -/
def tagIfPublicV6 (salt : UInt64) (addr : Text) : Text :=
  if !contains addr (txt "::") && addr.count ':' < 4 then addr
  else
    let a := CharTables.lowercase addr
    let isLocal := a == txt "::1" || a == txt "::" ||
      [txt "fc", txt "fd", txt "fe8", txt "fe9", txt "fea", txt "feb"].any (startsWith a)
    if isLocal then addr else tag salt addr

/-! ### Links and identifiers -/

/-- One character of each class. -/
def fitsEach : List (Char → Bool) → Text → Bool
  | [], _ => true
  | _ :: _, [] => false
  | p :: ps, c :: t => p c && fitsEach ps t

/-- A literal as classes. -/
def literal (s : String) : List (Char → Bool) := s.toList.map fun c d => d == c

/-- `(?:olcrtc|happ)://crypt\d/` -/
def cryptHeads : List (List (Char → Bool)) :=
  [literal "olcrtc://crypt" ++ [Char.isDigit] ++ literal "/",
    literal "happ://crypt" ++ [Char.isDigit] ++ literal "/"]

/-- `\b(?:olcrtc|happ)://crypt\d/\S+` -/
def cryptLink : Pass Char := fun l t =>
  if boundary l.head? t.head? &&
    cryptHeads.any (fun head => fitsEach (head ++ [fun c => !blank c]) t) then
    some ((t.takeWhile fun c => !blank c).length - 1, txt "<link>")
  else none

/-- `[0-9a-fA-F]{8}-[0-9a-fA-F]{4}-[0-9a-fA-F]{4}-[0-9a-fA-F]{4}-[0-9a-fA-F]{12}` -/
def uuidClasses : List (Char → Bool) :=
  .replicate 8 hexDigit ++ literal "-" ++ .replicate 4 hexDigit ++ literal "-" ++
    .replicate 4 hexDigit ++ literal "-" ++ .replicate 4 hexDigit ++ literal "-" ++
    .replicate 12 hexDigit

/-- `\b` at both ends of that. -/
def uuid : Pass Char := fun l t =>
  if boundary l.head? t.head? && fitsEach uuidClasses t && boundary t[35]? t[36]? then
    some (35, txt "<id>")
  else none

/-! ### Names -/

/-- A label: letters, digits and hyphens, 63 at most, no hyphen at an end. -/
def label (l : Text) : Bool :=
  l.head?.any alnum && l.getLast?.any alnum && l.length ≤ 63 && l.all fun c => alnum c || c == '-'

/-- `[\p{L}\p{N}](?:[\p{L}\p{N}-]{0,61}[\p{L}\p{N}])?` at the front: the longest label there. -/
def longestLabel (l : Text) : Text :=
  if l.head?.any alnum then
    ((l.takeWhile fun c => alnum c || c == '-').take 63).rdropWhile (fun c => !alnum c)
  else []

/-- A character of a dotted name. -/
def nameChar (c : Char) : Bool := alnum c || c == '.' || c == '-'

/-- What the labels take with the dots between them. -/
def joined (labels : List Text) : Text := (txt ".").intercalate labels

/-- The labels at the front, full stops aside; the last may end anywhere. -/
def frontLabels (t : Text) : List Text := (t.takeWhile nameChar).splitOn '.'

/-- The leading ones that are labels with a dot after them. -/
def dottedLabels (t : Text) : List Text := (frontLabels t).dropLast.takeWhile label

/-- `(?:L\.)+L` at the front, where nothing has to follow: after the labels with dots the longest
label there is, or the last of them without its dot. -/
def urlHost (t : Text) : Text :=
  let dotted := dottedLabels t
  let last := longestLabel ((frontLabels t).getD dotted.length [])
  if dotted != [] && last != [] then joined (dotted ++ [last])
  else if 2 ≤ dotted.length then joined dotted else []

/-- `(?:L\.)+L(?![\p{L}\p{N}_-])`: the last label goes to the end of the name, or has a dot after
it. -/
def wholeHost (t : Text) : Text :=
  let dotted := dottedLabels t
  let labels := frontLabels t
  let after := t[(t.takeWhile nameChar).length]?
  if dotted != [] && labels.all label && !after.any (· == '_') then joined labels
  else if 2 ≤ dotted.length then joined dotted else []

/-! ### Our own hosts -/

/-- `[a-zA-Z0-9-]` -/
def plainChar (c : Char) : Bool := c.isAlphanum || c == '-'

def ourName : Text := txt "proofkit.org"

/-- `(?:[a-zA-Z0-9-]+\.)*proofkit\.org\b`, the most labels first: `pos` characters are passed, a
label begins here when `fresh`, and the last match so far is `best` long. -/
def ourHostFrom : (pos : Nat) → (fresh : Bool) → (best : Nat) → Text → Nat
  | _, _, best, [] => best
  | pos, fresh, best, c :: t =>
      let best :=
        if fresh && startsWith (c :: t) ourName && boundary (some 'g') (c :: t)[12]? then pos + 12
        else best
      if plainChar c then ourHostFrom (pos + 1) false best t
      else if c == '.' && !fresh then ourHostFrom (pos + 1) true best t
      else best

/-- `OUR_HOST`. -/
def ourHost : Pass Char := fun l t =>
  match ourHostFrom 0 true 0 t with
  | 0 => none
  | n + 1 => if boundary l.head? t.head? then some (n, txt "<host>") else none

/-- `OUR_HOST.matches`. -/
def isOurHost (host : Text) : Bool :=
  ourHostFrom 0 true 0 host == host.length && boundary none host.head?

/-! ### Addresses in a text -/

/-- `\d{1,3}` -/
def octet (l : Text) : Bool := 1 ≤ l.length && l.length ≤ 3 && l.all Char.isDigit

/-- `\d{1,3}(?:\.\d{1,3}){3}` as a whole text. -/
def isV4 (t : Text) : Bool := (t.splitOn '.').length == 4 && (t.splitOn '.').all octet

/-- `IPV4`: the same between boundaries. -/
def ipv4 (salt : UInt64) : Pass Char := fun l t =>
  let parts := (t.takeWhile fun c => c.isDigit || c == '.').splitOn '.'
  let found := joined (parts.take 4)
  if boundary l.head? t.head? && isV4 found && boundary (some '0') t[found.length]? then
    some (found.length - 1, tagIfPublicV4 salt found)
  else none

/-- `(?::[0-9a-fA-F]{0,4}){0,7}` over the groups after the first: one longer than four digits is
the last, cut there. -/
def groups : Nat → List Text → List Text
  | k + 1, g :: gs => if g.length ≤ 4 then g :: groups k gs else [g.take 4]
  | _, _ => []

/-- A character of an IPv6 address. -/
def colonOrHex (c : Char) : Bool := hexDigit c || c == ':'

/-- `IPV6`: `[0-9a-fA-F]{0,4}(?::[0-9a-fA-F]{0,4}){2,7}`. -/
def ipv6 (salt : UInt64) : Pass Char := fun _ t =>
  match (t.takeWhile colonOrHex).splitOn ':' with
  | [] => none
  | first :: rest =>
      let rest := groups 7 rest
      if first.length ≤ 4 && 2 ≤ rest.length then
        let found := (txt ":").intercalate (first :: rest)
        some (found.length - 1, tagIfPublicV6 salt found)
      else none

/-! ### URLs -/

/-- The groups of a match of `URL`; a group that took no part is empty. -/
structure UrlMatch where
  scheme : Text
  credentials : Text := []
  host : Text
  port : Text := []
  suffix : Text := []
  deriving DecidableEq, Repr

/-- `[a-zA-Z0-9+.-]` -/
def schemeChar (c : Char) : Bool := c.isAlphanum || c == '+' || c == '.' || c == '-'

/-- `[^\s/@]` -/
def credentialChar (c : Char) : Bool := !(blank c || c == '/' || c == '@')

/-- `(?::(\d+))?` -/
def portOf (t : Text) : Text :=
  match t with
  | ':' :: t => t.takeWhile Char.isDigit
  | _ => []

/-- `([/?#][^\s]*)?` -/
def suffixOf (t : Text) : Text :=
  match t with
  | c :: _ => if c == '/' || c == '?' || c == '#' then t.takeWhile (fun c => !blank c) else []
  | [] => []

/-- What is left after the port. -/
def afterPort (t : Text) : Text := if portOf t = [] then t else t.drop (1 + (portOf t).length)

/-- The host and what may follow it. -/
def authority (scheme credentials t : Text) : Option UrlMatch :=
  let host := urlHost t
  if host = [] then none
  else
    let rest := t.drop host.length
    some { scheme, credentials, host, port := portOf rest, suffix := suffixOf (afterPort rest) }

/-- What stands after the credentials, where there are some. -/
def afterCredentials (t : Text) : Option Text :=
  match t.takeWhile credentialChar, t.dropWhile credentialChar with
  | _ :: _, '@' :: rest => some rest
  | _, _ => none

/-- After the scheme: with credentials, or else without. -/
def afterScheme (scheme t : Text) : Option UrlMatch :=
  match (afterCredentials t).bind (authority scheme (t.takeWhile credentialChar)) with
  | some m => some m
  | none => authority scheme [] t

/-- `URL` at the front, its boundary apart. -/
def urlAt (t : Text) : Option UrlMatch :=
  let run := t.takeWhile schemeChar
  let rest := t.dropWhile schemeChar
  if t.head?.any Char.isAlpha && startsWith rest (txt "://") then
    afterScheme (run ++ txt "://") (rest.drop 3)
  else none

namespace UrlMatch

/-- The text of the match. -/
def text (m : UrlMatch) : Text :=
  m.scheme ++ (if m.credentials = [] then [] else m.credentials ++ txt "@") ++ m.host ++
    (if m.port = [] then [] else ':' :: m.port) ++ m.suffix

/-- The verdicts the rules for bare names and addresses would reach. -/
def shown (salt : UInt64) (m : UrlMatch) : Text :=
  if isOurHost m.host then txt "<host>"
  else if isV4 m.host then tagIfPublicV4 salt m.host
  else tag salt (CharTables.lowercase m.host)

/-- What is put for it. -/
def replaced (salt : UInt64) (m : UrlMatch) : Text :=
  m.scheme ++ (if m.credentials = [] then [] else txt "<credentials>@") ++ m.shown salt ++
    (if m.port = [] then [] else ':' :: m.port) ++
    (if m.suffix = [] then [] else if m.shown salt = m.host then m.suffix else txt "/<path>")

end UrlMatch

/-- The third expression. -/
def url (salt : UInt64) : Pass Char := fun l t =>
  if boundary l.head? t.head? then
    (urlAt t).map fun m => (m.text.length - 1, m.replaced salt)
  else none

/-! ### Destination names -/

/-- What ends a token. -/
def tokenEnd (c : Char) : Bool := (txt " \t\n\r").contains c

def nonHostSuffixes : List Text :=
  [txt "log", txt "json", txt "txt", txt "kt", txt "swift", txt "go", txt "srs", txt "exe",
    txt "dll", txt "so", txt "yaml", txt "yml", txt "conf"]

/-- `substringAfterLast('.')`. -/
def lastLabel (value : Text) : Text := (value.splitOn '.').getLastD []

/-- What `isDiagnosticHostname` asks of the match itself. -/
def hostShaped (value : Text) : Bool :=
  !nonHostSuffixes.contains (CharTables.lowercase (lastLabel value)) &&
    !(value.splitOn '.').all (·.all digit) &&
    !((lastLabel value).head?.any upper && (lastLabel value).any lower)

/-- The token around a match: what stands before it, nearest first, and what after. -/
def tokenAround (l value r : Text) : Text :=
  (l.takeWhile fun c => !tokenEnd c).reverse ++ value ++ r.takeWhile fun c => !tokenEnd c

/-- What it asks of the token. -/
def hostPlaced (l value r : Text) : Bool :=
  let token := tokenAround l value r
  let ofUrl := contains token (txt "://") && (l.head? == some '@' || startsWith l (txt "//:"))
  !token.contains '(' && !token.contains ')' &&
    (ofUrl || !token.contains '/' && !token.contains '\\')

/-- `HOSTNAME`. -/
def hostname (salt : UInt64) : Pass Char := fun l t =>
  let found := wholeHost t
  if found = [] || l.head?.any (fun c => alnum c || c == '_' || c == '-') then none
  else
    some (found.length - 1,
      if hostShaped found && hostPlaced l found (t.drop found.length) then
        tag salt (CharTables.lowercase found)
      else found)

/-! ### `scrub` -/

/-- The first four expressions. -/
def hideNamed (salt : UInt64) (line : Text) : Text :=
  ourHost.apply ((url salt).apply (uuid.apply (cryptLink.apply line)))

/-- `scrub`. -/
def scrub (salt : UInt64) (line : Text) : Text :=
  (ipv4 salt).apply ((ipv6 salt).apply ((hostname salt).apply (hideNamed salt line)))

/-- `node#[0-9a-f]{12}` -/
def tagMatch : Matcher Char := fun t =>
  if fitsEach (literal "node#" ++ .replicate 12 (fun c => c.isDigit || ('a' ≤ c && c ≤ 'f'))) t then
    17
  else 0

/-- The text with every tag made the same: two texts differ only in tags when this is the same of
both. -/
def maskTags (t : Text) : Text := replaceAll tagMatch (fun _ => txt "node#") t

end Ghostlane.App.LogScrubber
