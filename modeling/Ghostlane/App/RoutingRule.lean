import Ghostlane.App.LinkParser
import Ghostlane.App.Punycode
import Ghostlane.App.Routing
import Ghostlane.App.TransportGroup

/-!
# Ghostlane.App.RoutingRule

One of the user's own routing rules as it is typed (`RoutingRule.parse` of `net/RoutingRule.kt`): a
domain, or an address with or without a length, read into the one spelling that is stored.

An address is read group by group (`ipv4`, `ipv6`), its host bits are cleared (`mask`), and what is
left is written again.
-/

namespace Ghostlane.App

open Ghostlane.Lib

/-! ### Lower case -/

/-- Outside ASCII and no digit of any script. -/
def Foreign (c : Char) : Prop := 0x80 ≤ c.toNat ∧ digitOf 16 c = none

/-- The lower case of the characters `String.lowercase` is not spelled out for, by what stands
before and behind them. -/
class Casing where
  other : Text → Char → Text → Text
  other_ne_nil : ∀ before c after, other before c after ≠ []
  other_foreign : ∀ before c after, ∀ d ∈ other before c after, Foreign d

section Rules

variable [Casing]

/-- The characters that ASCII or a digit comes of are ASCII, digits, the kelvin sign, the dotted
capital I and the full-width letters. -/
def lowerOf (before : Text) (c : Char) (after : Text) : Text :=
  let n := c.toNat
  if n < 0x80 then [c.toLower]
  else if n = 0x212A then ['k']
  else if n = 0x130 then ['i', Char.ofNat 0x307]
  else if 0xFF21 ≤ n ∧ n ≤ 0xFF3A then [Char.ofNat (n + 0x20)]
  else if (digitOf 16 c).isSome then [c]
  else Casing.other before c after

def lowerFrom (before : Text) : Text → Text
  | [] => []
  | c :: after => lowerOf before c after ++ lowerFrom (before ++ [c]) after

/-- `String.lowercase`. -/
def lowerCase (t : Text) : Text := lowerFrom [] t

namespace RoutingRule

/-! ### Addresses -/

/-- `String.length`. -/
def utf16Length (t : Text) : Nat := (t.map units).sum

/-- `Char.isDigit`. -/
def isDigit (c : Char) : Bool := zeros.any fun z => z ≤ c.toNat && c.toNat < z + 10

def octet (part : Text) : Option Int :=
  if part = [] ∨ 3 < utf16Length part ∨ !part.all isDigit then none
  else (toIntOrNull 10 part).filter fun n => 0 ≤ n ∧ n ≤ 255

def ipv4 (address : Text) : Option (List Int) :=
  let parts := address.splitOn '.'
  if parts.length ≠ 4 then none else parts.mapM octet

/-- `split("::")`. -/
def halves : Text → List Text
  | ':' :: ':' :: t => [] :: halves t
  | c :: t => (halves t).modifyHead (c :: ·)
  | [] => [[]]

def hextet (group : Text) : Option Int :=
  if group = [] ∨ 4 < utf16Length group then none else toIntOrNull 16 group

/-- The local function `groups` of `ipv6`. -/
def groups (part : Text) : Option (List Int) :=
  if part = [] then some [] else (part.splitOn ':').mapM hextet

def ipv6 (address : Text) : Option (List Int) :=
  if ':' ∉ address ∨ address.count ':' < 2 then none
  else
    match halves address with
    | [whole] => (groups whole).filter (·.length = 8)
    | [head, tail] => do
        let head ← groups head
        let tail ← groups tail
        if 8 ≤ head.length + tail.length then none
        else some (head ++ List.replicate (8 - head.length - tail.length) 0 ++ tail)
    | _ => none

/-- One value of `mask`. -/
def maskValue (width : Nat) (value kept : Int) : Nat :=
  let keep := if kept = 0 then 0 else (1 <<< width - 1) ^^^ (1 <<< (width - kept.toNat) - 1)
  (BitVec.ofInt 32 value &&& BitVec.ofNat 32 keep).toNat

def mask (values : List Int) (length : Int) (width : Nat) : List Nat :=
  values.mapIdx fun index value => maskValue width value (coerceIn (length - index * width) 0 width)

/-- The loop of `compress`, from an index on: where the longest run of zeros begins, and its
length. -/
def bestRun (index bestStart bestLength : Nat) (hextets : List Nat) : Nat × Nat :=
  match hextets with
  | [] => (bestStart, bestLength)
  | 0 :: rest =>
      let run := (rest.takeWhile (· = 0)).length + 1
      if bestLength < run then bestRun (index + run) index run (rest.drop (run - 1))
      else bestRun (index + run) bestStart bestLength (rest.drop (run - 1))
  | _ :: rest => bestRun (index + 1) bestStart bestLength rest
termination_by hextets.length

/-- `joinToString(":")`. -/
def colons (groups : List Text) : Text := [':'].intercalate groups

def compress (hextets : List Nat) : Text :=
  let best := bestRun 0 0 0 hextets
  let text := hextets.map (Nat.toDigits 16)
  if best.2 < 2 then colons text
  else colons (text.take best.1) ++ txt "::" ++ colons (text.drop (best.1 + best.2))

def parseCidr (raw : Text) : Option RoutingRule :=
  let (address, behind) := splitFirst '/' raw
  let length (default : Int) : Option Int :=
    match behind with
    | none => some default
    | some bits => toIntOrNull 10 bits
  match ipv4 address with
  | some octets => do
      let length ← length 32
      if 0 ≤ length ∧ length ≤ 32 then
        some (.cidr (['.'].intercalate ((mask octets length 8).map decimal) ++ '/' ::
          decimalInt length))
      else none
  | none =>
      match ipv6 address with
      | some hextets => do
          let length ← length 128
          if 0 ≤ length ∧ length ≤ 128 then
            some (.cidr (compress (mask hextets length 16) ++ '/' :: decimalInt length))
          else none
      | none => none

/-! ### Domains -/

/-- What stands behind the first occurrence of a text, or all of it. -/
def substringAfter (needle : Text) (t : Text) : Text :=
  let rec go : Text → Option Text
    | [] => none
    | c :: t => if startsWith (c :: t) needle then some ((c :: t).drop needle.length) else go t
  (go t).getD t

/-- `substringAfterLast`. -/
def substringAfterLast (c : Char) (t : Text) : Text := ((cutLast c t).map Prod.snd).getD t

def isLabel (label : Text) : Bool :=
  1 ≤ label.length && label.length ≤ 63 &&
    label.all (fun c => ('a' ≤ c && c ≤ 'z') || ('0' ≤ c && c ≤ '9') || c == '-') &&
    label.head? != some '-' && label.getLast? != some '-'

def parseDomain (raw : Text) : Option RoutingRule := do
  let host := substringAfter (txt "://") raw
  let host := substringBefore '#' (substringBefore '?' (substringBefore '/' host))
  let host := substringAfterLast '@' host
  let host := if host.count ':' = 1 then substringBefore ':' host else host
  let host := removeSuffix (removePrefix (removePrefix host (txt "*.")) (txt ".")) '.'
  if host = [] ∨ 253 < utf16Length host then none
  let labels := host.splitOn '.'
  if labels.length < 2 then none
  let ascii ← labels.mapM fun label => (Punycode.toAscii (Punycode.utf16 label)).toOption
  if !ascii.all isLabel then none
  if (ascii.getLastD []).all isDigit then none
  let name := ['.'].intercalate ascii
  if name.length ≤ 253 then some (.domain name) else none

/-- `text`. -/
def text : RoutingRule → Text
  | .domain name => name
  | .cidr range => range

def parse (input : Text) : Option RoutingRule :=
  let raw := lowerCase (trim input)
  if raw = [] then none else (parseCidr raw).or (parseDomain raw)

end RoutingRule

end Rules

end Ghostlane.App
