import Ghostlane.Desktop.TunnelDaemon
import Ghostlane.Lib.Inet
import Mathlib.Algebra.Ring.Int.Defs

/-!
# Ghostlane.Desktop.HoldRequest

What of a start request ends up in the packet filter (`HoldRequest.parse` and `TrafficHold.rules` of
`tunneldaemon/TrafficHold.swift`). The name of an interface and the addresses to let out are put
into rules as they are, so each is checked first. An address is checked by `inet_pton`, which reads
a C string and so sees nothing behind a NUL: without one, the rules are the fixed sequence with
addresses in it, and with one they are not (`rules_fixed_iff`).

A string of Swift is its scalars here. The interface is compared with an ASCII text, of which there
is no other spelling.
-/

namespace Ghostlane.Desktop

open Ghostlane.Lib Ghostlane.Lib.Inet

/-! ### A request -/

/-- A value as `JSONSerialization` reads it. -/
inductive Json
  | null
  | bool (value : Bool)
  | number
  | string (value : Text)
  | array (items : List Json)
  | object (fields : List (Text × Json))

namespace Json

/-- `as? String`. -/
def asString : Json → Option Text
  | string value => some value
  | _ => none

/-- `as? [String]`. -/
def asStrings : Json → Option (List Text)
  | array items => items.mapM asString
  | _ => none

end Json

/-- `Int(_:)` of a text: a sign, then digits, within 64 bits. -/
def readInt (t : Text) : Option Int :=
  let (negative, digits) := match t with
    | '-' :: digits => (true, digits)
    | '+' :: digits => (false, digits)
    | digits => (false, digits)
  if digits = [] ∨ !digits.all Char.isDigit then none
  else
    let n : Int := (if negative then -1 else 1) * Nat.ofDigitChars 10 digits 0
    if -2 ^ 63 ≤ n ∧ n < 2 ^ 63 then some n else none

/-- A number in decimal. -/
def decimal (n : Int) : Text := (toString n).toList

/-- What a C function sees of a text. -/
def cString (t : Text) : Text := t.takeWhile (· != '\x00')

namespace HoldRequest

/-- `isAddress`: `inet_pton` of either family. -/
def isAddress (text : Text) : Bool := (address (cString text)).isSome

/-- The guard on the interface. -/
def isUtun (interface : Text) : Bool :=
  (txt "utun").isPrefixOf interface && decide (interface.length ≤ 8) &&
    (readInt (interface.drop 4)).any fun number =>
      0 ≤ number && interface == txt "utun" ++ decimal number

/-- `parse`: nothing where there is no hold, and what is wrong with one. -/
def parse (value : Option Json) : Except Text (Option HoldRequest) :=
  match value with
  | none => .ok none
  | some (.object object) =>
      match (object.lookup (txt "interface")).bind Json.asString with
      | none => .error (txt "a hold names the tunnel's interface")
      | some interface =>
          if isUtun interface then
            let passes := ((object.lookup (txt "pass")).bind Json.asStrings).getD []
            if passes.length ≤ 64 ∧ passes.all isAddress then .ok (some ⟨interface, passes⟩)
            else .error (txt "a hold lets out addresses, written as addresses")
          else .error (txt "the tunnel's interface is not a utun")
  | some _ => .error (txt "a hold names the tunnel's interface")

end HoldRequest

/-! ### The rules as pf gets them -/

namespace TrafficHold

/-- `rules(for:)`. -/
def rulesText (request : HoldRequest) : Text := ['\n'].intercalate (rules request) ++ ['\n']

/-- The interface of a number. -/
def utun (n : Nat) : Text := txt "utun" ++ (toString n).toList

/-- The rules that let out listed addresses of a family: none where none is listed. -/
def passLists (family : String) (addresses : List Text) : List Text :=
  if addresses = [] then [] else lets (braced addresses) (some (txt family)) none

/-- The rules before the lists. -/
def opening (n : Nat) : List Text :=
  [txt "pass out quick on lo0 all flags any" ++ txt " no state",
    txt "pass quick on " ++ utun n ++ txt " all flags any no state"] ++
  lets (txt "any group 7302243") none (some (braced [txt "tcp", txt "udp"])) ++
  [txt "pass out quick inet proto udp" ++ txt " from any port 68 to any port 67",
    txt "pass out quick inet6 proto udp" ++ txt " from any port 546 to any port 547"]

/-- The local network, and what is sent to all of it. -/
def localV4 : List Text :=
  [txt "10.0.0.0/8", txt "172.16.0.0/12", txt "192.168.0.0/16", txt "169.254.0.0/16",
    txt "224.0.0.0/4", txt "255.255.255.255"]

def localV6 : List Text := [txt "fe80::/10", txt "fc00::/7", txt "ff02::/16"]

/-- The rules behind them. -/
def closing : List Text :=
  [txt "block return out quick proto " ++ braced [txt "tcp", txt "udp"] ++
    txt " from any to any port 53"] ++
  passLists "inet" localV4 ++ passLists "inet6" localV6 ++ [txt "block return out quick all"]

/-- The sequence of rules, for an interface's number and addresses. -/
def sequence (n : Nat) (v4 v6 : List Text) : List Text :=
  opening n ++ passLists "inet" v4 ++ passLists "inet6" v6 ++ closing

/-- The lines of the rules are the fixed sequence, and what it lists are addresses. -/
def Fixed (request : HoldRequest) : Prop :=
  ∃ n v4 v6, (∀ t ∈ v4, ∃ a, address t = some (.v4 a)) ∧ (∀ t ∈ v6, ∃ a, address t = some (.v6 a)) ∧
    request.passes.Perm (v4 ++ v6) ∧
    (rulesText request).splitOn '\n' = sequence n v4 v6 ++ [[]]

/-- The rules of a request whose interface is one. -/
theorem rules_eq_sequence (n : Nat) (passes : List Text) :
    rules ⟨utun n, passes⟩ = sequence n (passes.filter fun t => !t.contains ':')
      (passes.filter fun t => t.contains ':') := by
  unfold sequence opening closing passLists rules localV4 localV6
  dsimp only
  rw [if_neg (List.cons_ne_nil _ _), if_neg (List.cons_ne_nil _ _)]
  simp only [List.isEmpty_iff, List.append_assoc]

/-! ### What a rule is written with -/

/-- A character that ends no line and no C string. -/
abbrev Inline (c : Char) : Prop := c ≠ '\n' ∧ c ≠ '\x00'

theorem inline_of_plain {c : Char} (h : Plain c) : Inline c := by
  constructor
  · rintro rfl
    exact absurd h (by decide)
  · rintro rfl
    exact absurd h (by decide)

theorem inline_append {t u : Text} (ht : ∀ c ∈ t, Inline c) (hu : ∀ c ∈ u, Inline c) :
    ∀ c ∈ t ++ u, Inline c := List.forall_mem_append.mpr ⟨ht, hu⟩

theorem inline_toString (n : Nat) : ∀ c ∈ (toString n).toList, Inline c := by
  intro c hc
  rw [Nat.toString_eq_repr, Nat.toList_repr] at hc
  have hdigit := Nat.isDigit_of_mem_toDigits (by decide) (by decide) hc
  exact inline_of_plain (.inl (isHex_of_isDigit hdigit))

theorem inline_intercalate {sep : Text} {ls : List Text} (hsep : ∀ c ∈ sep, Inline c)
    (h : ∀ l ∈ ls, ∀ c ∈ l, Inline c) : ∀ c ∈ sep.intercalate ls, Inline c := by
  induction ls with
  | nil => exact List.forall_mem_nil _
  | cons l ls ih =>
      obtain ⟨hl, hls⟩ := List.forall_mem_cons.mp h
      cases ls with
      | nil =>
          rw [List.intercalate_singleton]
          exact hl
      | cons m ls =>
          rw [List.intercalate_cons_cons]
          exact inline_append (inline_append hl hsep) (ih hls)

theorem inline_lets {whom : Text} {family protocols : Option Text}
    (hwhom : ∀ c ∈ whom, Inline c) (hfamily : ∀ t ∈ family, ∀ c ∈ t, Inline c)
    (hprotocols : ∀ t ∈ protocols, ∀ c ∈ t, Inline c) :
    ∀ line ∈ lets whom family protocols, ∀ c ∈ line, Inline c := by
  have hquick : ∀ c ∈ txt "pass out quick" ++ (family.map (' ' :: ·)).getD [], Inline c := by
    refine inline_append (by decide) ?_
    cases family with
    | none => exact List.forall_mem_nil _
    | some t => exact List.forall_mem_cons.mpr ⟨by decide, hfamily t rfl⟩
  have hproto : ∀ c ∈ (protocols.map (txt " proto " ++ ·)).getD [], Inline c := by
    cases protocols with
    | none => exact List.forall_mem_nil _
    | some t => exact inline_append (by decide) (hprotocols t rfl)
  refine List.forall_mem_cons.mpr ⟨?_, List.forall_mem_singleton.mpr ?_⟩
  · exact inline_append (inline_append (inline_append hquick hproto) (by decide)) hwhom
  · exact inline_append (inline_append (inline_append hquick (by decide)) hwhom) (by decide)

theorem inline_braced {addresses : List Text} (h : ∀ t ∈ addresses, ∀ c ∈ t, Inline c) :
    ∀ c ∈ braced addresses, Inline c :=
  inline_append (inline_append (by decide) (inline_intercalate (by decide) h)) (by decide)

theorem inline_passLists {family : String} {addresses : List Text}
    (hfamily : ∀ c ∈ txt family, Inline c) (h : ∀ t ∈ addresses, ∀ c ∈ t, Inline c) :
    ∀ line ∈ passLists family addresses, ∀ c ∈ line, Inline c := by
  unfold passLists
  split
  · exact List.forall_mem_nil _
  · refine inline_lets (inline_braced h) (fun t ht => ?_) (fun t ht => nomatch ht)
    cases ht
    exact hfamily

theorem inline_sequence {n : Nat} {v4 v6 : List Text} (h4 : ∀ t ∈ v4, ∀ c ∈ t, Inline c)
    (h6 : ∀ t ∈ v6, ∀ c ∈ t, Inline c) : ∀ line ∈ sequence n v4 v6, ∀ c ∈ line, Inline c := by
  have hopening : ∀ line ∈ opening n, ∀ c ∈ line, Inline c := by
    have htunnel : ∀ c ∈ txt "pass quick on " ++ utun n ++ txt " all flags any no state",
        Inline c :=
      inline_append (inline_append (by decide) (inline_append (by decide) (inline_toString n)))
        (by decide)
    have hgroup : ∀ line ∈ lets (txt "any group 7302243") none
        (some (braced [txt "tcp", txt "udp"])), ∀ c ∈ line, Inline c := by
      refine inline_lets (by decide) (fun t ht => nomatch ht) (fun t ht => ?_)
      cases ht
      exact inline_braced (by decide)
    simp only [opening, List.forall_mem_append]
    refine ⟨⟨List.forall_mem_cons.mpr ⟨by decide, List.forall_mem_singleton.mpr htunnel⟩, hgroup⟩,
      ?_⟩
    decide
  have hclosing : ∀ line ∈ closing, ∀ c ∈ line, Inline c := by
    simp only [closing, List.forall_mem_append]
    refine ⟨⟨⟨by decide, inline_passLists (by decide) (by decide)⟩,
      inline_passLists (by decide) (by decide)⟩, by decide⟩
  simp only [sequence, List.forall_mem_append]
  exact ⟨⟨⟨hopening, inline_passLists (by decide) h4⟩, inline_passLists (by decide) h6⟩, hclosing⟩

/-! ### What is accepted -/

theorem isUtun_eq_true {interface : Text} (h : HoldRequest.isUtun interface = true) :
    ∃ n, interface = utun n := by
  simp only [HoldRequest.isUtun, Bool.and_eq_true, Option.any_eq_true, decide_eq_true_eq,
    beq_iff_eq] at h
  obtain ⟨-, number, -, hpositive, hname⟩ := h
  refine ⟨number.toNat, ?_⟩
  have hnumber : number = (number.toNat : Int) := by omega
  rw [hname, hnumber]
  rfl

/-- A request that is accepted has an interface's number and texts that begin as addresses. -/
theorem parse_eq_ok {value : Option Json} {request : HoldRequest}
    (h : HoldRequest.parse value = .ok (some request)) :
    (∃ n, request.interface = utun n) ∧ ∀ t ∈ request.passes, HoldRequest.isAddress t = true := by
  unfold HoldRequest.parse at h
  split at h
  · cases h
  · split at h
    · cases h
    · split at h
      · rename_i hutun
        dsimp only at h
        split at h
        · rename_i hpasses
          cases h
          exact ⟨isUtun_eq_true hutun, List.all_eq_true.mp hpasses.2⟩
        · cases h
      · cases h
  · cases h

theorem isAddress_of_noNul {t : Text} (h : HoldRequest.isAddress t = true) (hnul : '\x00' ∉ t) :
    ∃ a, address t = some a := by
  have hwhole : cString t = t := by
    refine List.takeWhile_eq_self_iff.mpr fun c hc => ?_
    rw [bne_iff_ne]
    rintro rfl
    exact hnul hc
  rw [HoldRequest.isAddress, hwhole] at h
  exact Option.isSome_iff_exists.mp h

/-- **The rules of an accepted request are the fixed sequence, with addresses in it, exactly when**
none of its texts has a NUL. -/
theorem rules_fixed_iff {value : Option Json} {request : HoldRequest}
    (h : HoldRequest.parse value = .ok (some request)) :
    Fixed request ↔ ∀ t ∈ request.passes, '\x00' ∉ t := by
  obtain ⟨⟨n, hinterface⟩, haddresses⟩ := parse_eq_ok h
  constructor
  · rintro ⟨n, v4, v6, h4, h6, hperm, -⟩ t ht hnul
    have haddress : ∃ a, address t = some a := by
      rcases List.mem_append.mp (hperm.mem_iff.mp ht) with ht | ht
      · obtain ⟨a, ha⟩ := h4 t ht
        exact ⟨_, ha⟩
      · obtain ⟨a, ha⟩ := h6 t ht
        exact ⟨_, ha⟩
    obtain ⟨a, ha⟩ := haddress
    exact (inline_of_plain (address_chars ha _ hnul)).2 rfl
  · intro hnul
    have hall : ∀ t ∈ request.passes, ∃ a, address t = some a :=
      fun t ht => isAddress_of_noNul (haddresses t ht) (hnul t ht)
    have hinline : ∀ t ∈ request.passes, ∀ c ∈ t, Inline c := by
      intro t ht c hc
      obtain ⟨a, ha⟩ := hall t ht
      exact inline_of_plain (address_chars ha c hc)
    refine ⟨n, request.passes.filter fun t => !t.contains ':',
      request.passes.filter fun t => t.contains ':', ?_, ?_, ?_, ?_⟩
    · intro t ht
      obtain ⟨hmem, hcolon⟩ := List.mem_filter.mp ht
      obtain ⟨a, ha⟩ := hall t hmem
      have hfamily := mem_colon_iff ha
      cases a with
      | v4 a => exact ⟨a, ha⟩
      | v6 a =>
          rw [List.contains_iff_mem.mpr (hfamily.mpr rfl)] at hcolon
          cases hcolon
    · intro t ht
      obtain ⟨hmem, hcolon⟩ := List.mem_filter.mp ht
      obtain ⟨a, ha⟩ := hall t hmem
      have hfamily := (mem_colon_iff ha).mp (List.contains_iff_mem.mp hcolon)
      cases a with
      | v4 a => cases hfamily
      | v6 a => exact ⟨a, ha⟩
    · have hperm := List.filter_append_perm (fun t : Text => !t.contains ':') request.passes
      simp only [Bool.not_not] at hperm
      exact hperm.symm
    · have hrequest : request = ⟨utun n, request.passes⟩ := by rw [← hinterface]
      have hrules := rules_eq_sequence n request.passes
      rw [← hrequest] at hrules
      have hfiltered : ∀ p : Text → Bool, ∀ t ∈ request.passes.filter p, ∀ c ∈ t, Inline c :=
        fun p t ht => hinline t (List.mem_of_mem_filter ht)
      have hlines := inline_sequence (n := n) (hfiltered fun t => !t.contains ':')
        (hfiltered fun t => t.contains ':')
      have hfree : ∀ line ∈ rules request, '\n' ∉ line := by
        rw [hrules]
        exact fun line hline hmem => (hlines line hline _ hmem).1 rfl
      rw [rulesText, List.splitOn_append_cons_self, List.splitOn_nil,
        List.splitOn_intercalate '\n' hfree, hrules]
      rw [hrules]
      exact List.append_ne_nil_of_right_ne_nil _ (by decide)

/-- An IPv4 and an IPv6 address. -/
theorem rules_fixed_two : Fixed ⟨utun 3, [txt "192.0.2.7", txt "2001:db8::1"]⟩ := by
  have haccepted : HoldRequest.parse (some (.object [(txt "interface", .string (txt "utun3")),
      (txt "pass", .array [.string (txt "192.0.2.7"), .string (txt "2001:db8::1")])])) =
        .ok (some ⟨utun 3, [txt "192.0.2.7", txt "2001:db8::1"]⟩) := by decide
  exact (rules_fixed_iff haccepted).mpr (by decide)

/-- A rule behind a NUL is loaded with the rest. -/
theorem rule_behind_nul : ¬ ∀ (value : Option Json) (request : HoldRequest),
    HoldRequest.parse value = .ok (some request) → Fixed request := by
  intro h
  have haccepted : HoldRequest.parse (some (.object [(txt "interface", .string (txt "utun3")),
      (txt "pass", .array [.string (txt "192.0.2.7\x00 \x7d\npass out quick all\n")])])) =
        .ok (some ⟨utun 3, [txt "192.0.2.7\x00 \x7d\npass out quick all\n"]⟩) := by decide
  obtain ⟨n, v4, v6, h4, h6, hperm, -⟩ := h _ _ haccepted
  have hnone : address (txt "192.0.2.7\x00 \x7d\npass out quick all\n") = none := by
    decide
  rcases List.mem_append.mp (hperm.mem_iff.mp List.mem_cons_self) with hmem | hmem
  · obtain ⟨a, ha⟩ := h4 _ hmem
    rw [hnone] at ha
    cases ha
  · obtain ⟨a, ha⟩ := h6 _ hmem
    rw [hnone] at ha
    cases ha

end TrafficHold

end Ghostlane.Desktop
