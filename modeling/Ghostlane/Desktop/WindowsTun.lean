import Ghostlane.App.Strings
import Ghostlane.Lib.Intervals
import Ghostlane.Lib.Outcomes
import Mathlib.Data.List.Sort
import Mathlib.Data.Set.Card

/-!
# Ghostlane.Desktop.WindowsTun

The tun of a Windows machine (`vpn/desktop/WindowsTunController.kt`): whether the routes on its
adapter take the machine's traffic (`coversDefaultRoute`).

A route is an `a.b.c.d/n`; the addresses that it takes are those that agree with it in the first `n`
bits (`Takes`). Its numbers are read by `toIntOrNull`, so a text is read, too, that is no route, as
`0.0.0.0/+0` (`ReadTakes`).
-/

namespace Ghostlane.Desktop

open Ghostlane.Lib App

namespace WindowsTunController

/-! ### Routes -/

/-- A number from `lo` to `hi`: `toIntOrNull()?.takeIf { it in lo..hi }`. -/
def numberIn (lo hi : Int) (t : Text) : Option Int :=
  (toIntOrNull 10 t).filter fun n => lo ≤ n ∧ n ≤ hi

/-- `substringBefore` and `substringAfter('/', "")`. -/
def atSlash (t : Text) : Text × Text := (cut '/' t).getD (t, [])

def ipv4Range (route : Text) : Option (Int × Int) := do
  let (address, length) := atSlash (trim route)
  let bits ← numberIn 0 32 length
  let octets ← (splitAll (· == '.') address).mapM (numberIn 0 255)
  if octets.length ≠ 4 then none
  else
    let value := octets.foldl (fun acc octet => acc * 256 + octet) 0
    let size : Int := 2 ^ (32 - bits).toNat
    let start := value / size * size
    some (start, start + size - 1)

def ipv4Addresses : Int := 2 ^ 32

def routesMaySpare : Int := 256

def coversDefaultRoute (prefixes : List Text) (spared : Int) : Bool :=
  let ranges := (prefixes.filterMap ipv4Range).insertionSort fun a b => a.1 ≤ b.1
  let (covered, _) := ranges.foldl
    (fun (covered, reached) (start, stop) =>
      if stop ≤ reached then (covered, reached)
      else (covered + (stop - max start (reached + 1) + 1), stop))
    ((0, -1) : Int × Int)
  ipv4Addresses - covered ≤ spared

/-! ### What a route takes -/

/-- A route as Windows prints it. -/
def dotted (octets : List Nat) (bits : Nat) : Text :=
  ['.'].intercalate (octets.map decimal) ++ '/' :: decimal bits

/-- The text is an IPv4 prefix, four octets and a length in decimal. -/
structure IsPrefix (route : Text) (octets : List Nat) (bits : Nat) : Prop where
  written : trim route = dotted octets bits
  four : octets.length = 4
  octet : ∀ o ∈ octets, o < 256
  length : bits ≤ 32

/-- An address of four octets. -/
def address (octets : List Int) : Int := octets.foldl (fun acc octet => acc * 256 + octet) 0

/-- The route takes the address: they agree in as many bits as the route says. -/
def Takes (route : Text) (x : Int) : Prop :=
  ∃ octets bits, IsPrefix route octets bits ∧
    x / 2 ^ (32 - bits) = address (octets.map Int.ofNat) / 2 ^ (32 - bits)

/-- The addresses that none of some routes takes. -/
def leftOut (prefixes : List Text) : Set Int :=
  {x | 0 ≤ x ∧ x < 2 ^ 32 ∧ ∀ route ∈ prefixes, ¬ Takes route x}

/-! ### What is read -/

/-- The text is read as four octets and a length, in whatever spelling the numbers are. -/
structure IsRead (route : Text) (octets : List Int) (bits : Nat) : Prop where
  written : ∃ parts length, trim route = ['.'].intercalate parts ++ '/' :: length ∧
    parts.mapM (numberIn 0 255) = some octets ∧ numberIn 0 32 length = some (bits : Int)
  four : octets.length = 4

/-- The address is among those that are read of the route. -/
def ReadTakes (route : Text) (x : Int) : Prop :=
  ∃ octets bits, IsRead route octets bits ∧ x / 2 ^ (32 - bits) = address octets / 2 ^ (32 - bits)

/-- What is read of the routes that are none is taken by others of them. -/
def AsWritten (prefixes : List Text) : Prop :=
  ∀ x, (∃ route ∈ prefixes, ReadTakes route x) → ∃ route ∈ prefixes, Takes route x

theorem numberIn_eq_some_iff {lo hi n : Int} {t : Text} :
    numberIn lo hi t = some n ↔ toIntOrNull 10 t = some n ∧ lo ≤ n ∧ n ≤ hi := by
  simp [numberIn, Option.filter_eq_some_iff]

theorem numberIn_chars {lo hi n : Int} {t : Text} (h : numberIn lo hi t = some n) :
    '.' ∉ t ∧ '/' ∉ t := by
  have hchars := toIntOrNull_chars (numberIn_eq_some_iff.mp h).1
  constructor
  · intro hc
    exact absurd (hchars '.' hc) (by decide)
  · intro hc
    exact absurd (hchars '/' hc) (by decide)

theorem atSlash_append {a : Text} (h : '/' ∉ a) (b : Text) : atSlash (a ++ '/' :: b) = (a, b) := by
  rw [atSlash, cut_append h]
  rfl

/-- A length is read only behind a slash. -/
theorem atSlash_eq {t a b : Text} (h : atSlash t = (a, b)) (hb : b ≠ []) : t = a ++ '/' :: b := by
  rw [atSlash, cut_eq_cutFirst] at h
  cases hcut : cutFirst '/' t with
  | none =>
      rw [hcut] at h
      cases h
      exact absurd rfl hb
  | some p =>
      rw [hcut] at h
      cases h
      exact (cutFirst_eq_some_iff.mp hcut).1

theorem isRead_iff {route : Text} {octets : List Int} {bits : Nat} :
    IsRead route octets bits ↔
      numberIn 0 32 (atSlash (trim route)).2 = some (bits : Int) ∧
        (splitAll (· == '.') (atSlash (trim route)).1).mapM (numberIn 0 255) = some octets ∧
          octets.length = 4 := by
  have hsplit : ∀ t : Text, splitAll (· == '.') t = t.splitOn '.' := splitAll_eq_splitOnP _
  rw [hsplit]
  constructor
  · rintro ⟨⟨parts, length, htext, hparts, hlength⟩, hfour⟩
    have hfree : ∀ part ∈ parts, '.' ∉ part ∧ '/' ∉ part := by
      intro part hpart
      obtain ⟨n, -, hn⟩ := of_mapM_eq_some hparts part hpart
      exact numberIn_chars hn
    have hslash : '/' ∉ ['.'].intercalate parts := by
      intro hc
      rcases mem_of_mem_intercalate hc with hdot | ⟨part, hpart, hc⟩
      · exact absurd hdot (by decide)
      · exact (hfree part hpart).2 hc
    have hne : parts ≠ [] := by
      rintro rfl
      cases hparts
      cases hfour
    rw [htext, atSlash_append hslash,
      List.splitOn_intercalate '.' (fun part hpart => (hfree part hpart).1) hne]
    exact ⟨hlength, hparts, hfour⟩
  · rintro ⟨hlength, hparts, hfour⟩
    refine ⟨⟨_, _, ?_, hparts, hlength⟩, hfour⟩
    rw [List.intercalate_splitOn]
    refine atSlash_eq rfl ?_
    intro hnil
    rw [hnil] at hlength
    cases hlength

theorem address_bounds {octets : List Int} (hfour : octets.length = 4)
    (h : ∀ o ∈ octets, 0 ≤ o ∧ o ≤ 255) : 0 ≤ address octets ∧ address octets < 2 ^ 32 := by
  match octets, hfour with
  | [a, b, c, d], _ =>
      simp only [List.mem_cons, List.not_mem_nil, or_false, forall_eq_or_imp, forall_eq] at h
      simp only [address, List.foldl_cons, List.foldl_nil]
      omega

namespace IsRead

variable {route : Text} {octets : List Int} {bits : Nat}

theorem bits_le (h : IsRead route octets bits) : bits ≤ 32 := by
  obtain ⟨_, _, -, -, hlength⟩ := h.written
  have hbits := (numberIn_eq_some_iff.mp hlength).2.2
  omega

theorem bounds (h : IsRead route octets bits) :
    0 ≤ address octets ∧ address octets < 2 ^ 32 := by
  obtain ⟨parts, _, -, hparts, -⟩ := h.written
  refine address_bounds h.four fun o ho => ?_
  obtain ⟨part, -, hpart⟩ := exists_of_mem_mapM hparts o ho
  exact (numberIn_eq_some_iff.mp hpart).2

end IsRead

theorem numberIn_decimal {n : Nat} {hi : Int} (h : (n : Int) ≤ hi) (hhi : hi ≤ 255) :
    numberIn 0 hi (decimal n) = some (n : Int) :=
  numberIn_eq_some_iff.mpr ⟨toIntOrNull_toDigits (by omega), by omega, h⟩

/-- A prefix is read as it says. -/
theorem IsPrefix.read {route : Text} {octets : List Nat} {bits : Nat}
    (h : IsPrefix route octets bits) : IsRead route (octets.map Int.ofNat) bits := by
  have hlength := h.length
  refine ⟨⟨octets.map decimal, decimal bits, h.written, ?_, numberIn_decimal (by omega) (by omega)⟩,
    ?_⟩
  · rw [mapM_eq_some_iff, List.forall₂_map_left_iff, List.forall₂_map_right_iff,
      List.forall₂_same]
    intro o ho
    have hlt := h.octet o ho
    exact numberIn_decimal (by omega) le_rfl
  · rw [List.length_map, h.four]

theorem Takes.read {route : Text} {x : Int} (h : Takes route x) : ReadTakes route x := by
  obtain ⟨octets, bits, hprefix, hx⟩ := h
  exact ⟨_, bits, hprefix.read, hx⟩

/-- **What the range of a route is:** its address with the bits behind the length cleared, and as
many addresses as these bits have values. -/
theorem ipv4Range_eq_some_iff {route : Text} {r : Int × Int} :
    ipv4Range route = some r ↔ ∃ octets bits, IsRead route octets bits ∧
      r = (address octets / 2 ^ (32 - bits) * 2 ^ (32 - bits),
        address octets / 2 ^ (32 - bits) * 2 ^ (32 - bits) + 2 ^ (32 - bits) - 1) := by
  have hcleared : ∀ bits : Nat, bits ≤ 32 → (32 - (bits : Int)).toNat = 32 - bits := by
    intro bits hbits
    omega
  constructor
  · intro h
    obtain ⟨bits, hbits, h⟩ := Option.bind_eq_some_iff.mp h
    obtain ⟨octets, hoctets, h⟩ := Option.bind_eq_some_iff.mp h
    obtain ⟨-, hlo, hhi⟩ := numberIn_eq_some_iff.mp hbits
    obtain ⟨n, rfl⟩ := Int.eq_ofNat_of_zero_le hlo
    split at h
    · cases h
    · rename_i hfour
      cases h
      refine ⟨octets, n, isRead_iff.mpr ⟨hbits, hoctets, not_not.mp hfour⟩, ?_⟩
      rw [hcleared n (by omega), address]
  · rintro ⟨octets, bits, h, rfl⟩
    obtain ⟨hbits, hoctets, hfour⟩ := isRead_iff.mp h
    refine Option.bind_eq_some_iff.mpr ⟨bits, hbits, ?_⟩
    refine Option.bind_eq_some_iff.mpr ⟨octets, hoctets, ?_⟩
    rw [if_neg (not_not.mpr hfour), hcleared bits h.bits_le, address]

/-- The addresses between the ends are those that are read of the route. -/
theorem readTakes_iff {route : Text} {x : Int} :
    ReadTakes route x ↔ ∃ r, ipv4Range route = some r ∧ r.1 ≤ x ∧ x ≤ r.2 := by
  have hagree : ∀ (value : Int) (n : Nat), x / 2 ^ n = value / 2 ^ n ↔
      value / 2 ^ n * 2 ^ n ≤ x ∧ x ≤ value / 2 ^ n * 2 ^ n + 2 ^ n - 1 := by
    intro value n
    rw [Int.ediv_eq_iff_of_pos (Int.pow_pos (by decide))]
    constructor
    · rintro ⟨hlo, hhi⟩
      exact ⟨hlo, by omega⟩
    · rintro ⟨hlo, hhi⟩
      exact ⟨hlo, by omega⟩
  constructor
  · rintro ⟨octets, bits, h, hx⟩
    exact ⟨_, ipv4Range_eq_some_iff.mpr ⟨octets, bits, h, rfl⟩, (hagree _ _).mp hx⟩
  · rintro ⟨r, hr, hx⟩
    obtain ⟨octets, bits, h, rfl⟩ := ipv4Range_eq_some_iff.mp hr
    exact ⟨octets, bits, h, (hagree _ _).mpr hx⟩

/-- A range is not empty and lies in the address space. -/
theorem ipv4Range_bounds {route : Text} {r : Int × Int} (h : ipv4Range route = some r) :
    0 ≤ r.1 ∧ r.1 ≤ r.2 ∧ r.2 < ipv4Addresses := by
  obtain ⟨octets, bits, hread, rfl⟩ := ipv4Range_eq_some_iff.mp h
  obtain ⟨hlo, hhi⟩ := hread.bounds
  have hsize : (0 : Int) < 2 ^ (32 - bits) := Int.pow_pos (by decide)
  have hwhole : (2 : Int) ^ bits * 2 ^ (32 - bits) = 2 ^ 32 := by
    rw [← pow_add, Nat.add_sub_cancel' hread.bits_le]
  refine ⟨Int.mul_nonneg (Int.ediv_nonneg hlo hsize.le) hsize.le, ?_, ?_⟩
  · dsimp only
    omega
  · -- The address has fewer whole ranges before it than the space has.
    have hbefore : address octets / 2 ^ (32 - bits) < 2 ^ bits := by
      rw [Int.ediv_lt_iff_lt_mul hsize, hwhole]
      exact hhi
    have hrange := Int.mul_le_mul_of_nonneg_right (Int.add_one_le_of_lt hbefore) hsize.le
    rw [hwhole, Int.add_mul, Int.one_mul] at hrange
    rw [ipv4Addresses]
    dsimp only
    omega

/-- The addresses read are those the ranges hold. -/
theorem mem_heldBy_ranges {prefixes : List Text} {x : Int} :
    x ∈ heldBy (prefixes.filterMap ipv4Range) ↔ ∃ route ∈ prefixes, ReadTakes route x := by
  rw [mem_heldBy]
  constructor
  · rintro ⟨r, hr, hx⟩
    obtain ⟨route, hroute, hr⟩ := List.mem_filterMap.mp hr
    exact ⟨route, hroute, readTakes_iff.mpr ⟨r, hr, hx⟩⟩
  · rintro ⟨route, hroute, hx⟩
    obtain ⟨r, hr, hx⟩ := readTakes_iff.mp hx
    exact ⟨r, List.mem_filterMap.mpr ⟨route, hroute, hr⟩, hx⟩

/-- The loop is a sweep of the ranges. -/
theorem coversDefaultRoute_iff {prefixes : List Text} {spared : Int} :
    coversDefaultRoute prefixes spared = true ↔
      ipv4Addresses - ((heldBy (prefixes.filterMap ipv4Range)).card : Int) ≤ spared := by
  have hperm := List.perm_insertionSort (fun a b : Int × Int => a.1 ≤ b.1)
    (prefixes.filterMap ipv4Range)
  have hcount := card_sweep (List.pairwise_insertionSort (fun a b : Int × Int => a.1 ≤ b.1)
      (prefixes.filterMap ipv4Range)) fun r hr => by
    obtain ⟨route, -, hroute⟩ := List.mem_filterMap.mp (hperm.mem_iff.mp hr)
    exact ⟨(ipv4Range_bounds hroute).1, (ipv4Range_bounds hroute).2.1⟩
  rw [heldBy_perm hperm] at hcount
  rw [← hcount]
  exact decide_eq_true_iff

/-- The addresses that are read of none of some routes. -/
def unread (prefixes : List Text) : Set Int :=
  {x | 0 ≤ x ∧ x < 2 ^ 32 ∧ ∀ route ∈ prefixes, ¬ ReadTakes route x}

theorem finite_leftOut (prefixes : List Text) : (leftOut prefixes).Finite :=
  (Set.finite_Ico (0 : Int) (2 ^ 32)).subset fun _ ⟨hlo, hhi, _⟩ => ⟨hlo, hhi⟩

theorem unread_subset (prefixes : List Text) : unread prefixes ⊆ leftOut prefixes :=
  fun _ ⟨hlo, hhi, hnone⟩ => ⟨hlo, hhi, fun route hroute htakes => hnone route hroute htakes.read⟩

theorem coe_unread (prefixes : List Text) :
    unread prefixes =
      ↑(Finset.Ico 0 ipv4Addresses \ heldBy (prefixes.filterMap ipv4Range)) := by
  ext x
  simp only [Finset.coe_sdiff, Finset.coe_Ico, Set.mem_sdiff, Set.mem_Ico, Finset.mem_coe,
    mem_heldBy_ranges, unread, Set.mem_ofPred_eq, ipv4Addresses, not_exists, not_and, and_assoc]

theorem ncard_unread (prefixes : List Text) :
    ((unread prefixes).ncard : Int) =
      ipv4Addresses - ((heldBy (prefixes.filterMap ipv4Range)).card : Int) := by
  have hspace : heldBy (prefixes.filterMap ipv4Range) ⊆ Finset.Ico 0 ipv4Addresses := by
    intro x hx
    obtain ⟨r, hr, hlo, hhi⟩ := mem_heldBy.mp hx
    obtain ⟨route, -, hroute⟩ := List.mem_filterMap.mp hr
    obtain ⟨hstart, -, hstop⟩ := ipv4Range_bounds hroute
    exact Finset.mem_Ico.mpr ⟨by omega, by omega⟩
  have hcard := Finset.card_sdiff_add_card_eq_card hspace
  rw [Int.card_Ico, ipv4Addresses] at hcard
  rw [coe_unread, Set.ncard_coe_finset, ipv4Addresses]
  omega

theorem coversDefaultRoute_iff_unread (prefixes : List Text) (spared : Int) :
    coversDefaultRoute prefixes spared = true ↔ ((unread prefixes).ncard : Int) ≤ spared := by
  rw [ncard_unread]
  exact coversDefaultRoute_iff

/-- Nothing more is read than is written where no more is left out. -/
theorem asWritten_iff (prefixes : List Text) :
    AsWritten prefixes ↔ leftOut prefixes ⊆ unread prefixes := by
  constructor
  · rintro h x ⟨hlo, hhi, hnone⟩
    refine ⟨hlo, hhi, fun route hroute hread => ?_⟩
    obtain ⟨other, hother, htakes⟩ := h x ⟨route, hroute, hread⟩
    exact hnone other hother htakes
  · rintro h x ⟨route, hroute, hread⟩
    by_contra hnone
    obtain ⟨r, hr, hlo, hhi⟩ := readTakes_iff.mp hread
    obtain ⟨hstart, -, hstop⟩ := ipv4Range_bounds hr
    rw [ipv4Addresses] at hstop
    have hx : x ∈ leftOut prefixes :=
      ⟨by omega, by omega, fun other hother htakes => hnone ⟨other, hother, htakes⟩⟩
    exact (h hx).2.2 route hroute hread

/-- **Routes take the machine's traffic exactly when they leave out no more than is spared,** in
whatever order they stand and however they overlap, for every number that may be spared exactly when
what is read of texts that are no routes lies within the others. In any case a list that leaves out
some addresses, no more than a /24 has, is said to take it, and more routes take nothing back. -/
theorem coversDefaultRoute_spec (prefixes : List Text) :
    ((∀ spared, coversDefaultRoute prefixes spared = true ↔
        ((leftOut prefixes).ncard : Int) ≤ spared) ↔ AsWritten prefixes) ∧
      (∀ S : Finset Int, S.card ≤ 256 →
        (∀ x, 0 ≤ x → x < 2 ^ 32 → ((∃ route ∈ prefixes, Takes route x) ↔ x ∉ S)) →
          coversDefaultRoute prefixes routesMaySpare = true) ∧
      ∀ (more : List Text) (spared : Int), (∀ route ∈ prefixes, route ∈ more) →
        coversDefaultRoute prefixes spared = true → coversDefaultRoute more spared = true := by
  refine ⟨?_, fun S hS hcomplement => ?_, fun more spared hmore h => ?_⟩
  · simp only [coversDefaultRoute_iff_unread, asWritten_iff]
    constructor
    · intro h
      have hle := (h _).mp le_rfl
      have heq := Set.eq_of_subset_of_ncard_le (unread_subset prefixes) (by omega)
        (finite_leftOut prefixes)
      exact heq.symm.subset
    · intro h spared
      rw [(unread_subset prefixes).antisymm h]
  · have hsub : unread prefixes ⊆ S := by
      intro x hx
      obtain ⟨hlo, hhi, hnone⟩ := unread_subset prefixes hx
      by_contra hout
      obtain ⟨route, hroute, htakes⟩ := (hcomplement x hlo hhi).mpr hout
      exact hnone route hroute htakes
    have hle := Set.ncard_le_ncard hsub S.finite_toSet
    rw [Set.ncard_coe_finset] at hle
    rw [coversDefaultRoute_iff_unread, routesMaySpare]
    omega
  · have hsub : unread more ⊆ unread prefixes :=
      fun x ⟨hlo, hhi, hnone⟩ => ⟨hlo, hhi, fun route hroute => hnone route (hmore route hroute)⟩
    have hfinite := (finite_leftOut prefixes).subset (unread_subset prefixes)
    have hle := Set.ncard_le_ncard hsub hfinite
    rw [coversDefaultRoute_iff_unread] at h ⊢
    omega

/-- A length with a sign is no prefix's, and is read as one. -/
theorem coversDefaultRoute_misreads :
    coversDefaultRoute [txt "0.0.0.0/+0"] routesMaySpare = true ∧
      ¬ ((leftOut [txt "0.0.0.0/+0"]).ncard : Int) ≤ routesMaySpare := by
  have hnone : ∀ x, ¬ Takes (txt "0.0.0.0/+0") x := by
    rintro x ⟨octets, bits, h, -⟩
    have hplus : '+' ∈ dotted octets bits := by
      rw [← h.written]
      decide
    have hdigits : ∀ n, '+' ∉ decimal n := fun n hc =>
      absurd (Nat.isDigit_of_mem_toDigits (by decide) (by decide) hc) (by decide)
    rcases List.mem_append.mp hplus with hplus | hplus
    · rcases mem_of_mem_intercalate hplus with hdot | ⟨part, hpart, hplus⟩
      · exact absurd hdot (by decide)
      · obtain ⟨o, -, rfl⟩ := List.mem_map.mp hpart
        exact hdigits o hplus
    · rcases List.mem_cons.mp hplus with hslash | hplus
      · exact absurd hslash (by decide)
      · exact hdigits bits hplus
  have hall : leftOut [txt "0.0.0.0/+0"] = Set.Ico (0 : Int) (2 ^ 32) := by
    ext x
    simp only [leftOut, Set.mem_ofPred_eq, List.mem_singleton, forall_eq, hnone x,
      not_false_eq_true, and_true, Set.mem_Ico]
  refine ⟨by decide, ?_⟩
  rw [hall, ← Finset.coe_Ico, Set.ncard_coe_finset, Int.card_Ico, routesMaySpare]
  decide

end WindowsTunController

end Ghostlane.Desktop
