import Ghostlane.App.RuleAddress
import Ghostlane.Lib.Inet

/-!
# Ghostlane.App.RuleSpelling

One spelling for a rule. What `parse` gives back is read as itself, two addresses are one rule when
they are one prefix, and an IPv6 prefix is in the form of RFC 5952 (`one_spelling`).

An address is looked at between reading and writing (`ReadAddress`): what stands in the text, before
its host bits are cleared.
-/

namespace Ghostlane.App.RoutingRule

open Ghostlane.Lib Ghostlane.Lib.Inet

/-! ### Between reading and writing -/

/-- An address as it is read. -/
structure ReadAddress where
  family : Family
  values : List Int
  length : Int

namespace ReadAddress

/-- How many groups a family has. -/
def count : Family → Nat
  | .inet => 4
  | .inet6 => 8

/-- How wide its groups are. -/
def width : Family → Nat
  | .inet => 8
  | .inet6 => 16

/-- The groups and the length are the family's. -/
structure Fits (a : ReadAddress) : Prop where
  count : a.values.length = count a.family
  nonneg : 0 ≤ a.length
  within : a.length ≤ (width a.family * ReadAddress.count a.family : Nat)

/-- What is kept of it. -/
def masked (a : ReadAddress) : List Nat := mask a.values a.length (width a.family)

def written (a : ReadAddress) : Text :=
  match a.family with
  | .inet => ['.'].intercalate (a.masked.map decimal) ++ '/' :: decimalInt a.length
  | .inet6 => compress a.masked ++ '/' :: decimalInt a.length

/-- The same family, length and leading bits. -/
def SamePrefix (a b : ReadAddress) : Prop :=
  a.family = b.family ∧ a.length = b.length ∧
    (bits (width a.family) a.values).take a.length.toNat =
      (bits (width b.family) b.values).take b.length.toNat

end ReadAddress

open ReadAddress

/-- What `parseCidr` reads. -/
def readAddress (raw : Text) : Option ReadAddress :=
  let (address, behind) := splitFirst '/' raw
  let length (default : Int) : Option Int :=
    match behind with
    | none => some default
    | some bits => toIntOrNull 10 bits
  match ipv4 address with
  | some octets =>
      ((length 32).filter fun l => 0 ≤ l ∧ l ≤ 32).map fun l => ⟨.inet, octets, l⟩
  | none =>
      (ipv6 address).bind fun hextets =>
        ((length 128).filter fun l => 0 ≤ l ∧ l ≤ 128).map fun l => ⟨.inet6, hextets, l⟩

theorem parseCidr_eq (raw : Text) :
    parseCidr raw = (readAddress raw).map fun a => .cidr a.written := by
  rw [parseCidr, readAddress]
  dsimp only
  have hlength : ∀ (o : Option Int) (n : Int) (f : Int → Text),
      (o.bind fun l => if 0 ≤ l ∧ l ≤ n then some (App.RoutingRule.cidr (f l)) else none) =
        (o.filter fun l => 0 ≤ l ∧ l ≤ n).map fun l => .cidr (f l) := by
    intro o n f
    cases o with
    | none => rfl
    | some l =>
        rw [Option.bind_some, Option.filter_some]
        by_cases h : 0 ≤ l ∧ l ≤ n
        · rw [if_pos h, if_pos (decide_eq_true h)]
          rfl
        · rw [if_neg h, if_neg (by rw [decide_eq_true_eq]; exact h)]
          rfl
  cases ipv4 (splitFirst '/' raw).1 with
  | some octets =>
      dsimp only
      rw [Option.bind_eq_bind, hlength, Option.map_map]
      rfl
  | none =>
      cases ipv6 (splitFirst '/' raw).1 with
      | none => rfl
      | some hextets =>
          dsimp only
          rw [Option.bind_eq_bind, hlength, Option.bind_some, Option.map_map]
          rfl

theorem fits_of_readAddress {raw : Text} {a : ReadAddress} (h : readAddress raw = some a) :
    a.Fits := by
  unfold readAddress at h
  dsimp only at h
  split at h
  · rename_i octets hipv4
    obtain ⟨l, hl, rfl⟩ := Option.map_eq_some_iff.mp h
    obtain ⟨parts, hparts, hvalues, -⟩ := ipv4_iff.mp hipv4
    have hrange := of_decide_eq_true (Option.filter_eq_some_iff.mp hl).2
    exact ⟨(length_of_mapM hvalues).trans hparts, hrange.1, hrange.2⟩
  · obtain ⟨hextets, hipv6, h⟩ := Option.bind_eq_some_iff.mp h
    obtain ⟨l, hl, rfl⟩ := Option.map_eq_some_iff.mp h
    have hrange := of_decide_eq_true (Option.filter_eq_some_iff.mp hl).2
    exact ⟨(ipv6_iff.mp hipv6).length, hrange.1, hrange.2⟩

/-! ### Reading what is written -/

theorem decimalInt_of_nonneg {n : Int} (h : 0 ≤ n) : decimalInt n = decimal n.toNat := by
  obtain ⟨m, rfl⟩ := Int.eq_ofNat_of_zero_le h
  exact if_neg (not_lt.mpr h)

theorem toIntOrNull_decimalInt {n : Int} (h : 0 ≤ n) (hle : n < 0x80000000) :
    toIntOrNull 10 (decimalInt n) = some n := by
  rw [decimalInt_of_nonneg h, decimal, toIntOrNull_toDigits (by omega), Int.toNat_of_nonneg h]

theorem ipv4_chars {t : Text} {values : List Int} (h : ipv4 t = some values) :
    ∀ c ∈ t, isDigit c = true ∨ c = '.' := by
  obtain ⟨parts, -, hvalues, rfl⟩ := ipv4_iff.mp h
  intro c hc
  rcases mem_of_mem_intercalate hc with rfl | ⟨part, hpart, hin⟩
  · exact .inr rfl
  · obtain ⟨n, -, hn⟩ := of_mapM_eq_some hvalues part hpart
    exact .inl ((octet_eq_some hn).2.2.1 c hin)

theorem ipv6_chars {t : Text} {values : List Int} (h : ipv6 t = some values) :
    ':' ∈ t ∧ '/' ∉ t := by
  constructor
  · by_contra hcolon
    rw [ipv6, if_pos (.inl hcolon)] at h
    cases h
  · have hcolons : ∀ {gs : List Text} {vs : List Int}, gs.mapM hextet = some vs →
        '/' ∉ colons gs := by
      intro gs vs hgs hmem
      rcases mem_of_mem_intercalate hmem with heq | ⟨g, hg, hin⟩
      · exact absurd heq (by decide)
      · obtain ⟨n, -, hn⟩ := of_mapM_eq_some hgs g hg
        exact (hextet_chars hn).2 hin
    cases ipv6_iff.mp h with
    | whole hgs hlength => exact hcolons hgs
    | gap hhs hts hlength =>
        rw [List.mem_append, List.mem_append]
        rintro ((hmem | hmem) | hmem)
        · exact hcolons hhs hmem
        · exact absurd hmem (by decide)
        · exact hcolons hts hmem

namespace ReadAddress

variable {a : ReadAddress}

theorem width_le (f : Family) : width f ≤ 16 := by
  cases f <;> decide

theorem length_masked (h : a.Fits) : a.masked.length = ReadAddress.count a.family := by
  rw [masked, length_mask, h.count]

theorem masked_lt (a : ReadAddress) : ∀ n ∈ a.masked, n < 2 ^ width a.family :=
  mask_lt (width_le a.family) a.values a.length

/-- The address with its host bits cleared. -/
def cleared (a : ReadAddress) : ReadAddress := { a with values := a.masked.map Int.ofNat }

theorem masked_cleared (h : a.Fits) : a.cleared.masked = a.masked := by
  refine mask_mask (width_le a.family) a.values ?_
  have hwithin := h.within
  rw [h.count]
  omega

theorem written_cleared (h : a.Fits) : a.cleared.written = a.written := by
  unfold written
  rw [masked_cleared h]
  rfl

/-- **What is written is read back,** with the host bits cleared. -/
theorem readAddress_written (h : a.Fits) : readAddress a.written = some a.cleared := by
  obtain ⟨family, values, length⟩ := a
  have hlength := length_masked h
  have hsmall := masked_lt ⟨family, values, length⟩
  have hnonneg : 0 ≤ length := h.nonneg
  have hwithin := h.within
  cases family with
  | inet =>
      have hle : length ≤ 32 := hwithin
      have hdigits := toIntOrNull_decimalInt hnonneg (lt_of_le_of_lt hle (by decide))
      have hfilter : (some length).filter (fun l => decide (0 ≤ l ∧ l ≤ 32)) = some length :=
        Option.filter_some_pos (decide_eq_true ⟨hnonneg, hle⟩)
      have hread := ipv4_written hlength hsmall
      have hslash : '/' ∉ ['.'].intercalate ((masked ⟨.inet, values, length⟩).map decimal) := by
        intro hmem
        exact absurd (ipv4_chars hread '/' hmem) (by decide)
      rw [readAddress, written]
      dsimp only
      rw [splitFirst_append hslash]
      dsimp only
      rw [hread, hdigits]
      dsimp only
      rw [hfilter]
      rfl
  | inet6 =>
      have hle : length ≤ 128 := hwithin
      have hdigits := toIntOrNull_decimalInt hnonneg (lt_of_le_of_lt hle (by decide))
      have hfilter : (some length).filter (fun l => decide (0 ≤ l ∧ l ≤ 128)) = some length :=
        Option.filter_some_pos (decide_eq_true ⟨hnonneg, hle⟩)
      have hread := (compress_canonical (masked ⟨.inet6, values, length⟩)).ipv6 hlength hsmall
      have hnot : ipv4 (compress (masked ⟨.inet6, values, length⟩)) = none := by
        cases hipv4 : ipv4 (compress (masked ⟨.inet6, values, length⟩)) with
        | none => rfl
        | some octets => exact absurd (ipv4_chars hipv4 ':' (ipv6_chars hread).1) (by decide)
      rw [readAddress, written]
      dsimp only
      rw [splitFirst_append (ipv6_chars hread).2]
      dsimp only
      rw [hnot, hread, hdigits]
      dsimp only
      rw [Option.bind_some, hfilter]
      rfl

theorem parseCidr_written (h : a.Fits) : parseCidr a.written = some (.cidr a.written) := by
  rw [parseCidr_eq, readAddress_written h, Option.map_some, written_cleared h]

/-- **One prefix, one spelling.** -/
theorem written_eq_iff {b : ReadAddress} (ha : a.Fits) (hb : b.Fits) :
    a.written = b.written ↔ a.SamePrefix b := by
  constructor
  · intro h
    have hread := readAddress_written ha
    rw [h, readAddress_written hb, Option.some.injEq] at hread
    obtain ⟨family, values, length⟩ := a
    obtain ⟨family', values', length'⟩ := b
    simp only [cleared, ReadAddress.mk.injEq] at hread
    obtain ⟨rfl, hvalues, rfl⟩ := hread
    refine ⟨rfl, rfl, ?_⟩
    have hmasks := List.map_injective_iff.mpr (fun _ _ => Int.ofNat.inj) hvalues
    exact ((mask_eq_iff (width_le _) (ha.count.trans hb.count.symm) _).mp hmasks.symm)
  · rintro ⟨hfamily, hlength, hbits⟩
    obtain ⟨family, values, length⟩ := a
    obtain ⟨family', values', length'⟩ := b
    dsimp only at hfamily hlength hbits
    subst hfamily hlength
    have hmasks := (mask_eq_iff (width_le family) (ha.count.trans hb.count.symm) length).mpr hbits
    unfold written masked
    dsimp only
    rw [hmasks]

end ReadAddress

/-! ### Plain texts -/

/-- What `parse` does not touch before it reads. -/
structure Plain (c : Char) : Prop where
  ascii : c.toNat < 0x80
  lower : c.toLower = c
  shown : isWhitespace c = false

theorem plain_digitChar {d : Nat} (h : d < 16) : Plain d.digitChar :=
  have hspec := digitChar_spec h
  ⟨hspec.2.1, hspec.2.2.2.1, hspec.2.2.2.2⟩

theorem plain_decimal (n : Nat) : ∀ c ∈ decimal n, Plain c :=
  forall_mem_toDigits (by decide) (fun _ hd => plain_digitChar (lt_trans hd (by decide))) n

theorem plain_hex (n : Nat) : ∀ c ∈ Nat.toDigits 16 n, Plain c :=
  forall_mem_toDigits (by decide) (fun _ => plain_digitChar) n

theorem plain_intercalate {s : Char} (hs : Plain s) {parts : List Text}
    (h : ∀ part ∈ parts, ∀ c ∈ part, Plain c) : ∀ c ∈ [s].intercalate parts, Plain c := by
  intro c hc
  rcases mem_of_mem_intercalate hc with rfl | ⟨part, hpart, hin⟩
  · exact hs
  · exact h part hpart c hin

theorem plain_colons (values : List Nat) :
    ∀ c ∈ colons (values.map (Nat.toDigits 16)), Plain c := by
  refine plain_intercalate ⟨by decide, by decide, by decide⟩ fun part hpart => ?_
  obtain ⟨n, -, rfl⟩ := List.mem_map.mp hpart
  exact plain_hex n

theorem Canonical.plain {values : List Nat} {t : Text} (h : Canonical values t) :
    ∀ c ∈ t, Plain c := by
  cases h with
  | whole hshort => exact plain_colons values
  | gap hbest htwo =>
      rw [List.forall_mem_append, List.forall_mem_append]
      refine ⟨⟨plain_colons _, fun c hc => ?_⟩, plain_colons _⟩
      have hcolon : c = ':' := by
        change c ∈ [':', ':'] at hc
        simpa using hc
      rw [hcolon]
      exact ⟨by decide, by decide, by decide⟩

theorem ReadAddress.plain_written {a : ReadAddress} (h : a.Fits) : ∀ c ∈ a.written, Plain c := by
  have hlength : ∀ c ∈ '/' :: decimalInt a.length, Plain c := by
    rw [decimalInt_of_nonneg h.nonneg]
    exact List.forall_mem_cons.mpr ⟨⟨by decide, by decide, by decide⟩, plain_decimal _⟩
  rw [ReadAddress.written]
  cases a.family with
  | inet =>
      refine List.forall_mem_append.mpr ⟨?_, hlength⟩
      refine plain_intercalate ⟨by decide, by decide, by decide⟩ fun part hpart => ?_
      obtain ⟨n, -, rfl⟩ := List.mem_map.mp hpart
      exact plain_decimal n
  | inet6 => exact List.forall_mem_append.mpr ⟨(compress_canonical _).plain, hlength⟩

/-! ### Domains -/

/-- What `parseDomain` takes for the host. -/
def hostOf (raw : Text) : Text :=
  let host := substringAfter (txt "://") raw
  let host := substringBefore '#' (substringBefore '?' (substringBefore '/' host))
  let host := substringAfterLast '@' host
  let host := if host.count ':' = 1 then substringBefore ':' host else host
  removeSuffix (removePrefix (removePrefix host (txt "*.")) (txt ".")) '.'

/-- What it makes of one. -/
def nameOf (host : Text) : Option RoutingRule := do
  if host = [] ∨ 253 < utf16Length host then none
  let labels := host.splitOn '.'
  if labels.length < 2 then none
  let ascii ← labels.mapM fun label => (Punycode.toAscii (Punycode.utf16 label)).toOption
  if !ascii.all isLabel then none
  if (ascii.getLastD []).all isDigit then none
  let name := ['.'].intercalate ascii
  if name.length ≤ 253 then some (.domain name) else none

theorem parseDomain_eq (raw : Text) : parseDomain raw = nameOf (hostOf raw) := rfl

/-- A domain as it is stored. -/
structure Named (name : Text) (labels : List Text) : Prop where
  joined : name = ['.'].intercalate labels
  several : 2 ≤ labels.length
  last : (labels.getLastD []).all isDigit = false
  short : name.length ≤ 253
  labelled : ∀ label ∈ labels, isLabel label = true

theorem nameOf_eq_some {host : Text} {r : RoutingRule} : nameOf host = some r ↔
    host ≠ [] ∧ utf16Length host ≤ 253 ∧ ∃ name labels, r = .domain name ∧ Named name labels ∧
      (host.splitOn '.').mapM (fun label =>
        (Punycode.toAscii (Punycode.utf16 label)).toOption) = some labels := by
  unfold nameOf
  dsimp only
  constructor
  · intro h
    split at h
    · cases h
    · rename_i hlength
      rw [not_or, not_lt] at hlength
      split at h
      · cases h
      · rename_i hseveral
        obtain ⟨ascii, hascii, h⟩ := Option.bind_eq_some_iff.mp h
        split at h
        · cases h
        · rename_i hlabels
          split at h
          · cases h
          · rename_i hlast
            split at h
            · rename_i hshort
              rw [Bool.not_eq_true', Bool.not_eq_false, List.all_eq_true] at hlabels
              refine ⟨hlength.1, hlength.2, _, ascii, (Option.some.inj h).symm, ⟨rfl, ?_,
                Bool.not_eq_true _ ▸ hlast, hshort, hlabels⟩, hascii⟩
              rw [length_of_mapM hascii]
              exact not_lt.mp hseveral
            · cases h
  · rintro ⟨hne, hlength, name, labels, rfl, ⟨rfl, hseveral, hlast, hshort, hlabels⟩, hascii⟩
    rw [length_of_mapM hascii] at hseveral
    rw [if_neg (by rw [not_or, not_lt]; exact ⟨hne, hlength⟩), if_neg (not_lt.mpr hseveral), hascii]
    change (if (!labels.all isLabel) = true then _ else _) = _
    rw [List.all_eq_true.mpr hlabels, if_neg (by decide), if_neg (by rw [hlast]; decide)]
    exact if_pos hshort

/-! ### A domain is read as itself -/

theorem substringBefore_of_notMem {c : Char} {t : Text} (h : c ∉ t) : substringBefore c t = t := by
  rw [substringBefore, List.takeWhile_eq_self_iff]
  intro d hd
  rw [bne_iff_ne]
  exact ne_of_mem_of_not_mem hd h

theorem substringAfter_of_notMem {c : Char} {needle t : Text} (hc : c ∈ needle) (h : c ∉ t) :
    substringAfter needle t = t := by
  have hgo : substringAfter.go needle t = none := by
    induction t with
    | nil => rfl
    | cons d t ih =>
        rw [substringAfter.go, startsWith_of_notMem hc h, if_neg Bool.false_ne_true]
        exact ih fun hmem => h (List.mem_cons_of_mem d hmem)
  rw [substringAfter, hgo]
  rfl

/-- A label in ASCII is left as it is. -/
theorem toAscii_ascii {label : Text} (h : ∀ c ∈ label, c.toNat < 0x80) :
    Punycode.toAscii (Punycode.utf16 label) = .ok label := by
  have hunits : Punycode.utf16 label = label.map Char.toNat := by
    induction label with
    | nil => rfl
    | cons c t ih =>
        obtain ⟨hc, ht⟩ := List.forall_mem_cons.mp h
        rw [Punycode.utf16, List.flatMap_cons, if_pos (show c.toNat < 0x10000 by omega),
          List.map_cons]
        exact congrArg (c.toNat :: ·) (ih ht)
  have hall : (label.map Char.toNat).all (· < Punycode.initialN) = true := by
    rw [List.all_eq_true]
    intro n hn
    obtain ⟨c, hc, rfl⟩ := List.mem_map.mp hn
    exact decide_eq_true (h c hc)
  have hback : (label.map Char.toNat).map Char.ofNat = label := by
    rw [List.map_map, (Function.LeftInverse.comp_eq_id Char.ofNat_toNat), List.map_id]
  rw [Punycode.toAscii, hunits, hall, if_pos rfl, hback]

/-- What a label is made of. -/
structure LabelChar (c : Char) : Prop where
  plain : Plain c
  no_mark : c ∉ ['.', '/', '?', '#', '@', ':', '*']

theorem labelChar_of_isLabel {label : Text} (h : isLabel label = true) :
    label ≠ [] ∧ ∀ c ∈ label, LabelChar c := by
  simp only [isLabel, Bool.and_eq_true, decide_eq_true_eq, List.all_eq_true] at h
  obtain ⟨⟨⟨⟨hlong, -⟩, hchars⟩, -⟩, -⟩ := h
  refine ⟨List.ne_nil_of_length_pos hlong, fun c hc => ?_⟩
  have hkind := hchars c hc
  have hascii : c.toNat < 0x80 := by
    simp only [Bool.or_eq_true, Bool.and_eq_true, decide_eq_true_eq, beq_iff_eq] at hkind
    rcases hkind with (⟨-, hz⟩ | ⟨-, h9⟩) | rfl
    · exact lt_of_le_of_lt hz (by decide)
    · exact lt_of_le_of_lt h9 (by decide)
    · decide
  have hspec : c.toLower = c ∧ isWhitespace c = false ∧
      c ∉ ['.', '/', '?', '#', '@', ':', '*'] := by
    refine forall_ascii (p := fun c =>
      (('a' ≤ c && c ≤ 'z') || ('0' ≤ c && c ≤ '9') || c == '-') = true →
        c.toLower = c ∧ isWhitespace c = false ∧ c ∉ ['.', '/', '?', '#', '@', ':', '*']) ?_
      hascii hkind
    decide +kernel
  exact ⟨⟨hascii, hspec.1, hspec.2.1⟩, hspec.2.2⟩

namespace Named

variable {name : Text} {labels : List Text}

theorem chars (h : Named name labels) : ∀ c ∈ name, c = '.' ∨ LabelChar c := by
  rw [h.joined]
  intro c hc
  refine (mem_of_mem_intercalate hc).imp_right ?_
  rintro ⟨label, hlabel, hin⟩
  exact (labelChar_of_isLabel (h.labelled label hlabel)).2 c hin

theorem plain (h : Named name labels) : ∀ c ∈ name, Plain c := by
  intro c hc
  rcases h.chars c hc with rfl | hlabel
  · exact ⟨by decide, by decide, by decide⟩
  · exact hlabel.plain

theorem not_mem (h : Named name labels) {c : Char} (hc : c ∈ ['/', '?', '#', '@', ':', '*']) :
    c ∉ name := by
  intro hmem
  rcases h.chars c hmem with rfl | hlabel
  · exact absurd hc (by decide)
  · exact hlabel.no_mark (List.mem_cons_of_mem '.' hc)

theorem ne_nil (h : Named name labels) : labels ≠ [] := by
  rintro rfl
  exact absurd h.several (by decide)

theorem splitOn (h : Named name labels) : name.splitOn '.' = labels := by
  rw [h.joined]
  refine List.splitOn_intercalate '.' (fun label hlabel hdot => ?_) h.ne_nil
  exact ((labelChar_of_isLabel (h.labelled label hlabel)).2 '.' hdot).no_mark List.mem_cons_self

/-- It begins and ends in a label. -/
theorem ends (h : Named name labels) : name ≠ [] ∧ name.head? ≠ some '.' ∧
    name.getLast? ≠ some '.' := by
  have hempty : [] ∉ name.splitOn '.' := by
    rw [h.splitOn]
    exact fun hmem => (labelChar_of_isLabel (h.labelled [] hmem)).1 rfl
  refine ⟨?_, ?_, ?_⟩
  · rintro rfl
    exact hempty List.mem_cons_self
  · intro hhead
    obtain ⟨t, rfl⟩ := List.head?_eq_some_iff.mp hhead
    rw [List.splitOn, List.splitOnP_cons_eq_if_modifyHead, if_pos (beq_self_eq_true '.')] at hempty
    exact hempty List.mem_cons_self
  · intro hlast
    obtain ⟨t, rfl⟩ := List.getLast?_eq_some_iff.mp hlast
    rw [List.splitOn, List.splitOnP_append_cons t [] rfl] at hempty
    exact hempty (List.mem_append_right _ List.mem_cons_self)

theorem hostOf_eq (h : Named name labels) : hostOf name = name := by
  obtain ⟨-, hhead, hlast⟩ := h.ends
  have hcolon : ':' ∉ name := h.not_mem (by decide)
  have hcount : name.count ':' ≠ 1 := by
    rw [List.count_eq_zero.mpr hcolon]
    exact Nat.zero_ne_one
  have hstar : removePrefix name (txt "*.") = name := by
    rw [removePrefix, startsWith_of_notMem (c := '*') (by decide) (h.not_mem (by decide))]
    rfl
  have hdot : removePrefix name (txt ".") = name := by
    rw [removePrefix]
    refine if_neg fun hstart => hhead ?_
    obtain ⟨t, rfl⟩ := List.isPrefixOf_iff_prefix.mp hstart
    rfl
  rw [hostOf, substringAfter_of_notMem (c := ':') (by decide) hcolon,
    substringBefore_of_notMem (h.not_mem (by decide) : '/' ∉ name),
    substringBefore_of_notMem (h.not_mem (by decide) : '?' ∉ name),
    substringBefore_of_notMem (h.not_mem (by decide) : '#' ∉ name), substringAfterLast,
    cutLast_of_notMem (h.not_mem (by decide) : '@' ∉ name), Option.map_none, Option.getD_none,
    if_neg hcount, hstar, hdot, removeSuffix, if_neg hlast]

theorem parseDomain (h : Named name labels) : parseDomain name = some (.domain name) := by
  have hascii : ∀ c ∈ name, c.toNat < 0x80 := fun c hc => (h.plain c hc).ascii
  rw [parseDomain_eq, h.hostOf_eq, nameOf_eq_some]
  refine ⟨h.ends.1, ?_, name, labels, rfl, h, ?_⟩
  · rw [utf16Length_ascii hascii]
    exact h.short
  · rw [h.splitOn, mapM_eq_some_iff, List.forall₂_same]
    intro label hlabel
    rw [toAscii_ascii fun c hc =>
      ((labelChar_of_isLabel (h.labelled label hlabel)).2 c hc).plain.ascii]
    rfl

/-- A domain is no address: its last label is no number. -/
theorem parseCidr (h : Named name labels) : parseCidr name = none := by
  have hipv4 : ipv4 name = none := by
    cases hread : ipv4 name with
    | none => rfl
    | some octets =>
        obtain ⟨parts, hparts, hoctets, hjoined⟩ := ipv4_iff.mp hread
        have hdigits : ∀ part ∈ parts, ∀ c ∈ part, isDigit c = true := by
          intro part hpart
          obtain ⟨n, -, hn⟩ := of_mapM_eq_some hoctets part hpart
          exact (octet_eq_some hn).2.2.1
        have hsplit : parts = labels := by
          rw [← h.splitOn, hjoined, List.splitOn_intercalate '.']
          · intro part hpart hdot
            exact absurd (hdigits part hpart '.' hdot) (by decide)
          · rintro rfl
            cases hparts
        have hlast : labels.getLastD [] ∈ parts := by
          rw [hsplit, List.getLastD_eq_getLast?, List.getLast?_eq_some_getLast h.ne_nil]
          exact List.getLast_mem h.ne_nil
        have hnot := h.last
        rw [List.all_eq_true.mpr (hdigits _ hlast)] at hnot
        cases hnot
  have hipv6 : ipv6 name = none := if_pos (.inl (h.not_mem (by decide)))
  rw [parseCidr_eq, readAddress, splitFirst_of_notMem (h.not_mem (by decide))]
  dsimp only
  rw [hipv4, hipv6]
  rfl

end Named

section Rules

variable [Casing]

theorem lowerFrom_plain {t : Text} (h : ∀ c ∈ t, Plain c) (before : Text) :
    lowerFrom before t = t := by
  induction t generalizing before with
  | nil => rfl
  | cons c t ih =>
      obtain ⟨hc, ht⟩ := List.forall_mem_cons.mp h
      rw [lowerFrom, ih ht, lowerOf, if_pos hc.ascii, hc.lower]
      rfl

/-- A plain text is read as it stands. -/
theorem parse_plain {t : Text} (h : ∀ c ∈ t, Plain c) (hne : t ≠ []) :
    parse t = (parseCidr t).or (parseDomain t) := by
  have htrim : trim t = t := trimBy_of_forall fun c hc => (h c hc).shown
  rw [parse, htrim, lowerCase, lowerFrom_plain h]
  exact if_neg hne

/-! ### One spelling -/

theorem parse_eq_some {input : Text} {r : RoutingRule} (h : parse input = some r) :
    (∃ a, readAddress (lowerCase (trim input)) = some a ∧ r = .cidr a.written) ∨
      ∃ name labels, r = .domain name ∧ Named name labels := by
  unfold parse at h
  dsimp only at h
  split at h
  · cases h
  · rcases Option.or_eq_some_iff.mp h with hcidr | ⟨-, hdomain⟩
    · rw [parseCidr_eq] at hcidr
      obtain ⟨a, ha, hr⟩ := Option.map_eq_some_iff.mp hcidr
      exact .inl ⟨a, ha, hr.symm⟩
    · rw [parseDomain_eq, nameOf_eq_some] at hdomain
      obtain ⟨-, -, name, labels, hr, hnamed, -⟩ := hdomain
      exact .inr ⟨name, labels, hr, hnamed⟩

/-- A rule is read as itself. -/
theorem parse_text {input : Text} {r : RoutingRule} (h : parse input = some r) :
    parse r.text = some r := by
  rcases parse_eq_some h with ⟨a, ha, rfl⟩ | ⟨name, labels, rfl, hnamed⟩
  · have hfits := fits_of_readAddress ha
    have hcidr := parseCidr_written hfits
    have hne : a.written ≠ [] := by
      unfold ReadAddress.written
      cases a.family <;> simp
    change parse a.written = _
    rw [parse_plain (plain_written hfits) hne, hcidr]
    rfl
  · change parse name = _
    rw [parse_plain hnamed.plain hnamed.ends.1, hnamed.parseCidr, hnamed.parseDomain]
    rfl

/-- **One spelling for a rule.** What `parse` gives is read as itself, two address rules are the
same exactly when their addresses are one prefix, and an IPv6 one is the short form of the groups
that begin with its leading bits and end in zeros. -/
theorem one_spelling :
    (∀ input r, parse input = some r → parse r.text = some r) ∧
      (∀ input input' range range', parse input = some (.cidr range) →
        parse input' = some (.cidr range') →
        ∃ a a', readAddress (lowerCase (trim input)) = some a ∧
          readAddress (lowerCase (trim input')) = some a' ∧
            (RoutingRule.cidr range = .cidr range' ↔ a.SamePrefix a')) ∧
      ∀ input range, parse input = some (.cidr range) →
        ∃ a, readAddress (lowerCase (trim input)) = some a ∧ (a.family = .inet6 →
          ∃ groups short, groups.length = 8 ∧ (∀ group ∈ groups, group < 2 ^ 16) ∧
            bits 16 (groups.map Int.ofNat) = (bits 16 a.values).take a.length.toNat ++
              List.replicate (128 - a.length.toNat) false ∧
            Canonical groups short ∧ range = short ++ '/' :: decimal a.length.toNat) := by
  have haddress : ∀ {input range}, parse input = some (.cidr range) →
      ∃ a, readAddress (lowerCase (trim input)) = some a ∧ range = a.written := by
    intro input range h
    rcases parse_eq_some h with ⟨a, ha, hr⟩ | ⟨name, labels, hr, -⟩
    · exact ⟨a, ha, RoutingRule.cidr.inj hr⟩
    · cases hr
  refine ⟨fun input r => parse_text, fun input input' range range' h h' => ?_,
    fun input range h => ?_⟩
  · obtain ⟨a, ha, rfl⟩ := haddress h
    obtain ⟨a', ha', rfl⟩ := haddress h'
    refine ⟨a, a', ha, ha', ?_⟩
    rw [RoutingRule.cidr.injEq]
    exact written_eq_iff (fits_of_readAddress ha) (fits_of_readAddress ha')
  · obtain ⟨a, ha, rfl⟩ := haddress h
    refine ⟨a, ha, fun hfamily => ⟨a.masked, compress a.masked, ?_, ?_, ?_, ?_, ?_⟩⟩
    · rw [length_masked (fits_of_readAddress ha), hfamily]
      rfl
    · have hlt := masked_lt a
      rw [hfamily] at hlt
      exact hlt
    · have hcount := (fits_of_readAddress ha).count
      have hbits := bits_mask (le_refl 16) a.values a.length
      rw [hcount, hfamily] at hbits
      rw [ReadAddress.masked, hfamily]
      exact hbits
    · exact compress_canonical a.masked
    · rw [ReadAddress.written, hfamily, decimalInt_of_nonneg (fits_of_readAddress ha).nonneg]

end Rules

section

/-- Capitals only in ASCII. -/
local instance uncased : Casing where
  other _ c _ := if 0x80 ≤ c.toNat ∧ digitOf 16 c = none then [c] else [replacement]
  other_ne_nil _ _ _ := by split <;> exact List.cons_ne_nil _ _
  other_foreign _ _ _ := by
    split
    · rename_i hforeign
      exact List.forall_mem_singleton.mpr hforeign
    · exact List.forall_mem_singleton.mpr ⟨by decide, by decide⟩

theorem one_spelling_documentation :
    parse (txt "2001:db8::/32") = some (.cidr (txt "2001:db8::/32")) ∧
      ∃ a a', readAddress (lowerCase (trim (txt " 2001:DB8:1::/32"))) = some a ∧
        readAddress (lowerCase (trim (txt "203.0.113.7"))) = some a' ∧
          (RoutingRule.cidr (txt "2001:db8::/32") = .cidr (txt "203.0.113.7/32") ↔
            a.SamePrefix a') := by
  have h : parse (txt " 2001:DB8:1::/32") = some (.cidr (txt "2001:db8::/32")) := by decide +kernel
  have h' : parse (txt "203.0.113.7") = some (.cidr (txt "203.0.113.7/32")) := by decide
  exact ⟨one_spelling.1 _ _ h, one_spelling.2.1 _ _ _ _ h h'⟩

end

end Ghostlane.App.RoutingRule
