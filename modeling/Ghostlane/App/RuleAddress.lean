import Ghostlane.App.RoutingRule
import Ghostlane.Lib.Outcomes

/-!
# Ghostlane.App.RuleAddress

Addresses of routing rules, read and written. What `ipv4` and `ipv6` take is said once
(`ipv4_iff`, `ipv6_iff`): groups joined by dots, or by colons with one gap at most. What `mask`,
`decimal` and `compress` write is read back from there.
-/

namespace Ghostlane.App.RoutingRule

open Ghostlane.Lib

/-! ### Numbers of either base -/

theorem toDigits_step {b n : Nat} (hb : 1 < b) (hn : b ≤ n) :
    Nat.toDigits b n = Nat.toDigits b (n / b) ++ [(n % b).digitChar] := by
  have hmod := Nat.mod_lt n (Nat.lt_trans Nat.zero_lt_one hb)
  have happend := Nat.toDigits_append_toDigits hb (Nat.div_pos hn (Nat.lt_trans Nat.zero_lt_one hb))
    hmod
  rw [Nat.div_add_mod, Nat.toDigits_of_lt_base hmod] at happend
  exact happend.symm

/-- A digit is a digit of ASCII. -/
theorem digitChar_spec {d : Nat} (h : d < 16) : digitOf 16 d.digitChar = some d ∧
    d.digitChar.toNat < 0x80 ∧ d.digitChar ∉ ['-', '+', ':', '/', '.'] ∧
    d.digitChar.toLower = d.digitChar ∧ isWhitespace d.digitChar = false := by
  have hall : ∀ e ∈ List.range 16, digitOf 16 e.digitChar = some e ∧
      e.digitChar.toNat < 0x80 ∧ e.digitChar ∉ ['-', '+', ':', '/', '.'] ∧
      e.digitChar.toLower = e.digitChar ∧ isWhitespace e.digitChar = false := by decide
  exact hall d (List.mem_range.mpr h)

/-- Each character of a number is a digit of its base. -/
theorem forall_mem_toDigits {p : Char → Prop} {b : Nat} (hb : 1 < b)
    (hp : ∀ d < b, p d.digitChar) (n : Nat) : ∀ c ∈ Nat.toDigits b n, p c := by
  induction n using Nat.strong_induction_on with
  | _ n ih =>
      by_cases hn : n < b
      · rw [Nat.toDigits_of_lt_base hn]
        exact List.forall_mem_singleton.mpr (hp n hn)
      · rw [toDigits_step hb (not_lt.mp hn)]
        refine List.forall_mem_append.mpr ⟨ih _ (Nat.div_lt_self (by omega) hb), ?_⟩
        exact List.forall_mem_singleton.mpr (hp _ (Nat.mod_lt n (by omega)))

/-- How long a number is. -/
theorem length_toDigits_le {b n : Nat} (hb : 1 < b) (k : Nat) (h : n < b ^ (k + 1)) :
    (Nat.toDigits b n).length ≤ k + 1 := by
  induction k generalizing n with
  | zero =>
      rw [Nat.zero_add, pow_one] at h
      rw [Nat.toDigits_of_lt_base h]
      exact le_rfl
  | succ k ih =>
      by_cases hn : n < b
      · rw [Nat.toDigits_of_lt_base hn]
        exact Nat.le_add_left 1 _
      · rw [toDigits_step hb (not_lt.mp hn), List.length_append, List.length_singleton]
        refine Nat.succ_le_succ (ih ?_)
        rw [Nat.div_lt_iff_lt_mul (by omega)]
        rwa [pow_succ] at h

/-- The digits of base sixteen are read as their number. -/
theorem digitsValue_hex (n : Nat) : digitsValue 16 (Nat.toDigits 16 n) = some n := by
  rw [digitsValue, if_neg Nat.toDigits_ne_nil]
  induction n using Nat.strong_induction_on with
  | _ n ih =>
      by_cases hn : n < 16
      · rw [Nat.toDigits_of_lt_base hn, List.foldlM_cons, (digitChar_spec hn).1]
        simp
      · rw [toDigits_step (by decide) (not_lt.mp hn), List.foldlM_append,
          ih _ (Nat.div_lt_self (by omega) (by decide))]
        simp only [Option.bind_eq_bind, Option.bind_some, List.foldlM_cons, List.foldlM_nil,
          (digitChar_spec (Nat.mod_lt n (by decide))).1, Option.map_some, Option.pure_def]
        rw [Nat.mul_comm, Nat.div_add_mod]

theorem utf16Length_ascii {t : Text} (h : ∀ c ∈ t, c.toNat < 0x80) : utf16Length t = t.length := by
  induction t with
  | nil => rfl
  | cons c t ih =>
      obtain ⟨hc, ht⟩ := List.forall_mem_cons.mp h
      have hone : units c = 1 := if_pos (by omega)
      rw [utf16Length, List.map_cons, List.sum_cons, hone, List.length_cons, Nat.add_comm]
      exact congrArg (· + 1) (ih ht)

/-! ### IPv4 -/

theorem octet_eq_some {part : Text} {n : Int} (h : octet part = some n) :
    part ≠ [] ∧ utf16Length part ≤ 3 ∧ (∀ c ∈ part, isDigit c = true) ∧
      toIntOrNull 10 part = some n ∧ 0 ≤ n ∧ n ≤ 255 := by
  unfold octet at h
  split at h
  · cases h
  · rename_i hshape
    rw [not_or, not_or, not_lt, Bool.not_eq_true', Bool.not_eq_false, List.all_eq_true] at hshape
    obtain ⟨hread, hrange⟩ := Option.filter_eq_some_iff.mp h
    exact ⟨hshape.1, hshape.2.1, hshape.2.2, hread, of_decide_eq_true hrange⟩

/-- Four groups, joined by dots. -/
theorem ipv4_iff {t : Text} {values : List Int} : ipv4 t = some values ↔
    ∃ parts : List Text, parts.length = 4 ∧ parts.mapM octet = some values ∧
      t = ['.'].intercalate parts := by
  unfold ipv4
  dsimp only
  constructor
  · intro h
    split at h
    · cases h
    · rename_i hlength
      exact ⟨t.splitOn '.', not_not.mp hlength, h, (List.intercalate_splitOn '.').symm⟩
  · rintro ⟨parts, hlength, hvalues, rfl⟩
    have hfree : ∀ part ∈ parts, '.' ∉ part := by
      intro part hpart hdot
      obtain ⟨n, -, hn⟩ := of_mapM_eq_some hvalues part hpart
      exact absurd ((octet_eq_some hn).2.2.1 '.' hdot) (by decide)
    have hne : parts ≠ [] := by
      rintro rfl
      cases hlength
    rw [List.splitOn_intercalate '.' hfree hne, if_neg (not_not.mpr hlength)]
    exact hvalues

/-! ### IPv6 -/

theorem hextet_eq_some {group : Text} {n : Int} (h : hextet group = some n) :
    group ≠ [] ∧ utf16Length group ≤ 4 ∧ toIntOrNull 16 group = some n := by
  unfold hextet at h
  split at h
  · cases h
  · rename_i hshape
    rw [not_or, not_lt] at hshape
    exact ⟨hshape.1, hshape.2, h⟩

/-- A group holds no separator. -/
theorem hextet_chars {group : Text} {n : Int} (h : hextet group = some n) :
    ':' ∉ group ∧ '/' ∉ group := by
  have hchars := toIntOrNull_chars (hextet_eq_some h).2.2
  constructor
  · intro hc
    exact absurd (hchars ':' hc) (by decide)
  · intro hc
    exact absurd (hchars '/' hc) (by decide)

theorem colons_cons_cons (g g' : Text) (gs : List Text) :
    colons (g :: g' :: gs) = g ++ ':' :: colons (g' :: gs) := by
  rw [colons, List.intercalate_cons_cons, List.append_assoc]
  rfl

theorem colons_ne_nil {gs : List Text} (hne : gs ≠ []) (h : ∀ g ∈ gs, g ≠ []) : colons gs ≠ [] := by
  cases gs with
  | nil => exact absurd rfl hne
  | cons g gs =>
      cases gs with
      | nil =>
          rw [colons, List.intercalate_singleton]
          exact h g (List.mem_singleton_self g)
      | cons g' gs =>
          rw [colons_cons_cons]
          exact List.append_ne_nil_of_right_ne_nil g (List.cons_ne_nil _ _)

/-- Groups joined by colons, or none. -/
theorem groups_iff {part : Text} {values : List Int} : groups part = some values ↔
    ∃ gs : List Text, gs.mapM hextet = some values ∧ part = colons gs := by
  unfold groups
  constructor
  · intro h
    split at h
    · rename_i hnil
      cases h
      exact ⟨[], rfl, hnil⟩
    · exact ⟨part.splitOn ':', h, (List.intercalate_splitOn ':').symm⟩
  · rintro ⟨gs, hvalues, rfl⟩
    by_cases hnil : gs = []
    · subst hnil
      cases hvalues
      rfl
    · have hgroup : ∀ g ∈ gs, g ≠ [] ∧ ':' ∉ g := by
        intro g hg
        obtain ⟨n, -, hn⟩ := of_mapM_eq_some hvalues g hg
        exact ⟨(hextet_eq_some hn).1, (hextet_chars hn).1⟩
      rw [if_neg (colons_ne_nil hnil fun g hg => (hgroup g hg).1), colons,
        List.splitOn_intercalate ':' (fun g hg => (hgroup g hg).2) hnil]
      exact hvalues

/-! ### The gap -/

theorem halves_ne_nil (t : Text) : halves t ≠ [] := by
  fun_induction halves t with
  | case1 t ih => exact List.cons_ne_nil _ _
  | case2 c t hpair ih => exact fun h => ih (List.modifyHead_eq_nil_iff.mp h)
  | case3 => exact List.cons_ne_nil _ _

theorem halves_pair (t : Text) : halves (':' :: ':' :: t) = [] :: halves t := by
  rw [halves]

theorem halves_cons {c : Char} {t : Text} (h : c = ':' → t.head? ≠ some ':') :
    halves (c :: t) = (halves t).modifyHead (c :: ·) := by
  rw [halves]
  rintro t' rfl rfl
  exact h rfl rfl

/-- What is cut at the gaps is put together again. -/
theorem intercalate_halves (t : Text) : (txt "::").intercalate (halves t) = t := by
  fun_induction halves t with
  | case1 t ih =>
      cases hhalves : halves t with
      | nil => exact absurd hhalves (halves_ne_nil t)
      | cons h hs =>
          rw [hhalves] at ih
          rw [List.intercalate_cons_cons, ih]
          rfl
  | case2 c t hpair ih =>
      cases hhalves : halves t with
      | nil => exact absurd hhalves (halves_ne_nil t)
      | cons h hs =>
          rw [hhalves] at ih
          rw [List.modifyHead_cons]
          cases hs with
          | nil =>
              rw [List.intercalate_singleton] at ih ⊢
              rw [ih]
          | cons h' hs =>
              rw [List.intercalate_cons_cons] at ih ⊢
              rw [List.cons_append, List.cons_append, ih]
  | case3 => rfl

theorem halves_append {g : Text} (hg : ':' ∉ g) (t : Text) :
    halves (g ++ t) = (halves t).modifyHead (g ++ ·) := by
  induction g with
  | nil =>
      rw [List.nil_append]
      cases hhalves : halves t with
      | nil => rfl
      | cons h hs => rfl
  | cons c g ih =>
      rw [List.mem_cons, not_or] at hg
      rw [List.cons_append, halves_cons fun hc => absurd hc.symm hg.1, ih hg.2,
        List.modifyHead_modifyHead]
      rfl

/-- Joined groups are one half, with a gap behind them or without. -/
theorem halves_colons {gs : List Text} (h : ∀ g ∈ gs, g ≠ [] ∧ ':' ∉ g) (rest : Text) :
    halves (colons gs ++ rest) = (halves rest).modifyHead (colons gs ++ ·) := by
  induction gs with
  | nil => exact halves_append (List.not_mem_nil) rest
  | cons g gs ih =>
      obtain ⟨hg, hgs⟩ := List.forall_mem_cons.mp h
      cases gs with
      | nil =>
          rw [colons, List.intercalate_singleton]
          exact halves_append hg.2 rest
      | cons g' gs =>
          have hhead : (colons (g' :: gs) ++ rest).head? ≠ some ':' := by
            obtain ⟨hne, hfree⟩ := hgs g' List.mem_cons_self
            cases g' with
            | nil => exact absurd rfl hne
            | cons c g' =>
                have hc : c ≠ ':' := by
                  rintro rfl
                  exact hfree List.mem_cons_self
                have hfirst : (colons ((c :: g') :: gs) ++ rest).head? = some c := by
                  cases gs with
                  | nil => rw [colons, List.intercalate_singleton]; rfl
                  | cons g'' gs => rw [colons_cons_cons]; rfl
                rw [hfirst]
                exact fun heq => hc (Option.some.inj heq)
          rw [colons_cons_cons, List.append_assoc, List.cons_append, halves_append hg.2,
            halves_cons fun _ => hhead, ih hgs, List.modifyHead_modifyHead,
            List.modifyHead_modifyHead]
          congr 1
          funext x
          simp

/-- Eight groups, or fewer with a gap. -/
inductive Spelled : Text → List Int → Prop
  | whole {gs : List Text} {values : List Int} (hgs : gs.mapM hextet = some values)
      (hlength : values.length = 8) : Spelled (colons gs) values
  | gap {hs ts : List Text} {head tail : List Int} (hhs : hs.mapM hextet = some head)
      (hts : ts.mapM hextet = some tail) (hlength : head.length + tail.length < 8) :
      Spelled (colons hs ++ txt "::" ++ colons ts)
        (head ++ List.replicate (8 - head.length - tail.length) 0 ++ tail)

theorem Spelled.length {t : Text} {values : List Int} (h : Spelled t values) :
    values.length = 8 := by
  cases h with
  | whole hgs hlength => exact hlength
  | gap hhs hts hlength =>
      rw [List.length_append, List.length_append, List.length_replicate]
      omega

theorem groups_of_mapM {gs : List Text} {values : List Int} (h : gs.mapM hextet = some values) :
    ∀ g ∈ gs, g ≠ [] ∧ ':' ∉ g := by
  intro g hg
  obtain ⟨n, -, hn⟩ := of_mapM_eq_some h g hg
  exact ⟨(hextet_eq_some hn).1, (hextet_chars hn).1⟩

theorem length_of_mapM {α β : Type} {f : α → Option β} {as : List α} {bs : List β}
    (h : as.mapM f = some bs) : bs.length = as.length :=
  (List.Forall₂.length_eq (mapM_eq_some_iff.mp h)).symm

theorem two_le_count {gs : List Text} (h : 3 ≤ gs.length) : 2 ≤ (colons gs).count ':' := by
  match gs, h with
  | g :: g' :: u :: gs, _ =>
      rw [colons_cons_cons]
      cases gs with
      | nil =>
          rw [colons_cons_cons]
          simp only [List.count_append, List.count_cons_self]
          omega
      | cons v gs =>
          rw [colons_cons_cons]
          simp only [List.count_append, List.count_cons_self]
          omega

/-- An IPv6 address is groups, as `ipv6` reads them. -/
theorem ipv6_iff {t : Text} {values : List Int} : ipv6 t = some values ↔ Spelled t values := by
  constructor
  · intro h
    unfold ipv6 at h
    split at h
    · cases h
    · have hwhole := intercalate_halves t
      split at h
      · rename_i whole hhalves
        obtain ⟨hgroups, hlength⟩ := Option.filter_eq_some_iff.mp h
        obtain ⟨gs, hgs, rfl⟩ := groups_iff.mp hgroups
        rw [hhalves, List.intercalate_singleton] at hwhole
        exact hwhole ▸ .whole hgs (of_decide_eq_true hlength)
      · rename_i head tail hhalves
        obtain ⟨vh, hhead, hrest⟩ := Option.bind_eq_some_iff.mp h
        obtain ⟨vt, htail, hrest⟩ := Option.bind_eq_some_iff.mp hrest
        split at hrest
        · cases hrest
        · rename_i hlength
          cases hrest
          obtain ⟨hs, hhs, rfl⟩ := groups_iff.mp hhead
          obtain ⟨ts, hts, rfl⟩ := groups_iff.mp htail
          rw [hhalves, List.intercalate_cons_cons, List.intercalate_singleton] at hwhole
          exact hwhole ▸ .gap hhs hts (not_le.mp hlength)
      · cases h
  · intro h
    cases h with
    | @whole gs values hgs hlength =>
        have hhalves := halves_colons (groups_of_mapM hgs) []
        rw [List.append_nil] at hhalves
        have hmany : 2 ≤ (colons gs).count ':' := by
          have hgslength := length_of_mapM hgs
          exact two_le_count (by omega)
        have hmem : ':' ∈ colons gs := List.count_pos_iff.mp (by omega)
        rw [ipv6, if_neg (by rw [not_or, not_not, not_lt]; exact ⟨hmem, hmany⟩), hhalves]
        simp only [halves, List.modifyHead_cons, List.append_nil]
        rw [groups_iff.mpr ⟨gs, hgs, rfl⟩]
        exact Option.filter_some_pos (decide_eq_true hlength)
    | @gap hs ts head tail hhs hts hlength =>
        have hhalves := halves_colons (groups_of_mapM hhs) (txt "::" ++ colons ts)
        have htail := halves_colons (groups_of_mapM hts) []
        rw [List.append_nil] at htail
        have hcut : halves (txt "::" ++ colons ts) = [[], colons ts] := by
          change halves (':' :: ':' :: colons ts) = _
          rw [halves_pair, htail]
          simp [halves]
        have hmany : 2 ≤ (colons hs ++ txt "::" ++ colons ts).count ':' := by
          have hpair : (txt "::").count ':' = 2 := by decide
          simp only [List.count_append, hpair]
          omega
        have hmem : ':' ∈ colons hs ++ txt "::" ++ colons ts := List.count_pos_iff.mp (by omega)
        rw [ipv6, if_neg (by rw [not_or, not_not, not_lt]; exact ⟨hmem, hmany⟩), List.append_assoc,
          hhalves, hcut]
        simp only [List.modifyHead_cons, List.append_nil]
        rw [groups_iff.mpr ⟨hs, hhs, rfl⟩, groups_iff.mpr ⟨ts, hts, rfl⟩]
        exact if_neg (not_le.mpr hlength)

/-! ### Host bits -/

/-- The bits of a group, the first the highest. -/
def valueBits (width : Nat) (value : Int) : List Bool :=
  (List.range width).map fun j => (BitVec.ofInt 32 value).getLsbD (width - 1 - j)

/-- The bits of an address. -/
def bits (width : Nat) (values : List Int) : List Bool := values.flatMap (valueBits width)

@[simp] theorem length_valueBits (width : Nat) (value : Int) :
    (valueBits width value).length = width := by
  rw [valueBits, List.length_map, List.length_range]

theorem length_bits (width : Nat) (values : List Int) :
    (bits width values).length = width * values.length := by
  induction values with
  | nil => rfl
  | cons v vs ih =>
      rw [bits, List.flatMap_cons, List.length_append, length_valueBits, List.length_cons,
        Nat.mul_succ, Nat.add_comm]
      exact congrArg (· + width) ih

theorem ofInt_natCast_getLsbD {n i : Nat} (hi : i < 32) :
    (BitVec.ofInt 32 (n : Int)).getLsbD i = n.testBit i := by
  rw [BitVec.ofInt_natCast, BitVec.getLsbD_ofNat, decide_eq_true hi, Bool.true_and]

/-- A group is its bits. -/
theorem eq_of_valueBits {width m n : Nat} (hw : width ≤ 32) (hm : m < 2 ^ width)
    (hn : n < 2 ^ width) (h : valueBits width m = valueBits width n) : m = n := by
  refine Nat.eq_of_testBit_eq fun i => ?_
  by_cases hi : i < width
  · have hj := congrArg (fun l => l[width - 1 - i]?) h
    simp only [valueBits, List.getElem?_map, List.getElem?_range
      (show width - 1 - i < width by omega), Option.map_some, Option.some.injEq,
      show width - 1 - (width - 1 - i) = i by omega] at hj
    rwa [ofInt_natCast_getLsbD (by omega), ofInt_natCast_getLsbD (by omega)] at hj
  · have hle : 2 ^ width ≤ 2 ^ i := Nat.pow_le_pow_right (by decide) (by omega)
    rw [Nat.testBit_lt_two_pow (by omega), Nat.testBit_lt_two_pow (by omega)]

/-- An address is its bits. -/
theorem eq_of_bits {width : Nat} (hw : width ≤ 32) {ms ns : List Nat}
    (hms : ∀ m ∈ ms, m < 2 ^ width) (hns : ∀ n ∈ ns, n < 2 ^ width)
    (hlength : ms.length = ns.length)
    (h : bits width (ms.map Int.ofNat) = bits width (ns.map Int.ofNat)) : ms = ns := by
  induction ms generalizing ns with
  | nil => exact (List.length_eq_zero_iff.mp hlength.symm).symm
  | cons m ms ih =>
      cases ns with
      | nil => cases hlength
      | cons n ns =>
          obtain ⟨hm, hms⟩ := List.forall_mem_cons.mp hms
          obtain ⟨hn, hns⟩ := List.forall_mem_cons.mp hns
          rw [bits, bits, List.map_cons, List.map_cons, List.flatMap_cons, List.flatMap_cons] at h
          obtain ⟨hhead, htail⟩ := List.append_inj h (by simp)
          rw [eq_of_valueBits hw hm hn hhead, ih hms hns (Nat.succ.inj hlength) htail]

/-- What is kept of a group are its first bits. -/
theorem testBit_maskValue {width : Nat} (hw : width ≤ 16) (value : Int) {kept : Int}
    (hkept : 0 ≤ kept ∧ kept ≤ width) (i : Nat) :
    (maskValue width value kept).testBit i =
      (decide (i < width ∧ width ≤ kept.toNat + i) && (BitVec.ofInt 32 value).getLsbD i) := by
  have hkeep : ∀ i, (if kept = 0 then 0 else
      (1 <<< width - 1) ^^^ (1 <<< (width - kept.toNat) - 1)).testBit i =
        decide (i < width ∧ width ≤ kept.toNat + i) := by
    intro i
    by_cases hzero : kept = 0
    · rw [if_pos hzero, Nat.zero_testBit, eq_comm, decide_eq_false_iff_not]
      omega
    · rw [if_neg hzero, Nat.one_shiftLeft, Nat.one_shiftLeft, Nat.testBit_xor,
        Nat.testBit_two_pow_sub_one, Nat.testBit_two_pow_sub_one, Bool.eq_iff_iff]
      by_cases h₁ : i < width <;> by_cases h₂ : i < width - kept.toNat <;>
        simp [h₁, h₂] <;> omega
  rw [maskValue, BitVec.testBit_toNat, BitVec.getLsbD_and, BitVec.getLsbD_ofNat, hkeep,
    Bool.and_comm]
  by_cases hi : i < 32
  · rw [decide_eq_true hi, Bool.true_and]
  · have hnot : ¬ (i < width ∧ width ≤ kept.toNat + i) := by omega
    rw [decide_eq_false hnot, Bool.and_false, Bool.false_and]

theorem maskValue_lt {width : Nat} (hw : width ≤ 16) (value : Int) {kept : Int}
    (hkept : 0 ≤ kept ∧ kept ≤ width) : maskValue width value kept < 2 ^ width := by
  refine Nat.lt_pow_two_of_testBit _ fun i hi => ?_
  rw [testBit_maskValue hw value hkept, decide_eq_false (by omega), Bool.false_and]

theorem valueBits_maskValue {width : Nat} (hw : width ≤ 16) (value : Int) {kept : Int}
    (hkept : 0 ≤ kept ∧ kept ≤ width) : valueBits width (maskValue width value kept) =
      (valueBits width value).take kept.toNat ++ List.replicate (width - kept.toNat) false := by
  have hlength : min kept.toNat width = kept.toNat := by omega
  refine List.ext_getElem ?_ fun j h₁ h₂ => ?_
  · simp only [length_valueBits, List.length_append, List.length_take, List.length_replicate,
      hlength]
    omega
  · rw [length_valueBits] at h₁
    simp only [valueBits, List.getElem_map, List.getElem_range]
    rw [ofInt_natCast_getLsbD (by omega), testBit_maskValue hw value hkept, List.getElem_append]
    split
    · rename_i hj
      simp only [List.length_take, List.length_map, List.length_range, hlength] at hj
      rw [decide_eq_true (by omega), Bool.true_and, List.getElem_take, List.getElem_map,
        List.getElem_range]
    · rename_i hj
      simp only [List.length_take, List.length_map, List.length_range, hlength] at hj
      rw [decide_eq_false (by omega), Bool.false_and, List.getElem_replicate]

theorem mask_cons (v : Int) (vs : List Int) (length : Int) (width : Nat) :
    mask (v :: vs) length width =
      maskValue width v (coerceIn length 0 width) :: mask vs (length - width) width := by
  rw [mask, List.mapIdx_cons, mask]
  congr 1
  · rw [Int.natCast_zero, Int.zero_mul, Int.sub_zero]
  · congr 1
    funext i w
    congr 2
    rw [Int.natCast_add, Int.add_mul]
    omega

theorem coerceIn_bounds {n lo hi : Int} (h : lo ≤ hi) :
    lo ≤ coerceIn n lo hi ∧ coerceIn n lo hi ≤ hi := by
  unfold coerceIn
  split_ifs <;> omega

@[simp] theorem length_mask (values : List Int) (length : Int) (width : Nat) :
    (mask values length width).length = values.length := List.length_mapIdx

theorem mask_lt {width : Nat} (hw : width ≤ 16) (values : List Int) (length : Int) :
    ∀ m ∈ mask values length width, m < 2 ^ width := by
  intro m hm
  obtain ⟨i, hi, rfl⟩ := List.mem_mapIdx.mp hm
  exact maskValue_lt hw _ (coerceIn_bounds (Int.natCast_nonneg width))

/-- **What is kept of an address** are its first bits. -/
theorem bits_mask {width : Nat} (hw : width ≤ 16) (values : List Int) (length : Int) :
    bits width ((mask values length width).map Int.ofNat) =
      (bits width values).take length.toNat ++
        List.replicate (width * values.length - length.toNat) false := by
  induction values generalizing length with
  | nil => simp [mask, bits]
  | cons v vs ih =>
      have hbounds := coerceIn_bounds (n := length) (Int.natCast_nonneg width)
      have hhead := valueBits_maskValue hw v hbounds
      have hkept : (coerceIn length 0 width).toNat = min length.toNat width := by
        unfold coerceIn
        split_ifs <;> omega
      have htail : (length - width).toNat = length.toNat - width := by omega
      rw [mask_cons, List.map_cons, bits, List.flatMap_cons, bits, List.flatMap_cons,
        List.take_append, length_valueBits]
      change valueBits width (maskValue width v _ : Nat) ++ bits width _ = _
      rw [ih, hhead, hkept, htail, List.length_cons]
      by_cases hshort : length.toNat ≤ width
      · have hmin : min length.toNat width = length.toNat := by omega
        have hrest : length.toNat - width = 0 := by omega
        rw [hmin, hrest, List.take_zero, List.take_zero, List.append_nil, List.nil_append,
          List.append_assoc, List.replicate_append_replicate]
        congr 2
        rw [Nat.mul_succ]
        omega
      · have hmin : min length.toNat width = width := by omega
        have hall : (valueBits width v).take length.toNat = valueBits width v :=
          List.take_of_length_le (by rw [length_valueBits]; omega)
        have hself : (valueBits width v).take width = valueBits width v :=
          List.take_of_length_le (by rw [length_valueBits])
        rw [hmin, hall, hself, Nat.sub_self, List.replicate_zero, List.append_nil,
          List.append_assoc]
        congr 3
        rw [Nat.mul_succ]
        omega

/-- Two addresses are kept the same when they begin the same. -/
theorem mask_eq_iff {width : Nat} (hw : width ≤ 16) {values values' : List Int}
    (hlength : values.length = values'.length) (length : Int) :
    mask values length width = mask values' length width ↔
      (bits width values).take length.toNat = (bits width values').take length.toNat := by
  constructor
  · intro h
    have hbits := bits_mask hw values length
    rw [h, bits_mask hw values' length] at hbits
    refine (List.append_inj_left hbits ?_).symm
    rw [List.length_take, List.length_take, length_bits, length_bits, hlength]
  · intro h
    refine eq_of_bits (show width ≤ 32 by omega) (mask_lt hw values length)
      (mask_lt hw values' length) (by rw [length_mask, length_mask, hlength]) ?_
    rw [bits_mask hw, bits_mask hw, h, hlength]

/-- What is cleared stays cleared. -/
theorem mask_mask {width : Nat} (hw : width ≤ 16) (values : List Int) {length : Int}
    (hle : length.toNat ≤ width * values.length) :
    mask ((mask values length width).map Int.ofNat) length width = mask values length width := by
  rw [mask_eq_iff hw (by rw [List.length_map, length_mask]), bits_mask hw,
    List.take_append_of_le_length, List.take_take, Nat.min_self]
  rw [List.length_take, length_bits]
  omega

/-! ### What is written -/

theorem toNat_of_isDigit {c : Char} (h : c.isDigit = true) : 0x30 ≤ c.toNat ∧ c.toNat ≤ 0x39 := by
  simp only [Char.isDigit, Bool.and_eq_true, decide_eq_true_eq, UInt32.le_iff_toNat_le] at h
  exact h

theorem isDigit_of_ascii {c : Char} (h : c.isDigit = true) : isDigit c = true := by
  have hbounds := toNat_of_isDigit h
  refine List.any_eq_true.mpr ⟨0x30, by decide, ?_⟩
  rw [Bool.and_eq_true, decide_eq_true_eq, decide_eq_true_eq]
  omega

theorem decimal_isDigit (n : Nat) : ∀ c ∈ decimal n, c.isDigit = true :=
  fun _ => Nat.isDigit_of_mem_toDigits (by decide) (by decide)

theorem toNat_lt_of_isDigit {c : Char} (h : c.isDigit = true) : c.toNat < 0x80 :=
  lt_of_le_of_lt (toNat_of_isDigit h).2 (by decide)

theorem octet_decimal {n : Nat} (h : n < 256) : octet (decimal n) = some n := by
  have hascii : ∀ c ∈ decimal n, c.toNat < 0x80 :=
    fun c hc => toNat_lt_of_isDigit (decimal_isDigit n c hc)
  have hshape : ¬ (decimal n = [] ∨ 3 < utf16Length (decimal n) ∨
      (!(decimal n).all isDigit) = true) := by
    have hlength := length_toDigits_le (b := 10) (by decide) 2 (show n < 10 ^ 3 by omega)
    have hall : (decimal n).all isDigit = true :=
      List.all_eq_true.mpr fun c hc => isDigit_of_ascii (decimal_isDigit n c hc)
    rw [utf16Length_ascii hascii, hall, not_or, not_or, not_lt]
    exact ⟨Nat.toDigits_ne_nil, hlength, Bool.false_ne_true⟩
  rw [octet, if_neg hshape, decimal, toIntOrNull_toDigits (by omega)]
  exact Option.filter_some_pos (decide_eq_true (by omega))

theorem toIntOrNull_hex_eq (n : Nat) :
    toIntOrNull 16 (Nat.toDigits 16 n) = if n < 0x80000000 then some (n : Int) else none := by
  have hvalue := digitsValue_hex n
  have hplain := forall_mem_toDigits (p := (· ∉ ['-', '+', ':', '/', '.'])) (b := 16) (by decide)
    (fun d hd => (digitChar_spec hd).2.2.1) n
  unfold toIntOrNull
  split
  · rename_i heq
    rw [heq] at hplain
    exact absurd (hplain '-' List.mem_cons_self) (by decide)
  · rename_i heq
    rw [heq] at hplain
    exact absurd (hplain '+' List.mem_cons_self) (by decide)
  · rw [hvalue, Option.bind_some]

theorem toIntOrNull_hex {n : Nat} (h : n < 0x80000000) :
    toIntOrNull 16 (Nat.toDigits 16 n) = some (n : Int) := by
  rw [toIntOrNull_hex_eq, if_pos h]

theorem hextet_hex {n : Nat} (h : n < 2 ^ 16) : hextet (Nat.toDigits 16 n) = some n := by
  have hascii := forall_mem_toDigits (p := (·.toNat < 0x80)) (b := 16) (by decide)
    (fun d hd => (digitChar_spec hd).2.1) n
  have hlength := length_toDigits_le (b := 16) (by decide) 3 (show n < 16 ^ 4 by omega)
  have hshape : ¬ (Nat.toDigits 16 n = [] ∨ 4 < utf16Length (Nat.toDigits 16 n)) := by
    rw [utf16Length_ascii hascii, not_or, not_lt]
    exact ⟨Nat.toDigits_ne_nil, hlength⟩
  rw [hextet, if_neg hshape]
  exact toIntOrNull_hex (by omega)

theorem mapM_written {f : Text → Option Int} {write : Nat → Text} {p : Nat → Prop}
    (h : ∀ n, p n → f (write n) = some (n : Int)) {values : List Nat}
    (hvalues : ∀ n ∈ values, p n) :
    (values.map write).mapM f = some (values.map Int.ofNat) := by
  rw [mapM_eq_some_iff, List.forall₂_map_left_iff, List.forall₂_map_right_iff]
  exact List.forall₂_same.mpr fun n hn => h n (hvalues n hn)

/-- Four groups are read back. -/
theorem ipv4_written {values : List Nat} (hlength : values.length = 4)
    (hvalues : ∀ n ∈ values, n < 2 ^ 8) :
    ipv4 (['.'].intercalate (values.map decimal)) = some (values.map Int.ofNat) :=
  ipv4_iff.mpr ⟨values.map decimal, by rw [List.length_map, hlength],
    mapM_written (fun _ => octet_decimal) hvalues, rfl⟩

/-! ### The longest run -/

/-- So many zeros from there on. -/
def ZeroRun (values : List Nat) (start length : Nat) : Prop :=
  start + length ≤ values.length ∧ ∀ i, start ≤ i → i < start + length → values[i]? = some 0

/-- A run is the longest, and the first of its length. -/
structure Best (values : List Nat) (start length : Nat) : Prop where
  run : ZeroRun values start length
  longest : ∀ s l, ZeroRun values s l → l ≤ length
  first : 0 < length → ∀ s, ZeroRun values s length → start ≤ s

/-- Up to an index that no run crosses, a run is the longest and the first. -/
structure BestUpTo (values : List Nat) (index start length : Nat) : Prop where
  run : ZeroRun values start length
  before : start ≤ index
  uncrossed : ∀ s l, ZeroRun values s l → s < index → s + l ≤ index
  longest : ∀ s l, ZeroRun values s l → s < index → l ≤ length ∧ (l = length → start ≤ s)

/-- A run of zeros ends before something else, or at the end. -/
theorem run_spec {values : List Nat} {index : Nat} {rest : List Nat} {run : Nat}
    (hrest : 0 :: rest = values.drop index)
    (hrun : run = (rest.takeWhile (· = 0)).length + 1) :
    ZeroRun values index run ∧ rest.drop (run - 1) = values.drop (index + run) ∧
      values[index + run]? ≠ some 0 := by
  have hget : ∀ j, values[index + j]? = (0 :: rest)[j]? := by
    intro j
    rw [hrest, List.getElem?_drop]
  have hlength : (0 :: rest).length = values.length - index := by rw [hrest, List.length_drop]
  have hle := (List.takeWhile_prefix (l := rest) (fun n => decide (n = 0))).length_le
  rw [List.length_cons] at hlength
  refine ⟨⟨by omega, fun i hi hlt => ?_⟩, ?_, ?_⟩
  · obtain ⟨j, rfl⟩ := Nat.exists_eq_add_of_le hi
    rw [hget]
    cases j with
    | zero => rfl
    | succ j =>
        rw [List.getElem?_cons_succ]
        have hj : j < (rest.takeWhile (· = 0)).length := by omega
        have hzero := List.mem_takeWhile_imp (List.getElem_mem hj)
        rw [List.getElem?_eq_getElem (by omega)]
        rw [List.IsPrefix.getElem (List.takeWhile_prefix (fun x => decide (x = 0))) hj] at hzero
        rw [of_decide_eq_true hzero]
  · have hdrop := congrArg (List.drop run) hrest
    rw [List.drop_drop, hrun, List.drop_succ_cons] at hdrop
    rw [hrun, Nat.add_sub_cancel]
    exact hdrop
  · rw [hget, hrun, List.getElem?_cons_succ]
    intro hzero
    have hsplit := List.takeWhile_append_dropWhile (p := fun x => decide (x = 0)) (l := rest)
    rw [← hsplit, List.getElem?_append_right (by simp)] at hzero
    simp only [List.takeWhile_append_dropWhile, Nat.sub_self] at hzero
    rw [← List.head?_eq_getElem?] at hzero
    have hnot := List.head?_dropWhile_not (fun x => decide (x = 0)) rest
    rw [hzero] at hnot
    simp at hnot

theorem uncrossed_run {values : List Nat} {index run : Nat} (hnot : values[index + run]? ≠ some 0)
    {s l : Nat} (h : ZeroRun values s l) (hs : s < index + run) : s + l ≤ index + run := by
  by_contra hmore
  exact hnot (h.2 (index + run) (by omega) (by omega))

theorem bestRun_best {values : List Nat} (index start length : Nat) (rest : List Nat)
    (hrest : rest = values.drop index) (hindex : index ≤ values.length)
    (h : BestUpTo values index start length) :
    Best values (bestRun index start length rest).1 (bestRun index start length rest).2 := by
  fun_induction bestRun index start length rest with
  | case1 index start length =>
      have hend : index = values.length := by
        have hle := List.drop_eq_nil_iff.mp hrest.symm
        omega
      refine ⟨h.run, fun s l hl => ?_, fun hpos s hs => ?_⟩
      · by_cases hs : s < index
        · exact (h.longest s l hl hs).1
        · have hle := hl.1
          omega
      · have hle := hs.1
        exact (h.longest s length hs (by omega)).2 rfl
  | case2 index start length rest run hmore ih =>
      obtain ⟨hzeros, hdrop, hnot⟩ := run_spec hrest rfl
      refine ih hdrop hzeros.1 ⟨hzeros, Nat.le_add_right _ _, fun s l => uncrossed_run hnot, ?_⟩
      intro s l hl hs
      by_cases hold : s < index
      · have hshort := (h.longest s l hl hold).1
        omega
      · have hin := uncrossed_run hnot hl hs
        omega
  | case3 index start length rest run hmore ih =>
      obtain ⟨hzeros, hdrop, hnot⟩ := run_spec hrest rfl
      have hbefore := h.before
      refine ih hdrop hzeros.1 ⟨h.run, Nat.le_add_right_of_le hbefore,
        fun s l => uncrossed_run hnot, ?_⟩
      intro s l hl hs
      by_cases hold : s < index
      · exact h.longest s l hl hold
      · have hin := uncrossed_run hnot hl hs
        omega
  | case4 index start length v rest hv ih =>
      have hget : values[index]? = some v := by
        rw [← Nat.add_zero index, ← List.getElem?_drop, ← hrest]
        rfl
      have hlt : index < values.length := by
        by_contra hnot
        rw [List.getElem?_eq_none (not_lt.mp hnot)] at hget
        cases hget
      have hdrop : rest = values.drop (index + 1) := by
        have htail := congrArg List.tail hrest
        rwa [List.tail_cons, List.tail_drop] at htail
      have hempty : ∀ l, ZeroRun values index l → l = 0 := by
        intro l hl
        by_contra hpos
        have hzero := hl.2 index le_rfl (by omega)
        rw [hget, Option.some.injEq] at hzero
        exact hv hzero
      have hbefore := h.before
      refine ih hdrop hlt ⟨h.run, Nat.le_succ_of_le hbefore, ?_, ?_⟩
      · intro s l hl hs
        rcases Nat.lt_succ_iff_lt_or_eq.mp hs with hold | rfl
        · exact Nat.le_succ_of_le (h.uncrossed s l hl hold)
        · rw [hempty l hl]
          omega
      · intro s l hl hs
        rcases Nat.lt_succ_iff_lt_or_eq.mp hs with hold | rfl
        · exact h.longest s l hl hold
        · rw [hempty l hl]
          exact ⟨Nat.zero_le _, fun _ => hbefore⟩

/-- What the loop of `compress` finds. -/
theorem best_bestRun (values : List Nat) :
    Best values (bestRun 0 0 0 values).1 (bestRun 0 0 0 values).2 := by
  refine bestRun_best 0 0 0 values rfl (Nat.zero_le _) ⟨⟨Nat.zero_le _, ?_⟩, le_rfl, ?_, ?_⟩
  · intro i hi hlt
    omega
  · intro s l _ hs
    omega
  · intro s l _ hs
    omega

/-! ### Short forms -/

/-- The spelling of RFC 5952: lowercase hexadecimal without leading zeros, and two colons for the
longest run of zeros, the first of several, where it is two groups or more. -/
inductive Canonical (values : List Nat) : Text → Prop
  | whole (h : ∀ s l, ZeroRun values s l → l < 2) :
      Canonical values (colons (values.map (Nat.toDigits 16)))
  | gap {start length : Nat} (h : Best values start length) (htwo : 2 ≤ length) :
      Canonical values (colons ((values.take start).map (Nat.toDigits 16)) ++ txt "::" ++
        colons ((values.drop (start + length)).map (Nat.toDigits 16)))

theorem compress_canonical (values : List Nat) : Canonical values (compress values) := by
  have hbest := best_bestRun values
  rw [compress]
  split
  · rename_i hshort
    exact .whole fun s l hl => lt_of_le_of_lt (hbest.longest s l hl) hshort
  · rename_i hlong
    rw [← List.map_take, ← List.map_drop]
    exact .gap hbest (not_lt.mp hlong)

/-- A short form is read back. -/
theorem Canonical.ipv6 {values : List Nat} {t : Text} (h : Canonical values t)
    (hlength : values.length = 8) (hvalues : ∀ n ∈ values, n < 2 ^ 16) :
    ipv6 t = some (values.map Int.ofNat) := by
  rw [ipv6_iff]
  cases h with
  | whole hshort =>
      exact .whole (mapM_written (fun _ => hextet_hex) hvalues) (by rw [List.length_map, hlength])
  | @gap start length hbest htwo =>
      obtain ⟨hle, hzeros⟩ := hbest.run
      have hhead : ((values.take start).map (Nat.toDigits 16)).mapM hextet =
          some ((values.take start).map Int.ofNat) :=
        mapM_written (fun _ => hextet_hex) fun n hn => hvalues n (List.mem_of_mem_take hn)
      have htail : ((values.drop (start + length)).map (Nat.toDigits 16)).mapM hextet =
          some ((values.drop (start + length)).map Int.ofNat) :=
        mapM_written (fun _ => hextet_hex) fun n hn => hvalues n (List.mem_of_mem_drop hn)
      have hspelled := Spelled.gap hhead htail (by
        simp only [List.length_map, List.length_take, List.length_drop]
        omega)
      have hmiddle : List.replicate length 0 = (values.drop start).take length := by
        refine List.ext_getElem? fun i => ?_
        by_cases hi : i < length
        · rw [List.getElem?_replicate, if_pos hi, List.getElem?_take_of_lt hi, List.getElem?_drop,
            hzeros (start + i) (by omega) (by omega)]
        · rw [List.getElem?_replicate, if_neg hi, List.getElem?_take_eq_none (by omega)]
      have hwhole : values.map Int.ofNat = (values.take start).map Int.ofNat ++
          List.replicate (8 - ((values.take start).map Int.ofNat).length -
            ((values.drop (start + length)).map Int.ofNat).length) 0 ++
          (values.drop (start + length)).map Int.ofNat := by
        have hgap : 8 - ((values.take start).map Int.ofNat).length -
            ((values.drop (start + length)).map Int.ofNat).length = length := by
          simp only [List.length_map, List.length_take, List.length_drop]
          omega
        have hzero : List.replicate length (0 : Int) = (List.replicate length 0).map Int.ofNat := by
          rw [List.map_replicate]
          rfl
        rw [hgap, hzero, hmiddle, ← List.map_append, ← List.map_append, ← List.drop_drop,
          List.append_assoc, List.take_append_drop, List.take_append_drop]
      rw [hwhole]
      exact hspelled

end Ghostlane.App.RoutingRule
