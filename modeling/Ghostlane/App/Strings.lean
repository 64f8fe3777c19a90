import Ghostlane.Lib.Cut
import Mathlib.Data.Nat.Notation

/-!
# Ghostlane.App.Strings

The functions of Kotlin's standard library the app reads links and names with:
trimming, case, numbers, lines, base64 and UTF-8.

A text is a list of Unicode scalar values here and a list of UTF-16 units
there. Nothing below looks at a unit of a surrogate pair: every character it
asks about is in the basic plane, and `takeUnits` is the one length that counts
units. It may keep half of a pair, which is no character; `replacement` stands
for that half, being one unit and no white space as well.
-/

namespace Ghostlane.App

open Ghostlane.Lib

/-! ### White space -/

/-- `Char.isWhitespace`. -/
def isWhitespace (c : Char) : Bool :=
  let n := c.toNat
  (0x09 ≤ n && n ≤ 0x0D) || (0x1C ≤ n && n ≤ 0x20) || n == 0xA0 || n == 0x1680 ||
    (0x2000 ≤ n && n ≤ 0x200A) || n == 0x2028 || n == 0x2029 || n == 0x202F ||
    n == 0x205F || n == 0x3000

/-- `String.trim`. -/
def trim (t : Text) : Text := trimBy isWhitespace t

/-- `String.isBlank`. -/
def isBlank (t : Text) : Bool := t.all isWhitespace

/-- `String.ifBlank`. -/
def ifBlank (t fallback : Text) : Text := if isBlank t then fallback else t

/-- `takeIf { it.isNotBlank() }`. -/
def nonBlank (t : Text) : Option Text := if isBlank t then none else some t

/-- `takeIf { it.isNotEmpty() }`. -/
def nonEmpty (t : Text) : Option Text := if t = [] then none else some t

/-- `isNullOrBlank`. -/
def isNullOrBlank : Option Text → Bool
  | none => true
  | some t => isBlank t

/-- `firstNotBlank`: the first of the values that says something, or nothing. -/
def firstNotBlank (values : List (Option Text)) : Text :=
  ((values.find? fun v => !isNullOrBlank v).getD none).getD []

@[simp] theorem trim_trim (t : Text) : trim (trim t) = trim t := trimBy_trimBy ..

theorem nonBlank_eq_some {t u : Text} : nonBlank t = some u ↔ isBlank t = false ∧ t = u := by
  unfold nonBlank
  split <;> simp_all

theorem isBlank_nil : isBlank [] = true := rfl

theorem trim_eq_nil_iff {t : Text} : trim t = [] ↔ isBlank t = true := trimBy_eq_nil_iff

/-- A trimmed text is blank only when nothing is left of it. -/
theorem isBlank_trim_iff {t : Text} : isBlank (trim t) = true ↔ trim t = [] := by
  rw [← trim_eq_nil_iff, trim_trim]

@[simp] theorem isBlank_trim (t : Text) : isBlank (trim t) = isBlank t := by
  rw [Bool.eq_iff_iff, isBlank_trim_iff, trim_eq_nil_iff]

/-! ### Case

`lowercase` changes the ASCII letters and the two characters outside ASCII
whose lower case has an ASCII letter (U+212A, the kelvin sign, and U+0130). The
others keep their own character here: each reader of the result compares it with
ASCII text or drops what is outside it. -/

def lowercaseChar (c : Char) : Text :=
  if c.toNat == 0x212A then ['k']
  else if c.toNat == 0x130 then ['i', Char.ofNat 0x307]
  else [c.toLower]

/-- `String.lowercase`. -/
def lowercase (t : Text) : Text := t.flatMap lowercaseChar

/-! ### Parts of a text -/

/-- `String.startsWith`. -/
def startsWith (t needle : Text) : Bool := needle.isPrefixOf t

/-- A text that starts with something is not blank. -/
theorem not_blank_of_startsWith {t start : Text} (h : startsWith t start = true)
    (hstart : start.any (!isWhitespace ·) = true) : isBlank t = false := by
  obtain ⟨rest, rfl⟩ := List.isPrefixOf_iff_prefix.mp h
  obtain ⟨c, hc, hnot⟩ := List.any_eq_true.mp hstart
  rw [isBlank, List.all_eq_false]
  exact ⟨c, List.mem_append_left _ hc, by simpa using hnot⟩

theorem startsWith_of_notMem {c : Char} {needle t : Text} (hc : c ∈ needle) (h : c ∉ t) :
    startsWith t needle = false := by
  rw [startsWith, ← Bool.not_eq_true, List.isPrefixOf_iff_prefix]
  exact fun hstart => h (hstart.subset hc)

/-- `String.removePrefix`. -/
def removePrefix (t needle : Text) : Text := if startsWith t needle then t.drop needle.length else t

@[simp] theorem startsWith_append (needle t : Text) : startsWith (needle ++ t) needle = true :=
  List.isPrefixOf_iff_prefix.mpr (List.prefix_append needle t)

@[simp] theorem removePrefix_append (needle t : Text) : removePrefix (needle ++ t) needle = t := by
  rw [removePrefix, if_pos (startsWith_append needle t), List.drop_left]

theorem exists_of_startsWith {t needle : Text} (h : startsWith t needle = true) :
    ∃ rest, t = needle ++ rest :=
  (List.isPrefixOf_iff_prefix.mp h).imp fun _ => Eq.symm

/-- `String.removeSuffix` of one character. -/
def removeSuffix (t : Text) (c : Char) : Text := if t.getLast? = some c then t.dropLast else t

/-- `String.contains`. -/
def contains : (t needle : Text) → Bool
  | [], needle => needle == []
  | c :: t, needle => startsWith (c :: t) needle || contains t needle

/-- What stands before and after the first `c`: `indexOf` with the two
`substring`s around it. -/
def cut (c : Char) : Text → Option (Text × Text)
  | [] => none
  | d :: t => if d = c then some ([], t) else (cut c t).map fun (a, b) => (d :: a, b)

theorem cut_eq_cutFirst (c : Char) (t : Text) : cut c t = cutFirst c t := by
  induction t with
  | nil => rfl
  | cons d t ih =>
      rw [cut, cutFirst, ih]

theorem cut_append {c : Char} {a : Text} (h : c ∉ a) (b : Text) :
    cut c (a ++ c :: b) = some (a, b) :=
  (cut_eq_cutFirst c _).trans (cutFirst_append h b)

/-- What stands before and after the last `c` (`lastIndexOf`). -/
def cutLast (c : Char) : Text → Option (Text × Text)
  | [] => none
  | d :: t =>
      match cutLast c t with
      | some (a, b) => some (d :: a, b)
      | none => if d = c then some ([], t) else none

theorem cutLast_of_notMem {c : Char} {t : Text} (h : c ∉ t) : cutLast c t = none := by
  induction t with
  | nil => rfl
  | cons d t ih =>
      rw [List.mem_cons, not_or] at h
      rw [cutLast, ih h.2]
      exact if_neg (Ne.symm h.1)

theorem cutLast_append {c : Char} {b : Text} (h : c ∉ b) (a : Text) :
    cutLast c (a ++ c :: b) = some (a, b) := by
  induction a with
  | nil =>
      rw [List.nil_append, cutLast, cutLast_of_notMem h]
      exact if_pos rfl
  | cons d a ih => rw [List.cons_append, cutLast, ih]

theorem notMem_of_cutLast {c : Char} {t : Text} (h : cutLast c t = none) : c ∉ t := by
  induction t with
  | nil => exact List.not_mem_nil
  | cons d t ih =>
      rw [cutLast] at h
      split at h
      · cases h
      · rename_i hrest
        split at h
        · cases h
        · rename_i hd
          rw [List.mem_cons, not_or]
          exact ⟨Ne.symm hd, ih hrest⟩

theorem cutLast_eq_some_iff {c : Char} {t a b : Text} :
    cutLast c t = some (a, b) ↔ t = a ++ c :: b ∧ c ∉ b := by
  constructor
  · intro h
    induction t generalizing a with
    | nil => cases h
    | cons d t ih =>
        rw [cutLast] at h
        split at h
        · rename_i a' b' hrest
          cases h
          obtain ⟨ht, hb⟩ := ih hrest
          exact ⟨congrArg (d :: ·) ht, hb⟩
        · rename_i hrest
          split at h
          · rename_i hd
            cases h
            exact ⟨by rw [hd]; rfl, notMem_of_cutLast hrest⟩
          · cases h
  · rintro ⟨rfl, h⟩
    exact cutLast_append h a

/-- `split` at every character that satisfies `p`. -/
def splitAll (p : Char → Bool) : Text → List Text
  | [] => [[]]
  | c :: t =>
      if p c then [] :: splitAll p t
      else match splitAll p t with
        | [] => [[c]]
        | part :: parts => (c :: part) :: parts

theorem splitAll_eq_splitOnP (p : Char → Bool) (t : Text) : splitAll p t = t.splitOnP p := by
  induction t with
  | nil => rfl
  | cons c t ih =>
      rw [splitAll, List.splitOnP_cons_eq_if_modifyHead, ih]
      cases hsplit : t.splitOnP p with
      | nil => exact absurd hsplit (List.splitOnP_ne_nil _ _)
      | cons part parts => rfl

theorem splitAll_of_free {p : Char → Bool} {t : Text} (h : ∀ c ∈ t, p c = false) :
    splitAll p t = [t] := by
  rw [splitAll_eq_splitOnP]
  exact List.splitOnP_eq_singleton h

theorem splitAll_append {p : Char → Bool} {a : Text} (h : ∀ c ∈ a, p c = false) {c : Char}
    (hc : p c = true) (b : Text) : splitAll p (a ++ c :: b) = a :: splitAll p b := by
  rw [splitAll_eq_splitOnP, splitAll_eq_splitOnP]
  exact List.splitOnP_append_cons_of_forall_mem h c hc b

/-- `lineSequence`: lines end with a line feed, a carriage return or both. -/
def lines : Text → List Text
  | [] => [[]]
  | '\r' :: '\n' :: t => [] :: lines t
  | c :: t =>
      if c = '\n' ∨ c = '\r' then [] :: lines t
      else match lines t with
        | [] => [[c]]
        | line :: rest => (c :: line) :: rest

/-- A text on one line. -/
def OneLine (t : Text) : Prop := ∀ c ∈ t, c ≠ '\n' ∧ c ≠ '\r'

theorem oneLine_append {t u : Text} : OneLine (t ++ u) ↔ OneLine t ∧ OneLine u :=
  List.forall_mem_append

theorem lines_append {t : Text} (ht : OneLine t) (u : Text) :
    lines (t ++ '\n' :: u) = t :: lines u := by
  induction t with
  | nil => simp [lines]
  | cons c t ih =>
      obtain ⟨hc, ht⟩ := List.forall_mem_cons.mp ht
      rw [List.cons_append, lines.eq_def]
      split
      · rename_i heq
        cases heq
      · rename_i heq
        exact absurd (List.cons.inj heq).1 hc.2
      · rename_i heq
        cases heq
        rw [if_neg (by simp [hc]), ih ht]

theorem lines_of_oneLine {t : Text} (ht : OneLine t) : lines t = [t] := by
  induction t with
  | nil => rfl
  | cons c t ih =>
      obtain ⟨hc, ht⟩ := List.forall_mem_cons.mp ht
      rw [lines.eq_def]
      split
      · rename_i heq
        cases heq
      · rename_i heq
        exact absurd (List.cons.inj heq).1 hc.2
      · rename_i heq
        cases heq
        rw [if_neg (by simp [hc]), ih ht]

theorem lines_append_crlf {t : Text} (ht : OneLine t) (u : Text) :
    lines (t ++ '\r' :: '\n' :: u) = t :: lines u := by
  induction t with
  | nil => simp [lines]
  | cons c t ih =>
      obtain ⟨hc, ht⟩ := List.forall_mem_cons.mp ht
      rw [List.cons_append, lines.eq_def]
      split
      · rename_i heq
        cases heq
      · rename_i heq
        exact absurd (List.cons.inj heq).1 hc.2
      · rename_i heq
        cases heq
        rw [if_neg (by simp [hc]), ih ht]

/-- U+FFFD, in place of bytes that are not UTF-8 and of half a surrogate pair. -/
def replacement : Char := Char.ofNat 0xFFFD

/-- The UTF-16 units of a character. -/
def units (c : Char) : Nat := if c.toNat < 0x10000 then 1 else 2

/-- `String.take`, which counts UTF-16 units. -/
def takeUnits : Nat → Text → Text
  | _, [] => []
  | n, c :: t =>
      if units c ≤ n then c :: takeUnits (n - units c) t
      -- half of the pair that the cut falls into
      else if n = 0 then [] else [replacement]

/-- What begins a text already cut is not cut again. -/
theorem takeUnits_of_prefix {n : Nat} {u t : Text} (h : u <+: takeUnits n t) :
    takeUnits n u = u := by
  induction t generalizing n u with
  | nil =>
      rw [List.prefix_nil.mp h]
      rfl
  | cons c t ih =>
      cases u with
      | nil => rfl
      | cons d u =>
          simp only [takeUnits] at h ⊢
          split at h
          · rename_i hfits
            obtain ⟨rfl, hu⟩ := List.cons_prefix_cons.mp h
            rw [if_pos hfits, ih hu]
          · split at h
            · exact absurd (List.prefix_nil.mp h) (List.cons_ne_nil d u)
            · rename_i hsome
              obtain ⟨rfl, hu⟩ := List.cons_prefix_cons.mp h
              have hfits : units replacement ≤ n := Nat.pos_of_ne_zero hsome
              rw [List.prefix_nil.mp hu, if_pos hfits, takeUnits]

/-- `substringBefore` of one character. -/
def substringBefore (c : Char) (t : Text) : Text := t.takeWhile (· != c)

/-- The last value of a key, as in a map built by `toMap` or by `set`. -/
def lastValue {β : Type} (pairs : List (Text × β)) (key : Text) : Option β :=
  (pairs.reverse.find? fun p => p.1 = key).map Prod.snd

/-! ### Numbers -/

/-- The zeros of the decimal digits in the basic plane. -/
def zeros : List Nat :=
  [0x30, 0x660, 0x6F0, 0x7C0, 0x966, 0x9E6, 0xA66, 0xAE6, 0xB66, 0xBE6, 0xC66, 0xCE6, 0xD66,
    0xDE6, 0xE50, 0xED0, 0xF20, 0x1040, 0x1090, 0x17E0, 0x1810, 0x1946, 0x19D0, 0x1A80, 0x1A90,
    0x1B50, 0x1BB0, 0x1C40, 0x1C50, 0xA620, 0xA8D0, 0xA900, 0xA9D0, 0xA9F0, 0xAA50, 0xABF0,
    0xFF10]

/-- `digitOf`: a decimal digit of any script, or a Latin letter, plain or
full-width. -/
def digitOf (radix : Nat) (c : Char) : Option Nat :=
  let n := c.toNat
  let value : Option Nat :=
    match zeros.find? fun z => z ≤ n && n < z + 10 with
    | some z => some (n - z)
    | none =>
        if 0x61 ≤ n ∧ n ≤ 0x7A then some (n - 0x61 + 10)
        else if 0x41 ≤ n ∧ n ≤ 0x5A then some (n - 0x41 + 10)
        else if 0xFF41 ≤ n ∧ n ≤ 0xFF5A then some (n - 0xFF41 + 10)
        else if 0xFF21 ≤ n ∧ n ≤ 0xFF3A then some (n - 0xFF21 + 10)
        else none
  value.filter (· < radix)

/-- The value of a non-empty run of digits. -/
def digitsValue (radix : Nat) (t : Text) : Option Nat :=
  if t = [] then none
  else t.foldlM (fun n c => (digitOf radix c).map (n * radix + ·)) 0

/-- `toIntOrNull`: a sign, then digits, within 32 bits. -/
def toIntOrNull (radix : Nat) : Text → Option Int
  | '-' :: ds => (digitsValue radix ds).bind fun n =>
      if n ≤ 0x80000000 then some (-(n : Int)) else none
  | '+' :: ds => (digitsValue radix ds).bind fun n =>
      if n < 0x80000000 then some (n : Int) else none
  | ds => (digitsValue radix ds).bind fun n => if n < 0x80000000 then some (n : Int) else none

/-- `toLongOrNull`: the same within 64 bits, to base 10. -/
def toLongOrNull : Text → Option Int
  | '-' :: ds => (digitsValue 10 ds).bind fun n =>
      if n ≤ 0x8000000000000000 then some (-(n : Int)) else none
  | '+' :: ds => (digitsValue 10 ds).bind fun n =>
      if n < 0x8000000000000000 then some (n : Int) else none
  | ds => (digitsValue 10 ds).bind fun n => if n < 0x8000000000000000 then some (n : Int) else none

theorem digitOf_ten_of_isDigit {c : Char} (h : c.isDigit = true) :
    digitOf 10 c = some (c.toNat - 0x30) := by
  have hlow : 0x30 ≤ c.toNat := by
    simp only [Char.isDigit, Bool.and_eq_true, decide_eq_true_eq, UInt32.le_iff_toNat_le] at h
    exact h.1
  have hhigh : c.toNat ≤ 0x39 := by
    simp only [Char.isDigit, Bool.and_eq_true, decide_eq_true_eq, UInt32.le_iff_toNat_le] at h
    exact h.2
  have hzero : zeros.find? (fun z => z ≤ c.toNat && c.toNat < z + 10) = some 0x30 := by
    rw [zeros, List.find?_cons_of_pos]
    simp only [Bool.and_eq_true, decide_eq_true_eq]
    omega
  rw [digitOf, hzero]
  exact if_pos (by simp only [decide_eq_true_eq]; omega)

/-- Digits of ASCII are read as their number. -/
theorem digitsValue_decimal {t : Text} (hne : t ≠ []) (h : ∀ c ∈ t, c.isDigit = true) :
    digitsValue 10 t = some (Nat.ofDigitChars 10 t 0) := by
  have hfold : ∀ (t : Text) (m : Nat), (∀ c ∈ t, c.isDigit = true) →
      t.foldlM (fun n c => (digitOf 10 c).map (n * 10 + ·)) m = some (Nat.ofDigitChars 10 t m) := by
    intro t
    induction t with
    | nil =>
        intro m _
        rw [Nat.ofDigitChars_nil]
        rfl
    | cons c t ih =>
        intro m h
        rw [List.foldlM_cons, digitOf_ten_of_isDigit (h c (List.mem_cons_self ..)),
          Nat.ofDigitChars_cons, Nat.mul_comm]
        exact ih _ fun d hd => h d (List.mem_cons_of_mem c hd)
  rw [digitsValue, if_neg hne, hfold t 0 h]

/-- The digits of a number are read as it. -/
theorem digitsValue_toDigits (n : Nat) : digitsValue 10 (Nat.toDigits 10 n) = some n := by
  rw [digitsValue_decimal Nat.toDigits_ne_nil
      fun _ hc => Nat.isDigit_of_mem_toDigits (by decide) (by decide) hc,
    Nat.ofDigitChars_ten_toDigits]

theorem digitsValue_eq_some {radix : Nat} {t : Text} {n : Nat} (h : digitsValue radix t = some n) :
    t ≠ [] ∧ ∀ c ∈ t, (digitOf radix c).isSome = true := by
  rw [digitsValue] at h
  split at h
  · cases h
  · rename_i hne
    refine ⟨hne, ?_⟩
    clear hne
    have hfold : ∀ (t : Text) (m n : Nat),
        t.foldlM (fun n c => (digitOf radix c).map (n * radix + ·)) m = some n →
          ∀ c ∈ t, (digitOf radix c).isSome = true := by
      intro t
      induction t with
      | nil =>
          intro m n _
          exact List.forall_mem_nil _
      | cons c t ih =>
          intro m n h
          rw [List.foldlM_cons] at h
          obtain ⟨m', hm', hrest⟩ := Option.bind_eq_some_iff.mp h
          obtain ⟨d, hd, -⟩ := Option.map_eq_some_iff.mp hm'
          refine List.forall_mem_cons.mpr ⟨?_, ih m' n hrest⟩
          rw [hd]
          rfl
    exact hfold t 0 n h

/-- A number that is read is a sign, or none, and digits. -/
theorem toIntOrNull_eq_some {radix : Nat} {t : Text} {n : Int} (h : toIntOrNull radix t = some n) :
    ∃ sign digits m, t = sign ++ digits ∧ sign ∈ [[], ['-'], ['+']] ∧
      digitsValue radix digits = some m ∧ (sign = ['-'] → n = -m) ∧ (sign ≠ ['-'] → n = m) := by
  unfold toIntOrNull at h
  split at h
  · obtain ⟨m, hm, hn⟩ := Option.bind_eq_some_iff.mp h
    split at hn
    · cases hn
      exact ⟨['-'], _, m, rfl, by decide, hm, fun _ => rfl, fun hne => absurd rfl hne⟩
    · cases hn
  · obtain ⟨m, hm, hn⟩ := Option.bind_eq_some_iff.mp h
    split at hn
    · cases hn
      exact ⟨['+'], _, m, rfl, by decide, hm, fun hminus => absurd hminus (by decide), fun _ => rfl⟩
    · cases hn
  · obtain ⟨m, hm, hn⟩ := Option.bind_eq_some_iff.mp h
    split at hn
    · cases hn
      exact ⟨[], _, m, rfl, by decide, hm, fun hminus => absurd hminus (by decide), fun _ => rfl⟩
    · cases hn

/-- What a number is written with. -/
theorem toIntOrNull_chars {radix : Nat} {t : Text} {n : Int} (h : toIntOrNull radix t = some n) :
    ∀ c ∈ t, (digitOf radix c).isSome = true ∨ c = '-' ∨ c = '+' := by
  obtain ⟨sign, digits, m, rfl, hsign, hdigits, -, -⟩ := toIntOrNull_eq_some h
  intro c hc
  rcases List.mem_append.mp hc with hc | hc
  · simp only [List.mem_cons, List.not_mem_nil, or_false] at hsign
    rcases hsign with rfl | rfl | rfl
    · cases hc
    · exact .inr (.inl (List.mem_singleton.mp hc))
    · exact .inr (.inr (List.mem_singleton.mp hc))
  · exact .inl ((digitsValue_eq_some hdigits).2 c hc)

/-- A number of 31 bits is read back from its digits. -/
theorem toIntOrNull_toDigits {n : Nat} (h : n < 0x80000000) :
    toIntOrNull 10 (Nat.toDigits 10 n) = some (n : Int) := by
  have hsign : ∀ c ∈ Nat.toDigits 10 n, c ≠ '-' ∧ c ≠ '+' := by
    intro c hc
    have hdigit : c.isDigit = true := Nat.isDigit_of_mem_toDigits (by decide) (by decide) hc
    constructor <;> rintro rfl <;> exact absurd hdigit (by decide)
  have hvalue := digitsValue_toDigits n
  revert hsign hvalue
  cases Nat.toDigits 10 n with
  | nil =>
      intro _ hvalue
      cases hvalue
  | cons c t =>
      intro hsign hvalue
      obtain ⟨hminus, hplus⟩ := hsign c (List.mem_cons_self ..)
      unfold toIntOrNull
      split
      · rename_i heq
        cases heq
        exact absurd rfl hminus
      · rename_i heq
        cases heq
        exact absurd rfl hplus
      · rw [hvalue, Option.bind_some, if_pos h]

/-- A number in decimal. -/
def decimal (n : Nat) : Text := Nat.toDigits 10 n

/-- A signed number in decimal. -/
def decimalInt (n : Int) : Text := if n < 0 then '-' :: decimal n.natAbs else decimal n.natAbs

theorem decimal_injective : Function.Injective decimal := by
  intro m n h
  have hval := congrArg (Nat.ofDigitChars 10 · 0) h
  simpa only [decimal, Nat.ofDigitChars_ten_toDigits] using hval

/-- `coerceIn`. -/
def coerceIn (n lo hi : Int) : Int := if n < lo then lo else if hi < n then hi else n

theorem coerceIn_coerceIn {n lo hi : Int} (h : lo ≤ hi) :
    coerceIn (coerceIn n lo hi) lo hi = coerceIn n lo hi := by
  unfold coerceIn
  split_ifs <;> omega

/-! ### UTF-8 -/

/-- Between two bytes: how many more belong to the character begun, its bits so
far, and the bounds of the next byte. -/
structure Utf8State where
  needed : Nat := 0
  bits : Nat := 0
  lower : Nat := 0x80
  upper : Nat := 0xBF

/-- What the first byte of a character says. -/
def utf8Lead (b : Nat) : Text × Utf8State :=
  if b < 0x80 then ([Char.ofNat b], {})
  else if 0xC2 ≤ b ∧ b ≤ 0xDF then ([], { needed := 1, bits := b - 0xC0 })
  else if 0xE0 ≤ b ∧ b ≤ 0xEF then
    ([], { needed := 2, bits := b - 0xE0, lower := if b = 0xE0 then 0xA0 else 0x80,
           upper := if b = 0xED then 0x9F else 0xBF })
  else if 0xF0 ≤ b ∧ b ≤ 0xF4 then
    ([], { needed := 3, bits := b - 0xF0, lower := if b = 0xF0 then 0x90 else 0x80,
           upper := if b = 0xF4 then 0x8F else 0xBF })
  else ([replacement], {})

def utf8From : Utf8State → List Nat → Text
  | s, [] => if s.needed = 0 then [] else [replacement]
  | s, b :: bs =>
      if s.needed = 0 then (utf8Lead b).1 ++ utf8From (utf8Lead b).2 bs
      else if b < s.lower ∨ s.upper < b then
        -- The character ends short; this byte begins the next one.
        replacement :: ((utf8Lead b).1 ++ utf8From (utf8Lead b).2 bs)
      else
        let bits := s.bits * 64 + (b - 0x80)
        if s.needed = 1 then Char.ofNat bits :: utf8From {} bs
        else utf8From { needed := s.needed - 1, bits } bs

/-- `ByteArray.decodeToString`, as Android decodes: each byte of an encoded surrogate is one
`replacement`. The desktop JVM has one for the three. -/
def decodeToString (bytes : List Nat) : Text := utf8From {} bytes

/-! ### Base64 -/

/-- A symbol of the standard alphabet, or of the URL-safe one. -/
def base64Symbol (urlSafe : Bool) (c : Char) : Option Nat :=
  let n := c.toNat
  if 0x41 ≤ n ∧ n ≤ 0x5A then some (n - 0x41)
  else if 0x61 ≤ n ∧ n ≤ 0x7A then some (n - 0x61 + 26)
  else if 0x30 ≤ n ∧ n ≤ 0x39 then some (n - 0x30 + 52)
  else if c = (if urlSafe then '-' else '+') then some 62
  else if c = (if urlSafe then '_' else '/') then some 63
  else none

/-- The bytes of a run of symbols. The bits a short last unit has over must be
zeros. -/
def base64Bytes : List Nat → Option (List Nat)
  | [] => some []
  | [_] => none
  | [a, b] => if b % 16 = 0 then some [a * 4 + b / 16] else none
  | [a, b, c] =>
      if c % 4 = 0 then some [a * 4 + b / 16, b % 16 * 16 + c / 4] else none
  | a :: b :: c :: d :: rest =>
      (base64Bytes rest).map fun bs =>
        (a * 4 + b / 16) :: (b % 16 * 16 + c / 4) :: (c % 4 * 64 + d) :: bs

/-- `Base64.decode` with optional padding: padding, where there is any, fills
the last unit. -/
def base64Decode (urlSafe : Bool) (t : Text) : Option (List Nat) := do
  let body := t.takeWhile (· != '=')
  let padding := t.drop body.length
  let symbols ← body.mapM (base64Symbol urlSafe)
  if padding = [] ∨ (body.length % 4 = 2 ∧ padding = ['=', '=']) ∨
      (body.length % 4 = 3 ∧ padding = ['=']) then
    base64Bytes symbols
  else none

end Ghostlane.App
