import Ghostlane.App.UrlDecode
import Ghostlane.Lib.Fields
import Mathlib.Algebra.Ring.Nat

/-!
# Ghostlane.App.ImportLink

The link that a list is handed to a person in (`net/ImportLink.kt`): written by `schemeLink` and
`webLink`, read by `payloadOf`.

`decode` goes from UTF-16 unit to unit, and a unit of a surrogate pair has no UTF-8 of its own
(`standIn`). It takes the two characters behind a percent sign for a byte when `digitToIntOrNull`
does, which knows the digits of other scripts too.
-/

namespace Ghostlane.App

open Ghostlane.Lib

namespace ImportLink

def scheme : Text := txt "proofkit"
def ghostlaneScheme : Text := txt "ghostlane"
def host : Text := txt "add"
def importHost : Text := txt "import"
def webOrigin : Text := txt "https://proofkit.org"
def webPath : Text := txt "/add"

def schemePrefixes : List Text :=
  [ghostlaneScheme, scheme].flatMap fun scheme =>
    [scheme ++ txt "://" ++ host, scheme ++ txt "://" ++ importHost]

def webPrefixes : List Text := [webOrigin ++ webPath, txt "https://www.proofkit.org" ++ webPath]

/-! ### Percent-encoding -/

def hexDigits : Text := txt "0123456789ABCDEF"

def encodeByte (b : UInt8) : Text :=
  let c := Char.ofUInt8 b
  if b < 0x80 ∧ (c.isAlphanum = true ∨ c ∈ txt "-._~") then [c]
  else ['%', hexDigits.getD (b.toNat / 16) '0', hexDigits.getD (b.toNat % 16) '0']

def encode (t : Text) : Text := (utf8 t).flatMap encodeByte

/-- Where the app runs. -/
inductive Platform
  | jvm
  | native
  deriving DecidableEq, Repr

/-- What a unit of a surrogate pair is encoded as. -/
def Platform.lone : Platform → Char
  | jvm => '?'
  | native => replacement

/-- The text whose UTF-8 the units of a character give, each by itself. -/
def standIn (p : Platform) (c : Char) : Text :=
  if c.toNat < 0x10000 then [c] else [p.lone, p.lone]

def unitBytes (p : Platform) (c : Char) : List Nat := (utf8 (standIn p c)).map UInt8.toNat

def decodeBytes (p : Platform) : Text → List Nat
  | [] => []
  | '%' :: a :: b :: t =>
      match digitOf 16 a, digitOf 16 b with
      | some high, some low => (high * 16 + low) :: decodeBytes p t
      | _, _ => unitBytes p '%' ++ decodeBytes p (a :: b :: t)
  | c :: t => unitBytes p c ++ decodeBytes p t

def decode (p : Platform) (t : Text) : Text := decodeToString (decodeBytes p t)

/-! ### The link -/

def schemeLink (payload : Text) : Text :=
  scheme ++ txt "://" ++ host ++ txt "?url=" ++ encode payload

def webLink (payload : Text) : Text := webOrigin ++ webPath ++ '#' :: encode payload

/-- `substringBefore`, and `substringAfter` with nothing for a miss. -/
def cutAt (c : Char) (t : Text) : Text × Text := (cut c t).getD (t, [])

def queryValue (query key : Text) : Option Text :=
  ((cutAt '#' query).1.splitOn '&').findSome? fun pair =>
    if (cutAt '=' pair).1 = key then some (cutAt '=' pair).2 else none

/-- The payload of what stands behind the prefix, one of the app's schemes or not. -/
def payloadOfRest (p : Platform) (ofScheme : Bool) (rest : Text) : Option Text :=
  let slashed := startsWith rest ['/']
  let rest := if slashed then rest.drop 1 else rest
  match rest with
  | [] => none
  | '#' :: encoded => nonEmpty (trim (decode p encoded))
  | '?' :: query =>
      (queryValue query (txt "url")).bind fun encoded => nonEmpty (trim (decode p encoded))
  | _ =>
      if slashed && ofScheme then
        nonEmpty (trim (if contains rest (txt "://") then rest else decode p rest))
      else none

def payloadOf (p : Platform) (uri : Text) : Option Text :=
  let text := trim uri
  let lower := lowercase text
  match schemePrefixes.find? (startsWith lower) with
  | some start => payloadOfRest p true (text.drop start.length)
  | none =>
      match webPrefixes.find? (startsWith lower) with
      | some start => payloadOfRest p false (text.drop start.length)
      | none => none

/-! ### What a link is to give back -/

/-- A percent sign and two hexadecimal digits. -/
def HasEscape (t : Text) : Prop := ∃ u, u <:+ t ∧ startsEscape u = true

/-- A link gives back what was put in it: encoded, and, where it has no escape, raw too. -/
def GivesBack (p : Platform) (t : Text) : Prop :=
  payloadOf p (schemeLink t) = some (trim t) ∧ payloadOf p (webLink t) = some (trim t) ∧
    (¬ HasEscape t → payloadOf p (webOrigin ++ webPath ++ '#' :: t) = some (trim t) ∧
      ('&' ∉ t → '#' ∉ t →
        payloadOf p (scheme ++ txt "://" ++ host ++ txt "?url=" ++ t) = some (trim t)))

/-- A percent sign and two digits of a number to base sixteen, of any script. -/
def takenAsByte : Text → Bool
  | '%' :: a :: b :: _ => (digitOf 16 a).isSome && (digitOf 16 b).isSome
  | _ => false

/-- `decode` changes the text: a character is a surrogate pair, or something is taken for a byte. -/
def altered : Text → Bool
  | [] => false
  | c :: t => decide (0x10000 ≤ c.toNat) || takenAsByte (c :: t) || altered t

/-! ### Bytes read with what waits before them -/

/-- The first byte of a character begins one. -/
theorem exists_lead (c : Char) : ∃ b bs, (String.utf8EncodeChar c).map UInt8.toNat = b :: bs ∧
    (b < 0x80 ∨ 0xBF < b) := by
  have hval : c.val.toNat = c.toNat := rfl
  have hvalid : c.toNat < 0x110000 := by
    have := c.valid
    unfold UInt32.isValidChar Nat.isValidChar at this
    omega
  unfold String.utf8EncodeChar
  dsimp only
  rw [hval]
  split
  · refine ⟨_, _, rfl, .inl ?_⟩
    rw [UInt8.toNat_ofNat']
    omega
  · split
    · refine ⟨_, _, rfl, .inr ?_⟩
      rw [UInt8.toNat_ofNat']
      omega
    · split
      · refine ⟨_, _, rfl, .inr ?_⟩
        rw [UInt8.toNat_ofNat']
        omega
      · refine ⟨_, _, rfl, .inr ?_⟩
        rw [UInt8.toNat_ofNat']
        omega

/-- A byte that begins a character ends whatever was begun. -/
theorem utf8From_lead_ends {s : Utf8State} (hs : Continues s) {b : Nat} (hb : b < 0x80 ∨ 0xBF < b)
    (bs : List Nat) : utf8From s (b :: bs) = utf8From s [] ++ utf8From {} (b :: bs) := by
  obtain ⟨hlower, hupper⟩ := hs
  have hnil : utf8From s [] = if s.needed = 0 then [] else [replacement] := by rw [utf8From]
  rw [hnil, @utf8From_lead {} rfl]
  by_cases hzero : s.needed = 0
  · rw [if_pos hzero, utf8From_lead hzero, List.nil_append]
  · rw [if_neg hzero, utf8From, if_neg hzero, if_pos (by omega)]
    rfl

/-- The bytes of a text end whatever was begun. -/
theorem utf8From_append_char {s : Utf8State} (hs : Continues s) (xs : List Nat) (c : Char)
    (ys : List Nat) :
    utf8From s (xs ++ ((String.utf8EncodeChar c).map UInt8.toNat ++ ys)) =
      utf8From s xs ++ c :: decodeToString ys := by
  induction xs generalizing s with
  | nil =>
      obtain ⟨b, bs, hbytes, hb⟩ := exists_lead c
      have hchar := utf8From_char c ys
      rw [hbytes, List.cons_append] at hchar ⊢
      rw [List.nil_append, utf8From_lead_ends hs hb, hchar]
      rfl
  | cons x xs ih =>
      rw [List.cons_append]
      by_cases hzero : s.needed = 0
      · rw [utf8From_lead hzero, utf8From_lead hzero, ih (continues_lead x), List.append_assoc]
      · by_cases hout : x < s.lower ∨ s.upper < x
        · rw [utf8From, if_neg hzero, if_pos hout, utf8From, if_neg hzero, if_pos hout,
            ih (continues_lead x), List.cons_append, List.append_assoc]
        · rw [not_or, not_lt, not_lt] at hout
          by_cases hone : s.needed = 1
          · rw [utf8From_last hone hout.1 hout.2, utf8From_last hone hout.1 hout.2,
              ih continues_nothing, List.cons_append]
          · rw [utf8From_next (by omega) hout.1 hout.2, utf8From_next (by omega) hout.1 hout.2]
            exact ih continues_nothing

/-- What a unit, or two, are decoded as, whatever was begun before. -/
theorem decodeToString_unit (p : Platform) (xs : List Nat) (c : Char) (ys : List Nat) :
    decodeToString (xs ++ (unitBytes p c ++ ys)) =
      decodeToString xs ++ (standIn p c ++ decodeToString ys) := by
  have hchar := fun xs => utf8From_append_char continues_nothing xs
  rw [unitBytes, standIn]
  split
  · rw [utf8_cons, utf8_nil, List.append_nil, decodeToString, hchar]
    rfl
  · rw [utf8_cons, utf8_cons, utf8_nil, List.append_nil, List.map_append, List.append_assoc,
      decodeToString, hchar]
    have hsecond := hchar [] p.lone ys
    rw [List.nil_append] at hsecond
    rw [decodeToString, hsecond]
    rfl

/-! ### What is decoded -/

theorem decodeBytes_unit {p : Platform} {c : Char} {t : Text} (h : takenAsByte (c :: t) = false) :
    decodeBytes p (c :: t) = unitBytes p c ++ decodeBytes p t := by
  rw [decodeBytes.eq_def]
  split
  · rename_i heq
    cases heq
  · rename_i a b u heq
    cases heq
    rw [takenAsByte, Bool.and_eq_false_iff, Option.isSome_eq_false_iff,
      Option.isSome_eq_false_iff, Option.isNone_iff_eq_none, Option.isNone_iff_eq_none] at h
    split
    · rename_i hhigh hlow
      rw [hhigh, hlow] at h
      rcases h with h | h <;> cases h
    · rfl
  · rename_i heq
    cases heq
    rfl

theorem takenAsByte_cases {t : Text} (h : takenAsByte t = true) :
    ∃ a b u high low, t = '%' :: a :: b :: u ∧ digitOf 16 a = some high ∧
      digitOf 16 b = some low := by
  unfold takenAsByte at h
  split at h
  · rename_i a b u
    rw [Bool.and_eq_true, Option.isSome_iff_exists, Option.isSome_iff_exists] at h
    obtain ⟨⟨high, hhigh⟩, low, hlow⟩ := h
    exact ⟨a, b, u, high, low, rfl, hhigh, hlow⟩
  · cases h

theorem decodeBytes_taken {p : Platform} {a b : Char} {t : Text} {high low : Nat}
    (hhigh : digitOf 16 a = some high) (hlow : digitOf 16 b = some low) :
    decodeBytes p ('%' :: a :: b :: t) = (high * 16 + low) :: decodeBytes p t := by
  rw [decodeBytes, hhigh, hlow]

/-- A text is decoded as itself where nothing in it is altered. -/
theorem decode_of_not_altered {p : Platform} {t : Text} (h : altered t = false) :
    decode p t = t := by
  induction t with
  | nil => rfl
  | cons c t ih =>
      rw [altered, Bool.or_eq_false_iff, Bool.or_eq_false_iff, decide_eq_false_iff_not] at h
      obtain ⟨⟨hc, htaken⟩, ht⟩ := h
      have hunit := decodeToString_unit p [] c (decodeBytes p t)
      rw [List.nil_append] at hunit
      rw [decode, decodeBytes_unit htaken, hunit, standIn, if_pos (by omega)]
      exact congrArg (c :: ·) (ih ht)

/-! ### Weight -/

/-- How many characters, those beyond the basic plane counted three times. -/
def weight (t : Text) : Nat := (t.map fun c => if c.toNat < 0x10000 then 1 else 3).sum

@[simp] theorem weight_nil : weight [] = 0 := rfl

theorem weight_cons (c : Char) (t : Text) :
    weight (c :: t) = (if c.toNat < 0x10000 then 1 else 3) + weight t := rfl

@[simp] theorem weight_append (t u : Text) : weight (t ++ u) = weight t + weight u := by
  rw [weight, List.map_append, List.sum_append]
  rfl

theorem weight_replacement : weight [replacement] = 1 := rfl

theorem toNat_lt_of_utf8Size {c : Char} (h : c.utf8Size ≤ 3) : c.toNat < 0x10000 := by
  by_contra hlarge
  have hval : c.val.toNat = c.toNat := rfl
  unfold Char.utf8Size at h
  dsimp only at h
  simp only [UInt32.le_iff_toNat_le, UInt32.toNat_ofNatLT] at h
  split_ifs at h <;> omega

/-- Bytes make no more weight than there are of them. -/
theorem weight_utf8From {s : Utf8State} {k : Nat} (hs : Begun s k) (bs : List Nat) :
    weight (utf8From s bs) ≤ k + bs.length := by
  induction bs generalizing s k with
  | nil =>
      obtain ⟨-, hbegun⟩ := hs
      rw [utf8From]
      split
      · exact Nat.zero_le _
      · rw [weight_replacement]
        omega
  | cons b bs ih =>
      have hlead : weight (utf8Lead b).1 + weight (utf8From (utf8Lead b).2 bs) ≤ 1 + bs.length := by
        rcases utf8Lead_cases b with ⟨c, hlead, hc⟩ | ⟨s', hlead, hbegun⟩
        · have hsmall : c.toNat < 0x10000 := by
            rcases hc with rfl | hc
            · decide
            · exact toNat_lt_of_utf8Size (by omega)
          have hrest := ih begun_nothing
          rw [hlead, weight_cons, if_pos hsmall, weight_nil]
          dsimp only
          omega
        · have hrest := ih hbegun
          rw [hlead, weight_nil, Nat.zero_add]
          exact hrest
      rw [List.length_cons]
      by_cases hzero : s.needed = 0
      · rw [utf8From_lead hzero, weight_append]
        omega
      · obtain ⟨hupper, hbegun⟩ := hs
        by_cases hout : b < s.lower ∨ s.upper < b
        · rw [utf8From, if_neg hzero, if_pos hout, weight_cons, weight_append]
          have : (if replacement.toNat < 0x10000 then 1 else 3) = 1 := rfl
          omega
        · rw [not_or, not_lt, not_lt] at hout
          by_cases hone : s.needed = 1
          · rw [utf8From_last hone hout.1 hout.2, weight_cons]
            have hrest := ih begun_nothing
            have hsize : (Char.ofNat (s.bits * 64 + (b - 0x80))).utf8Size ≤ k + 1 :=
              utf8Size_le (by omega) (by omega)
            split
            · omega
            · rename_i hlarge
              have hfour : ¬ (Char.ofNat (s.bits * 64 + (b - 0x80))).utf8Size ≤ 3 :=
                fun h => hlarge (toNat_lt_of_utf8Size h)
              omega
          · rw [utf8From_next (by omega) hout.1 hout.2]
            have hnext : Begun { needed := s.needed - 1, bits := s.bits * 64 + (b - 0x80) }
                (k + 1) := ⟨le_rfl, by dsimp only; omega⟩
            have hrest := ih hnext
            omega

theorem weight_standIn (p : Platform) (c : Char) :
    weight (standIn p c) = min 2 (weight [c]) := by
  rw [standIn, weight_cons]
  split
  · rename_i hc
    rw [weight_cons, if_pos hc]
    rfl
  · cases p <;> rfl

/-- What is decoded weighs less where something is altered, whatever bytes wait before it. -/
theorem weight_decode (p : Platform) (xs : List Nat) (t : Text) :
    weight (decodeToString (xs ++ decodeBytes p t)) ≤ xs.length + weight t ∧
      (altered t = true →
        weight (decodeToString (xs ++ decodeBytes p t)) < xs.length + weight t) := by
  induction hn : t.length using Nat.strong_induction_on generalizing xs t with
  | h n ih =>
      have hwaiting := weight_utf8From begun_nothing xs
      cases t with
      | nil =>
          rw [decodeBytes, List.append_nil, weight_nil, decodeToString]
          exact ⟨by omega, fun h => by cases h⟩
      | cons c t =>
          by_cases htaken : takenAsByte (c :: t) = true
          · obtain ⟨a, b, u, high, low, heq, hhigh, hlow⟩ := takenAsByte_cases htaken
            rw [heq] at hn ⊢
            have hrest := (ih u.length (by simp only [List.length_cons] at hn; omega)
              (xs ++ [high * 16 + low]) u rfl).1
            rw [List.append_assoc, List.singleton_append, List.length_append,
              List.length_singleton] at hrest
            have hthree : 3 + weight u ≤ weight ('%' :: a :: b :: u) := by
              rw [weight_cons, weight_cons, weight_cons]
              split_ifs <;> omega
            rw [decodeBytes_taken hhigh hlow]
            exact ⟨by omega, fun _ => by omega⟩
          · rw [Bool.not_eq_true] at htaken
            have hrest := ih t.length (by rw [← hn]; exact Nat.lt_succ_self _) [] t rfl
            rw [List.nil_append, List.length_nil, Nat.zero_add] at hrest
            rw [decodeBytes_unit htaken, decodeToString_unit, weight_append, weight_append,
              weight_standIn, altered, htaken, Bool.or_false, Bool.or_eq_true, decide_eq_true_eq]
            rw [weight_cons, weight_cons, weight_nil]
            have hxs : weight (decodeToString xs) ≤ xs.length := by
              rw [Nat.zero_add] at hwaiting
              exact hwaiting
            by_cases hc : c.toNat < 0x10000
            · rw [if_pos hc, or_iff_right (by omega)]
              exact ⟨by have := hrest.1; omega, fun ht => by have := hrest.2 ht; omega⟩
            · rw [if_neg hc]
              exact ⟨by have := hrest.1; omega, fun _ => by have := hrest.1; omega⟩

/-! ### White space around a text -/

/-- White space is no digit, and no half of a pair. -/
theorem digitOf_blank {c : Char} (h : isWhitespace c = true) : digitOf 16 c = none := by
  have hall : ∀ n ∈ [0x09, 0x0A, 0x0B, 0x0C, 0x0D, 0x1C, 0x1D, 0x1E, 0x1F, 0x20, 0xA0, 0x1680,
      0x2000, 0x2001, 0x2002, 0x2003, 0x2004, 0x2005, 0x2006, 0x2007, 0x2008, 0x2009, 0x200A,
      0x2028, 0x2029, 0x202F, 0x205F, 0x3000], digitOf 16 (Char.ofNat n) = none := by decide
  simp only [isWhitespace, Bool.or_eq_true, Bool.and_eq_true, decide_eq_true_eq, beq_iff_eq] at h
  have hnone := hall c.toNat (by simp only [List.mem_cons, List.not_mem_nil]; omega)
  rwa [Char.ofNat_toNat] at hnone

theorem toNat_blank {c : Char} (h : isWhitespace c = true) : c.toNat < 0x10000 := by
  simp only [isWhitespace, Bool.or_eq_true, Bool.and_eq_true, decide_eq_true_eq, beq_iff_eq] at h
  omega

theorem ne_percent_of_blank {c : Char} (h : isWhitespace c = true) : c ≠ '%' := by
  rintro rfl
  exact absurd h (by decide)

theorem takenAsByte_of_ne {c : Char} (h : c ≠ '%') (t : Text) : takenAsByte (c :: t) = false := by
  rw [takenAsByte.eq_def]
  split
  · rename_i heq
    exact absurd (List.cons.inj heq).1 h
  · rfl

/-- White space at the start is decoded as itself. -/
theorem decode_blank_append {p : Platform} {u : Text} (h : u.all isWhitespace = true) (t : Text) :
    decode p (u ++ t) = u ++ decode p t := by
  induction u with
  | nil => rfl
  | cons c u ih =>
      rw [List.all_cons, Bool.and_eq_true] at h
      have hunit := decodeToString_unit p [] c (decodeBytes p (u ++ t))
      rw [List.nil_append] at hunit
      rw [List.cons_append, decode,
        decodeBytes_unit (takenAsByte_of_ne (ne_percent_of_blank h.1) _), hunit, standIn,
        if_pos (toNat_blank h.1)]
      exact congrArg (c :: ·) (ih h.2)

theorem altered_blank_append {u : Text} (h : u.all isWhitespace = true) (t : Text) :
    altered (u ++ t) = altered t := by
  induction u with
  | nil => rfl
  | cons c u ih =>
      rw [List.all_cons, Bool.and_eq_true] at h
      have hsmall : ¬ 0x10000 ≤ c.toNat := by
        have := toNat_blank h.1
        omega
      rw [List.cons_append, altered, takenAsByte_of_ne (ne_percent_of_blank h.1), ih h.2,
        decide_eq_false hsmall]
      rfl

theorem altered_concat_blank {c : Char} (h : isWhitespace c = true) (t : Text) :
    altered (t ++ [c]) = altered t := by
  induction t with
  | nil => exact altered_blank_append (u := [c]) (by simp [h]) []
  | cons d t ih =>
      have htaken : takenAsByte (d :: (t ++ [c])) = takenAsByte (d :: t) := by
        by_cases hd : d = '%'
        · match t with
          | [] => rw [hd]; rfl
          | [e] =>
              rw [hd, List.singleton_append, takenAsByte, digitOf_blank h, Option.isSome_none,
                Bool.and_false]
              rfl
          | e :: f :: t => rw [hd]; rfl
        · rw [takenAsByte_of_ne hd, takenAsByte_of_ne hd]
      rw [List.cons_append, altered, altered, ih, htaken]

theorem altered_rdropWhile (t : Text) : altered (t.rdropWhile isWhitespace) = altered t := by
  induction t using List.reverseRecOn with
  | nil => rfl
  | append_singleton t c ih =>
      by_cases hc : isWhitespace c = true
      · rw [List.rdropWhile_concat_pos _ _ _ hc, ih, altered_concat_blank hc]
      · rw [List.rdropWhile_concat_neg _ _ _ hc]

/-- Trimming takes no weight from what stays. -/
theorem weight_trim_le (t : Text) : weight (trim t) ≤ weight t := by
  have hfront := congrArg weight (List.takeWhile_append_dropWhile (p := isWhitespace) (l := t))
  have hback := congrArg weight
    (List.rdropWhile_append_rtakeWhile (p := isWhitespace) (l := t.dropWhile isWhitespace))
  rw [weight_append] at hfront hback
  rw [trim, trimBy]
  omega

/-- A raw text comes back from a link where `decode` does not alter it, and only there. -/
theorem trim_decode_iff (p : Platform) (t : Text) :
    trim (decode p (t.rdropWhile isWhitespace)) = trim t ↔ altered t = false := by
  constructor
  · intro heq
    by_contra haltered
    rw [Bool.not_eq_false] at haltered
    -- what is decoded behind the leading white space weighs less than it did
    generalize hm : t.rdropWhile isWhitespace = m at heq
    have hsplit := List.takeWhile_append_dropWhile (p := isWhitespace) (l := m)
    have hlead : (m.takeWhile isWhitespace).all isWhitespace = true :=
      List.all_eq_true.mpr fun c hc => List.mem_takeWhile_imp hc
    have hcore : trim t = m.dropWhile isWhitespace := by
      rw [trim, ← trimBy_rdropWhile, hm, trimBy, List.rdropWhile_eq_self_iff]
      intro hne
      have hlast := List.rdropWhile_last_not (p := isWhitespace) (l := t) (by
        rw [hm]
        rintro rfl
        exact hne rfl)
      simp only [hm] at hlast
      rwa [(List.dropWhile_suffix isWhitespace).getLast hne]
    have hless : altered (m.dropWhile isWhitespace) = true := by
      rw [← altered_blank_append hlead, hsplit, ← hm, altered_rdropWhile, haltered]
    have hweight := (weight_decode p [] (m.dropWhile isWhitespace)).2 hless
    rw [← hsplit, decode_blank_append hlead, trim, trimBy_append_left hlead, hcore] at heq
    have hle := weight_trim_le (decode p (m.dropWhile isWhitespace))
    rw [trim, heq] at hle
    rw [List.nil_append, List.length_nil, Nat.zero_add] at hweight
    rw [decode] at hle
    omega
  · intro h
    rw [decode_of_not_altered ((altered_rdropWhile t).trans h), trim, trimBy_rdropWhile, trim]

/-! ### What is encoded -/

theorem digitOf_hexDigits : ∀ n < 16, digitOf 16 (hexDigits.getD n '0') = some n := by
  decide

theorem decodeBytes_encodeByte (p : Platform) (b : UInt8) (t : Text) :
    decodeBytes p (encodeByte b ++ t) = b.toNat :: decodeBytes p t := by
  have hb := b.toNat_lt
  unfold encodeByte
  dsimp only
  split
  · rename_i hplain
    have hsmall : b.toNat < 0x80 := UInt8.lt_iff_toNat_lt.mp hplain.1
    have hc : (Char.ofUInt8 b).toNat = b.toNat := rfl
    have hne : Char.ofUInt8 b ≠ '%' := by
      intro heq
      rw [heq] at hplain
      exact absurd hplain.2 (by decide)
    rw [List.singleton_append, decodeBytes_unit (takenAsByte_of_ne hne t), unitBytes, standIn,
      if_pos (by omega), utf8_cons, utf8EncodeChar_ascii (by omega), utf8_nil]
    change _ :: _ = _
    rw [toNat_byte (by omega), hc]
    rfl
  · rw [List.cons_append, List.cons_append, List.cons_append, List.nil_append,
      decodeBytes_taken (digitOf_hexDigits _ (by omega)) (digitOf_hexDigits _ (by omega)),
      Nat.div_add_mod']

theorem decode_encode (p : Platform) (t : Text) : decode p (encode t) = t := by
  have hbytes : ∀ bs : List UInt8, decodeBytes p (bs.flatMap encodeByte) = bs.map UInt8.toNat := by
    intro bs
    induction bs with
    | nil => rfl
    | cons b bs ih =>
        rw [List.flatMap_cons, decodeBytes_encodeByte, ih]
        rfl
  rw [decode, encode, hbytes, decodeToString_utf8]

theorem clear_of_unreserved : ∀ n < 0x80,
    (Char.ofNat n).isAlphanum = true ∨ Char.ofNat n ∈ txt "-._~" →
      isWhitespace (Char.ofNat n) = false ∧ Char.ofNat n ≠ '#' ∧ Char.ofNat n ≠ '&' := by
  decide

/-- An encoded text has no white space, and nothing that ends a query value. -/
theorem clear_of_mem_encode {t : Text} {c : Char} (h : c ∈ encode t) :
    isWhitespace c = false ∧ c ≠ '#' ∧ c ≠ '&' := by
  obtain ⟨b, -, hc⟩ := List.mem_flatMap.mp h
  have hdigit : ∀ n < 16, isWhitespace (hexDigits.getD n '0') = false ∧
      hexDigits.getD n '0' ≠ '#' ∧ hexDigits.getD n '0' ≠ '&' := by decide
  have hb := b.toNat_lt
  rw [encodeByte] at hc
  split at hc
  · rename_i hplain
    rw [List.mem_singleton.mp hc]
    have hclear := clear_of_unreserved b.toNat (UInt8.lt_iff_toNat_lt.mp hplain.1)
    have heq : Char.ofNat b.toNat = Char.ofUInt8 b := Char.ofNat_toNat (Char.ofUInt8 b)
    rw [heq] at hclear
    exact hclear hplain.2
  · simp only [List.mem_cons, List.not_mem_nil, or_false] at hc
    rcases hc with rfl | rfl | rfl
    · decide
    · exact hdigit _ (by omega)
    · exact hdigit _ (by omega)

/-! ### The link read -/

theorem payloadOf_web (p : Platform) (r : Text) :
    payloadOf p (webOrigin ++ webPath ++ '#' :: r) =
      nonEmpty (trim (decode p (r.rdropWhile isWhitespace))) := by
  have htext : trim (webOrigin ++ webPath ++ '#' :: r) =
      webOrigin ++ webPath ++ '#' :: r.rdropWhile isWhitespace :=
    trimBy_append_cons (fun d hd => by cases hd; rfl) (by decide) rfl r
  have hlower : lowercase (webOrigin ++ webPath ++ '#' :: r.rdropWhile isWhitespace) =
      webOrigin ++ webPath ++ '#' :: lowercase (r.rdropWhile isWhitespace) := by
    rw [lowercase, List.flatMap_append]
    rfl
  rw [payloadOf, htext, hlower]
  rfl

theorem queryValue_url {r : Text} (hhash : '#' ∉ r) (hamp : '&' ∉ r) :
    queryValue (txt "url=" ++ r) (txt "url") = some r := by
  have hcut : cut '#' (txt "url=" ++ r) = none := by
    rw [cut_eq_cutFirst, cutFirst_eq_none_iff, List.mem_append, not_or]
    exact ⟨by decide, hhash⟩
  have hone : '&' ∉ txt "url=" ++ r := by
    rw [List.mem_append, not_or]
    exact ⟨by decide, hamp⟩
  rw [queryValue, cutAt, hcut, Option.getD_none, splitOn_of_notMem hone]
  rfl

theorem payloadOf_scheme (p : Platform) {r : Text} (hhash : '#' ∉ r) (hamp : '&' ∉ r) :
    payloadOf p (scheme ++ txt "://" ++ host ++ txt "?url=" ++ r) =
      nonEmpty (trim (decode p (r.rdropWhile isWhitespace))) := by
  have hsub : ∀ c ∈ r.rdropWhile isWhitespace, c ∈ r :=
    fun c hc => (List.rdropWhile_prefix _ _).subset hc
  have htext : trim (scheme ++ txt "://" ++ host ++ txt "?url=" ++ r) =
      scheme ++ txt "://" ++ host ++ txt "?url" ++ '=' :: r.rdropWhile isWhitespace :=
    trimBy_append_cons (a := scheme ++ txt "://" ++ host ++ txt "?url")
      (fun d hd => by cases hd; rfl) (by decide) rfl r
  have hlower : lowercase (scheme ++ txt "://" ++ host ++ txt "?url" ++
      '=' :: r.rdropWhile isWhitespace) =
      scheme ++ txt "://" ++ host ++ txt "?url" ++
        '=' :: lowercase (r.rdropWhile isWhitespace) := by
    rw [lowercase, List.flatMap_append]
    rfl
  have hvalue := queryValue_url (fun h => hhash (hsub _ h)) (fun h => hamp (hsub _ h))
  rw [payloadOf, htext, hlower]
  change (queryValue (txt "url=" ++ r.rdropWhile isWhitespace) (txt "url")).bind _ = _
  rw [hvalue]
  rfl

theorem nonEmpty_trim {t : Text} (h : isBlank t = false) {u : Text} :
    nonEmpty (trim u) = some (trim t) ↔ trim u = trim t := by
  have hne : trim t ≠ [] := by
    rw [ne_eq, trim_eq_nil_iff, h]
    exact Bool.false_ne_true
  unfold nonEmpty
  split
  · rename_i hnil
    rw [hnil]
    exact iff_of_false (fun heq => by cases heq) (Ne.symm hne)
  · rw [Option.some_inj]

/-- What was encoded comes back. -/
theorem trim_decode_encode (p : Platform) (t : Text) :
    trim (decode p ((encode t).rdropWhile isWhitespace)) = trim t := by
  have hkept : (encode t).rdropWhile isWhitespace = encode t := by
    rw [List.rdropWhile_eq_self_iff]
    intro hne hblank
    rw [(clear_of_mem_encode (List.getLast_mem hne)).1] at hblank
    cases hblank
  rw [hkept, decode_encode]

/-- A link gives back what was put in it unless a text without an escape has a character beyond the
basic plane, or digits of another script behind a percent sign. -/
theorem givesBack_iff (p : Platform) (t : Text) (h : isBlank t = false) :
    GivesBack p t ↔ HasEscape t ∨ altered t = false := by
  have hencoded := (nonEmpty_trim h).mpr (trim_decode_encode p t)
  have hraw := (nonEmpty_trim h).trans (trim_decode_iff p t)
  have hhash : '#' ∉ encode t := fun hmem => (clear_of_mem_encode hmem).2.1 rfl
  have hamp : '&' ∉ encode t := fun hmem => (clear_of_mem_encode hmem).2.2 rfl
  rw [GivesBack, schemeLink, webLink, payloadOf_scheme p hhash hamp, payloadOf_web, payloadOf_web,
    hraw]
  constructor
  · intro hback
    by_cases hescape : HasEscape t
    · exact .inl hescape
    · exact .inr (hback.2.2 hescape).1
  · intro hcases
    refine ⟨hencoded, hencoded, fun hescape => ?_⟩
    have haltered := hcases.resolve_left hescape
    refine ⟨haltered, fun hamp hhash => ?_⟩
    rw [payloadOf_scheme p hhash hamp]
    exact hraw.mpr haltered

theorem givesBack_name :
    isBlank (txt "https://a.b/#Berlin") = false ∧ GivesBack .jvm (txt "https://a.b/#Berlin") :=
  ⟨by decide, (givesBack_iff .jvm _ (by decide)).mpr (.inr (by decide))⟩

/-- A flag in the name of a list handed over raw comes back as question marks. -/
theorem flag_comes_back_altered :
    isBlank (txt "https://a.b/#🇩🇪") = false ∧
      payloadOf .jvm (webOrigin ++ webPath ++ '#' :: txt "https://a.b/#🇩🇪") =
        some (txt "https://a.b/#????") ∧
      ¬ GivesBack .jvm (txt "https://a.b/#🇩🇪") := by
  have hread : payloadOf .jvm (webOrigin ++ webPath ++ '#' :: txt "https://a.b/#🇩🇪") =
      some (txt "https://a.b/#????") := by
    rw [payloadOf_web]
    decide
  refine ⟨by decide, hread, fun hback => ?_⟩
  have hescape : ¬ HasEscape (txt "https://a.b/#🇩🇪") := by
    rintro ⟨u, hu, hstarts⟩
    unfold startsEscape at hstarts
    split at hstarts
    · exact absurd (hu.subset List.mem_cons_self) (by decide)
    · cases hstarts
  have hraw := (hback.2.2 hescape).1
  rw [hread] at hraw
  exact absurd hraw (by decide)

end ImportLink

end Ghostlane.App
