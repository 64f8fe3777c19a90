import Ghostlane.App.Import
import Ghostlane.Cli.Fetch
import Mathlib.Data.List.ReduceOption

/-!
# Ghostlane.Across.HostUsage

What a list's host says of the quota and its end (`subscription-userinfo`), as the app keeps it
(`subscriptionProfile` of `data/datasource/LocationsDatasource.kt`) and as the CLI does
(`ParseHeaders`). The header is parts with a name and a number; of the parts with one name the
last counts.

The app adds and multiplies in 64 bits, without looking whether the result fits (`kept_iff`). Of
the parts the two read the same, but for characters the one takes for white space, a digit or a
letter and the other does not (`reads_alike`).
-/

namespace Ghostlane.Across

open Ghostlane.Lib App

/-! ### In the app -/

/-- A sum or a product of `Long`s. -/
def asLong (n : Int) : Int := (Int64.ofInt n).toInt

/-- A part of the header: a name and a number. -/
def usagePart (part : Text) : Option (Text × Int) := do
  let (k, v) ← cut '=' part
  let n ← toLongOrNull (trim v)
  return (lowercase (trim k), n)

/-- The parts of a header, with none where there is no header. -/
def usageParts (header : Option Text) : List Text := (header.map (·.splitOn ';')).getD []

/-- The values of the header, by name. -/
def info (header : Option Text) (name : Text) : Option Int :=
  lastValue ((usageParts header).filterMap usagePart) name

/-- The fields of a profile that the header gives. -/
def usage (header : Option Text) : SubscriptionProfile :=
  let moved := [info header (txt "upload"), info header (txt "download")].reduceOption
  { usedBytes := if moved = [] then none else some (moved.foldl (fun sum n => asLong (sum + n)) 0)
    totalBytes := (info header (txt "total")).filter (0 < ·)
    expiresAtEpochMs :=
      ((info header (txt "expire")).filter (0 < ·)).map fun seconds => asLong (seconds * 1000) }

/-! ### In the CLI -/

/-- An answer with this header, and others. -/
def withUsage (others : Cli.Fetch.HttpHeader) (header : Option Text) : Cli.Fetch.HttpHeader :=
  fun name => if name = txt "Subscription-Userinfo" then utf8 (header.getD []) else others name

/-- The values of `UserInfo`, by name. -/
def valueOf (u : Cli.Fetch.UserInfo) (name : Text) : Int :=
  if name = txt "upload" then u.upload
  else if name = txt "download" then u.download
  else if name = txt "total" then u.total
  else u.expire

/-- What the CLI reads; no header is nothing of each. -/
def cliValue (others : Cli.Fetch.HttpHeader) (header : Option Text) (name : Text) : Int :=
  valueOf ((Cli.Fetch.parseHeaders (withUsage others header)).userInfo.getD {}) name

def names : List Text := [txt "upload", txt "download", txt "total", txt "expire"]

/-! ### What is to be kept -/

/-- A quota and an end are kept as the numbers the header has, which are the CLI's. -/
structure Kept (others : Cli.Fetch.HttpHeader) (header : Option Text) : Prop where
  used : (usage header).usedBytes =
    match info header (txt "upload"), info header (txt "download") with
    | none, none => none
    | upload, download => some (upload.getD 0 + download.getD 0)
  total : (usage header).totalBytes = (info header (txt "total")).filter (0 < ·)
  expires : (usage header).expiresAtEpochMs =
    ((info header (txt "expire")).filter (0 < ·)).map (· * 1000)
  alike : ∀ name ∈ names, (info header name).getD 0 = cliValue others header name

/-- What the app reads in one part, for a name. -/
def appReads (name part : Text) : Option Int :=
  (usagePart part).bind fun p => if p.1 = name then some p.2 else none

/-- What the CLI reads in one part, for a name. -/
def cliReads (name part : Text) : Option Int :=
  let part := Cli.trimSpace part
  (Cli.atoi (Cli.trimSpace ((part.dropWhile (· != '=')).drop 1))).bind fun n =>
    if (Cli.trimSpace (part.takeWhile (· != '='))).map Cli.toLowerChar = name then some n else none

/-- What the last part gives that gives something. -/
def lastRead (read : Text → Option Int) (parts : List Text) : Option Int :=
  (parts.filterMap read).getLast?

/-- Where the last part that gives something gives it to one of two readers only, the other has
read the same before. -/
def Decided (f g : Text → Option Int) (parts : List Text) : Prop :=
  ∀ before part after, parts = before ++ part :: after →
    (∀ later ∈ after, f later = none ∧ g later = none) →
      match f part, g part with
      | some n, none => n = (lastRead g before).getD 0
      | none, some n => n = (lastRead f before).getD 0
      | _, _ => True

/-- The sum and the product fit 64 bits, and no part is read by one of the two only that makes a
difference. -/
structure Fits (header : Option Text) : Prop where
  used : ∀ upload download, info header (txt "upload") = some upload →
    info header (txt "download") = some download →
      -0x8000000000000000 ≤ upload + download ∧ upload + download < 0x8000000000000000
  expires : ∀ seconds, info header (txt "expire") = some seconds → 0 < seconds →
    seconds * 1000 < 0x8000000000000000
  decided : ∀ name ∈ names, Decided (appReads name) (cliReads name) (usageParts header)

/-! ### Numbers -/

theorem asLong_eq_iff {n : Int} :
    asLong n = n ↔ -0x8000000000000000 ≤ n ∧ n < 0x8000000000000000 := by
  have hsize : Int64.size = 0x10000000000000000 := rfl
  rw [asLong, Int64.toInt_ofInt, hsize, Int.bmod_def]
  split <;> omega

theorem toLongOrNull_eq_some {t : Text} {n : Int} (h : toLongOrNull t = some n) :
    (-0x8000000000000000 ≤ n ∧ n < 0x8000000000000000) ∧
      t ≠ [] ∧ ∀ c ∈ t, (digitOf 10 c).isSome = true ∨ c = '-' ∨ c = '+' := by
  unfold toLongOrNull at h
  split at h
  · obtain ⟨m, hm, hn⟩ := Option.bind_eq_some_iff.mp h
    split at hn
    · cases hn
      exact ⟨by omega, List.cons_ne_nil _ _, List.forall_mem_cons.mpr
        ⟨.inr (.inl rfl), fun c hc => .inl ((digitsValue_eq_some hm).2 c hc)⟩⟩
    · cases hn
  · obtain ⟨m, hm, hn⟩ := Option.bind_eq_some_iff.mp h
    split at hn
    · cases hn
      exact ⟨by omega, List.cons_ne_nil _ _, List.forall_mem_cons.mpr
        ⟨.inr (.inr rfl), fun c hc => .inl ((digitsValue_eq_some hm).2 c hc)⟩⟩
    · cases hn
  · obtain ⟨m, hm, hn⟩ := Option.bind_eq_some_iff.mp h
    split at hn
    · cases hn
      exact ⟨by omega, (digitsValue_eq_some hm).1,
        fun c hc => .inl ((digitsValue_eq_some hm).2 c hc)⟩
    · cases hn

theorem info_lt {header : Option Text} {name : Text} {n : Int} (h : info header name = some n) :
    -0x8000000000000000 ≤ n ∧ n < 0x8000000000000000 := by
  obtain ⟨p, hp, rfl⟩ := Option.map_eq_some_iff.mp h
  have hmem := List.mem_reverse.mp (List.mem_of_find?_eq_some hp)
  obtain ⟨part, -, hpart⟩ := List.mem_filterMap.mp hmem
  simp only [usagePart, Option.bind_eq_bind, Option.bind_eq_some_iff, Option.pure_def,
    Option.some.injEq] at hpart
  obtain ⟨⟨k, v⟩, -, n, hn, rfl⟩ := hpart
  exact (toLongOrNull_eq_some hn).1

/-! ### The last of the parts -/

section

variable {f g : Text → Option Int} {parts : List Text}

theorem lastRead_concat (f : Text → Option Int) (parts : List Text) (part : Text) :
    lastRead f (parts ++ [part]) = (f part).or (lastRead f parts) := by
  rw [lastRead, List.filterMap_append, lastRead]
  cases h : f part with
  | none => simp [h]
  | some n => simp [h]

/-- One more part that neither reads decides nothing. -/
theorem decided_concat_none {part : Text} (hf : f part = none) (hg : g part = none) :
    Decided f g (parts ++ [part]) ↔ Decided f g parts := by
  constructor
  · intro h before p after heq hafter
    refine h before p (after ++ [part]) (by rw [heq, List.append_assoc]; rfl) ?_
    exact List.forall_mem_append.mpr ⟨hafter, List.forall_mem_singleton.mpr ⟨hf, hg⟩⟩
  · intro h before p after heq hafter
    rcases List.eq_nil_or_concat after with rfl | ⟨after, last, rfl⟩
    · obtain ⟨-, hlast⟩ := List.append_inj' heq rfl
      cases hlast
      rw [hf, hg]
      trivial
    · rw [List.concat_eq_append, ← List.cons_append, ← List.append_assoc] at heq
      rw [List.concat_eq_append] at hafter
      exact h before p after (List.append_inj_left' heq rfl)
        fun later hlater => hafter later (List.mem_append_left _ hlater)

/-- One that either reads decides. -/
theorem decided_concat {part : Text} (hpart : ¬ (f part = none ∧ g part = none)) :
    Decided f g (parts ++ [part]) ↔
      match f part, g part with
      | some n, none => n = (lastRead g parts).getD 0
      | none, some n => n = (lastRead f parts).getD 0
      | _, _ => True := by
  constructor
  · intro h
    exact h parts part [] rfl fun _ hlater => nomatch hlater
  · intro h before p after heq hafter
    rcases List.eq_nil_or_concat after with rfl | ⟨after, last, rfl⟩
    · obtain ⟨rfl, hlast⟩ := List.append_inj' heq rfl
      cases hlast
      exact h
    · rw [List.concat_eq_append, ← List.cons_append, ← List.append_assoc] at heq
      obtain ⟨-, hlast⟩ := List.append_inj' heq rfl
      cases hlast
      exact absurd (hafter part (by simp)) hpart

/-- **Two readers come to the same** where what one of them alone reads decides nothing. -/
theorem lastRead_eq_iff (h : ∀ part a b, f part = some a → g part = some b → a = b) :
    (lastRead f parts).getD 0 = (lastRead g parts).getD 0 ↔ Decided f g parts := by
  induction parts using List.reverseRecOn with
  | nil =>
      refine iff_of_true rfl fun before part after heq => ?_
      cases before <;> cases heq
  | append_singleton parts part ih =>
      rw [lastRead_concat, lastRead_concat]
      cases hf : f part with
      | none =>
          cases hg : g part with
          | none => rw [decided_concat_none hf hg, ← ih, Option.none_or, Option.none_or]
          | some b =>
              rw [decided_concat (by simp [hg]), hf, hg]
              exact eq_comm
      | some a =>
          rw [decided_concat (by simp [hf]), hf]
          cases hg : g part with
          | none => rfl
          | some b => exact iff_of_true (h part a b hf hg) trivial

end

/-! ### What each reads -/

theorem info_eq (header : Option Text) (name : Text) :
    info header name = lastRead (appReads name) (usageParts header) := by
  rw [info, lastValue]
  generalize usageParts header = parts
  induction parts using List.reverseRecOn with
  | nil => rfl
  | append_singleton parts part ih =>
      rw [lastRead_concat, ← ih, appReads, List.filterMap_append, List.reverse_append]
      cases hpart : usagePart part with
      | none => simp [hpart]
      | some p =>
          by_cases hname : p.1 = name <;> simp [hpart, hname]

/-- One part, and what is read of it. -/
theorem valueOf_read (u : Cli.Fetch.UserInfo) (part : Text) {name : Text} (hname : name ∈ names) :
    valueOf (u.read (utf8 part)) name = (cliReads name part).getD (valueOf u name) := by
  have hequals : ('=' : Char).toNat < 0x80 := by decide
  rw [Cli.Fetch.UserInfo.read, cliReads]
  simp only [Cli.Strings.trimSpace_utf8, (cut_utf8 hequals _).1, (cut_utf8 hequals _).2,
    Cli.Strings.atoi_utf8, Cli.Strings.lowersTo_utf8]
  cases Cli.atoi _ with
  | none => rfl
  | some n =>
      generalize (Cli.trimSpace _).map Cli.toLowerChar = key
      simp only [names, List.mem_cons, List.not_mem_nil, or_false] at hname
      obtain ⟨hdu, htu, htd, heu, hed, het⟩ : txt "download" ≠ txt "upload" ∧
          txt "total" ≠ txt "upload" ∧ txt "total" ≠ txt "download" ∧
          txt "expire" ≠ txt "upload" ∧ txt "expire" ≠ txt "download" ∧
          txt "expire" ≠ txt "total" := by decide
      simp only [Option.bind_some, beq_iff_eq]
      rcases hname with rfl | rfl | rfl | rfl <;> split_ifs <;> simp_all [valueOf]

/-- A part is trimmed before it is read. -/
theorem cliReads_trimSpace (name part : Text) :
    cliReads name (Cli.trimSpace part) = cliReads name part := by
  have htrim : Cli.trimSpace (Cli.trimSpace part) = Cli.trimSpace part := trimBy_trimBy _ _
  rw [cliReads, cliReads, htrim]

/-- So trimming the header first makes no difference. -/
theorem lastRead_trimSpace (name header : Text) :
    lastRead (cliReads name) ((Cli.trimSpace header).splitOn ';') =
      lastRead (cliReads name) (header.splitOn ';') := by
  have hmap : ((Cli.trimSpace header).splitOn ';').map Cli.trimSpace =
      (header.splitOn ';').map Cli.trimSpace := map_trimBy_splitOn (by decide) header
  have hread : ∀ parts : List Text, parts.filterMap (cliReads name) =
      (parts.map Cli.trimSpace).filterMap (cliReads name) := by
    intro parts
    rw [List.filterMap_map]
    refine List.filterMap_congr fun part _ => ?_
    rw [Function.comp_apply, cliReads_trimSpace]
  rw [lastRead, lastRead, hread, hmap, ← hread]

theorem cliValue_eq (others : Cli.Fetch.HttpHeader) (header : Option Text) {name : Text}
    (hname : name ∈ names) :
    cliValue others header name = (lastRead (cliReads name) (usageParts header)).getD 0 := by
  have hempty : valueOf {} name = 0 := by
    unfold valueOf
    repeat' split
    all_goals rfl
  have hread : ∀ parts : List Text,
      valueOf (parts.foldl (fun u part => u.read (utf8 part)) {}) name =
        (lastRead (cliReads name) parts).getD 0 := by
    intro parts
    induction parts using List.reverseRecOn with
    | nil => exact hempty
    | append_singleton parts part ih =>
        rw [List.foldl_concat, valueOf_read _ _ hname, ih, lastRead_concat]
        cases cliReads name part <;> rfl
  have hheader : withUsage others header (txt "Subscription-Userinfo") = utf8 (header.getD []) :=
    if_pos rfl
  rw [cliValue, Cli.Fetch.parseHeaders, hheader, Cli.Strings.trimSpace_utf8]
  dsimp only
  cases header with
  | none =>
      have hnil : utf8 (Cli.trimSpace []) = [] := rfl
      rw [Option.getD_none, hnil, if_pos rfl, Option.getD_none, hempty]
      rfl
  | some t =>
      rw [Option.getD_some, usageParts, Option.map_some, Option.getD_some, ← lastRead_trimSpace]
      split
      · rename_i hnil
        have htrim : Cli.trimSpace t = [] := by
          rw [List.eq_nil_iff_forall_not_mem]
          exact fun c hc => utf8EncodeChar_ne_nil c (List.flatMap_eq_nil_iff.mp hnil c hc)
        rw [htrim, Option.getD_none, hempty]
        rfl
      · rw [Option.getD_some, splitOn_utf8 (by decide), List.foldl_map, hread]

/-! ### Where they read the same -/

/-- Digits are digits of ASCII to the CLI. -/
theorem digitsValue_of_digits {t : Text} {n : Nat} (h : Cli.digits t = some n) :
    digitsValue 10 t = some n := by
  rw [Cli.digits] at h
  split at h
  · rename_i hdigits
    rw [digitsValue_decimal hdigits.1 (List.all_eq_true.mp hdigits.2), ← h]
    exact congrArg (fun f => some (t.foldl f 0)) (by funext m c; rw [Nat.mul_comm])
  · cases h

theorem digits_of_digitsValue {t : Text} {n : Nat} (h : digitsValue 10 t = some n)
    (hplain : ∀ c ∈ t, (digitOf 10 c).isSome = true → c.isDigit = true) :
    Cli.digits t = some n := by
  obtain ⟨hne, hdigits⟩ := digitsValue_eq_some h
  have hall : ∀ c ∈ t, c.isDigit = true := fun c hc => hplain c hc (hdigits c hc)
  have hsome : (Cli.digits t).isSome = true := by
    rw [Cli.digits, if_pos ⟨hne, List.all_eq_true.mpr hall⟩]
    rfl
  obtain ⟨m, hm⟩ := Option.isSome_iff_exists.mp hsome
  rw [hm, ← digitsValue_of_digits hm, h]

theorem toLongOrNull_of_atoi {t : Text} {n : Int} (h : Cli.atoi t = some n) :
    toLongOrNull t = some n := by
  unfold Cli.atoi at h
  split at h
  all_goals
    obtain ⟨m, hm, hn⟩ := Option.bind_eq_some_iff.mp h
    have hvalue := digitsValue_of_digits hm
  · rw [toLongOrNull, hvalue]
    exact hn
  · rw [toLongOrNull, hvalue]
    exact hn
  · rename_i hminus hplus
    rw [toLongOrNull, hvalue]
    exact hn
    exact hminus
    exact hplus

theorem atoi_of_toLongOrNull {t : Text} {n : Int} (h : toLongOrNull t = some n)
    (hplain : ∀ c ∈ t, (digitOf 10 c).isSome = true → c.isDigit = true) :
    Cli.atoi t = some n := by
  unfold toLongOrNull at h
  split at h
  · obtain ⟨m, hm, hn⟩ := Option.bind_eq_some_iff.mp h
    rw [Cli.atoi, digits_of_digitsValue hm fun c hc => hplain c (List.mem_cons_of_mem _ hc)]
    exact hn
  · obtain ⟨m, hm, hn⟩ := Option.bind_eq_some_iff.mp h
    rw [Cli.atoi, digits_of_digitsValue hm fun c hc => hplain c (List.mem_cons_of_mem _ hc)]
    exact hn
  · rename_i hminus hplus
    obtain ⟨m, hm, hn⟩ := Option.bind_eq_some_iff.mp h
    rw [Cli.atoi, digits_of_digitsValue hm hplain]
    exact hn
    exact hminus
    exact hplus

theorem zero_of_digit {c : Char} (h : (digitOf 10 c).isSome = true) :
    ∃ z ∈ zeros, z ≤ c.toNat ∧ c.toNat < z + 10 := by
  cases hz : zeros.find? fun z => z ≤ c.toNat && c.toNat < z + 10 with
  | some z =>
      have hin := List.find?_some hz
      simp only [Bool.and_eq_true, decide_eq_true_eq] at hin
      exact ⟨z, List.mem_of_find?_eq_some hz, hin⟩
  | none =>
      -- a letter is ten at least
      exfalso
      revert h
      simp only [digitOf, hz]
      repeat' split
      all_goals simp [Option.filter]

/-- What a number is written with. -/
def numeral (c : Char) : Bool := (digitOf 10 c).isSome || c == '-' || c == '+'

/-- No white space of either is in a number. -/
theorem not_space_of_numeral {c : Char} (h : numeral c = true) :
    isWhitespace c = false ∧ Cli.isSpace c = false := by
  simp only [numeral, Bool.or_eq_true, beq_iff_eq] at h
  rcases h with (h | rfl) | rfl
  · -- a digit is one of ten behind a zero
    have htable : ∀ z ∈ zeros, ∀ k ∈ List.range 10, isWhitespace (Char.ofNat (z + k)) = false ∧
        Cli.isSpace (Char.ofNat (z + k)) = false := by decide
    obtain ⟨z, hz, hlow, hhigh⟩ := zero_of_digit h
    have hspec := htable z hz (c.toNat - z) (List.mem_range.mpr (by omega))
    rwa [Nat.add_sub_cancel' hlow, Char.ofNat_toNat] at hspec
  · decide
  · decide

section

variable {part k v : Text}

theorem appReads_cut (h : cut '=' part = some (k, v)) (name : Text) :
    appReads name part = (toLongOrNull (trim v)).bind fun n =>
      if lowercase (trim k) = name then some n else none := by
  rw [appReads, usagePart, h]
  cases hn : toLongOrNull (trim v) <;> simp [hn]

theorem cliReads_cut (h : cut '=' part = some (k, v)) (name : Text) :
    cliReads name part = (Cli.atoi (Cli.trimSpace v)).bind fun n =>
      if (Cli.trimSpace k).map Cli.toLowerChar = name then some n else none := by
  rw [cut_eq_cutFirst] at h
  obtain ⟨rfl, hk⟩ := cutFirst_eq_some_iff.mp h
  have hkept : ∀ c ∈ k.dropWhile Cli.isSpace, (c != '=') = true := by
    intro c hc
    rw [bne_iff_ne]
    rintro rfl
    exact hk ((List.dropWhile_suffix _).subset hc)
  have htrim : Cli.trimSpace (k ++ '=' :: v) =
      k.dropWhile Cli.isSpace ++ '=' :: v.rdropWhile Cli.isSpace := trimBy_around (by decide) k v
  have hname : Cli.trimSpace (k.dropWhile Cli.isSpace) = Cli.trimSpace k := trimBy_dropWhile k
  have hvalue : Cli.trimSpace (v.rdropWhile Cli.isSpace) = Cli.trimSpace v := trimBy_rdropWhile v
  rw [cliReads, htrim, List.dropWhile_append_of_pos hkept, List.takeWhile_append_of_pos hkept,
    List.dropWhile_cons_of_neg (by decide), List.takeWhile_cons_of_neg (by decide), List.append_nil,
    List.drop_one, List.tail_cons, hname, hvalue]

/-- A part without `=` is none. -/
theorem reads_of_notMem (h : '=' ∉ part) (name : Text) :
    appReads name part = none ∧ cliReads name part = none := by
  have hcut : cut '=' part = none := by rw [cut_eq_cutFirst, cutFirst_eq_none_iff.mpr h]
  refine ⟨by rw [appReads, usagePart, hcut]; rfl, ?_⟩
  have hkept : ∀ c ∈ Cli.trimSpace part, (c != '=') = true := by
    intro c hc
    rw [bne_iff_ne]
    rintro rfl
    exact h (mem_of_mem_trimBy hc)
  rw [cliReads, List.dropWhile_eq_nil_iff.mpr hkept]
  rfl

/-- What both read is one number. -/
theorem reads_agree {name : Text} {a b : Int} (happ : appReads name part = some a)
    (hcli : cliReads name part = some b) : a = b := by
  cases hcut : cut '=' part with
  | none =>
      rw [cut_eq_cutFirst, cutFirst_eq_none_iff] at hcut
      rw [(reads_of_notMem hcut name).1] at happ
      cases happ
  | some p =>
      obtain ⟨k, v⟩ := p
      rw [appReads_cut hcut] at happ
      rw [cliReads_cut hcut] at hcli
      obtain ⟨m, hm, happ⟩ := Option.bind_eq_some_iff.mp happ
      obtain ⟨n, hn, hcli⟩ := Option.bind_eq_some_iff.mp hcli
      have hlong := toLongOrNull_of_atoi hn
      -- either is what is left of the value without white space of either kind
      have hsame : ∀ t : Text, ∀ {x : Int}, toLongOrNull t = some x → t.filter numeral = t := by
        intro t x ht
        refine List.filter_eq_self.mpr fun c hc => ?_
        rcases (toLongOrNull_eq_some ht).2.2 c hc with h | rfl | rfl
        · simp [numeral, h]
        · rfl
        · rfl
      have happfilter : (trim v).filter numeral = v.filter numeral := filter_trimBy fun c _ hc => by
        by_contra hnum
        rw [(not_space_of_numeral (by simpa using hnum)).1] at hc
        cases hc
      have hclifilter : (Cli.trimSpace v).filter numeral = v.filter numeral :=
        filter_trimBy fun c _ hc => by
          by_contra hnum
          rw [(not_space_of_numeral (by simpa using hnum)).2] at hc
          cases hc
      rw [hsame _ hm] at happfilter
      rw [hsame _ hlong] at hclifilter
      rw [happfilter, ← hclifilter, hlong] at hm
      split at happ
      · split at hcli
        · cases happ
          cases hcli
          exact (Option.some.inj hm).symm
        · cases hcli
      · cases happ

/-- A character both take for the same: white space, a digit or a letter. -/
def Plain (c : Char) : Prop :=
  isWhitespace c = Cli.isSpace c ∧ c.toNat ≠ 0x130 ∧
    ((digitOf 10 c).isSome = true → c.isDigit = true)

instance (c : Char) : Decidable (Plain c) := inferInstanceAs (Decidable (_ ∧ _ ∧ _))

theorem trim_plain {t : Text} (h : ∀ c ∈ t, Plain c) : trim t = Cli.trimSpace t :=
  trimBy_congr fun c hc => (h c hc).1

theorem lowercase_plain {t : Text} (h : ∀ c ∈ t, Plain c) :
    lowercase t = t.map Cli.toLowerChar := by
  induction t with
  | nil => rfl
  | cons c t ih =>
      have hc := (h c List.mem_cons_self).2.1
      have hchar : lowercaseChar c = [Cli.toLowerChar c] := by
        unfold lowercaseChar Cli.toLowerChar
        split
        · rfl
        · rw [if_neg (by simpa using hc), if_neg (by simpa using hc)]
      rw [List.map_cons, ← ih fun d hd => h d (List.mem_cons_of_mem c hd), lowercase,
        List.flatMap_cons, hchar]
      rfl

/-- **Of plain characters both read the same.** -/
theorem reads_alike (h : ∀ c ∈ part, Plain c) (name : Text) :
    appReads name part = cliReads name part := by
  cases hcut : cut '=' part with
  | none =>
      rw [cut_eq_cutFirst, cutFirst_eq_none_iff] at hcut
      rw [(reads_of_notMem hcut name).1, (reads_of_notMem hcut name).2]
  | some p =>
      obtain ⟨k, v⟩ := p
      have heq : part = k ++ '=' :: v := by
        rw [cut_eq_cutFirst] at hcut
        exact (cutFirst_eq_some_iff.mp hcut).1
      rw [heq, List.forall_mem_append, List.forall_mem_cons] at h
      obtain ⟨hk, -, hv⟩ := h
      have hvalue : toLongOrNull (trim v) = Cli.atoi (Cli.trimSpace v) := by
        rw [trim_plain hv]
        cases hatoi : Cli.atoi (Cli.trimSpace v) with
        | some n => exact toLongOrNull_of_atoi hatoi
        | none =>
            cases hlong : toLongOrNull (Cli.trimSpace v) with
            | none => rfl
            | some n =>
                rw [atoi_of_toLongOrNull hlong
                  fun c hc => (hv c (mem_of_mem_trimBy hc)).2.2] at hatoi
                cases hatoi
      have hname : lowercase (trim k) = (Cli.trimSpace k).map Cli.toLowerChar := by
        rw [trim_plain hk]
        exact lowercase_plain fun c hc => hk c (mem_of_mem_trimBy hc)
      rw [appReads_cut hcut, cliReads_cut hcut, hvalue, hname]

/-- So a header of plain characters is read the same. -/
theorem decided_of_plain {t : Text} (h : ∀ c ∈ t, Plain c) (name : Text) :
    Decided (appReads name) (cliReads name) (usageParts (some t)) := by
  intro before part after heq _
  have hmem : part ∈ t.splitOn ';' := by
    rw [usageParts, Option.map_some, Option.getD_some] at heq
    rw [heq]
    exact List.mem_append_right _ List.mem_cons_self
  rw [reads_alike fun c hc => h c (mem_of_mem_splitOnP hmem c hc).1]
  cases cliReads name part <;> trivial

end

/-! ### The header -/

/-- What is used, in 64 bits. -/
theorem usedBytes_eq (header : Option Text) : (usage header).usedBytes =
    match info header (txt "upload"), info header (txt "download") with
    | none, none => none
    | upload, download => some (asLong (upload.getD 0 + download.getD 0)) := by
  have hzero : ∀ name n, info header name = some n → asLong (0 + n) = n := fun name n h => by
    rw [Int.zero_add]
    exact asLong_eq_iff.mpr (info_lt h)
  rw [usage]
  cases hu : info header (txt "upload") with
  | none =>
      cases hd : info header (txt "download") with
      | none => rfl
      | some d => simp [List.reduceOption]
  | some u =>
      cases hd : info header (txt "download") with
      | none => simp [List.reduceOption]
      | some d =>
          have hu := hzero _ _ hu
          rw [Int.zero_add] at hu
          simp [List.reduceOption, hu]

/-- **What a host says is kept** where it fits and where both read it. -/
theorem kept_iff (others : Cli.Fetch.HttpHeader) (header : Option Text) :
    Kept others header ↔ Fits header := by
  constructor
  · intro h
    refine ⟨fun upload download hu hd => ?_, fun seconds hs hpos => ?_, fun name hname => ?_⟩
    · have hused := h.used
      rw [usedBytes_eq, hu, hd] at hused
      exact asLong_eq_iff.mp (Option.some.inj hused)
    · have hexpires := h.expires
      rw [usage, hs, Option.filter_some_pos (by simpa using hpos)] at hexpires
      exact (asLong_eq_iff.mp (Option.some.inj hexpires)).2
    · rw [← lastRead_eq_iff fun _ _ _ => reads_agree, ← info_eq, ← cliValue_eq others header hname]
      exact h.alike name hname
  · intro h
    refine ⟨?_, rfl, ?_, fun name hname => ?_⟩
    · rw [usedBytes_eq]
      have hsum : ∀ u d, info header (txt "upload") = some u →
          info header (txt "download") = some d → asLong (u + d) = u + d :=
        fun u d hu hd => asLong_eq_iff.mpr (h.used u d hu hd)
      cases hu : info header (txt "upload") with
      | none =>
          cases hd : info header (txt "download") with
          | none => rfl
          | some d =>
              refine congrArg some (asLong_eq_iff.mpr ?_)
              simpa using info_lt hd
      | some u =>
          cases hd : info header (txt "download") with
          | none =>
              refine congrArg some (asLong_eq_iff.mpr ?_)
              simpa using info_lt hu
          | some d => exact congrArg some (hsum u d hu hd)
    · rw [usage]
      cases hs : info header (txt "expire") with
      | none => rfl
      | some seconds =>
          by_cases hpos : 0 < seconds
          · have hfits := h.expires seconds hs hpos
            have hlong : asLong (seconds * 1000) = seconds * 1000 :=
              asLong_eq_iff.mpr ⟨by omega, hfits⟩
            simp [Option.filter, hpos, hlong]
          · simp [Option.filter, hpos]
    · rw [info_eq, cliValue_eq others header hname, lastRead_eq_iff fun _ _ _ => reads_agree]
      exact h.decided name hname

/-- Counters that fit, and a sum that does not; seconds that fit, and milliseconds that do not. -/
theorem kept_not_always :
    ¬ Kept (fun _ => []) (some (txt "upload=9223372036854775807; download=1")) ∧
      ¬ Kept (fun _ => []) (some (txt "expire=9223372036854776")) := by
  refine ⟨fun h => ?_, fun h => ?_⟩
  · exact absurd h.used (by decide)
  · exact absurd h.expires (by decide)

end Ghostlane.Across
