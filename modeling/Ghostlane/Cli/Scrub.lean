import Ghostlane.Lib.Scan
import Ghostlane.Lib.Stretch
import Ghostlane.Cli.NetUrl

/-!
# Ghostlane.Cli.Scrub

What a log line loses before it is written (`internal/daemon/scrub.go`): five
expressions, each on what the one before left, the third of them
`store.MaskURL` on every URL.

The first two put `<key>` and `<uuid>` into the line, and an angle bracket ends a
URL for the third. A URL that holds neither a key nor a UUID, and stands alone in
its line, is found whole and masked (`hideURLs_alone`); of one that holds one,
only what is before it is.
-/

namespace Ghostlane.Cli

open Ghostlane.Lib Ghostlane.Lib.Bytes

/-! ### `store.MaskURL` -/

/-- `…` in UTF-8. -/
def ellipsis : Bytes := utf8 (txt "…")

/-- Hide the segment after `sub`, or the one after that when it is no known suffix. -/
def maskSegments : List Bytes → Option (List Bytes)
  | [] | [_] => none
  | s :: a :: rest =>
      if s = ascii "sub" then
        match rest with
        | b :: rest =>
            if b ≠ ascii "unified" ∧ b ≠ ascii "olcrtc" then some (s :: a :: ellipsis :: rest)
            else some (s :: ellipsis :: b :: rest)
        | [] => some [s, ellipsis]
      else (maskSegments (a :: rest)).map (s :: ·)

/-- Every value of a query but that of `c`. -/
def maskQuery (q : Bytes) : Bytes :=
  (ascii "&").intercalate ((q.splitOn (byte '&')).map fun kv =>
    let k := before (byte '=') kv
    if k = ascii "c" then kv else k ++ byte '=' :: ellipsis)

/-- `MaskURL`. -/
def maskURL (u : Bytes) : Bytes :=
  match NetUrl.parse u with
  | none => ellipsis
  | some p =>
      let segs := (trimBy (· == byte '/') p.path).splitOn (byte '/')
      let out := p.scheme ++ ascii "://" ++ p.host ++ ascii "/" ++
        (ascii "/").intercalate ((maskSegments segs).getD [ellipsis])
      if p.rawQuery = [] then out else out ++ byte '?' :: maskQuery p.rawQuery

/-! ### The five expressions -/

/-- `\s`. -/
def isBlankByte (b : UInt8) : Bool := (ascii "\t\n\x0c\r ").contains b

/-- The text begins with one byte of each class, in order. -/
def fits : List (UInt8 → Bool) → Bytes → Bool
  | [], _ => true
  | _ :: _, [] => false
  | p :: ps, b :: t => p b && fits ps t

/-- An expression that takes one byte of each class. -/
def shape (classes : List (UInt8 → Bool)) : Matcher UInt8 := fun t =>
  if fits classes t then classes.length else 0

def keyClasses : List (UInt8 → Bool) := .replicate 64 isHex

def uuidClasses : List (UInt8 → Bool) :=
  let dash : List (UInt8 → Bool) := [(· == byte '-')]
  .replicate 8 isHex ++ dash ++ .replicate 4 isHex ++ dash ++ .replicate 4 isHex ++ dash ++
    .replicate 4 isHex ++ dash ++ .replicate 12 isHex

def hexKey : Matcher UInt8 := shape keyClasses

def uuidRe : Matcher UInt8 := shape uuidClasses

/-- `[^\s"'<>]`. -/
def isUrlByte (b : UInt8) : Bool := !(isBlankByte b || (ascii "\"'<>").contains b)

/-- How much of the front `https?://` takes. -/
def schemeLength (t : Bytes) : Nat :=
  if starts t (ascii "http://") then 7 else if starts t (ascii "https://") then 8 else 0

def anyURL : Matcher UInt8 := fun t =>
  let k := schemeLength t
  let n := ((t.drop k).takeWhile isUrlByte).length
  if k = 0 ∨ n = 0 then 0 else k + n

/-- `[^/\s?#"']`. -/
def isSegmentByte (b : UInt8) : Bool := !(isBlankByte b || (ascii "/?#\"'").contains b)

def subPath : Matcher UInt8 := fun t =>
  if starts t (ascii "/sub/") then
    let n := ((t.drop 5).takeWhile isSegmentByte).length
    if n = 0 then 0
    else match t.drop (5 + n) with
      | c :: rest =>
          let k := (rest.takeWhile isSegmentByte).length
          if c = byte '/' ∧ k ≠ 0 then 5 + n + 1 + k else 5 + n
      | [] => 5 + n
  else 0

/-- What is left after a lower-case ASCII word in any case; the long s and the
Kelvin sign fold with `s` and `k`. -/
def afterWord : Text → Bytes → Option Bytes
  | [], t => some t
  | c :: word, t =>
      let unusual := if c = 'k' then utf8 ['\u212a'] else if c = 's' then utf8 ['ſ'] else []
      if t.head?.map lower = some (byte c) then afterWord word (t.drop 1)
      else if unusual ≠ [] ∧ starts t unusual then afterWord word (t.drop unusual.length)
      else none

def tokenKV : Matcher UInt8 := fun t =>
  let rests := [txt "token", txt "key", txt "password", txt "pass"].filterMap fun word =>
    (afterWord word t).bind fun rest =>
      let value := (rest.drop 1).takeWhile fun b => !(isBlankByte b || (ascii "&\"'").contains b)
      if rest.head? = some (byte '=') ∧ value ≠ [] then some (rest.drop (1 + value.length))
      else none
  match rests with
  | rest :: _ => t.length - rest.length
  | [] => 0

/-! ### `Scrub` -/

def hideKeys (s : Bytes) : Bytes := replaceAll hexKey (fun _ => ascii "<key>") s

def hideUuids (s : Bytes) : Bytes := replaceAll uuidRe (fun _ => ascii "<uuid>") s

/-- The first two expressions. -/
def hideIds (s : Bytes) : Bytes := hideUuids (hideKeys s)

/-- The third. -/
def hideURLs (s : Bytes) : Bytes := replaceAll anyURL maskURL s

/-- The mask of a bare `/sub/` path, cut out of a URL made for it; the slice
panics when that URL does not parse. -/
def maskPath (m : Bytes) : Option Bytes :=
  let out := maskURL (ascii "x://h" ++ m)
  if 5 ≤ out.length then some (out.drop 5) else none

/-- The last two: bare list paths, then credentials by name. -/
def hideRest (s : Bytes) : Option Bytes :=
  (replaceAllM subPath maskPath s).map fun s =>
    replaceAll tokenKV (fun found => before (byte '=') found ++ byte '=' :: ellipsis) s

/-- `Scrub`; `none` where it panics. -/
def scrub (s : Bytes) : Option Bytes := hideRest (hideURLs (hideIds s))

/-! ### Where an expression cannot look further -/

/-- `t` is empty or begins with a byte for which `p`. -/
def Begins (p : UInt8 → Prop) (t : Bytes) : Prop := ∀ b ∈ t.head?, p b

theorem fits_length {ps : List (UInt8 → Bool)} {t : Bytes} (h : fits ps t = true) :
    ps.length ≤ t.length := by
  induction ps generalizing t with
  | nil => exact Nat.zero_le _
  | cons p ps ih =>
      cases t with
      | nil => cases h
      | cons b t =>
          simp only [fits, Bool.and_eq_true] at h
          simpa using ih h.2

theorem fits_append {ps : List (UInt8 → Bool)} {x t : Bytes}
    (h : Begins (fun b => ∀ p ∈ ps, p b = false) t) : fits ps (x ++ t) = fits ps x := by
  induction ps generalizing x with
  | nil => simp [fits]
  | cons p ps ih =>
      have hps : Begins (fun b => ∀ p ∈ ps, p b = false) t :=
        fun b hb q hq => h b hb q (List.mem_cons_of_mem p hq)
      cases x with
      | cons c x => simp only [List.cons_append, fits, ih hps]
      | nil =>
          cases t with
          | nil => rfl
          | cons b t => simp [fits, h b rfl p (List.mem_cons_self ..)]

theorem shape_separates {ps : List (UInt8 → Bool)} {t : Bytes}
    (h : Begins (fun b => ∀ p ∈ ps, p b = false) t) (a : Bytes) : Separates (shape ps) a t := by
  intro x _ _
  simp only [shape, fits_append h, true_and]
  split
  · exact fits_length ‹_›
  · exact Nat.zero_le _

/-- A literal begun in `x` does not go on into what begins with another byte. -/
theorem isPrefixOf_append {literal x t : Bytes} (h : Begins (· ∉ literal) t) :
    literal.isPrefixOf (x ++ t) = literal.isPrefixOf x := by
  induction literal generalizing x with
  | nil => simp
  | cons l literal ih =>
      have hl : Begins (· ∉ literal) t := fun b hb hmem => h b hb (List.mem_cons_of_mem l hmem)
      cases x with
      | cons c x => simp only [List.cons_append, List.isPrefixOf_cons_cons, ih hl]
      | nil =>
          cases t with
          | nil => rfl
          | cons b t =>
              have hne : l ≠ b := fun heq => h b rfl (heq ▸ List.mem_cons_self ..)
              simp [List.isPrefixOf_cons_cons, hne]

theorem schemeLength_le (t : Bytes) : schemeLength t ≤ t.length := by
  have hlength {literal : Bytes} (h : starts t literal = true) : literal.length ≤ t.length :=
    (List.isPrefixOf_iff_prefix.mp h).length_le
  unfold schemeLength
  split
  · exact hlength ‹_›
  · split
    · exact hlength ‹_›
    · exact Nat.zero_le _

theorem schemeLength_congr {x y : Bytes}
    (hhttp : starts x (ascii "http://") = starts y (ascii "http://"))
    (hhttps : starts x (ascii "https://") = starts y (ascii "https://")) :
    schemeLength x = schemeLength y := by
  unfold schemeLength
  rw [hhttp, hhttps]

theorem anyURL_le (t : Bytes) : anyURL t ≤ t.length := by
  have hscheme := schemeLength_le t
  have hrun := (List.takeWhile_prefix isUrlByte (l := t.drop (schemeLength t))).length_le
  rw [List.length_drop] at hrun
  unfold anyURL
  dsimp only
  split <;> omega

/-- A match that ends inside `x`, or at the end of it before a byte no URL has. -/
theorem anyURL_append {x t : Bytes} (hscheme : schemeLength (x ++ t) = schemeLength x)
    (hrun : schemeLength x ≠ 0 → Begins (fun b => isUrlByte b = false) t ∨
      (x.drop (schemeLength x)).all isUrlByte = false) :
    anyURL (x ++ t) = anyURL x := by
  unfold anyURL
  dsimp only
  rw [hscheme]
  by_cases hk : schemeLength x = 0
  · rw [if_pos (.inl hk), if_pos (.inl hk)]
  · suffices hsame : ((x ++ t).drop (schemeLength x)).takeWhile isUrlByte =
        (x.drop (schemeLength x)).takeWhile isUrlByte by rw [hsame]
    rw [List.drop_append_of_le_length (schemeLength_le x), List.takeWhile_append]
    split
    · rename_i hlen
      have hall : (x.drop (schemeLength x)).takeWhile isUrlByte = x.drop (schemeLength x) :=
        (List.takeWhile_prefix _).eq_of_length hlen
      rcases hrun hk with hstop | hnot
      · have hnil : t.takeWhile isUrlByte = [] := by
          cases t with
          | nil => rfl
          | cons b t => simp [hstop b rfl]
        rw [hnil, List.append_nil, hall]
      · rw [← hall, List.all_takeWhile] at hnot
        cases hnot
    · rfl

/-- Is a URL still open at the end of the text? -/
def endsInURL (t : Bytes) : Bool :=
  t.tails.any fun x => schemeLength x ≠ 0 && (x.drop (schemeLength x)).all isUrlByte

/-- Before what is neither in a URL nor empty, a URL is over. -/
theorem anyURL_separates_stop {t : Bytes} (h : Begins (fun b => isUrlByte b = false) t)
    (a : Bytes) :
    Separates anyURL a t := by
  have hlit : ∀ literal : Bytes, literal.all isUrlByte = true → Begins (· ∉ literal) t :=
    fun literal hall b hb hmem => by
      have := List.all_eq_true.mp hall b hmem
      rw [h b hb] at this
      cases this
  intro x _ _
  refine ⟨anyURL_append (schemeLength_congr ?_ ?_) fun _ => .inl h, anyURL_le x⟩
  · exact isPrefixOf_append (hlit _ (by decide))
  · exact isPrefixOf_append (hlit _ (by decide))

/-- Where no URL is open, what begins with an `h` begins anew. -/
theorem anyURL_separates_start {a t : Bytes} (hopen : endsInURL a = false)
    (h : t.head? = some (byte 'h')) : Separates anyURL a t := by
  intro x hx hne
  refine ⟨anyURL_append ?_ fun hk => .inr ?_, anyURL_le x⟩
  · obtain ⟨c, x, rfl⟩ := List.exists_cons_of_ne_nil hne
    -- the `h` of a scheme is its first byte, so no scheme begun in `x` goes on there
    have htail : ∀ literal : Bytes, byte 'h' ∉ literal →
        (byte 'h' :: literal).isPrefixOf (c :: x ++ t) =
          (byte 'h' :: literal).isPrefixOf (c :: x) := by
      intro literal hmem
      have hbegins : Begins (· ∉ literal) t := by
        intro b hb
        rw [h, Option.mem_some_iff] at hb
        exact hb ▸ hmem
      rw [List.cons_append, List.isPrefixOf_cons_cons, List.isPrefixOf_cons_cons,
        isPrefixOf_append hbegins]
    exact schemeLength_congr (htail (ascii "ttp://") (by decide))
      (htail (ascii "ttps://") (by decide))
  · have hnot := List.any_eq_false.mp hopen x ((List.mem_tails _ _).mpr hx)
    simpa [hk] using hnot

/-! ### A URL that stands alone -/

/-- Does the text hold a key or a UUID? -/
def holdsId (t : Bytes) : Bool := t.tails.any fun x => hexKey x != 0 || uuidRe x != 0

/-- A URL the third expression finds whole: spelled `http://` or `https://` with
something after it, of bytes it takes, and with nothing for the first two to replace. -/
structure Plain (u : Bytes) : Prop where
  scheme : schemeLength u ≠ 0
  rest : u.drop (schemeLength u) ≠ []
  bytes : u.all isUrlByte = true
  ids : holdsId u = false

theorem Plain.head {u : Bytes} (h : Plain u) : u.head? = some (byte 'h') := by
  have hhead : ∀ literal : Bytes, starts u (byte 'h' :: literal) = true →
      u.head? = some (byte 'h') := by
    intro literal hlit
    obtain ⟨t, rfl⟩ := List.isPrefixOf_iff_prefix.mp hlit
    rfl
  have hscheme := h.scheme
  unfold schemeLength at hscheme
  split at hscheme
  · exact hhead (ascii "ttp://") ‹_›
  · split at hscheme
    · exact hhead (ascii "ttps://") ‹_›
    · exact absurd rfl hscheme

theorem Plain.whole {u : Bytes} (h : Plain u) : anyURL u = u.length := by
  have hrun : (u.drop (schemeLength u)).takeWhile isUrlByte = u.drop (schemeLength u) := by
    rw [List.takeWhile_eq_self_iff]
    intro b hb
    exact List.all_eq_true.mp h.bytes b (List.mem_of_mem_drop hb)
  have hle := schemeLength_le u
  have hpos : (u.drop (schemeLength u)).length ≠ 0 := fun hlen =>
      h.rest (List.length_eq_zero_iff.mp hlen)
  unfold anyURL
  dsimp only
  rw [hrun, if_neg (by simp only [h.scheme, hpos, or_self, not_false_eq_true]), List.length_drop]
  omega

/-- The bytes neither of the first two expressions takes. -/
def OutsideIds (b : UInt8) : Prop := isHex b = false ∧ b ≠ byte '-'

theorem OutsideIds.key {b : UInt8} (h : OutsideIds b) : ∀ p ∈ keyClasses, p b = false := by
  intro p hp
  rw [List.eq_of_mem_replicate hp]
  exact h.1

theorem OutsideIds.uuid {b : UInt8} (h : OutsideIds b) : ∀ p ∈ uuidClasses, p b = false := by
  intro p hp
  simp only [uuidClasses, List.mem_append, List.mem_replicate, List.mem_singleton] at hp
  have hdash : (b == byte '-') = false := beq_eq_false_iff_ne.mpr h.2
  rcases hp with
    (((((((⟨-, rfl⟩ | rfl) | ⟨-, rfl⟩) | rfl) | ⟨-, rfl⟩) | rfl) | ⟨-, rfl⟩) | rfl) | ⟨-, rfl⟩
  all_goals first | exact h.1 | exact hdash

/-- What ends a URL ends a key and a UUID, too. -/
theorem outsideIds_of_stop {b : UInt8} (h : isUrlByte b = false) : OutsideIds b := by
  simp only [isUrlByte, isBlankByte, Bool.not_eq_false', Bool.or_eq_true,
    List.contains_iff_mem] at h
  have hall : (ascii "\t\n\x0c\r " ++ ascii "\"'<>").all (fun b => !isHex b && b != byte '-') =
      true := by
    decide
  simpa [OutsideIds] using List.all_eq_true.mp hall b (List.mem_append.mpr h)

/-- A text such an expression takes nothing of stays where it stands. -/
theorem replaceAll_shape_around {ps : List (UInt8 → Bool)} (f : Bytes → Bytes) {u t : Bytes}
    (a : Bytes) (hu : ∀ x, x <:+ u → shape ps x = 0)
    (hstart : Begins (fun b => ∀ p ∈ ps, p b = false) (u ++ t))
    (hstop : Begins (fun b => ∀ p ∈ ps, p b = false) t) :
    replaceAll (shape ps) f (a ++ (u ++ t)) =
      replaceAll (shape ps) f a ++ (u ++ replaceAll (shape ps) f t) := by
  rw [replaceAll_append (shape_separates hstart a), replaceAll_append (shape_separates hstop u),
    replaceAll_eq_self f hu]

/-- A first byte such an expression does not take stays first. -/
theorem head_replaceAll_shape {ps : List (UInt8 → Bool)} (hne : ps ≠ []) (f : Bytes → Bytes)
    {t : Bytes} (h : Begins (fun b => ∀ p ∈ ps, p b = false) t) :
    (replaceAll (shape ps) f t).head? = t.head? := by
  obtain ⟨p, ps, rfl⟩ := List.exists_cons_of_ne_nil hne
  cases t with
  | nil => rfl
  | cons b t =>
      have hnone : shape (p :: ps) (b :: t) = 0 := by
        simp [shape, fits, h b rfl p (List.mem_cons_self ..)]
      rw [replaceAll_cons f hnone]
      rfl

/-- The first two expressions leave a plain URL as it is, and what ends it. -/
theorem hideIds_around {u t : Bytes} (a : Bytes) (hu : Plain u)
    (ht : Begins (fun b => isUrlByte b = false) t) :
    hideIds (a ++ (u ++ t)) = hideIds a ++ (u ++ hideIds t) ∧ (hideIds t).head? = t.head? := by
  have hids : ∀ x, x <:+ u → hexKey x = 0 ∧ uuidRe x = 0 := by
    intro x hx
    have := List.any_eq_false.mp hu.ids x ((List.mem_tails _ _).mpr hx)
    simpa using this
  have hstop : Begins OutsideIds t := fun b hb => outsideIds_of_stop (ht b hb)
  have hstart : ∀ t' : Bytes, Begins OutsideIds (u ++ t') := by
    intro t' b hb
    rw [List.head?_append, hu.head, Option.some_or, Option.mem_some_iff] at hb
    subst hb
    exact ⟨by decide, by decide⟩
  have hkeyHead : (hideKeys t).head? = t.head? :=
    head_replaceAll_shape (by decide) _ fun b hb => (hstop b hb).key
  have hkeyStop : Begins OutsideIds (hideKeys t) := by
    intro b hb
    rw [hkeyHead] at hb
    exact hstop b hb
  refine ⟨?_, ?_⟩
  · have hkey : hideKeys (a ++ (u ++ t)) = hideKeys a ++ (u ++ hideKeys t) :=
      replaceAll_shape_around _ a (fun x hx => (hids x hx).1) (fun b hb => (hstart t b hb).key)
        fun b hb => (hstop b hb).key
    rw [hideIds, hkey]
    exact replaceAll_shape_around _ _ (fun x hx => (hids x hx).2)
      (fun b hb => (hstart _ b hb).uuid) fun b hb => (hkeyStop b hb).uuid
  · refine Eq.trans ?_ hkeyHead
    exact head_replaceAll_shape (by decide) _ fun b hb => (hkeyStop b hb).uuid

/-- A plain URL where no other is open, up to what ends it, is replaced by its mask. -/
theorem hideURLs_alone {a u t : Bytes} (hopen : endsInURL a = false) (hu : Plain u)
    (ht : Begins (fun b => isUrlByte b = false) t) :
    hideURLs (a ++ (u ++ t)) = hideURLs a ++ (maskURL u ++ hideURLs t) := by
  have hhead : (u ++ t).head? = some (byte 'h') := by
    rw [List.head?_append, hu.head, Option.some_or]
  have hne : u ≠ [] := by
    rintro rfl
    cases hu.head
  unfold hideURLs
  rw [replaceAll_append (anyURL_separates_start hopen hhead),
    replaceAll_append (anyURL_separates_stop ht u), replaceAll_of_whole _ hne hu.whole]

theorem scrub_around {a u t : Bytes} (hopen : endsInURL (hideIds a) = false) (hu : Plain u)
    (ht : Begins (fun b => isUrlByte b = false) t) :
    scrub (a ++ (u ++ t)) =
      hideRest (hideURLs (hideIds a) ++ (maskURL u ++ hideURLs (hideIds t))) := by
  obtain ⟨hids, hhead⟩ := hideIds_around a hu ht
  have ht' : Begins (fun b => isUrlByte b = false) (hideIds t) := by
    intro b hb
    rw [hhead] at hb
    exact ht b hb
  rw [scrub, hids, hideURLs_alone hopen hu ht']

/-! ### Bare list paths -/

/-- The bare list paths of a line, where its keys, UUIDs and URLs are masked. -/
def barePaths (s : Bytes) : List Bytes := hits subPath (hideURLs (hideIds s))

/-- A path `url.Parse` takes: no control byte, and after each percent sign two hexadecimal
digits. -/
structure Readable (m : Bytes) : Prop where
  printable : ∀ b ∈ m, 0x20 ≤ b ∧ b ≠ 0x7F
  escapes : ∀ x, byte '%' :: x <:+ m → ∃ a b rest, x = a :: b :: rest ∧ isHex a ∧ isHex b

/-- Where a path begins with an escape, what is asked of its percent signs is asked of those
behind it. -/
theorem escapes_cons_iff {P : Bytes → Prop} {a b : UInt8} (ha : isHex a = true)
    (hb : isHex b = true) (rest : Bytes) :
    (∀ x, byte '%' :: x <:+ byte '%' :: a :: b :: rest → P x) ↔
      P (a :: b :: rest) ∧ ∀ x, byte '%' :: x <:+ rest → P x := by
  -- a hexadecimal digit is no percent sign
  have hdigit : ∀ {d : UInt8} {x t : Bytes}, isHex d = true → byte '%' :: x ≠ d :: t := by
    intro d x t hd heq
    cases heq
    exact absurd hd (by decide)
  simp only [List.suffix_cons_iff, hdigit ha, hdigit hb, false_or, List.cons.injEq, true_and,
    or_imp, forall_and, forall_eq]

/-- A path is unescaped where its percent signs begin escapes. -/
theorem exists_unescape_iff (m : Bytes) : (∃ t, NetUrl.unescape .path m = some t) ↔
    ∀ x, byte '%' :: x <:+ m → ∃ a b rest, x = a :: b :: rest ∧ isHex a ∧ isHex b := by
  -- an escape is three bytes, so the induction is on the length
  induction hn : m.length using Nat.strong_induction_on generalizing m with
  | h n ih =>
      cases m with
      | nil => exact iff_of_true ⟨[], rfl⟩ fun x hx => absurd (List.suffix_nil.mp hx) nofun
      | cons c m =>
          by_cases hc : c = byte '%'
          · subst hc
            have hself : byte '%' :: m <:+ byte '%' :: m := List.suffix_refl _
            rcases m with _ | ⟨a, _ | ⟨b, rest⟩⟩
            · refine iff_of_false (by simp [NetUrl.unescape]) fun h => ?_
              obtain ⟨a, b, rest, heq, -⟩ := h _ hself
              cases heq
            · refine iff_of_false (by simp [NetUrl.unescape]) fun h => ?_
              obtain ⟨a, b, rest, heq, -⟩ := h _ hself
              cases heq
            · by_cases hhex : isHex a = true ∧ isHex b = true
              · have hrest := ih rest.length (by rw [← hn]; simp only [List.length_cons]; omega)
                  rest rfl
                rw [escapes_cons_iff hhex.1 hhex.2, ← hrest]
                simp [NetUrl.unescape, NetUrl.escapeAllowed, hhex]
              · refine iff_of_false (by simp [NetUrl.unescape, NetUrl.escapeAllowed, hhex])
                  fun h => ?_
                obtain ⟨a', b', rest', heq, ha, hb⟩ := h _ hself
                cases heq
                exact hhex ⟨ha, hb⟩
          · have hsuffix : ∀ x, byte '%' :: x <:+ c :: m ↔ byte '%' :: x <:+ m := by
              intro x
              rw [List.suffix_cons_iff]
              refine or_iff_right fun heq => hc ?_
              cases heq
              rfl
            have hrest := ih m.length (by rw [← hn]; exact Nat.lt_succ_self _) m rfl
            rw [NetUrl.unescape_itself (by decide) hc]
            simp only [hsuffix, ← hrest, Option.map_eq_some_iff]
            exact exists_comm.trans (exists_congr fun t => by simp)

theorem subPath_append {path : Bytes}
    (hpath : ∀ b ∈ path, isSegmentByte b = true ∨ b = byte '/') :
    starts (ascii "/sub/" ++ path) (ascii "/sub/") = true ∧
      byte '?' ∉ ascii "/sub/" ++ path ∧ byte '#' ∉ ascii "/sub/" ++ path := by
  have hnot : ∀ b, isSegmentByte b = false → b ≠ byte '/' → b ∉ ascii "/sub/" →
      b ∉ ascii "/sub/" ++ path := by
    intro b hb hslash hin hmem
    rcases List.mem_append.mp hmem with hmem | hmem
    · exact hin hmem
    · rcases hpath b hmem with hsegment | heq
      · rw [hb] at hsegment
        cases hsegment
      · exact hslash heq
  exact ⟨List.isPrefixOf_iff_prefix.mpr (List.prefix_append _ _),
    hnot _ (by decide) (by decide) (by decide), hnot _ (by decide) (by decide) (by decide)⟩

/-- A bare list path goes on with segments, up to what is in none. -/
theorem subPath_cases {t : Bytes} (h : subPath t ≠ 0) : ∃ path rest : Bytes,
    t = (ascii "/sub/" ++ path) ++ rest ∧ subPath t = (ascii "/sub/" ++ path).length ∧
      (∀ b ∈ path, isSegmentByte b = true ∨ b = byte '/') ∧
      Begins (fun b => isSegmentByte b = false) rest := by
  have hsub : starts t (ascii "/sub/") = true := by
    by_contra hnot
    exact h (if_neg hnot)
  obtain ⟨y, rfl⟩ := List.isPrefixOf_iff_prefix.mp hsub
  have hrun : ∀ t : Bytes, ∀ b ∈ t.takeWhile isSegmentByte, isSegmentByte b = true ∨ b = byte '/' :=
    fun t b hb => .inl (List.mem_takeWhile_imp hb)
  have hstop : ∀ t : Bytes, Begins (fun b => isSegmentByte b = false)
      (t.drop (t.takeWhile isSegmentByte).length) := by
    intro t b hb
    rw [drop_takeWhile] at hb
    have hnot := List.head?_dropWhile_not isSegmentByte t
    rw [Option.mem_def.mp hb] at hnot
    exact hnot
  have htake : ∀ t : Bytes, t = t.takeWhile isSegmentByte ++
      t.drop (t.takeWhile isSegmentByte).length := by
    intro t
    rw [drop_takeWhile, List.takeWhile_append_dropWhile]
  have hdrop : ∀ n, (ascii "/sub/" ++ y).drop (5 + n) = y.drop n :=
    fun n => @List.drop_length_add_append _ (ascii "/sub/") y n
  have hfive : (ascii "/sub/" ++ y).drop 5 = y := hdrop 0
  have hlength : (ascii "/sub/").length = 5 := rfl
  unfold subPath at h ⊢
  rw [if_pos hsub] at h ⊢
  dsimp only at h ⊢
  rw [hfive] at h ⊢
  split at h
  · exact absurd rfl h
  rename_i hne
  rw [if_neg hne, hdrop]
  clear h
  have hwhole := htake y
  -- a second segment is taken where a slash leads to it
  split
  · rename_i c rest hrest
    rw [hrest] at hwhole
    split
    · rename_i hslash
      refine ⟨y.takeWhile isSegmentByte ++ c :: rest.takeWhile isSegmentByte,
        rest.drop (rest.takeWhile isSegmentByte).length, ?_, ?_, ?_, hstop rest⟩
      · conv_lhs => rw [hwhole, htake rest]
        simp only [List.append_assoc, List.cons_append]
      · simp only [List.length_append, List.length_cons, hlength]
        omega
      · rw [List.forall_mem_append, List.forall_mem_cons]
        exact ⟨hrun y, .inr hslash.1, hrun rest⟩
    · refine ⟨_, _, ?_, ?_, hrun y, hstop y⟩
      · rw [List.append_assoc, ← htake y]
      · rw [List.length_append, hlength]
  · refine ⟨_, _, ?_, ?_, hrun y, hstop y⟩
    · rw [List.append_assoc, ← htake y]
    · rw [List.length_append, hlength]

/-- A bare list path begins with `/sub/` and holds neither a query nor a fragment. -/
theorem subPath_found {s m : Bytes} (h : m ∈ hits subPath s) :
    starts m (ascii "/sub/") = true ∧ byte '?' ∉ m ∧ byte '#' ∉ m := by
  obtain ⟨x, -, hx, rfl⟩ := mem_hits h
  obtain ⟨path, rest, rfl, hlength, hpath, -⟩ := subPath_cases hx
  rw [hlength, List.take_left]
  exact subPath_append hpath

/-- What `url.Parse` makes of the URL that is made for a bare list path. -/
theorem parse_barePath {m : Bytes} (hstart : starts m (ascii "/sub/") = true)
    (hquery : byte '?' ∉ m) (hfragment : byte '#' ∉ m) :
    NetUrl.parse (ascii "x://h" ++ m) = if m.any (fun b => b < 0x20 || b == 0x7F) then none else
      (NetUrl.unescape .path m).map fun path =>
        { scheme := ascii "x", host := ascii "h", path } := by
  obtain ⟨y, rfl⟩ := List.isPrefixOf_iff_prefix.mp hstart
  have hhash : byte '#' ∉ ascii "x://h" ++ (ascii "/sub/" ++ y) := by
    rw [List.mem_append]
    rintro (hmem | hmem)
    · exact absurd hmem (by decide)
    · exact hfragment hmem
  have hmark : byte '?' ∉ ascii "//h" ++ (ascii "/sub/" ++ y) := by
    rw [List.mem_append]
    rintro (hmem | hmem)
    · exact absurd hmem (by decide)
    · exact hquery hmem
  have hscheme : NetUrl.getScheme (ascii "x://h" ++ (ascii "/sub/" ++ y)) =
      some (ascii "x", ascii "//h" ++ (ascii "/sub/" ++ y)) := rfl
  have hstar : ascii "x://h" ++ (ascii "/sub/" ++ y) ≠ ascii "*" := nofun
  have hany : (ascii "x://h" ++ (ascii "/sub/" ++ y)).any (fun b => b < 0x20 || b == 0x7F) =
      (ascii "/sub/" ++ y).any (fun b => b < 0x20 || b == 0x7F) := by
    rw [List.any_append]
    rfl
  have hhost : NetUrl.parseAuthority (ascii "x") (ascii "h") = some (ascii "h") := by decide +kernel
  have hname : before (byte '/') ((ascii "//h" ++ (ascii "/sub/" ++ y)).drop 2) = ascii "h" := rfl
  rw [NetUrl.parse, before_of_not_mem hhash, after_of_not_mem hhash, NetUrl.parseURL, hany, hscheme]
  by_cases hcontrol : (ascii "/sub/" ++ y).any (fun b => b < 0x20 || b == 0x7F) = true
  · rw [if_pos hcontrol, if_pos hcontrol]
    rfl
  · rw [if_neg hcontrol, if_neg hcontrol, if_neg hstar]
    have hroot : starts (ascii "//h" ++ (ascii "/sub/" ++ y)) (ascii "/") = true := rfl
    have hnet : starts (ascii "//h" ++ (ascii "/sub/" ++ y)) (ascii "//") = true := rfl
    have hlower : (ascii "x").map lower = ascii "x" := by decide
    have hrest : ((ascii "//h" ++ (ascii "/sub/" ++ y)).drop 2).drop (ascii "h").length =
        ascii "/sub/" ++ y := rfl
    have hnil : ascii "x" ≠ [] := by decide
    simp only [Option.bind_eq_bind, Option.bind_some, before_of_not_mem hmark,
      after_of_not_mem hmark, hroot, hnet, hlower, hname, hhost, hrest, Bool.not_true,
      Bool.false_eq_true, false_and, if_false, ne_eq, hnil, not_false_eq_true, true_or, and_self,
      if_true]
    cases NetUrl.unescape .path (ascii "/sub/" ++ y) <;> rfl

/-- The mask of a bare list path is cut out of a URL unless `url.Parse` refuses it. -/
theorem exists_maskPath_iff {m : Bytes} (hstart : starts m (ascii "/sub/") = true)
    (hquery : byte '?' ∉ m) (hfragment : byte '#' ∉ m) :
    (∃ out, maskPath m = some out) ↔ Readable m := by
  have hcontrol : m.any (fun b => b < 0x20 || b == 0x7F) = false ↔
      ∀ b ∈ m, 0x20 ≤ b ∧ b ≠ 0x7F := by
    rw [List.any_eq_false]
    refine forall₂_congr fun b _ => ?_
    simp
  have hreadable : Readable m ↔ m.any (fun b => b < 0x20 || b == 0x7F) = false ∧
      ∃ t, NetUrl.unescape .path m = some t := by
    rw [hcontrol, exists_unescape_iff]
    exact ⟨fun h => ⟨h.printable, h.escapes⟩, fun h => ⟨h.1, h.2⟩⟩
  rw [hreadable, maskPath, maskURL, parse_barePath hstart hquery hfragment]
  cases m.any fun b => b < 0x20 || b == 0x7F with
  | true => exact iff_of_false (fun ⟨_, h⟩ => nomatch h) fun h => nomatch h.1
  | false =>
      cases NetUrl.unescape .path m with
      | none => exact iff_of_false (fun ⟨_, h⟩ => nomatch h) fun ⟨_, _, h⟩ => nomatch h
      | some path =>
          refine iff_of_true ?_ ⟨rfl, path, rfl⟩
          rw [if_neg Bool.false_ne_true]
          -- the scheme, the host and what is between them are five bytes
          refine ⟨_, if_pos ?_⟩
          dsimp only [Option.map_some]
          rw [if_pos rfl]
          simp only [List.length_append]
          have hfive : (ascii "x").length + (ascii "://").length + (ascii "h").length = 5 := rfl
          omega

/-- A line is scrubbed where each of its bare list paths can be read. -/
theorem exists_scrub_iff (s : Bytes) :
    (∃ out, scrub s = some out) ↔ ∀ m ∈ barePaths s, Readable m := by
  have hrest : (∃ out, scrub s = some out) ↔
      ∃ out, replaceAllM subPath maskPath (hideURLs (hideIds s)) = some out := by
    unfold scrub hideRest
    cases replaceAllM subPath maskPath (hideURLs (hideIds s)) <;> simp
  rw [hrest, exists_replaceAllM_iff, barePaths]
  refine forall₂_congr fun m hm => ?_
  obtain ⟨hstart, hquery, hfragment⟩ := subPath_found hm
  exact exists_maskPath_iff hstart hquery hfragment

example : scrub (ascii "GET /sub/%zz") = none := by decide +kernel

end Ghostlane.Cli
