import Ghostlane.Lib.Absent
import Ghostlane.Cli.MaskUrl

/-!
# Ghostlane.Cli.ScrubShows

What a scrubbed line shows. `Scrub` hides, but `MaskURL` writes a URL out of the parts that
`url.Parse` gives, where an escape is the byte it stands for: so a line may show a character that
nobody wrote in it. Without an escape it shows none (`absent_scrub`), but those `Scrub` writes
itself.
-/

namespace Ghostlane.Cli

open Ghostlane.Lib Ghostlane.Lib.Bytes

/-! ### URLs without escapes -/

section Parse

variable {scheme host t out : Bytes} {mode : NetUrl.Encoding}

theorem unescape_eq_self (hmode : mode ≠ .queryComponent) (ht : byte '%' ∉ t)
    (h : NetUrl.unescape mode t = some out) : out = t := by
  induction t generalizing out with
  | nil =>
      cases h
      rfl
  | cons c t ih =>
      rw [List.mem_cons, not_or] at ht
      rw [NetUrl.unescape.eq_def] at h
      dsimp only at h
      rw [if_neg (Ne.symm ht.1)] at h
      split at h
      · cases h
      · rw [if_neg fun hplus => hmode hplus.2] at h
        obtain ⟨rest, hrest, rfl⟩ := Option.map_eq_some_iff.mp h
        rw [ih ht.2 hrest]

theorem unescapeHostname_eq_self (ht : byte '%' ∉ t) (h : NetUrl.unescapeHostname t = some out) :
    out = t := by
  have hplain : t.takeWhile (· != byte '%') = t := before_of_not_mem ht
  rw [NetUrl.unescapeHostname, hplain, List.drop_length] at h
  exact unescape_eq_self (by decide) ht h

/-- A host is given as it stands. -/
theorem parseHost_eq_self (ht : byte '%' ∉ host) (h : NetUrl.parseHost scheme host = some out) :
    out = host := by
  unfold NetUrl.parseHost at h
  cases hcut : cutLast (byte '[') host with
  | none =>
      rw [hcut] at h
      dsimp only at h
      split at h
      · exact unescape_eq_self (by decide) ht h
      · split at h
        · cases h
        · split at h
          · split at h
            · exact unescape_eq_self (by decide) ht h
            · cases h
          · cases h
  | some cut =>
      obtain ⟨garbage, rest⟩ := cut
      rw [hcut] at h
      simp only [Option.bind_eq_bind] at h
      split at h
      · cases h
      · rename_i hgarbage
        obtain ⟨⟨name, port⟩, hname, h⟩ := Option.bind_eq_some_iff.mp h
        have hhost := eq_of_cutLast hcut
        rw [not_not.mp hgarbage, eq_of_cutLast hname] at hhost
        split at h
        · cases h
        · obtain ⟨shown, hshown, h⟩ := Option.bind_eq_some_iff.mp h
          have hin : byte '%' ∉ name := fun hmem =>
            ht (hhost ▸ List.mem_cons_of_mem _ (List.mem_append_left _ hmem))
          rw [unescapeHostname_eq_self hin hshown] at h
          split at h
          · cases h
          · cases h
            rw [hhost]
            simp only [List.append_assoc]
            rfl

/-- The host is the end of the authority. -/
theorem parseAuthority_suffix (ht : byte '%' ∉ host)
    (h : NetUrl.parseAuthority scheme host = some out) : out <:+ host := by
  unfold NetUrl.parseAuthority at h
  cases hcut : cutLast (byte '@') host with
  | none =>
      rw [hcut] at h
      rw [parseHost_eq_self ht h]
  | some cut =>
      obtain ⟨userinfo, behind⟩ := cut
      rw [hcut] at h
      simp only [Option.bind_eq_bind] at h
      obtain ⟨shown, hshown, h⟩ := Option.bind_eq_some_iff.mp h
      have hsuffix : behind <:+ host := by
        rw [eq_of_cutLast hcut]
        exact (List.suffix_cons _ _).trans (List.suffix_append _ _)
      rw [parseHost_eq_self (fun hmem => ht (hsuffix.subset hmem)) hshown] at h
      split at h
      · cases h
      · obtain ⟨-, -, h⟩ := Option.bind_eq_some_iff.mp h
        cases h
        exact hsuffix

/-- A byte of a scheme. -/
def IsSchemeByte (x : UInt8) : Prop := isLetter x ∨ isDigit x ∨ x ∈ ascii "+-."

theorem getScheme_parts {raw rest : Bytes} (h : NetUrl.getScheme raw = some (scheme, rest)) :
    (∀ x ∈ scheme, IsSchemeByte x) ∧ rest <:+ raw := by
  have hgo : ∀ read t : Bytes, (∀ x ∈ read, IsSchemeByte x) → t <:+ raw →
      NetUrl.getSchemeFrom raw read t = some (scheme, rest) →
        (∀ x ∈ scheme, IsSchemeByte x) ∧ rest <:+ raw := by
    intro read t hread ht h
    induction t generalizing read with
    | nil =>
        cases h
        exact ⟨List.forall_mem_nil _, List.suffix_refl _⟩
    | cons c t ih =>
        have hnext : IsSchemeByte c → ∀ x ∈ read ++ [c], IsSchemeByte x := fun hc =>
          List.forall_mem_append.mpr ⟨hread, List.forall_mem_singleton.mpr hc⟩
        have htail := (List.suffix_cons c t).trans ht
        rw [NetUrl.getSchemeFrom] at h
        split at h
        · rename_i hletter
          exact ih _ (hnext (.inl hletter)) htail h
        · split at h
          · rename_i hother
            split at h
            · cases h
              exact ⟨List.forall_mem_nil _, List.suffix_refl _⟩
            · refine ih _ (hnext ?_) htail h
              rw [Bool.or_eq_true, List.contains_iff_mem] at hother
              exact .inr hother
          · split at h
            · split at h
              · cases h
              · cases h
                exact ⟨hread, htail⟩
            · cases h
              exact ⟨List.forall_mem_nil _, List.suffix_refl _⟩
  exact hgo [] raw (List.forall_mem_nil _) (List.suffix_refl _) h

/-- What is read of a URL without escapes stands in it; only the scheme is put in lower case. -/
structure PartsOf (raw : Bytes) (p : NetUrl.URL) : Prop where
  scheme : ∃ s : Bytes, (∀ x ∈ s, IsSchemeByte x) ∧ p.scheme = s.map lower
  host : p.host <:+: raw
  path : p.path <:+: raw
  rawQuery : p.rawQuery <:+: raw

theorem parseURL_parts {raw : Bytes} {p : NetUrl.URL} (ht : byte '%' ∉ raw)
    (h : NetUrl.parseURL raw = some p) : PartsOf raw p := by
  unfold NetUrl.parseURL at h
  by_cases hcontrol : (raw.any fun b => b < 0x20 || b == 0x7F) = true
  · rw [if_pos hcontrol] at h
    cases h
  rw [if_neg hcontrol] at h
  by_cases hstar : raw = ascii "*"
  · rw [if_pos hstar] at h
    cases h
    exact ⟨⟨[], List.forall_mem_nil _, rfl⟩, List.nil_infix, List.infix_rfl, List.nil_infix⟩
  rw [if_neg hstar] at h
  obtain ⟨⟨s, rest⟩, hscheme, h⟩ := Option.bind_eq_some_iff.mp h
  obtain ⟨hs, hrest⟩ := getScheme_parts hscheme
  dsimp only at h
  have hquery : after (byte '?') rest <:+: raw := ((after_isSuffix _ _).trans hrest).isInfix
  have hfront : before (byte '?') rest <:+: raw :=
    (before_isPrefix _ _).isInfix.trans hrest.isInfix
  -- what is read of the front has no escapes either
  have hpath : ∀ {t path : Bytes}, t <:+: before (byte '?') rest →
      NetUrl.unescape .path t = some path → path <:+: raw := by
    intro t path hpart hread
    have hin := hpart.trans hfront
    rw [unescape_eq_self (by decide) (fun hmem => ht (hin.subset hmem)) hread]
    exact hin
  split at h
  · cases h
    exact ⟨⟨s, hs, rfl⟩, List.nil_infix, List.nil_infix, hquery⟩
  split at h
  · cases h
  split at h
  · obtain ⟨host, hhost, h⟩ := Option.bind_eq_some_iff.mp h
    obtain ⟨path, hread, h⟩ := Option.bind_eq_some_iff.mp h
    cases h
    have hauthority := ((before_isPrefix (byte '/') _).isInfix.trans
      (List.drop_suffix 2 (before (byte '?') rest)).isInfix).trans hfront
    have hplain := parseAuthority_suffix (fun hmem => ht (hauthority.subset hmem)) hhost
    exact ⟨⟨s, hs, rfl⟩, hplain.isInfix.trans hauthority,
      hpath ((List.drop_suffix _ _).trans (List.drop_suffix _ _)).isInfix hread, hquery⟩
  · obtain ⟨path, hread, h⟩ := Option.bind_eq_some_iff.mp h
    cases h
    exact ⟨⟨s, hs, rfl⟩, List.nil_infix, hpath List.infix_rfl hread, hquery⟩

theorem parse_parts {raw : Bytes} {p : NetUrl.URL} (ht : byte '%' ∉ raw)
    (h : NetUrl.parse raw = some p) : PartsOf raw p := by
  unfold NetUrl.parse at h
  simp only [Option.bind_eq_bind] at h
  obtain ⟨url, hurl, h⟩ := Option.bind_eq_some_iff.mp h
  obtain ⟨-, -, h⟩ := Option.bind_eq_some_iff.mp h
  cases h
  have hfront := (before_isPrefix (byte '#') raw).isInfix
  have hparts := parseURL_parts (fun hmem => ht (hfront.subset hmem)) hurl
  exact ⟨hparts.scheme, hparts.host.trans hfront, hparts.path.trans hfront,
    hparts.rawQuery.trans hfront⟩

end Parse

/-! ### What a mask writes -/

/-- A printable ASCII character but the percent sign, or the ellipsis. `Scrub` writes no other
itself. -/
abbrev Ours (c : Char) : Prop := (0x20 ≤ c.toNat ∧ c.toNat < 0x7F ∧ c ≠ '%') ∨ c = '…'

/-- A kind of characters `Scrub` writes none of, with the one an escape begins with. -/
structure NotOurs (p : Char → Prop) : Prop where
  percent : p '%'
  others : ∀ c, p c → ¬ Ours c

section NotOurs

variable {p : Char → Prop} {t rest : Bytes} {x : UInt8}

/-- A byte `Scrub` writes itself. -/
abbrev OursByte (x : UInt8) : Prop := x < 0x80 ∧ Ours (Char.ofUInt8 x)

theorem NotOurs.ours (hp : NotOurs p) (hx : OursByte x) : x < 0x80 ∧ ¬ p (Char.ofUInt8 x) :=
  ⟨hx.1, fun h => hp.others _ h hx.2⟩

theorem NotOurs.written (hp : NotOurs p) (ht : ∀ x ∈ t, OursByte x) (hrest : Absent p rest) :
    Absent p (t ++ rest) :=
  hrest.ascii_append fun x hx => hp.ours (ht x hx)

theorem NotOurs.ellipsis (hp : NotOurs p) : Absent p ellipsis := by
  refine absent_utf8_iff.mpr fun c hc h => hp.others c h ?_
  rw [List.mem_singleton.mp hc]
  decide

theorem NotOurs.no_percent (hp : NotOurs p) (h : Absent p t) : byte '%' ∉ t :=
  h.notMem (by decide) hp.percent

theorem oursByte_lower (hx : IsSchemeByte x) : OursByte (lower x) := by
  have hall : ∀ x : UInt8, isLetter x ∨ isDigit x ∨ x ∈ ascii "+-." → OursByte (lower x) :=
    forall_byte (by decide +kernel)
  exact hall x hx

theorem NotOurs.ascii_seam (hp : NotOurs p) (ht : Absent p t) (hrest : Absent p rest)
    (hx : OursByte x) : Absent p (t ++ x :: rest) :=
  ht.append_cons hrest hx.1 (hp.ours hx).2

theorem NotOurs.joined (hp : NotOurs p) {l : List Bytes} (h : ∀ b ∈ l, Absent p b)
    (hx : OursByte x) : Absent p ([x].intercalate l) :=
  Absent.intercalate h hx.1 (hp.ours hx).2

theorem absent_shownPath (hp : NotOurs p) (h : Absent p t) : Absent p (shownPath t) := by
  refine hp.joined (x := byte '/') (fun s hs => ?_) (by decide)
  rcases mem_shownSegments hs with hs | rfl
  · exact h.part ((infix_of_mem_splitOn hs).trans (infix_trimBy _ t))
  · exact hp.ellipsis

theorem absent_shownQuery (hp : NotOurs p) (h : Absent p t) : Absent p (shownQuery t) := by
  unfold shownQuery
  split
  · exact absent_nil
  · rw [maskQuery_eq]
    refine hp.ascii_seam (t := []) absent_nil (hp.joined ?_ (by decide)) (by decide)
    rw [List.forall_mem_map]
    intro kv hkv
    have hpair := h.part (infix_of_mem_splitOn hkv)
    unfold shownPair
    split
    · exact hpair
    · exact hp.ascii_seam (hpair.part (before_isPrefix _ _).isInfix) hp.ellipsis (by decide)

/-- The mask of a URL without escapes shows of it what stands in it. -/
theorem absent_maskURL (hp : NotOurs p) (h : Absent p t) : Absent p (maskURL t) := by
  cases hparse : NetUrl.parse t with
  | none =>
      rw [maskURL, hparse]
      exact hp.ellipsis
  | some url =>
      have hparts := parse_parts (hp.no_percent h) hparse
      obtain ⟨s, hs, hscheme⟩ := hparts.scheme
      rw [maskURL_eq hparse, hscheme]
      simp only [List.append_assoc]
      refine hp.written (List.forall_mem_map.mpr fun x hx => oursByte_lower (hs x hx)) ?_
      refine hp.written (by decide +kernel) ?_
      refine hp.ascii_seam (h.part hparts.host) ?_ (by decide)
      have hpath := absent_shownPath hp (h.part hparts.path)
      have hquery := absent_shownQuery hp (h.part hparts.rawQuery)
      unfold shownQuery at hquery ⊢
      split
      · rwa [List.append_nil]
      · rename_i hsome
        rw [if_neg hsome] at hquery
        exact hpath.append hquery (aligned_cons (by decide) _)

/-- A mask does not begin in the midst of a character. -/
theorem aligned_maskURL (h : byte '%' ∉ t) (rest : Bytes) : Aligned (maskURL t ++ rest) := by
  cases hparse : NetUrl.parse t with
  | none =>
      rw [maskURL, hparse]
      exact (aligned_utf8 (txt "…")).append_of_ne_nil (by decide) rest
  | some url =>
      obtain ⟨s, hs, hscheme⟩ := (parse_parts h hparse).scheme
      rw [maskURL_eq hparse, hscheme]
      simp only [List.append_assoc]
      cases s with
      | nil => exact aligned_cons (x := byte ':') (by decide) _
      | cons x s => exact aligned_cons (oursByte_lower (hs x List.mem_cons_self)).1 _

end NotOurs

/-! ### What the expressions take -/

section Ends

variable {t : Bytes}

/-- What a word leaves of a text is its end. -/
theorem afterWord_suffix {word : Text} {t rest : Bytes} (h : afterWord word t = some rest) :
    rest <:+ t := by
  induction word generalizing t with
  | nil =>
      cases h
      exact List.suffix_refl _
  | cons c word ih =>
      rw [afterWord] at h
      generalize (if c = 'k' then utf8 ['\u212a'] else if c = 's' then utf8 ['ſ'] else []) =
        unusual at h
      by_cases hlower : t.head?.map lower = some (byte c)
      · rw [if_pos hlower] at h
        exact (ih h).trans (List.drop_suffix _ _)
      · rw [if_neg hlower] at h
        split at h
        · exact (ih h).trans (List.drop_suffix _ _)
        · cases h

theorem lower_of_isContinuation {x : UInt8} (h : isContinuation x = true) : 0x80 ≤ lower x := by
  have hall : ∀ x : UInt8, isContinuation x = true → 0x80 ≤ lower x :=
    forall_byte (by decide +kernel)
  exact hall x h

/-- A word is found where a character begins. -/
theorem aligned_of_afterWord (c : Char) (word : Text) {t rest : Bytes} (hc : byte c < 0x80)
    (h : afterWord (c :: word) t = some rest) : Aligned t := by
  have hstarts : ∀ u : Char, starts t (utf8 [u]) = true → Aligned t := by
    intro u hu
    obtain ⟨behind, rfl⟩ := List.isPrefixOf_iff_prefix.mp hu
    refine (aligned_utf8 [u]).append_of_ne_nil ?_ behind
    rw [utf8_cons, utf8_nil, List.append_nil]
    exact utf8EncodeChar_ne_nil u
  rw [afterWord] at h
  by_cases hlower : t.head?.map lower = some (byte c)
  · intro x hx
    rw [Option.mem_def.mp hx, Option.map_some, Option.some.injEq] at hlower
    by_contra hnot
    have hhigh := lower_of_isContinuation (Bool.not_eq_false _ ▸ hnot)
    rw [hlower] at hhigh
    exact absurd hc (UInt8.not_lt.mpr hhigh)
  · rw [if_neg hlower] at h
    have hfold : ∀ u : Char, (if utf8 [u] ≠ [] ∧ starts t (utf8 [u]) = true then
        afterWord word (t.drop (utf8 [u]).length) else none) = some rest → Aligned t := by
      intro u hu
      split at hu
      · rename_i hboth
        exact hstarts u hboth.2
      · cases hu
    split at h
    · exact hfold _ h
    · split at h
      · exact hfold _ h
      · rw [if_neg fun hboth => hboth.1 rfl] at h
        cases h

/-- Every expression takes the bytes inside a character. -/
theorem takes_of_isContinuation {x : UInt8} (h : isContinuation x = true) :
    isUrlByte x = true ∧ isSegmentByte x = true ∧
      (!(isBlankByte x || (ascii "&\"'").contains x)) = true := by
  have hall : ∀ x : UInt8, isContinuation x = true → isUrlByte x = true ∧
      isSegmentByte x = true ∧ (!(isBlankByte x || (ascii "&\"'").contains x)) = true :=
    forall_byte (by decide +kernel)
  exact hall x h

theorem aligned_dropWhile {q : UInt8 → Bool} (h : ∀ x, isContinuation x = true → q x = true)
    (t : Bytes) : Aligned (t.dropWhile q) := by
  intro x hx
  have hnot := List.head?_dropWhile_not q t
  rw [Option.mem_def.mp hx] at hnot
  change q x = false at hnot
  by_contra hcontinues
  rw [h x (Bool.not_eq_false _ ▸ hcontinues)] at hnot
  cases hnot

/-- A credential is a name, the sign and a value, up to what ends values. -/
theorem tokenKV_cases (h : tokenKV t ≠ 0) : ∃ word value rest : Bytes, Aligned t ∧
    t = (word ++ byte '=' :: value) ++ rest ∧
      tokenKV t = (word ++ byte '=' :: value).length ∧ Aligned rest := by
  obtain ⟨q, hq, hcontinues⟩ : ∃ q : UInt8 → Bool,
      q = (fun b => !(isBlankByte b || (ascii "&\"'").contains b)) ∧
        ∀ x, isContinuation x = true → q x = true :=
    ⟨_, rfl, fun x h => (takes_of_isContinuation h).2.2⟩
  unfold tokenKV at h ⊢
  dsimp only at h ⊢
  rw [← hq] at h ⊢
  split at h
  · rename_i rest others hrests
    obtain ⟨word, hword, hafter⟩ := List.mem_filterMap.mp (hrests ▸ List.mem_cons_self)
    obtain ⟨behind, hbehind, hvalue⟩ := Option.bind_eq_some_iff.mp hafter
    obtain ⟨front, rfl⟩ := afterWord_suffix hbehind
    have haligned : Aligned (front ++ behind) := by
      simp only [List.mem_cons, List.not_mem_nil, or_false] at hword
      rcases hword with rfl | rfl | rfl | rfl
      · exact aligned_of_afterWord 't' (txt "oken") (by decide) hbehind
      · exact aligned_of_afterWord 'k' (txt "ey") (by decide) hbehind
      · exact aligned_of_afterWord 'p' (txt "assword") (by decide) hbehind
      · exact aligned_of_afterWord 'p' (txt "ass") (by decide) hbehind
    split at hvalue
    · rename_i hhead
      obtain ⟨value, rfl⟩ : ∃ value, behind = byte '=' :: value := by
        cases behind with
        | nil => cases hhead.1
        | cons x value => exact ⟨value, by rw [Option.some.inj hhead.1]⟩
      rw [Option.some.injEq, List.drop_succ_cons, List.drop_zero, Nat.add_comm,
        List.drop_succ_cons, drop_takeWhile] at hvalue
      rw [← hvalue]
      refine ⟨front, value.takeWhile q, value.dropWhile q, haligned, ?_, ?_,
        aligned_dropWhile hcontinues value⟩
      · rw [List.append_assoc, List.cons_append, List.takeWhile_append_dropWhile]
      · have hlength := congrArg List.length (List.takeWhile_append_dropWhile (p := q) (l := value))
        simp only [List.length_append, List.length_cons] at hlength ⊢
        omega
    · cases hvalue
  · exact absurd rfl h

theorem aligned_drop_anyURL (h : anyURL t ≠ 0) : Aligned (t.drop (anyURL t)) := by
  unfold anyURL at h ⊢
  dsimp only at h ⊢
  split at h
  · exact absurd rfl h
  · rename_i hne
    rw [if_neg hne, ← List.drop_drop, drop_takeWhile]
    exact aligned_dropWhile (fun _ h => (takes_of_isContinuation h).1) _

end Ends

/-! ### Without escapes nothing else is shown -/

section Shows

variable {p : Char → Prop} {t out : Bytes}

theorem absent_hideIds (hp : NotOurs p) (h : Absent p t) : Absent p (hideIds t) := by
  have hwritten : ∀ {mark : Bytes}, (∀ x ∈ mark, OursByte x) → mark ≠ [] → ∀ {classes} {t : Bytes},
      Absent p t → Absent p (replaceAll (shape classes) (fun _ => mark) t) := by
    intro mark hmark hne classes t ht
    refine ht.replaceAll fun _ rest _ _ hrest _ => ⟨hp.written hmark hrest, ?_⟩
    obtain ⟨x, mark, rfl⟩ := List.exists_cons_of_ne_nil hne
    exact aligned_cons (hmark x List.mem_cons_self).1 _
  exact hwritten (by decide +kernel) (by decide) (hwritten (by decide +kernel) (by decide) h)

theorem absent_hideURLs (hp : NotOurs p) (h : Absent p t) : Absent p (hideURLs t) := by
  refine h.replaceAll fun t rest hfound ht hrest hseam => ?_
  have hurl := ht.part (List.take_prefix (anyURL t) t).isInfix
  exact ⟨(absent_maskURL hp hurl).append hrest (hseam (aligned_drop_anyURL hfound)),
    aligned_maskURL (hp.no_percent hurl) rest⟩

/-- The mask of a bare list path is a path. -/
theorem maskPath_cons {m : Bytes} (hstart : starts m (ascii "/sub/") = true)
    (hquery : byte '?' ∉ m) (hfragment : byte '#' ∉ m) (hmask : maskPath m = some out) :
    ∃ shown, out = byte '/' :: shown := by
  have hparse := parse_barePath hstart hquery hfragment
  rw [maskPath] at hmask
  cases hurl : NetUrl.parse (ascii "x://h" ++ m) with
  | none =>
      rw [maskURL, hurl] at hmask
      cases hmask
  | some url =>
      rw [maskURL_eq hurl] at hmask
      rw [hurl] at hparse
      split at hparse
      · cases hparse
      · obtain ⟨path, -, rfl⟩ := Option.map_eq_some_iff.mp hparse.symm
        dsimp only at hmask
        split at hmask
        · cases hmask
          exact ⟨_, rfl⟩
        · cases hmask

theorem absent_hideRest (hp : NotOurs p) (h : Absent p t) (hrest : hideRest t = some out) :
    Absent p out := by
  obtain ⟨masked, hmasked, rfl⟩ := Option.map_eq_some_iff.mp hrest
  have hpaths : Absent p masked := by
    rw [← replaceAll_of_replaceAllM hmasked]
    refine h.replaceAll fun t rest hfound ht hrest hseam => ?_
    obtain ⟨path, behind, rfl, hlength, hbytes, hstop⟩ := subPath_cases hfound
    rw [hlength, List.drop_left] at hseam
    have haligned := hseam fun x hx => by
      by_contra hcontinues
      have htaken := (takes_of_isContinuation (Bool.not_eq_false _ ▸ hcontinues)).2.1
      rw [hstop x hx] at htaken
      cases htaken
    rw [hlength, List.take_left]
    cases hmask : maskPath (ascii "/sub/" ++ path) with
    | none => exact ⟨hrest, haligned⟩
    | some out =>
        obtain ⟨hstart, hquery, hfragment⟩ := subPath_append hbytes
        obtain ⟨shown, rfl⟩ := maskPath_cons hstart hquery hfragment hmask
        refine ⟨Absent.append ?_ hrest haligned, aligned_cons (by decide) _⟩
        have hurl : Absent p (maskURL (ascii "x://h" ++ (ascii "/sub/" ++ path))) :=
          absent_maskURL hp (hp.written (by decide +kernel) (ht.part (List.prefix_append _ _).isInfix))
        rw [maskPath] at hmask
        split at hmask
        · rw [← Option.some.inj hmask]
          exact hurl.part (List.drop_suffix _ _).isInfix
        · cases hmask
  refine hpaths.replaceAll fun t rest hfound ht hrest hseam => ?_
  obtain ⟨word, value, behind, haligned, rfl, hlength, hbehind⟩ := tokenKV_cases hfound
  rw [hlength, List.drop_left] at hseam
  rw [hlength, List.take_left]
  have hword := before_isPrefix (byte '=') (word ++ byte '=' :: value)
  have hprefix := hword.trans (List.prefix_append _ behind)
  refine ⟨Absent.append ?_ hrest (hseam hbehind), ?_⟩
  · exact hp.ascii_seam (ht.part hprefix.isInfix) hp.ellipsis (by decide)
  · rw [List.append_assoc, List.cons_append]
    exact (haligned.of_prefix hprefix).append_cons (by decide) _

/-- **What is shown of a line without escapes was in the line**, or `Scrub` writes it itself. -/
theorem absent_scrub (hp : NotOurs p) (h : Absent p t) (hscrub : scrub t = some out) :
    Absent p out :=
  absent_hideRest hp (absent_hideURLs hp (absent_hideIds hp h)) hscrub

end Shows

end Ghostlane.Cli
