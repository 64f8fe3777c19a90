import Ghostlane.Cli.Lines

/-!
# Ghostlane.Cli.FragmentLabels

The label of a share link's line, read twice: `splitShare` takes the fragment from the first `#` as
a query has it, `fragmentLabel` from the last as a path has it, and each has another text for a
fragment that is blank. Which fragments make one label is told by them (`fragmentLabel_iff`).
-/

namespace Ghostlane.Cli.Lines

open Ghostlane.Lib Ghostlane.Lib.Bytes Ghostlane.Cli.Share

/-- The fragment of a line, from the first `#`. -/
def fragmentOf (raw : Bytes) : Option Bytes :=
  if byte '#' ∈ raw then some (after (byte '#') raw) else none

/-- A fragment both readers make the same label of: there is one, without another `#`, that decodes
to more than white space, and with no plus sign, unless an escape in it is none or the host is
spelled as it is. -/
def ReadAlike (host : Bytes) : Option Bytes → Prop
  | none => False
  | some f => byte '#' ∉ f ∧ Strings.trimSpace (unescaped .path f) ≠ [] ∧
      (byte '+' ∉ f ∨ NetUrl.unescape .path f = none ∨
        Strings.trimSpace (unescaped .queryComponent f) = [] ∧
          Strings.trimSpace (unescaped .path f) = host)

/-! ### The two readings of a fragment -/

/-- A text whose escapes are all right, as a path and as a query have it. -/
inductive Decoded : Bytes → Bytes → Bytes → Prop
  | nil : Decoded [] [] []
  | escape {a b : UInt8} {s x y : Bytes} (ha : isHex a = true) (hb : isHex b = true)
      (h : Decoded s x y) : Decoded (byte '%' :: a :: b :: s)
        ((hexValue a * 16 + hexValue b) :: x) ((hexValue a * 16 + hexValue b) :: y)
  | itself {c : UInt8} {s x y : Bytes} (hc : c ≠ byte '%') (h : Decoded s x y) :
      Decoded (c :: s) (c :: x) ((if c = byte '+' then byte ' ' else c) :: y)

/-- The two agree on which texts they read. -/
theorem unescape_modes (s : Bytes) :
    NetUrl.unescape .path s = none ∧ NetUrl.unescape .queryComponent s = none ∨
      ∃ x y, NetUrl.unescape .path s = some x ∧ NetUrl.unescape .queryComponent s = some y ∧
        Decoded s x y := by
  induction hn : s.length using Nat.strong_induction_on generalizing s with
  | h n ih =>
      match s with
      | [] => exact .inr ⟨[], [], rfl, rfl, .nil⟩
      | c :: t =>
          by_cases hc : c = byte '%'
          · subst hc
            match t with
            | [] => exact .inl ⟨rfl, rfl⟩
            | [a] => exact .inl ⟨rfl, rfl⟩
            | a :: b :: rest =>
                rw [NetUrl.unescape, if_pos rfl, NetUrl.unescape, if_pos rfl]
                simp only [NetUrl.escapeAllowed, Bool.and_true]
                by_cases hhex : (isHex a && isHex b) = true
                · obtain ⟨ha, hb⟩ := Bool.and_eq_true_iff.mp hhex
                  rw [if_pos hhex, if_pos hhex]
                  rcases ih rest.length (by rw [← hn]; simp only [List.length_cons]; omega) rest rfl
                    with ⟨hx, hy⟩ | ⟨x, y, hx, hy, hdecoded⟩
                  · exact .inl ⟨by rw [hx]; rfl, by rw [hy]; rfl⟩
                  · exact .inr ⟨_, _, by rw [hx]; rfl, by rw [hy]; rfl, .escape ha hb hdecoded⟩
                · rw [if_neg hhex, if_neg hhex]
                  exact .inl ⟨rfl, rfl⟩
          · rw [NetUrl.unescape_itself (by decide) hc, NetUrl.unescape_itself (by decide) hc]
            rcases ih t.length (by rw [← hn]; exact Nat.lt_succ_self _) t rfl
              with ⟨hx, hy⟩ | ⟨x, y, hx, hy, hdecoded⟩
            · exact .inl ⟨by rw [hx]; rfl, by rw [hy]; rfl⟩
            · refine .inr ⟨c :: x, (if c = byte '+' then byte ' ' else c) :: y, ?_, ?_,
                .itself hc hdecoded⟩
              · rw [hx]
                simp
              · rw [hy]
                simp

namespace Decoded

variable {s x y : Bytes}

theorem ne_of_isHex {a : UInt8} (h : isHex a = true) : a ≠ byte '+' ∧ a ≠ byte '#' := by
  constructor
  · rintro rfl
    exact absurd h (by decide)
  · rintro rfl
    exact absurd h (by decide)

theorem unescape_path (h : Decoded s x y) : NetUrl.unescape .path s = some x := by
  induction h with
  | nil => rfl
  | escape ha hb _ ih =>
      rw [NetUrl.unescape, if_pos rfl, ha, hb, ih]
      rfl
  | itself hc _ ih =>
      rw [NetUrl.unescape_itself (by decide) hc, ih]
      simp

theorem length_le (h : Decoded s x y) : x.length ≤ s.length ∧ y.length ≤ s.length := by
  induction h with
  | nil => exact ⟨le_rfl, le_rfl⟩
  | escape _ _ _ ih =>
      simp only [List.length_cons]
      omega
  | itself _ _ ih =>
      simp only [List.length_cons]
      omega

theorem count_hash (h : Decoded s x y) : x.count (byte '#') = y.count (byte '#') := by
  induction h with
  | nil => rfl
  | escape _ _ _ ih => rw [List.count_cons, List.count_cons, ih]
  | @itself c _ _ _ _ _ ih =>
      rw [List.count_cons, List.count_cons, ih]
      by_cases hc : c = byte '+'
      · rw [hc]
        rfl
      · rw [if_neg hc]

/-- A plus sign is itself in a path, and a blank in a query. -/
theorem count_plus (h : Decoded s x y) :
    x.count (byte '+') = y.count (byte '+') + s.count (byte '+') := by
  induction h with
  | nil => rfl
  | escape ha hb _ ih =>
      have hpercent : byte '%' ≠ byte '+' := by decide
      rw [List.count_cons, ih, List.count_cons, List.count_cons_of_ne hpercent,
        List.count_cons_of_ne (ne_of_isHex ha).1, List.count_cons_of_ne (ne_of_isHex hb).1]
      omega
  | @itself c _ _ _ _ _ ih =>
      by_cases hc : c = byte '+'
      · have hblank : byte ' ' ≠ byte '+' := by decide
        rw [if_pos hc, hc, List.count_cons_self, List.count_cons_self, List.count_cons_of_ne hblank,
          ih]
        omega
      · rw [if_neg hc, List.count_cons_of_ne hc, List.count_cons_of_ne hc, List.count_cons_of_ne hc,
          ih]

theorem eq_of_notMem (h : Decoded s x y) (hplus : byte '+' ∉ s) : x = y := by
  induction h with
  | nil => rfl
  | escape _ _ _ ih =>
      simp only [List.mem_cons, not_or] at hplus
      rw [ih hplus.2.2.2]
  | itself _ _ ih =>
      rw [List.mem_cons, not_or] at hplus
      rw [ih hplus.2, if_neg (Ne.symm hplus.1)]

/-- What follows a `#` is read by itself. -/
theorem of_suffix (h : Decoded s x y) {g : Bytes} (hg : byte '#' :: g <:+ s) :
    ∃ xg yg, Decoded g xg yg ∧ byte '#' :: xg <:+ x ∧ byte '#' :: yg <:+ y := by
  induction h with
  | nil => exact absurd (List.suffix_nil.mp hg) (List.cons_ne_nil _ _)
  | escape ha hb _ ih =>
      rcases List.suffix_cons_iff.mp hg with heq | hg
      · exact absurd (List.cons.inj heq).1 (by decide)
      · rcases List.suffix_cons_iff.mp hg with heq | hg
        · exact absurd (List.cons.inj heq).1.symm (ne_of_isHex ha).2
        · rcases List.suffix_cons_iff.mp hg with heq | hg
          · exact absurd (List.cons.inj heq).1.symm (ne_of_isHex hb).2
          · obtain ⟨xg, yg, hdecoded, hx, hy⟩ := ih hg
            exact ⟨xg, yg, hdecoded, hx.trans (List.suffix_cons _ _),
              hy.trans (List.suffix_cons _ _)⟩
  | @itself c _ x y _ hrest ih =>
      rcases List.suffix_cons_iff.mp hg with heq | hg
      · obtain ⟨rfl, rfl⟩ := List.cons.inj heq
        exact ⟨x, y, hrest, List.suffix_rfl, List.suffix_rfl⟩
      · obtain ⟨xg, yg, hdecoded, hx, hy⟩ := ih hg
        exact ⟨xg, yg, hdecoded, hx.trans (List.suffix_cons _ _), hy.trans (List.suffix_cons _ _)⟩

end Decoded

theorem length_unescaped_le {mode : NetUrl.Encoding} (hmode : mode = .path ∨ mode = .queryComponent)
    (s : Bytes) : (unescaped mode s).length ≤ s.length := by
  rcases unescape_modes s with ⟨hx, hy⟩ | ⟨x, y, hx, hy, hdecoded⟩
  · rcases hmode with rfl | rfl
    · rw [unescaped, hx, Option.getD_none]
    · rw [unescaped, hy, Option.getD_none]
  · rcases hmode with rfl | rfl
    · rw [unescaped, hx, Option.getD_some]
      exact hdecoded.length_le.1
    · rw [unescaped, hy, Option.getD_some]
      exact hdecoded.length_le.2

/-! ### The label of a share link -/

theorem length_splitHost {hostPort host : Bytes} {port : Int}
    (h : splitHost hostPort = .ok (host, port)) : host.length ≤ hostPort.length := by
  unfold splitHost at h
  split at h
  · cases h
  · cases h
  · rename_i name digits _ hcut
    split at h
    · cases h
    · split at h
      · cases h
      · cases h
        have hname : name.length ≤ hostPort.length := by
          rw [eq_of_cutLast hcut, List.length_append]
          omega
        have htrim := congrArg List.length
          (List.rdropWhile_append_rtakeWhile (p := fun b => b == byte '[' || b == byte ']')
            (l := name.dropWhile fun b => b == byte '[' || b == byte ']'))
        have hdrop := List.length_dropWhile_le (fun b => b == byte '[' || b == byte ']') name
        rw [List.length_append] at htrim
        rw [trimBy]
        omega

/-- What a line that is read has for a tag; its host is shorter than the line. -/
theorem splitShare_spec {s scheme : Bytes} {p : ShareParts} (hbegins : starts s scheme = true)
    (hfree : byte '#' ∉ scheme) (h : splitShare s scheme = .ok p) :
    p.tag = Strings.trimSpace (unescaped .queryComponent (after (byte '#') s)) ∧
      p.host.length < s.length := by
  obtain ⟨rest, rfl⟩ := List.isPrefixOf_iff_prefix.mp hbegins
  have hafter : after (byte '#') (scheme ++ rest) = after (byte '#') rest := by
    have hpos : ∀ x ∈ scheme, (x != byte '#') = true := by
      intro x hx
      rw [bne_iff_ne]
      rintro rfl
      exact hfree hx
    rw [after, List.dropWhile_append_of_pos hpos, after]
  unfold splitShare at h
  rw [if_pos hbegins, List.drop_left] at h
  dsimp only at h
  split at h
  · cases h
  · split at h
    · cases h
    · rename_i userinfo hostPort hcut
      split at h
      · cases h
      · rename_i host port hhost
        split at h
        · cases h
        · cases h
          refine ⟨by rw [hafter], ?_⟩
          have hlong := length_splitHost hhost
          have hcreds := congrArg List.length (eq_of_cutLast hcut)
          have hquery := (List.takeWhile_prefix (l := before (byte '#') rest)
            (· != byte '?')).length_le
          have hbody := (List.takeWhile_prefix (l := rest) (· != byte '#')).length_le
          rw [List.length_append, List.length_cons] at hcreds
          rw [List.length_append]
          simp only [before] at hcreds hquery hbody
          dsimp only
          omega

/-- Nothing is trimmed behind a `#` at the end of a trimmed line. -/
theorem lt_length_trimSpace {a b g : Bytes}
    (htrim : Strings.trimSpace (a ++ byte '#' :: g) = a ++ byte '#' :: g) :
    g.length < (Strings.trimSpace (b ++ byte '#' :: g)).length := by
  have hhash : Strings.isSpaceRune (.char '#') = false := by decide
  have hkept : (runes g).rdropWhile Strings.isSpaceRune = runes g := by
    have hrunes := congrArg (List.length ∘ runes) htrim
    have hdrop := List.length_dropWhile_le Strings.isSpaceRune (runes a)
    have hle := (List.rdropWhile_prefix Strings.isSpaceRune (runes g)).length_le
    simp only [Function.comp_apply, Strings.runes_trimSpace,
      Strings.runes_append_byte (c := '#') (by decide), trimBy_around hhash, List.length_append,
      List.length_cons] at hrunes
    exact (List.rdropWhile_prefix Strings.isSpaceRune (runes g)).eq_of_length (by omega)
  rw [Strings.trimSpace, Strings.runes_append_byte (c := '#') (by decide), trimBy_around hhash,
    hkept, Strings.bytesOf_append, List.length_append]
  have htail : bytesOf (.char '#' :: runes g) = byte '#' :: g :=
    congrArg (byte '#' :: ·) (bytes_runes g)
  rw [htail, List.length_cons]
  omega

theorem fragmentLabel_of_last (pre : Bytes) {g : Bytes} (hg : byte '#' ∉ g) :
    fragmentLabel (pre ++ byte '#' :: g) =
      orElse (Strings.trimSpace (unescaped .path g)) (pre ++ byte '#' :: g) := by
  rw [fragmentLabel, cutLast_append hg, orElse]
  dsimp only
  by_cases hnil : Strings.trimSpace (unescaped .path g) = []
  · rw [if_neg (not_not.mpr hnil), if_pos hnil]
  · rw [if_pos hnil, if_neg hnil]

/-- A fragment makes one label where no plus sign is in it, or it is left undecoded. -/
theorem trimSpace_unescaped_iff (f : Bytes) :
    Strings.trimSpace (unescaped .path f) = Strings.trimSpace (unescaped .queryComponent f) ↔
      byte '+' ∉ f ∨ NetUrl.unescape .path f = none := by
  rcases unescape_modes f with ⟨hx, hy⟩ | ⟨x, y, hx, hy, hdecoded⟩
  · rw [unescaped, unescaped, hx, hy]
    exact iff_of_true rfl (.inr rfl)
  · rw [unescaped, unescaped, hx, hy, Option.getD_some, Option.getD_some]
    constructor
    · intro heq
      left
      intro hmem
      have hplus := congrArg (List.count (byte '+')) heq
      rw [Strings.count_trimSpace (by decide) (by decide),
        Strings.count_trimSpace (by decide) (by decide), hdecoded.count_plus] at hplus
      have hpos := List.count_pos_iff.mpr hmem
      omega
    · intro hcases
      rcases hcases with hplus | hnone
      · rw [hdecoded.eq_of_notMem hplus]
      · cases hnone

/-- With a second `#` the two never agree: what stands before it is in the one label only. -/
theorem trimSpace_unescaped_ne {pre h g : Bytes} (htrim : Strings.trimSpace
      (pre ++ byte '#' :: (h ++ byte '#' :: g)) = pre ++ byte '#' :: (h ++ byte '#' :: g)) :
    Strings.trimSpace (unescaped .path g) ≠
      Strings.trimSpace (unescaped .queryComponent (h ++ byte '#' :: g)) := by
  intro heq
  rcases unescape_modes (h ++ byte '#' :: g) with ⟨-, hy⟩ | ⟨x, y, -, hy, hdecoded⟩
  · -- an escape before the `#` is none: the label is the fragment as it stands, and longer
    rw [unescaped, unescaped, hy, Option.getD_none] at heq
    have hshort := (Strings.length_trimSpace_le _).trans (length_unescaped_le (.inl rfl) g)
    have hlong := lt_length_trimSpace (a := pre ++ byte '#' :: h) (b := h) (g := g) (by
      rw [List.append_assoc, List.cons_append]
      exact htrim)
    rw [unescaped] at hshort
    rw [← heq] at hlong
    omega
  · -- every escape is right: the label has one `#` more
    obtain ⟨xg, yg, hrest, -, hsuffix⟩ := hdecoded.of_suffix (List.suffix_append h _)
    rw [unescaped, unescaped, hy, hrest.unescape_path, Option.getD_some, Option.getD_some] at heq
    have hcount := congrArg (List.count (byte '#')) heq
    rw [Strings.count_trimSpace (by decide) (by decide),
      Strings.count_trimSpace (by decide) (by decide), hrest.count_hash] at hcount
    have hle := hsuffix.sublist.count_le (byte '#')
    rw [List.count_cons_self] at hle
    omega

theorem trimSpace_unescaped_ne_nil (h g : Bytes) :
    Strings.trimSpace (unescaped .queryComponent (h ++ byte '#' :: g)) ≠ [] := by
  intro hnil
  have hcount := congrArg (List.count (byte '#')) hnil
  rw [Strings.count_trimSpace (by decide) (by decide), List.count_nil, List.count_eq_zero] at hcount
  rcases unescape_modes (h ++ byte '#' :: g) with ⟨-, hy⟩ | ⟨x, y, -, hy, hdecoded⟩
  · rw [unescaped, hy, Option.getD_none] at hcount
    exact hcount (List.mem_append_right _ List.mem_cons_self)
  · obtain ⟨xg, yg, -, -, hsuffix⟩ := hdecoded.of_suffix (List.suffix_append h _)
    rw [unescaped, hy, Option.getD_some] at hcount
    exact hcount (hsuffix.subset List.mem_cons_self)

/-- The two readers label a line alike exactly where its fragment is read alike. -/
theorem fragmentLabel_iff {raw host : Bytes} (htrim : Strings.trimSpace raw = raw)
    (hhost : host.length < raw.length) :
    fragmentLabel raw =
        orElse (Strings.trimSpace (unescaped .queryComponent (after (byte '#') raw))) host ↔
      ReadAlike host (fragmentOf raw) := by
  by_cases hhash : byte '#' ∈ raw
  · obtain ⟨pre, f, heq, hpre⟩ := List.eq_append_cons_of_mem hhash
    have hafter : after (byte '#') raw = f := by
      rw [heq]
      exact (before_eq_of_cutFirst (cutFirst_append hpre f)).2
    -- the line as a whole is neither the tag nor the host
    have hwhole : orElse (Strings.trimSpace (unescaped .queryComponent f)) host ≠ raw := by
      intro hraw
      have htag := (Strings.length_trimSpace_le _).trans
        (length_unescaped_le (.inr rfl : NetUrl.Encoding.queryComponent = _ ∨ _) f)
      have hlength := congrArg List.length heq
      rw [List.length_append, List.length_cons] at hlength
      rw [orElse] at hraw
      split at hraw
      · rw [hraw] at hhost
        exact absurd hhost (Nat.lt_irrefl _)
      · rw [hraw] at htag
        omega
    rw [fragmentOf, if_pos hhash, hafter, ReadAlike]
    by_cases hmore : byte '#' ∈ f
    · -- one reader takes the last fragment, the other all behind the first hash
      obtain ⟨h, g, rfl, hg⟩ := exists_last hmore
      refine iff_of_false (fun hlabel => ?_) fun halike => halike.1 hmore
      have hlast := fragmentLabel_of_last (pre ++ byte '#' :: h) hg
      rw [List.append_assoc, List.cons_append, ← heq] at hlast
      rw [hlast, orElse] at hlabel
      split at hlabel
      · exact hwhole hlabel.symm
      · rw [heq] at htrim
        rw [orElse] at hlabel
        rw [if_neg (trimSpace_unescaped_ne_nil h g)] at hlabel
        exact trimSpace_unescaped_ne htrim hlabel
    · have hlast := fragmentLabel_of_last pre hmore
      rw [← heq] at hlast
      rw [hlast]
      by_cases hnil : Strings.trimSpace (unescaped .path f) = []
      · rw [orElse, if_pos hnil]
        exact iff_of_false (fun hlabel => hwhole hlabel.symm) fun halike => halike.2.1 hnil
      · rw [orElse, if_neg hnil, and_iff_right hmore, and_iff_right hnil, ← or_assoc,
          ← trimSpace_unescaped_iff, orElse]
        split
        · rename_i hblank
          rw [hblank, or_iff_right hnil, and_iff_right rfl]
        · rename_i htag
          rw [or_iff_left fun hboth => htag hboth.1]
  · -- without a fragment one shows the line, the other its host
    have hlabel : fragmentLabel raw = raw := by
      rw [fragmentLabel, cutLast, if_neg hhash]
    rw [fragmentOf, if_neg hhash, hlabel, after_of_not_mem hhash]
    refine iff_of_false (fun hraw => ?_) id
    change raw = host at hraw
    rw [← hraw] at hhost
    exact absurd hhost (Nat.lt_irrefl _)

end Ghostlane.Cli.Lines
