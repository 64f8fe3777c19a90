import Ghostlane.Lib.Cut
import Ghostlane.Cli.Scrub
import Mathlib.Data.List.Forall2

/-!
# Ghostlane.Cli.MaskUrl

What the mask of a list URL (`store.MaskURL`) tells of the URL's secrets. Two URLs of one host
are compared that have the token at one place of the path and the same keys in the query: their
masks are the same where the token is the segment that is taken for it, and the query has the same
bare words (`maskURL_same_iff`).

A segment is one of the path that `url.Parse` gives, so a token with escaped slashes is several.
-/

namespace Ghostlane.Cli

open Ghostlane.Lib Ghostlane.Lib.Bytes

/-! ### Secrets -/

/-- The segments of a path, as the mask takes them. -/
def segments (path : Bytes) : List Bytes := (trimBy (· == byte '/') path).splitOn (byte '/')

/-- Is this a known suffix of a list's path? -/
abbrev IsSuffix (s : Bytes) : Prop := s = ascii "unified" ∨ s = ascii "olcrtc"

/-- Where the token stands: nowhere in a path without `/sub/`, which is a secret as a whole; after
the first `sub`; or after the partner that follows it. -/
inductive Place
  | nowhere
  | afterSub (front rest : List Bytes)
  | afterPartner (front : List Bytes) (partner : Bytes) (rest : List Bytes)

namespace Place

/-- The path has this token at the place. -/
def Has : Place → List Bytes → List Bytes → Prop
  | nowhere, _, path => ascii "sub" ∉ path.dropLast
  | afterSub front rest, token, path =>
      ascii "sub" ∉ front ∧ token ≠ [] ∧ path = front ++ ascii "sub" :: (token ++ rest)
  | afterPartner front partner rest, token, path =>
      ascii "sub" ∉ front ∧ token ≠ [] ∧
        path = front ++ ascii "sub" :: partner :: (token ++ rest)

/-- The tokens are not told apart there. Right after `sub` a token is hidden as the last segment or
before a known suffix, and of one of several segments the second, or the first where the second is
a known suffix; after a partner, its first segment unless that is one. -/
def Hides : Place → List Bytes → List Bytes → Prop
  | nowhere, _, _ => True
  | afterSub _ rest, [t], [t'] => t = t' ∨ ∀ s ∈ rest.head?, IsSuffix s
  | afterSub _ _, t :: s :: more, t' :: s' :: more' =>
      more = more' ∧ (t = t' ∧ ¬ IsSuffix s ∧ ¬ IsSuffix s' ∨ s = s' ∧ IsSuffix s)
  | afterPartner _ _ _, t :: more, t' :: more' =>
      more = more' ∧ (t = t' ∨ ¬ IsSuffix t ∧ ¬ IsSuffix t')
  | _, _, _ => False

end Place

/-- The pairs of a query. -/
def pairs (q : Bytes) : List Bytes := q.splitOn (byte '&')

/-- Is it a word with no key? -/
abbrev Bare (kv : Bytes) : Prop := byte '=' ∉ kv

/-- The same but for a value that is secret: a word with no key, or of a key other than `c`. -/
def SameKey (kv kv' : Bytes) : Prop :=
  (Bare kv ∧ Bare kv') ∨
    (¬ Bare kv ∧ ¬ Bare kv' ∧ before (byte '=') kv = before (byte '=') kv' ∧
      (before (byte '=') kv = ascii "c" → kv = kv'))

instance (kv kv' : Bytes) : Decidable (SameKey kv kv') := inferInstanceAs (Decidable (_ ∨ _))

def bareWords (q : Bytes) : List Bytes := (pairs q).filter Bare

/-- Two URLs that differ in secrets only. -/
structure Alike (place : Place) (token token' : List Bytes) (p p' : NetUrl.URL) : Prop where
  scheme : p.scheme = p'.scheme
  host : p.host = p'.host
  path : place.Has token (segments p.path)
  path' : place.Has token' (segments p'.path)
  query : List.Forall₂ SameKey (pairs p.rawQuery) (pairs p'.rawQuery)

/-! ### The path -/

/-- The segments that are shown of a path. -/
def shownSegments (path : Bytes) : List Bytes := (maskSegments (segments path)).getD [ellipsis]

/-- What is shown of a path. -/
def shownPath (path : Bytes) : Bytes := (ascii "/").intercalate (shownSegments path)

/-- What is shown of the segments behind `sub`. -/
def hideToken : List Bytes → List Bytes
  | [] => []
  | [_] => [ellipsis]
  | a :: b :: rest => if IsSuffix b then ellipsis :: b :: rest else a :: ellipsis :: rest

theorem maskSegments_sub {behind : List Bytes} (hne : behind ≠ []) :
    maskSegments (ascii "sub" :: behind) = some (ascii "sub" :: hideToken behind) := by
  rcases behind with - | ⟨a, - | ⟨b, rest⟩⟩
  · exact absurd rfl hne
  · simp [maskSegments, hideToken]
  · by_cases hsuffix : IsSuffix b
    · have hnot : ¬ (b ≠ ascii "unified" ∧ b ≠ ascii "olcrtc") := by tauto
      simp only [maskSegments, hideToken, if_true, if_neg hnot, if_pos hsuffix]
    · have hneither : b ≠ ascii "unified" ∧ b ≠ ascii "olcrtc" := not_or.mp hsuffix
      simp only [maskSegments, hideToken, if_true, if_pos hneither, if_neg hsuffix]

theorem maskSegments_cons {s : Bytes} {path : List Bytes} (hs : s ≠ ascii "sub")
    (hne : path ≠ []) : maskSegments (s :: path) = (maskSegments path).map (s :: ·) := by
  rcases path with - | ⟨a, - | ⟨b, rest⟩⟩
  · exact absurd rfl hne
  · simp only [maskSegments, if_neg hs]
  · rw [maskSegments, if_neg hs]

theorem maskSegments_of_sub {front behind : List Bytes} (h : ascii "sub" ∉ front)
    (hne : behind ≠ []) :
    maskSegments (front ++ ascii "sub" :: behind) =
      some (front ++ ascii "sub" :: hideToken behind) := by
  induction front with
  | nil => exact maskSegments_sub hne
  | cons s front ih =>
      obtain ⟨hs, hfront⟩ := not_or.mp (List.mem_cons.not.mp h)
      rw [List.cons_append, maskSegments_cons (Ne.symm hs) (by simp), ih hfront]
      rfl

theorem maskSegments_of_nowhere {path : List Bytes} (h : ascii "sub" ∉ path.dropLast) :
    maskSegments path = none := by
  induction path with
  | nil => rfl
  | cons s path ih =>
      cases path with
      | nil => rfl
      | cons a path =>
          rw [List.dropLast_cons_cons, List.mem_cons, not_or] at h
          rw [maskSegments_cons (Ne.symm h.1) (List.cons_ne_nil _ _), ih h.2]
          rfl

theorem mem_of_mem_hideToken {behind : List Bytes} {s : Bytes} (h : s ∈ hideToken behind) :
    s ∈ behind ∨ s = ellipsis := by
  unfold hideToken at h
  split at h
  · cases h
  · exact .inr (List.mem_singleton.mp h)
  · split at h <;> simp only [List.mem_cons] at h ⊢ <;> tauto

/-- A segment that is shown is one of the path, or hidden. -/
theorem mem_of_mem_maskSegments {path shown : List Bytes} {s : Bytes}
    (h : maskSegments path = some shown) (hs : s ∈ shown) : s ∈ path ∨ s = ellipsis := by
  induction path generalizing shown with
  | nil => cases h
  | cons x path ih =>
      by_cases hne : path = []
      · rw [hne] at h
        cases h
      · by_cases hx : x = ascii "sub"
        · rw [hx, maskSegments_sub hne] at h
          cases h
          rw [hx]
          rcases List.mem_cons.mp hs with rfl | hs
          · exact .inl List.mem_cons_self
          · exact (mem_of_mem_hideToken hs).imp_left (List.mem_cons_of_mem _)
        · rw [maskSegments_cons hx hne] at h
          obtain ⟨shown, hshown, rfl⟩ := Option.map_eq_some_iff.mp h
          rcases List.mem_cons.mp hs with rfl | hs
          · exact .inl List.mem_cons_self
          · exact (ih hshown hs).imp_left (List.mem_cons_of_mem x)

theorem mem_segments {path s : Bytes} (h : s ∈ segments path) :
    byte '/' ∉ s ∧ ∀ b ∈ s, b ∈ path := by
  rw [segments, List.splitOn_eq_splitOnP] at h
  have hmem := mem_of_mem_splitOnP h
  constructor
  · intro hslash
    have hnot := (hmem _ hslash).2
    rw [beq_self_eq_true] at hnot
    cases hnot
  · intro b hb
    exact mem_of_mem_trimBy (hmem b hb).1

theorem mem_shownSegments {path s : Bytes} (h : s ∈ shownSegments path) :
    s ∈ segments path ∨ s = ellipsis := by
  unfold shownSegments at h
  cases hmask : maskSegments (segments path) with
  | none =>
      rw [hmask] at h
      exact .inr (List.mem_singleton.mp h)
  | some shown =>
      rw [hmask] at h
      exact mem_of_mem_maskSegments hmask h

theorem slash_not_mem_shownSegments {path : Bytes} : ∀ s ∈ shownSegments path, byte '/' ∉ s := by
  intro s hs
  rcases mem_shownSegments hs with hs | rfl
  · exact (mem_segments hs).1
  · decide

theorem question_not_mem_shownPath {path : Bytes} (h : byte '?' ∉ path) :
    byte '?' ∉ shownPath path := by
  intro hmem
  rcases mem_of_mem_intercalate hmem with hslash | ⟨s, hs, hin⟩
  · exact absurd hslash (by decide)
  · rcases mem_shownSegments hs with hs | rfl
    · exact h ((mem_segments hs).2 _ hin)
    · exact absurd hin (by decide)

theorem shownSegments_ne_nil {place : Place} {token : List Bytes} {path : Bytes}
    (h : place.Has token (segments path)) : shownSegments path ≠ [] := by
  unfold shownSegments
  cases place with
  | nowhere =>
      rw [maskSegments_of_nowhere h]
      exact List.cons_ne_nil _ _
  | afterSub front rest =>
      obtain ⟨hfront, htoken, hpath⟩ := h
      rw [hpath, maskSegments_of_sub hfront (by simp [htoken])]
      exact List.append_ne_nil_of_right_ne_nil _ (List.cons_ne_nil _ _)
  | afterPartner front partner rest =>
      obtain ⟨hfront, htoken, hpath⟩ := h
      rw [hpath, maskSegments_of_sub hfront (List.cons_ne_nil _ _)]
      exact List.append_ne_nil_of_right_ne_nil _ (List.cons_ne_nil _ _)

theorem hideToken_cons_inj {a b a' b' : Bytes} {rest rest' : List Bytes} :
    hideToken (a :: b :: rest) = hideToken (a' :: b' :: rest') ↔
      rest = rest' ∧ (a = a' ∧ ¬ IsSuffix b ∧ ¬ IsSuffix b' ∨ b = b' ∧ IsSuffix b) := by
  have hdots : ¬ IsSuffix ellipsis := by decide
  by_cases hb : IsSuffix b
  · by_cases hb' : IsSuffix b'
    · simp only [hideToken, if_pos hb, if_pos hb', List.cons.injEq, true_and]
      tauto
    · simp only [hideToken, if_pos hb, if_neg hb', List.cons.injEq]
      constructor
      · rintro ⟨-, rfl, -⟩
        exact absurd hb hdots
      · rintro ⟨-, ⟨-, hnot, -⟩ | ⟨rfl, -⟩⟩
        · exact absurd hb hnot
        · exact absurd hb hb'
  · by_cases hb' : IsSuffix b'
    · simp only [hideToken, if_neg hb, if_pos hb', List.cons.injEq]
      constructor
      · rintro ⟨-, rfl, -⟩
        exact absurd hb' hdots
      · rintro ⟨-, ⟨-, -, hnot⟩ | ⟨-, hsuffix⟩⟩
        · exact absurd hb' hnot
        · exact absurd hsuffix hb
    · simp only [hideToken, if_neg hb, if_neg hb', List.cons.injEq, true_and]
      tauto

theorem length_hideToken (behind : List Bytes) : (hideToken behind).length = behind.length := by
  unfold hideToken
  split
  · rfl
  · rfl
  · split <;> rfl

/-- Behind `sub`, what is shown is the same exactly where the place hides the tokens. -/
theorem hideToken_afterSub_iff {front rest token token' : List Bytes} (h : token ≠ [])
    (h' : token' ≠ []) :
    hideToken (token ++ rest) = hideToken (token' ++ rest) ↔
      (Place.afterSub front rest).Hides token token' := by
  rcases token with - | ⟨t, - | ⟨s, more⟩⟩
  · exact absurd rfl h
  · rcases token' with - | ⟨t', - | ⟨s', more'⟩⟩
    · exact absurd rfl h'
    · cases rest with
      | nil => simp [Place.Hides, hideToken]
      | cons b rest =>
          refine hideToken_cons_inj.trans ?_
          simp only [Place.Hides, List.head?_cons, Option.mem_some_iff, forall_eq', true_and]
          tauto
    · refine iff_of_false (fun heq => ?_) (fun hhides => hhides)
      have hlen := congrArg List.length heq
      simp only [length_hideToken, List.length_append, List.length_cons, List.length_nil] at hlen
      omega
  · rcases token' with - | ⟨t', - | ⟨s', more'⟩⟩
    · exact absurd rfl h'
    · refine iff_of_false (fun heq => ?_) (fun hhides => hhides)
      have hlen := congrArg List.length heq
      simp only [length_hideToken, List.length_append, List.length_cons, List.length_nil] at hlen
      omega
    · rw [List.cons_append, List.cons_append, List.cons_append, List.cons_append,
        hideToken_cons_inj, List.append_cancel_right_eq]
      exact Iff.rfl

theorem hideToken_afterPartner_iff {front rest token token' : List Bytes} {partner : Bytes}
    (h : token ≠ []) (h' : token' ≠ []) :
    hideToken (partner :: (token ++ rest)) = hideToken (partner :: (token' ++ rest)) ↔
      (Place.afterPartner front partner rest).Hides token token' := by
  obtain ⟨t, more, rfl⟩ := List.exists_cons_of_ne_nil h
  obtain ⟨t', more', rfl⟩ := List.exists_cons_of_ne_nil h'
  rw [List.cons_append, List.cons_append, hideToken_cons_inj, List.append_cancel_right_eq]
  refine and_congr_right fun _ => ?_
  by_cases hsame : t = t'
  · rw [hsame]
    tauto
  · tauto

/-- **Two paths are shown alike exactly where** the place of the tokens hides them. -/
theorem shownPath_eq_iff {place : Place} {token token' : List Bytes} {path path' : Bytes}
    (h : place.Has token (segments path)) (h' : place.Has token' (segments path')) :
    shownPath path = shownPath path' ↔ place.Hides token token' := by
  refine (intercalate_inj slash_not_mem_shownSegments slash_not_mem_shownSegments
    (shownSegments_ne_nil h) (shownSegments_ne_nil h')).trans ?_
  unfold shownSegments
  cases place with
  | nowhere =>
      rw [maskSegments_of_nowhere h, maskSegments_of_nowhere h']
      exact iff_of_true rfl trivial
  | afterSub front rest =>
      obtain ⟨hfront, htoken, hpath⟩ := h
      obtain ⟨-, htoken', hpath'⟩ := h'
      rw [hpath, hpath', maskSegments_of_sub hfront (by simp [htoken]),
        maskSegments_of_sub hfront (by simp [htoken']), Option.getD_some, Option.getD_some,
        List.append_cancel_left_eq, List.cons_inj_right]
      exact hideToken_afterSub_iff htoken htoken'
  | afterPartner front partner rest =>
      obtain ⟨hfront, htoken, hpath⟩ := h
      obtain ⟨-, htoken', hpath'⟩ := h'
      rw [hpath, hpath', maskSegments_of_sub hfront (List.cons_ne_nil _ _),
        maskSegments_of_sub hfront (List.cons_ne_nil _ _), Option.getD_some, Option.getD_some,
        List.append_cancel_left_eq, List.cons_inj_right]
      exact hideToken_afterPartner_iff htoken htoken'

/-! ### The query -/

/-- What is shown of one pair. -/
def shownPair (kv : Bytes) : Bytes :=
  if before (byte '=') kv = ascii "c" then kv else before (byte '=') kv ++ byte '=' :: ellipsis

theorem shownPair_of_bare {kv kv' : Bytes} (h : Bare kv) (h' : Bare kv') :
    shownPair kv = shownPair kv' ↔ kv = kv' := by
  unfold shownPair
  rw [before_of_not_mem h, before_of_not_mem h']
  by_cases hc : kv = ascii "c"
  · by_cases hc' : kv' = ascii "c"
    · rw [if_pos hc, if_pos hc']
    · rw [if_pos hc, if_neg hc']
      -- a `c` alone is shown without an equals sign
      refine iff_of_false (fun heq => h ?_) (fun heq => hc' (heq ▸ hc))
      rw [heq]
      simp
  · by_cases hc' : kv' = ascii "c"
    · rw [if_neg hc, if_pos hc']
      refine iff_of_false (fun heq => h' ?_) (fun heq => hc (heq ▸ hc'))
      rw [← heq]
      simp
    · rw [if_neg hc, if_neg hc', List.append_cancel_right_eq]

theorem shownPair_of_key {kv kv' : Bytes} (hkey : before (byte '=') kv = before (byte '=') kv')
    (hc : before (byte '=') kv = ascii "c" → kv = kv') : shownPair kv = shownPair kv' := by
  unfold shownPair
  rw [← hkey]
  split
  · exact hc ‹_›
  · rfl

/-- Pairs with the same keys are shown alike exactly when the bare words are the same. -/
theorem map_shownPair_eq_iff {l l' : List Bytes} (h : List.Forall₂ SameKey l l') :
    l.map shownPair = l'.map shownPair ↔ l.filter Bare = l'.filter Bare := by
  induction h with
  | nil => exact Iff.rfl
  | cons hkv _ ih =>
      rw [List.map_cons, List.map_cons, List.cons.injEq, ih, List.filter_cons, List.filter_cons]
      rcases hkv with ⟨hbare, hbare'⟩ | ⟨hbare, hbare', hkey, hc⟩
      · rw [if_pos (decide_eq_true hbare), if_pos (decide_eq_true hbare'), List.cons.injEq,
          shownPair_of_bare hbare hbare']
      · rw [if_neg (by simpa using hbare), if_neg (by simpa using hbare')]
        exact and_iff_right (shownPair_of_key hkey hc)

theorem amp_not_mem_pairs {q kv : Bytes} (h : kv ∈ pairs q) : byte '&' ∉ kv := by
  intro hamp
  rw [pairs, List.splitOn_eq_splitOnP] at h
  have hnot := (mem_of_mem_splitOnP h _ hamp).2
  rw [beq_self_eq_true] at hnot
  cases hnot

theorem amp_not_mem_shownPair {kv : Bytes} (h : byte '&' ∉ kv) : byte '&' ∉ shownPair kv := by
  unfold shownPair
  split
  · exact h
  · rw [List.mem_append, not_or]
    exact ⟨fun hmem => h ((List.takeWhile_prefix _).subset hmem), by decide⟩

theorem maskQuery_eq (q : Bytes) : maskQuery q = [byte '&'].intercalate ((pairs q).map shownPair) :=
  rfl

/-- What is shown of a query. -/
def shownQuery (q : Bytes) : Bytes := if q = [] then [] else byte '?' :: maskQuery q

theorem pairs_ne_nil (q : Bytes) : pairs q ≠ [] := List.splitOn_ne_nil _ _

theorem maskQuery_eq_iff {q q' : Bytes} (h : List.Forall₂ SameKey (pairs q) (pairs q')) :
    maskQuery q = maskQuery q' ↔ bareWords q = bareWords q' := by
  have hamp : ∀ q, ∀ kv ∈ (pairs q).map shownPair, byte '&' ∉ kv := by
    intro q kv hkv
    obtain ⟨pair, hpair, rfl⟩ := List.mem_map.mp hkv
    exact amp_not_mem_shownPair (amp_not_mem_pairs hpair)
  have hne : ∀ q, (pairs q).map shownPair ≠ [] := by
    intro q hnil
    exact pairs_ne_nil q (List.map_eq_nil_iff.mp hnil)
  rw [maskQuery_eq, maskQuery_eq, intercalate_inj (hamp q) (hamp q') (hne q) (hne q')]
  exact map_shownPair_eq_iff h

/-- Of a URL without a query, another has at most one bare word. -/
theorem bareWords_eq_nil_iff {q : Bytes} (h : List.Forall₂ SameKey (pairs []) (pairs q)) :
    bareWords [] = bareWords q ↔ q = [] := by
  constructor
  · intro hwords
    have hone : ∃ kv, pairs q = [kv] ∧ SameKey [] kv := by
      cases hq : pairs q with
      | nil => exact absurd hq (pairs_ne_nil q)
      | cons kv more =>
          rw [hq] at h
          obtain ⟨hkv, hmore⟩ := List.forall₂_cons.mp h
          rw [List.forall₂_nil_left_iff.mp hmore]
          exact ⟨kv, rfl, hkv⟩
    obtain ⟨kv, hq, hkv⟩ := hone
    rcases hkv with ⟨-, hbare⟩ | ⟨hnot, -⟩
    · have hempty : bareWords [] = [[]] := rfl
      rw [hempty, bareWords, hq, List.filter_cons, if_pos (decide_eq_true hbare)] at hwords
      have hjoined : [byte '&'].intercalate (q.splitOn (byte '&')) = q :=
        List.intercalate_splitOn (byte '&')
      cases hwords
      rw [show q.splitOn (byte '&') = [[]] from hq] at hjoined
      exact hjoined.symm
    · exact absurd List.not_mem_nil hnot
  · intro hq
    rw [hq]

/-- **Two queries are shown alike exactly when** they have the same bare words. -/
theorem shownQuery_eq_iff {q q' : Bytes} (h : List.Forall₂ SameKey (pairs q) (pairs q')) :
    shownQuery q = shownQuery q' ↔ bareWords q = bareWords q' := by
  have hflip : List.Forall₂ SameKey (pairs q') (pairs q) := by
    refine List.Forall₂.flip (h.imp fun kv kv' hkv => ?_)
    rcases hkv with ⟨hbare, hbare'⟩ | ⟨hbare, hbare', hkey, hc⟩
    · exact .inl ⟨hbare', hbare⟩
    · exact .inr ⟨hbare', hbare, hkey.symm, fun hc' => (hc (hkey.trans hc')).symm⟩
  unfold shownQuery
  by_cases hq : q = []
  · subst hq
    rw [if_pos rfl, bareWords_eq_nil_iff h]
    by_cases hq' : q' = []
    · rw [if_pos hq']
      exact iff_of_true rfl hq'
    · rw [if_neg hq']
      exact iff_of_false (fun heq => nomatch heq) hq'
  · by_cases hq' : q' = []
    · subst hq'
      rw [if_neg hq, if_pos rfl, eq_comm (a := bareWords q), bareWords_eq_nil_iff hflip]
      exact iff_of_false (fun heq => nomatch heq) hq
    · rw [if_neg hq, if_neg hq', List.cons_inj_right, maskQuery_eq_iff h]

/-! ### The mask -/

theorem maskURL_eq {u : Bytes} {p : NetUrl.URL} (h : NetUrl.parse u = some p) :
    maskURL u = p.scheme ++ ascii "://" ++ p.host ++ ascii "/" ++
      (shownPath p.path ++ shownQuery p.rawQuery) := by
  rw [maskURL, h]
  dsimp only
  unfold shownQuery
  split
  · rw [List.append_nil]
    rfl
  · rw [← List.append_assoc]
    rfl

/-- **The mask tells no secret exactly when** the place hides the tokens and the bare words are the
same. Where neither is so, an escaped question mark in a path may stand for the one before the
query, and two masks coincide. -/
theorem maskURL_same_iff {u u' : Bytes} {p p' : NetUrl.URL} {place : Place}
    {token token' : List Bytes} (hp : NetUrl.parse u = some p) (hp' : NetUrl.parse u' = some p')
    (h : Alike place token token' p p') :
    (place.Hides token token' ∧ bareWords p.rawQuery = bareWords p'.rawQuery →
      maskURL u = maskURL u') ∧
    (maskURL u = maskURL u' →
      (place.Hides token token' ∧ bareWords p.rawQuery = bareWords p'.rawQuery) ∨
      (¬ place.Hides token token' ∧ bareWords p.rawQuery ≠ bareWords p'.rawQuery ∧
        (byte '?' ∈ p.path ∨ byte '?' ∈ p'.path))) := by
  rw [maskURL_eq hp, maskURL_eq hp', ← h.scheme, ← h.host, List.append_cancel_left_eq,
    ← shownPath_eq_iff h.path h.path']
  constructor
  · rintro ⟨hpath, hquery⟩
    rw [hpath, (shownQuery_eq_iff h.query).mpr hquery]
  · intro heq
    by_cases hpath : shownPath p.path = shownPath p'.path
    · rw [hpath, List.append_cancel_left_eq] at heq
      exact .inl ⟨hpath, (shownQuery_eq_iff h.query).mp heq⟩
    · by_cases hquery : shownQuery p.rawQuery = shownQuery p'.rawQuery
      · rw [hquery, List.append_cancel_right_eq] at heq
        exact .inl ⟨heq, (shownQuery_eq_iff h.query).mp hquery⟩
      · rw [shownQuery_eq_iff h.query] at hquery
        refine .inr ⟨hpath, hquery, ?_⟩
        by_contra hnot
        obtain ⟨hplain, hplain'⟩ := not_or.mp hnot
        -- the path ends at the first question mark
        have hcut : ∀ {path q : Bytes}, byte '?' ∉ path →
            before (byte '?') (shownPath path ++ shownQuery q) = shownPath path := by
          intro path q hmark
          have hall := before_of_not_mem (question_not_mem_shownPath hmark)
          rw [before] at hall ⊢
          unfold shownQuery
          split
          · rw [List.append_nil, hall]
          · rw [List.takeWhile_append, hall, if_pos rfl, List.takeWhile_cons,
              if_neg (by simp), List.append_nil]
        have hbefore := congrArg (before (byte '?')) heq
        rw [hcut hplain, hcut hplain'] at hbefore
        exact hpath hbefore

/-- A URL of one host. -/
def ofHost (path rawQuery : String) : NetUrl.URL where
  scheme := ascii "https"
  host := ascii "p.example"
  path := ascii path
  rawQuery := ascii rawQuery

/-- Two lists of a partner that differ in the token, the user and a value of the query. -/
theorem maskURL_same_partner :
    maskURL (ascii "https://p.example/sub/j7k9e/4gg96t28?t=x&c=olcbox") =
      maskURL (ascii "https://me:pw@p.example/sub/j7k9e/zz?t=yz&c=olcbox#a") := by
  have hp : NetUrl.parse (ascii "https://p.example/sub/j7k9e/4gg96t28?t=x&c=olcbox") =
      some (ofHost "/sub/j7k9e/4gg96t28" "t=x&c=olcbox") := by decide +kernel
  have hp' : NetUrl.parse (ascii "https://me:pw@p.example/sub/j7k9e/zz?t=yz&c=olcbox#a") =
      some (ofHost "/sub/j7k9e/zz" "t=yz&c=olcbox") := by decide +kernel
  have hfree : ascii "sub" ∉ ([] : List Bytes) := List.not_mem_nil
  have halike : Alike (.afterPartner [] (ascii "j7k9e") []) [ascii "4gg96t28"] [ascii "zz"]
      (ofHost "/sub/j7k9e/4gg96t28" "t=x&c=olcbox") (ofHost "/sub/j7k9e/zz" "t=yz&c=olcbox") :=
    ⟨rfl, rfl, And.intro hfree ⟨by decide, by decide +kernel⟩,
      And.intro hfree ⟨by decide, by decide +kernel⟩, by decide +kernel⟩
  refine (maskURL_same_iff hp hp' halike).1 ⟨And.intro rfl (.inr ?_), by decide +kernel⟩
  decide

/-- A bare word of the query, a token before a segment that is no known suffix, and a token that is
one are in the mask. -/
theorem mask_tells_secrets :
    (maskURL (ascii "https://p.example/list?4gg96t28") =
        utf8 (txt "https://p.example/…?4gg96t28=…") ∧
      maskURL (ascii "https://p.example/sub/4gg96t28/clash") =
        utf8 (txt "https://p.example/sub/4gg96t28/…") ∧
      maskURL (ascii "https://p.example/sub/j7k9e/unified") =
        utf8 (txt "https://p.example/sub/…/unified")) ∧
    ¬ ∀ {u u' : Bytes} {p p' : NetUrl.URL} {place : Place} {token token' : List Bytes},
      NetUrl.parse u = some p → NetUrl.parse u' = some p' → Alike place token token' p p' →
        maskURL u = maskURL u' := by
  refine ⟨⟨by decide +kernel, by decide +kernel, by decide +kernel⟩, fun hsame => ?_⟩
  have hp : NetUrl.parse (ascii "https://p.example/list?4gg96t28") =
      some (ofHost "/list" "4gg96t28") := by decide +kernel
  have hp' : NetUrl.parse (ascii "https://p.example/list?zz") = some (ofHost "/list" "zz") := by
    decide +kernel
  have hplace : Place.nowhere.Has [] (segments (ascii "/list")) := by
    change ascii "sub" ∉ _
    decide +kernel
  have halike : Alike .nowhere [] [] (ofHost "/list" "4gg96t28") (ofHost "/list" "zz") :=
    ⟨rfl, rfl, hplace, hplace, by decide +kernel⟩
  exact absurd (hsame hp hp' halike) (by decide +kernel)

end Ghostlane.Cli
