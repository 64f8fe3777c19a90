import Ghostlane.App.ScrubLinks

/-!
# Ghostlane.App.ScrubUrls

What a URL is (`UrlMatch.Ok`), and that what is put for one is as harmless as the URL: seen from
behind up to its host, seen from before as a whole, since both go on alike to the end of the scheme.
-/

namespace Ghostlane.App.LogScrubber

open Ghostlane.Lib CharTables

variable [CharTables]

/-! ### Hosts -/

omit [CharTables] in
theorem getLast?_joined {last : Text} (h : last ≠ []) (labels : List Text) :
    (joined (labels ++ [last])).getLast? = last.getLast? := by
  induction labels with
  | nil => simp [joined]
  | cons l labels ih =>
      have hne : labels ++ [last] ≠ [] := by simp
      have hjoined : (txt ".").intercalate (labels ++ [last]) ≠ [] := fun hnil => by
        rw [joined, hnil, List.getLast?_eq_some_getLast h] at ih
        cases ih
      rw [joined, List.cons_append, List.intercalate_cons_of_ne_nil hne,
        List.getLast?_append_of_ne_nil _ hjoined]
      exact ih

omit [CharTables] in
theorem dot_mem_joined {labels : List Text} (h : labels ≠ []) (last : Text) :
    '.' ∈ joined (labels ++ [last]) := by
  obtain ⟨l, labels, rfl⟩ := List.exists_cons_of_ne_nil h
  have hne : labels ++ [last] ≠ [] := by simp
  rw [joined, List.cons_append, List.intercalate_cons_of_ne_nil hne]
  exact List.mem_append_left _ (List.mem_append_right _ (by decide))

theorem longestLabel_isPrefix (l : Text) : longestLabel l <+: l := by
  rw [longestLabel]
  split
  · exact (List.rdropWhile_prefix ..).trans
      ((List.take_prefix 63 _).trans (List.takeWhile_prefix _))
  · exact List.nil_prefix

theorem longestLabel_getLast? {l : Text} (h : longestLabel l ≠ []) :
    ∃ c, (longestLabel l).getLast? = some c ∧ alnum c = true := by
  revert h
  rw [longestLabel]
  split
  · intro h
    refine ⟨_, List.getLast?_eq_some_getLast h, ?_⟩
    have := List.rdropWhile_last_not _ _ h
    simpa using this
  · exact fun h => absurd rfl h

/-- What a URL's host is. -/
structure HostText (host : Text) : Prop where
  nonempty : host ≠ []
  name : ∀ c ∈ host, nameChar c = true
  dot : '.' ∈ host
  last : ∃ c, host.getLast? = some c ∧ alnum c = true

theorem urlHost_isPrefix (t : Text) : urlHost t <+: t.takeWhile nameChar := by
  have hdotted := dottedLabels_isPrefix t
  simp only [urlHost]
  split
  · rename_i h
    rw [← joined_frontLabels]
    obtain ⟨rest, hrest⟩ := hdotted
    cases rest with
    | nil =>
        have hlast : (frontLabels t).getD (dottedLabels t).length [] = [] := by
          rw [← hrest]
          simp
        rw [hlast] at h
        simp [longestLabel] at h
    | cons x rest =>
        have hlast : (frontLabels t).getD (dottedLabels t).length [] = x := by
          rw [← hrest]
          simp
        rw [hlast, ← hrest]
        exact intercalate_append_isPrefix (longestLabel_isPrefix x) _ rest
  · split
    · rw [← joined_frontLabels]
      exact joined_isPrefix hdotted
    · exact List.nil_prefix

/-- **A host is a name**: it has a dot and does not end with one. -/
theorem urlHost_spec {t : Text} (h : urlHost t ≠ []) : HostText (urlHost t) := by
  have hname : ∀ c ∈ urlHost t, nameChar c = true := fun c hc =>
    List.mem_takeWhile_imp ((urlHost_isPrefix t).subset hc)
  suffices hend : '.' ∈ urlHost t ∧ ∃ c, (urlHost t).getLast? = some c ∧ alnum c = true from
    ⟨h, hname, hend.1, hend.2⟩
  revert h
  simp only [urlHost]
  split
  · rename_i hlast
    intro _
    simp only [Bool.and_eq_true, bne_iff_ne] at hlast
    exact ⟨dot_mem_joined hlast.1 _,
      by rw [getLast?_joined hlast.2]; exact longestLabel_getLast? hlast.2⟩
  · split
    · rename_i htwo
      intro _
      obtain hnil | ⟨labels, last, heq⟩ := List.eq_nil_or_concat (dottedLabels t)
      · rw [hnil] at htwo
        simp at htwo
      · have hlabel : label last = true := by
          refine List.mem_takeWhile_imp (p := label) (l := (frontLabels t).dropLast) ?_
          change last ∈ dottedLabels t
          rw [heq]
          simp
        obtain ⟨-, ⟨c, hc, hal⟩, -⟩ := Name.label_spec hlabel
        have hlabels : labels ≠ [] := by
          rintro rfl
          rw [heq] at htwo
          simp at htwo
        have hlast : last ≠ [] := by
          rintro rfl
          cases hc
        rw [heq, List.concat_eq_append]
        exact ⟨dot_mem_joined hlabels last, c, by rw [getLast?_joined hlast, hc], hal⟩
    · exact fun h => absurd rfl h

/-- The host is read off the run of name characters. -/
theorem urlHost_congr {t t' : Text} (h : t.takeWhile nameChar = t'.takeWhile nameChar) :
    urlHost t = urlHost t' := by
  have hlabels : frontLabels t = frontLabels t' := by rw [frontLabels, h, frontLabels]
  have hdotted : dottedLabels t = dottedLabels t' := by rw [dottedLabels, hlabels, dottedLabels]
  simp only [urlHost, hlabels, hdotted]

/-! ### What a URL has put for it -/

namespace UrlMatch

variable {m : UrlMatch} {salt : UInt64}

/-- The credentials as they stand in the text, and what is put for them. -/
def loginOf (credentials : Text) : Text := if credentials = [] then [] else credentials ++ ['@']

def login (m : UrlMatch) : Text := loginOf m.credentials

def loginMark (m : UrlMatch) : Text := if m.credentials = [] then [] else txt "<credentials>@"

def portTextOf (port : Text) : Text := if port = [] then [] else ':' :: port

def portText (m : UrlMatch) : Text := portTextOf m.port

def suffixMark (salt : UInt64) (m : UrlMatch) : Text :=
  if m.suffix = [] then [] else if m.shown salt = m.host then m.suffix else txt "/<path>"

/-- What follows the scheme, and what is put for it. -/
def body (m : UrlMatch) : Text := m.login ++ (m.host ++ (m.portText ++ m.suffix))

def bodyMark (salt : UInt64) (m : UrlMatch) : Text :=
  m.loginMark ++ (m.shown salt ++ (m.portText ++ m.suffixMark salt))

omit [CharTables] in
theorem text_eq (m : UrlMatch) : m.text = m.scheme ++ m.body := by
  simp only [text, body, login, loginOf, portText, portTextOf, List.append_assoc]
  rfl

theorem replaced_eq (salt : UInt64) (m : UrlMatch) :
    m.replaced salt = m.scheme ++ m.bodyMark salt := by
  simp only [replaced, bodyMark, loginMark, portText, portTextOf, suffixMark, List.append_assoc]

/-- What every match of `URL` is. -/
structure Ok (m : UrlMatch) : Prop where
  scheme : ∃ run, m.scheme = run ++ [':', '/', '/'] ∧ (∃ c, run.head? = some c ∧ c.isAlpha = true) ∧
    ∀ c ∈ run, schemeChar c = true
  credentials : ∀ c ∈ m.credentials, credentialChar c = true
  host : HostText m.host
  port : ∀ c ∈ m.port, c.isDigit = true
  suffix : ∀ c ∈ m.suffix, blank c = false

/-- The name of the host is put back or has a mark put for it. -/
theorem shown_spec (salt : UInt64) (m : UrlMatch) : m.shown salt = m.host ∨ Put (m.shown salt) := by
  rw [shown]
  split
  · exact .inr put_host
  · split
    · rw [tagIfPublicV4]
      split
      · exact .inr (put_tag salt _)
      · exact .inl rfl
    · exact .inr (put_tag salt _)

omit [CharTables] in
theorem put_credentials : Put (txt "<credentials>@") :=
  ⟨by decide, fun _ hc => by cases hc; decide, by decide, by decide, by decide, by decide⟩

omit [CharTables] in
theorem blank_of_schemeChar {c : Char} (h : schemeChar c = true) : blank c = false := by
  by_contra hb
  simp only [blank, List.contains_eq_mem, decide_eq_true_eq, Bool.not_eq_false] at hb
  have hall : ∀ d ∈ txt " \t\n\x0b\x0c\r", schemeChar d = false := by decide
  rw [hall c hb] at h
  cases h

namespace Ok

theorem blank_scheme (h : m.Ok) : ∀ c ∈ m.scheme, blank c = false := by
  obtain ⟨run, hrun, -, hall⟩ := h.scheme
  intro c hc
  rw [hrun] at hc
  rcases List.mem_append.mp hc with hc | hc
  · exact blank_of_schemeChar (hall c hc)
  · have hsep : ∀ d ∈ [':', '/', '/'], blank d = false := by decide
    exact hsep c hc

theorem slash_mem_scheme (h : m.Ok) : '/' ∈ m.scheme := by
  obtain ⟨run, hrun, -, -⟩ := h.scheme
  rw [hrun]
  simp

theorem blank_login (h : m.Ok) : ∀ c ∈ m.login, blank c = false := by
  intro c hc
  rw [login, loginOf] at hc
  split at hc
  · cases hc
  · rcases List.mem_append.mp hc with hc | hc
    · have := h.credentials c hc
      simp only [credentialChar, Bool.not_eq_true', Bool.or_eq_false_iff] at this
      exact this.1.1
    · obtain rfl := List.mem_singleton.mp hc
      decide

theorem blank_portText (h : m.Ok) : ∀ c ∈ m.portText, blank c = false := by
  intro c hc
  rw [portText, portTextOf] at hc
  split at hc
  · cases hc
  · rcases List.mem_cons.mp hc with rfl | hc
    · decide
    · exact blank_of_nameChar (by
        simp [nameChar, alnum_of_isAlphanum (isAlphanum_of_isDigit (h.port c hc))])

theorem blank_body (h : m.Ok) : ∀ c ∈ m.body, blank c = false := by
  intro c hc
  simp only [body, List.mem_append] at hc
  rcases hc with hc | hc | hc | hc
  · exact h.blank_login c hc
  · exact blank_of_nameChar (h.host.name c hc)
  · exact h.blank_portText c hc
  · exact h.suffix c hc

theorem blank_shown (h : m.Ok) : ∀ c ∈ m.shown salt, blank c = false := by
  rcases m.shown_spec salt with heq | hput
  · rw [heq]
    exact fun c hc => blank_of_nameChar (h.host.name c hc)
  · exact hput.blank

end Ok

omit [CharTables] in
theorem mem_loginMark {c : Char} (hc : c ∈ m.loginMark) : c ∈ txt "<credentials>@" := by
  rw [loginMark] at hc
  split at hc
  · cases hc
  · exact hc

theorem mem_suffixMark {c : Char} (hc : c ∈ m.suffixMark salt) :
    c ∈ m.suffix ∨ c ∈ txt "/<path>" := by
  rw [suffixMark] at hc
  split at hc
  · cases hc
  · split at hc
    · exact .inl hc
    · exact .inr hc

theorem Ok.blank_bodyMark (h : m.Ok) : ∀ c ∈ m.bodyMark salt, blank c = false := by
  intro c hc
  simp only [bodyMark, List.mem_append] at hc
  rcases hc with hc | hc | hc | hc
  · exact put_credentials.blank c (mem_loginMark hc)
  · exact h.blank_shown c hc
  · exact h.blank_portText c hc
  · rcases mem_suffixMark hc with hc | hc
    · exact h.suffix c hc
    · have hall : ∀ d ∈ txt "/<path>", blank d = false := by decide
      exact hall c hc

/-- What only code has in it is not in a mark. -/
theorem code_bodyMark {c : Char} (hc : c ∈ m.bodyMark salt) (hcode : codeChar c = true) :
    c ∈ m.body := by
  simp only [bodyMark, body, List.mem_append] at hc ⊢
  rcases hc with hc | hc | hc | hc
  · rw [put_credentials.code c (mem_loginMark hc)] at hcode
    cases hcode
  · rcases m.shown_spec salt with heq | hput
    · rw [heq] at hc
      exact .inr (.inl hc)
    · rw [hput.code c hc] at hcode
      cases hcode
  · exact .inr (.inr (.inl hc))
  · rcases mem_suffixMark hc with hc | hc
    · exact .inr (.inr (.inr hc))
    · have hall : ∀ d ∈ txt "/<path>", codeChar d = false := by decide
      rw [hall c hc] at hcode
      cases hcode

/-- Seen from before, what is put for a URL goes on as the URL did up to its scheme's end. -/
theorem rightOk_scheme {w x y : Text} (hw : ∀ c ∈ w, blank c = false)
    (hx : ∀ c ∈ x, blank c = false) (hy : ∀ c ∈ y, blank c = false)
    (hcode : ∀ c ∈ y, codeChar c = true → c ∈ x) :
    RightOk (w ++ ([':', '/', '/'] ++ x)) (w ++ ([':', '/', '/'] ++ y)) := by
  have hsep : ∀ c ∈ [':', '/', '/'], blank c = false := by decide
  have hblank : ∀ z : Text, (∀ c ∈ z, blank c = false) →
      ∀ c ∈ w ++ ([':', '/', '/'] ++ z), blank c = false := by
    intro z hz c hc
    simp only [List.mem_append] at hc
    rcases hc with hc | hc | hc
    · exact hw c hc
    · exact hsep c hc
    · exact hz c hc
  refine ⟨by simp, fun hclear c hc => hclear c ?_, hblank x hx, hblank y hy, by simp,
    fun u' u _ => ?_,
    by simp, fun c hc hcc => ?_⟩
  · cases w with
    | nil => exact hc
    | cons d w => exact hc
  · have hstop : ∃ c ∈ w ++ [':', '/', '/'], colonOrHex c = false := ⟨'/', by simp, by decide⟩
    simp only [← List.append_assoc w, List.append_assoc _ _ u', List.append_assoc _ _ u]
    rw [takeWhile_append_of_exists hstop, takeWhile_append_of_exists hstop]
  · simp only [List.mem_append] at hc ⊢
    rcases hc with hc | hc | hc
    · exact .inl hc
    · exact .inr (.inl hc)
    · exact .inr (.inr (hcode c hc hcc))

theorem Ok.rightOk (h : m.Ok) (salt : UInt64) : RightOk m.text (m.replaced salt) := by
  obtain ⟨run, hrun, -, hall⟩ := h.scheme
  rw [text_eq, replaced_eq, hrun, List.append_assoc, List.append_assoc]
  exact rightOk_scheme (fun c hc => blank_of_schemeChar (hall c hc)) h.blank_body h.blank_bodyMark
    fun c hc hcode => code_bodyMark hc hcode

/-- Seen from behind: up to the host. -/
theorem Ok.leftOk (h : m.Ok) (salt : UInt64) :
    LeftOk (m.scheme ++ (m.login ++ m.host)) (m.scheme ++ (m.loginMark ++ m.shown salt)) := by
  obtain ⟨run, hrun, ⟨first, hfirst, halpha⟩, hall⟩ := h.scheme
  have hunclear : clear first = false :=
    clear_of_alnum (alnum_of_isAlphanum (by simp [Char.isAlphanum, halpha]))
  have hslash : '/' ∈ m.scheme := h.slash_mem_scheme
  have hfound : ∀ c ∈ m.scheme ++ (m.login ++ m.host), blank c = false := fun c hc => by
    rcases List.mem_append.mp hc with hc | hc
    · exact h.blank_scheme c hc
    · refine h.blank_body c ?_
      simp only [body, List.mem_append] at hc ⊢
      tauto
  have hout : ∀ c ∈ m.scheme ++ (m.loginMark ++ m.shown salt), blank c = false := fun c hc => by
    rcases List.mem_append.mp hc with hc | hc
    · exact h.blank_scheme c hc
    · refine @Ok.blank_bodyMark _ m salt h c ?_
      simp only [bodyMark, List.mem_append] at hc ⊢
      tauto
  have hhead : (m.scheme ++ (m.login ++ m.host)).head? = some first := by
    rw [hrun, List.append_assoc, List.head?_append, hfirst]
    rfl
  have hlast : (m.scheme ++ (m.login ++ m.host)).getLast? = m.host.getLast? := by
    rw [← List.append_assoc, List.getLast?_append_of_ne_nil _ h.host.nonempty]
  -- a host has a dot, a mark begins with no digit of an address
  have hbroken : ∃ c ∈ m.shown salt, colonOrHex c = false := by
    rcases m.shown_spec salt with heq | hput
    · rw [heq]
      exact ⟨'.', h.host.dot, by decide⟩
    · obtain ⟨c, rest, hc⟩ := List.exists_cons_of_ne_nil hput.nonempty
      exact ⟨c, by simp [hc], hput.first c (by simp [hc])⟩
  refine ⟨by simp [h.host.nonempty], ?_, ?_, hfound, hout, fun _ => List.mem_append_left _ hslash,
    fun _ => ?_,
    ?_, ?_, ?_⟩
  · intro c hc
    rw [hhead, Option.some.injEq] at hc
    exact hc ▸ hunclear
  · intro c hc
    rw [hlast] at hc
    exact clear_of_nameChar (h.host.name c (List.mem_of_mem_getLast? hc))
  · rw [hrun]
    exact List.infix_append_of_infix_left List.infix_append_right
  · obtain ⟨c, hc, hbreak⟩ := hbroken
    exact ⟨c, List.mem_append_right _ (List.mem_append_right _ hc), hbreak⟩
  · rw [← List.append_assoc, rtakeWhile_append_of_exists hbroken]
    rcases m.shown_spec salt with heq | hput
    · rw [heq]
      intro hc
      have := h.host.name ':' ((List.rtakeWhile_suffix _ _).subset hc)
      rw [colon_not_nameChar] at this
      cases this
    · exact hput.run
  · intro c hc hcode
    simp only [List.mem_append] at hc ⊢
    rcases hc with hc | hc | hc
    · exact .inl hc
    · rw [put_credentials.code c (mem_loginMark hc)] at hcode
      cases hcode
    · rcases m.shown_spec salt with heq | hput
      · rw [heq] at hc
        exact .inr (.inr hc)
      · rw [hput.code c hc] at hcode
        cases hcode

end UrlMatch

/-! ### Reading a URL -/

open UrlMatch

omit [CharTables] in
theorem portText_append_afterPort (t : Text) : portTextOf (portOf t) ++ afterPort t = t := by
  rw [portTextOf, afterPort]
  split
  · rfl
  · rename_i hport
    revert hport
    simp only [portOf]
    split
    · rename_i t
      intro _
      rw [Nat.add_comm, List.drop_succ_cons, List.cons_append]
      exact congrArg (':' :: ·) (List.prefix_iff_eq_append.mp (List.takeWhile_prefix _))
    · exact fun h => absurd rfl h

omit [CharTables] in
theorem portOf_isDigit (t : Text) : ∀ c ∈ portOf t, c.isDigit = true := by
  intro c hc
  simp only [portOf] at hc
  split at hc
  · exact List.mem_takeWhile_imp hc
  · cases hc

omit [CharTables] in
theorem suffixOf_isPrefix (t : Text) : suffixOf t <+: t := by
  simp only [suffixOf]
  split
  · split
    · exact List.takeWhile_prefix _
    · exact List.nil_prefix
  · exact List.nil_prefix

omit [CharTables] in
theorem blank_suffixOf (t : Text) : ∀ c ∈ suffixOf t, blank c = false := by
  intro c hc
  simp only [suffixOf] at hc
  split at hc
  · split at hc
    · simpa using List.mem_takeWhile_imp hc
    · cases hc
  · cases hc

/-- What the authority at the front is. -/
theorem authority_spec {scheme credentials t : Text} {m : UrlMatch}
    (h : authority scheme credentials t = some m) :
    m.scheme = scheme ∧ m.credentials = credentials ∧ HostText m.host ∧
      (∀ c ∈ m.port, c.isDigit = true) ∧
      (∀ c ∈ m.suffix, blank c = false) ∧ m.host ++ (m.portText ++ m.suffix) <+: t := by
  simp only [authority] at h
  split at h
  · cases h
  · rename_i hne
    obtain rfl := (Option.some.inj h).symm
    refine ⟨rfl, rfl, urlHost_spec hne, portOf_isDigit _, blank_suffixOf _, ?_⟩
    obtain ⟨rest, hrest⟩ := (urlHost_isPrefix t).trans (List.takeWhile_prefix _)
    have hdrop : t.drop (urlHost t).length = rest := by
      rw [← @List.drop_left _ (urlHost t) rest, hrest]
    obtain ⟨tail, htail⟩ := suffixOf_isPrefix (afterPort rest)
    refine ⟨tail, ?_⟩
    simp only [hdrop, portText, List.append_assoc, htail]
    rw [portText_append_afterPort, hrest]

theorem afterScheme_spec {scheme t : Text} {m : UrlMatch} (h : afterScheme scheme t = some m) :
    m.scheme = scheme ∧ (∀ c ∈ m.credentials, credentialChar c = true) ∧ HostText m.host ∧
      (∀ c ∈ m.port, c.isDigit = true) ∧ (∀ c ∈ m.suffix, blank c = false) ∧ m.body <+: t := by
  simp only [afterScheme] at h
  split at h
  · rename_i m' hlogin
    obtain rfl := Option.some.inj h
    obtain ⟨rest, hrest, hauth⟩ := Option.bind_eq_some_iff.mp hlogin
    obtain ⟨hscheme, hcred, hhost, hport, hsuffix, tail, htail⟩ := authority_spec hauth
    refine ⟨hscheme, fun c hc => ?_, hhost, hport, hsuffix, tail, ?_⟩
    · rw [hcred] at hc
      exact List.mem_takeWhile_imp hc
    · -- the credentials, the `@` and the rest are the text
      simp only [afterCredentials] at hrest
      split at hrest
      · rename_i c w z hrun hafter
        obtain rfl := Option.some.inj hrest
        rw [body, login, loginOf, hcred, hrun, if_neg (List.cons_ne_nil c w)]
        have hwhole := List.takeWhile_append_dropWhile (p := credentialChar) (l := t)
        rw [hrun, hafter] at hwhole
        rw [← hwhole, ← htail]
        simp
      · cases hrest
  · obtain ⟨hscheme, hcred, hhost, hport, hsuffix, tail, htail⟩ := authority_spec h
    refine ⟨hscheme, by simp [hcred], hhost, hport, hsuffix, tail, ?_⟩
    rw [body, login, loginOf, hcred, if_pos rfl, List.nil_append, htail]

omit [CharTables] in
theorem schemeChar_of_isAlpha {c : Char} (h : c.isAlpha = true) : schemeChar c = true := by
  simp [schemeChar, Char.isAlphanum, h]

/-- **What a URL is.** -/
theorem urlAt_spec {t : Text} {m : UrlMatch} (h : urlAt t = some m) : m.Ok ∧ m.text <+: t := by
  simp only [urlAt] at h
  split at h
  · rename_i hstart
    simp only [Bool.and_eq_true, Option.any_eq_true _ _] at hstart
    obtain ⟨⟨c, hc, halpha⟩, hsep⟩ := hstart
    obtain ⟨rest, hrest⟩ := List.isPrefixOf_iff_prefix.mp hsep
    obtain ⟨hscheme, hcred, hhost, hport, hsuffix, tail, htail⟩ := afterScheme_spec h
    refine ⟨⟨⟨t.takeWhile schemeChar, hscheme, ⟨c, ?_, halpha⟩, fun c hc =>
      List.mem_takeWhile_imp hc⟩, hcred, hhost, hport, hsuffix⟩, tail, ?_⟩
    · obtain ⟨t, rfl⟩ : ∃ t', t = c :: t' := List.head?_eq_some_iff.mp hc
      simp [schemeChar_of_isAlpha halpha]
    · rw [← hrest] at htail
      rw [text_eq, hscheme, List.append_assoc, htail, List.append_assoc]
      change t.takeWhile schemeChar ++ (txt "://" ++ rest) = t
      rw [hrest, List.takeWhile_append_dropWhile]
  · cases h

end Ghostlane.App.LogScrubber
