import Ghostlane.App.Decoding
import Ghostlane.App.Dialable
import Ghostlane.App.Naming
import Mathlib.Data.List.Flatten

/-!
# Ghostlane.App.ShadowsocksSpellings

A Shadowsocks server and the spellings its link may have. The reader decodes the userinfo as a form
field before it looks at it, and loses the plus signs there: every other spelling is read alike
(`parse_spelling`).
-/

namespace Ghostlane.App

open Ghostlane.Lib

/-! ### A server and its links -/

structure Server where
  method : Text
  password : Text
  host : Text
  ipv6 : Bool
  port : Nat

namespace Server

def hostText (s : Server) : Text := if s.ipv6 then '[' :: (s.host ++ [']']) else s.host

def address (s : Server) : Text := s.hostText ++ ':' :: decimal s.port

def credentials (s : Server) : Text := s.method ++ ':' :: s.password

/-- The parts of a link stand apart. -/
structure Valid (s : Server) : Prop where
  method : s.method ∈ shadowsocksMethods
  password : s.password ≠ []
  host : s.host ≠ []
  shown : ∀ c ∈ s.host, isWhitespace c = false
  plain : ∀ c ∈ s.host, c ∉ ['@', '/', '?', '#', '[', ']']
  name : s.ipv6 = false → ':' ∉ s.host
  port : s.port ≤ 65535

end Server

/-- What a link has for its userinfo, and what it has before its tag. The legacy form has no
userinfo of its own. -/
inductive Spelling (s : Server) : Text → Text → Prop
  | base64 {e : Base64} (he : e.alphabet = .std ∨ e.alphabet = .url) :
      Spelling s (inBase64 e (utf8 s.credentials))
        (inBase64 e (utf8 s.credentials) ++ '@' :: s.address)
  | percent {u : Text} (h : PercentEncoded s.credentials u) : Spelling s u (u ++ '@' :: s.address)
  | whole {e : Base64} (he : e.alphabet = .std ∨ e.alphabet = .url) :
      Spelling s [] (inBase64 e (utf8 (s.credentials ++ '@' :: s.address)))

def slashed (slash : Bool) : Text := if slash then ['/'] else []

def shadowsocksLink (main : Text) (slash : Bool) (tag : Option Text) : Text :=
  txt "ss://" ++ (main ++ slashed slash ++ marked '#' tag)

/-- A method is written in small ASCII letters, digits and hyphens. -/
theorem method_chars {m : Text} (h : m ∈ shadowsocksMethods) :
    lowercase (trim m) = m ∧ (utf8 m).length = m.length ∧ ':' ∉ m ∧ '+' ∉ m ∧ replacement ∉ m := by
  have hall : ∀ m ∈ shadowsocksMethods, lowercase (trim m) = m ∧ (utf8 m).length = m.length ∧
      ':' ∉ m ∧ '+' ∉ m ∧ replacement ∉ m := by decide
  exact hall m h

section Json

variable [JsonReader]

/-- The line is read as this server, under some name. -/
def Gives (line : Text) (s : Server) : Prop :=
  ∃ tag, LinkParser.parse line = some ⟨s.host, s.port, tag, .shadowsocks s.method s.password⟩

end Json

/-! ### What a spelling is made of -/

/-- What stands before the slash and the tag is read as it stands. -/
structure Stands (main : Text) : Prop where
  shown : ∀ c ∈ main, isWhitespace c = false
  no_fragment : '#' ∉ main
  no_query : '?' ∉ main
  end_ : main.getLast? ≠ some '/'

theorem mem_hex {d : Nat} {c : Char} (h : Hex d c) : c ∈ rawChars := by
  have hdigit : (digitOf 16 c).isSome = true := by
    rw [h.2]
    rfl
  exact forall_ascii (p := fun c => (digitOf 16 c).isSome = true → c ∈ rawChars) (by decide +kernel)
    h.1 hdigit

theorem mem_escaped {bs : Bytes} {e : Text} (h : Escaped bs e) : ∀ c ∈ e, c ∈ '%' :: rawChars := by
  induction h with
  | nil => exact fun _ hc => absurd hc List.not_mem_nil
  | cons hhigh hlow h ih =>
      intro c hc
      rcases List.mem_cons.mp hc with rfl | hc
      · exact List.mem_cons_self
      · rcases List.mem_cons.mp hc with rfl | hc
        · exact List.mem_cons_of_mem _ (mem_hex hhigh)
        · rcases List.mem_cons.mp hc with rfl | hc
          · exact List.mem_cons_of_mem _ (mem_hex hlow)
          · exact ih c hc

theorem mem_percentEncoded {t u : Text} (h : PercentEncoded t u) :
    ∀ c ∈ u, c ∈ '%' :: rawChars := by
  induction h with
  | nil => exact fun _ hc => absurd hc List.not_mem_nil
  | raw hraw h ih => exact List.forall_mem_cons.mpr ⟨List.mem_cons_of_mem _ hraw, ih⟩
  | escaped he h ih => exact List.forall_mem_append.mpr ⟨mem_escaped he, ih⟩

namespace Server

variable {s : Server}

theorem decimal_digits (n : Nat) : ∀ c ∈ decimal n, c.isDigit = true :=
  fun _ hc => Nat.isDigit_of_mem_toDigits (by decide) (by decide) hc

theorem notMem_decimal {c : Char} (hc : c.isDigit = false) (n : Nat) : c ∉ decimal n := by
  intro hmem
  rw [decimal_digits n c hmem] at hc
  cases hc

theorem getLast?_address (s : Server) : ∃ d, s.address.getLast? = some d ∧ d.isDigit = true := by
  have hne : decimal s.port ≠ [] := Nat.toDigits_ne_nil
  refine ⟨(decimal s.port).getLast hne, ?_, decimal_digits _ _ (List.getLast_mem hne)⟩
  rw [address, List.getLast?_append_cons, List.getLast?_cons,
    List.getLast?_eq_getLast_of_ne_nil hne]
  rfl

theorem getLast?_utf8_digit {t : Text} {d : Char} (h : t.getLast? = some d)
    (hd : d.isDigit = true) :
    ∃ x, (utf8 t).getLast? = some x ∧ 48 ≤ x.toNat ∧ x.toNat ≤ 57 := by
  have hascii : d.toNat < 0x80 := by
    have hrange : 48 ≤ d.toNat ∧ d.toNat ≤ 57 := by
      simpa [Char.isDigit, UInt32.le_iff_toNat_le] using hd
    omega
  have hone : ∃ x ∈ (String.utf8EncodeChar d).getLast?, 48 ≤ x.toNat ∧ x.toNat ≤ 57 :=
    forall_ascii (p := fun d => d.isDigit = true →
      ∃ x ∈ (String.utf8EncodeChar d).getLast?, 48 ≤ x.toNat ∧ x.toNat ≤ 57)
      (by decide +kernel) hascii hd
  obtain ⟨x, hx, hrange⟩ := hone
  obtain ⟨front, rfl⟩ := List.getLast?_eq_some_iff.mp h
  refine ⟨x, ?_, hrange⟩
  rw [utf8, List.flatMap_append, List.flatMap_singleton, List.getLast?_append, hx]
  rfl

theorem forall_address (hs : s.Valid) :
    ∀ c ∈ s.address, isWhitespace c = false ∧ c ∉ ['@', '/', '?', '#'] := by
  have hhost : ∀ c ∈ s.host, isWhitespace c = false ∧ c ∉ ['@', '/', '?', '#'] := fun c hc =>
    ⟨hs.shown c hc, fun hmem => hs.plain c hc (List.mem_append_left ['[', ']'] hmem)⟩
  have hdigits : ∀ c ∈ decimal s.port, isWhitespace c = false ∧ c ∉ ['@', '/', '?', '#'] := by
    intro c hc
    refine ⟨isWhitespace_of_digit (decimal_digits _ c hc), fun hmem => ?_⟩
    have hnone : ∀ d ∈ ['@', '/', '?', '#'], d.isDigit = false := by decide
    exact notMem_decimal (hnone c hmem) _ hc
  have htext : ∀ c ∈ s.hostText, isWhitespace c = false ∧ c ∉ ['@', '/', '?', '#'] := by
    rw [hostText]
    split
    · refine List.forall_mem_cons.mpr ⟨by decide, List.forall_mem_append.mpr ⟨hhost, ?_⟩⟩
      exact List.forall_mem_singleton.mpr (by decide)
    · exact hhost
  exact List.forall_mem_append.mpr ⟨htext, List.forall_mem_cons.mpr ⟨by decide, hdigits⟩⟩

theorem notMem_address (hs : s.Valid) {c : Char} (hc : c ∈ ['@', '/', '?', '#']) : c ∉ s.address :=
  fun hmem => (forall_address hs c hmem).2 hc

theorem stands_at (hs : s.Valid) {u : Text} (h : ∀ c ∈ u, isWhitespace c = false ∧ c ∉ ['#', '?']) :
    Stands (u ++ '@' :: s.address) where
  shown := List.forall_mem_append.mpr ⟨fun c hc => (h c hc).1,
    List.forall_mem_cons.mpr ⟨by decide, fun c hc => (forall_address hs c hc).1⟩⟩
  no_fragment := by
    have haddress := notMem_address hs (show '#' ∈ ['@', '/', '?', '#'] by decide)
    simpa [haddress] using fun hmem => (h '#' hmem).2 (by decide)
  no_query := by
    have haddress := notMem_address hs (show '?' ∈ ['@', '/', '?', '#'] by decide)
    simpa [haddress] using fun hmem => (h '?' hmem).2 (by decide)
  end_ := by
    obtain ⟨d, hd, hdigit⟩ := getLast?_address s
    rw [List.getLast?_append_cons, List.getLast?_cons, hd]
    rintro ⟨⟩
    cases hdigit

theorem stands_base64 (s : Server) {e : Base64} (he : e.alphabet = .std ∨ e.alphabet = .url) :
    Stands (inBase64 e (utf8 (s.credentials ++ '@' :: s.address))) where
  shown := by
    rw [inBase64_eq]
    exact shown_symbols he (Base64.digits_lt _) _
  no_fragment := by
    rw [inBase64_eq]
    exact not_mem_symbols he (Base64.digits_lt _) _ (by decide)
  no_query := by
    rw [inBase64_eq]
    exact not_mem_symbols he (Base64.digits_lt _) _ (by decide)
  end_ := by
    -- The last byte is a digit of the port, so the last digit is not the one written as a slash.
    obtain ⟨d, hd, hdigit⟩ := getLast?_address s
    have hlast : (s.credentials ++ '@' :: s.address).getLast? = some d := by
      rw [List.getLast?_append_cons, List.getLast?_cons, hd]
      rfl
    obtain ⟨x, hx, hlow, hhigh⟩ := getLast?_utf8_digit hlast hdigit
    rw [inBase64_eq, symbols]
    intro hslash
    rcases Nat.eq_zero_or_pos (e.fill (utf8 (s.credentials ++ '@' :: s.address))) with hfill | hfill
    · rw [hfill, List.replicate_zero, List.append_nil, List.getLast?_map,
        Option.map_eq_some_iff] at hslash
      obtain ⟨last, hdigits, hsymbol⟩ := hslash
      have hlt := Base64.digits_lt _ last (List.mem_of_getLast? hdigits)
      have h63 := (isSymbol he hlt).slash hsymbol
      rcases Base64.getLast?_digits hx hdigits with h | h | h <;> omega
    · rw [List.getLast?_append, List.getLast?_replicate, if_neg (by omega)] at hslash
      cases hslash

end Server

/-! ### How a spelling is read -/

theorem stands_spelling {s : Server} (hs : s.Valid) {userinfo main : Text}
    (h : Spelling s userinfo main) : Stands main := by
  cases h with
  | base64 he =>
      refine Server.stands_at hs fun c hc => ?_
      rw [inBase64_eq] at hc
      refine ⟨shown_symbols he (Base64.digits_lt _) _ c hc, fun hmark => ?_⟩
      exact not_mem_symbols he (Base64.digits_lt _) _
        (List.mem_append_right ['%', ' ', '\n', '\r', '@', ':'] hmark) hc
  | percent h =>
      refine Server.stands_at hs fun c hc => ?_
      have hall : ∀ c ∈ '%' :: rawChars, isWhitespace c = false ∧ c ∉ ['#', '?'] := by
        decide
      exact hall c (mem_percentEncoded h c hc)
  | whole he => exact Server.stands_base64 s he

theorem rdropWhile_slashed {main : Text} (h : main.getLast? ≠ some '/') (slash : Bool) :
    (main ++ slashed slash).rdropWhile (· == '/') = main := by
  have hmain : main.rdropWhile (· == '/') = main := by
    rw [List.rdropWhile_eq_self_iff]
    intro hne hlast
    rw [List.getLast?_eq_getLast_of_ne_nil hne] at h
    exact h (congrArg some (beq_iff_eq.mp hlast))
  cases slash with
  | false =>
      rw [slashed, if_neg Bool.false_ne_true, List.append_nil, hmain]
  | true =>
      rw [slashed, if_pos rfl, List.rdropWhile_concat_pos _ _ _ (by decide), hmain]

/-- Around a link nothing is cut but the end of its tag. -/
theorem trim_shadowsocksLink {main : Text} (h : Stands main) (slash : Bool) (tag : Option Text) :
    ∃ tag', trim (shadowsocksLink main slash tag) = shadowsocksLink main slash tag' := by
  have hshown : ∀ c ∈ txt "ss://" ++ (main ++ slashed slash), isWhitespace c = false := by
    refine List.forall_mem_append.mpr ⟨by decide, List.forall_mem_append.mpr ⟨h.shown, ?_⟩⟩
    cases slash <;> decide
  have hscheme : txt "ss://" ≠ [] := by decide
  have hne := List.append_ne_nil_of_left_ne_nil hscheme (main ++ slashed slash)
  cases tag with
  | none =>
      refine ⟨none, ?_⟩
      rw [shadowsocksLink, marked, List.append_nil]
      exact trimBy_of_forall hshown
  | some tag =>
      refine ⟨some (tag.rdropWhile isWhitespace), ?_⟩
      rw [shadowsocksLink, shadowsocksLink, marked, marked, ← List.append_assoc,
        ← List.append_assoc]
      have hmark : isWhitespace '#' = false := by decide
      exact trimBy_append_cons (fun d hd => hshown d (List.mem_of_mem_head? hd)) hne hmark tag

variable {s : Server} {main : Text}

/-- The marks of a link without a query. -/
theorem Stands.notMem (h : Stands main) (slash : Bool) :
    '#' ∉ main ++ slashed slash ∧ '?' ∉ main ++ slashed slash := by
  cases slash <;> simp [slashed, h.no_fragment, h.no_query]

theorem splits_eq {l : ShadowsocksText} {n : Int} (hl : l.Reads n) (h : Stands main)
    {slash : Bool} {tag : Option Text} (htext : main ++ slashed slash ++ marked '#' tag = l.text) :
    l.main.rdropWhile (· == '/') = main ∧ l.query = none := by
  obtain ⟨hfragment, hquery⟩ := h.notMem slash
  have hhash : (main ++ slashed slash, tag) = (l.main ++ marked '?' l.query, l.fragment) :=
    (splitFirst_iff.mpr ⟨rfl, hfragment⟩).symm.trans (splitFirst_iff.mpr ⟨htext, hl.no_fragment⟩)
  obtain ⟨hbody, -⟩ := Prod.mk.inj hhash
  have hmark : (main ++ slashed slash, none) = (l.main, l.query) :=
    (splitFirst_iff.mpr ⟨(List.append_nil _).symm, hquery⟩).symm.trans
      (splitFirst_iff.mpr ⟨hbody, hl.no_query⟩)
  obtain ⟨hmain, hnone⟩ := Prod.mk.inj hmark
  exact ⟨hmain ▸ rdropWhile_slashed h.end_ slash, hnone.symm⟩

theorem bare_hostText (hs : s.Valid) :
    removeSuffix (removePrefix s.hostText (txt "[")) ']' = s.host := by
  have hbrackets : '[' ∉ s.host ∧ ']' ∉ s.host :=
    ⟨fun hc => hs.plain _ hc (by decide), fun hc => hs.plain _ hc (by decide)⟩
  have hsuffix : ∀ t : Text, removeSuffix (t ++ [']']) ']' = t := by
    intro t
    rw [removeSuffix, List.getLast?_concat, if_pos rfl, List.dropLast_concat]
  rw [Server.hostText]
  split
  · exact (congrArg (removeSuffix · ']') (removePrefix_append (txt "[") _)).trans (hsuffix _)
  · have hstart : startsWith s.host (txt "[") = false :=
      startsWith_of_notMem (by decide) hbrackets.1
    rw [removePrefix, hstart, if_neg Bool.false_ne_true, removeSuffix, if_neg]
    exact fun hlast => hbrackets.2 (List.mem_of_getLast? hlast)

section Json

variable [JsonReader]

theorem parse_shadowsocksLink (h : Stands main) (slash : Bool) (tag : Option Text) : ∃ tag',
    LinkParser.parse (shadowsocksLink main slash tag) =
      parseShadowsocks (shadowsocksLink main slash tag') := by
  obtain ⟨tag', htrim⟩ := trim_shadowsocksLink h slash tag
  exact ⟨tag', LinkParser.parse_ss htrim⟩

/-- What a link gives is spelled by it. -/
theorem spells_of_gives (h : Stands main) {slash : Bool} {tag : Option Text}
    (hgives : Gives (shadowsocksLink main slash tag) s) : ∃ method hostPort,
      lowercase (trim method) = s.method ∧ ':' ∉ method ∧
        Spells main (method ++ ':' :: s.password) hostPort := by
  obtain ⟨name, hparse⟩ := hgives
  obtain ⟨tag', hread⟩ := parse_shadowsocksLink h slash tag
  rw [hread] at hparse
  obtain ⟨l, n, hl, htext, hspec⟩ := parseShadowsocks_iff.mp hparse
  rw [shadowsocksLink, removePrefix_append] at htext
  obtain ⟨hmain, -⟩ := splits_eq hl h htext
  have hdetails := congrArg OutboundSpec.details hspec
  rw [ShadowsocksText.spec, OutboundDetails.shadowsocks.injEq] at hdetails
  have hspells := hl.spells
  rw [hmain, ← hdetails.2] at hspells
  exact ⟨l.method, _, hdetails.1.symm, hl.no_password, hspells⟩

/-- A link gives what it spells. -/
theorem gives_of_spells (hs : s.Valid) (h : Stands main) (slash : Bool) (tag : Option Text)
    (hspells : Spells main s.credentials s.address) :
    Gives (shadowsocksLink main slash tag) s := by
  obtain ⟨tag', hread⟩ := parse_shadowsocksLink h slash tag
  obtain ⟨hfragment, hquery⟩ := h.notMem slash
  have hbare := bare_hostText hs
  obtain ⟨hmethod, -, hcolon, -⟩ := method_chars hs.method
  let l : ShadowsocksText := {
    main := main ++ slashed slash, query := none, fragment := tag', method := s.method
    password := s.password, host := s.hostText, port := decimal s.port }
  have hl : l.Reads s.port := {
    no_fragment := by rwa [marked, List.append_nil]
    no_query := hquery
    no_plugin := rfl
    spells := by rwa [rdropWhile_slashed h.end_]
    no_password := hcolon
    no_port := Server.notMem_decimal rfl _
    method := by rw [hmethod]; exact hs.method
    password := hs.password
    host := by
      obtain ⟨c, hc⟩ := List.exists_mem_of_ne_nil _ hs.host
      rw [ShadowsocksText.bare, hbare, isBlank, List.all_eq_false]
      exact ⟨c, hc, by rw [hs.shown c hc]; exact Bool.false_ne_true⟩
    port := toIntOrNull_toDigits (by have hport := hs.port; omega) }
  refine ⟨(l.spec s.port).tag, ?_⟩
  rw [hread, parseShadowsocks_iff]
  refine ⟨l, s.port, hl, ?_, ?_⟩
  · rw [shadowsocksLink, removePrefix_append, ShadowsocksText.text, marked, List.append_nil]
  · rw [ShadowsocksText.spec, ShadowsocksText.bare, hbare, hmethod]

end Json

/-! ### Which spellings are read alike -/

theorem credentials_ne_nil (s : Server) : s.credentials ≠ [] :=
  List.append_ne_nil_of_right_ne_nil _ (List.cons_ne_nil _ _)

theorem notMem_inBase64 {e : Base64} (he : e.alphabet = .std ∨ e.alphabet = .url) (b : Bytes)
    {c : Char} (hc : c ∈ ['%', ' ', '\n', '\r', '@', ':', '#', '?']) : c ∉ inBase64 e b := by
  rw [inBase64_eq]
  exact not_mem_symbols he (Base64.digits_lt b) _ hc

/-- Without plus signs the userinfo is what was encoded. -/
theorem spells_spelling (hs : s.Valid) {userinfo : Text} (h : Spelling s userinfo main)
    (hplus : '+' ∉ userinfo) : Spells main s.credentials s.address := by
  have haddress : '@' ∉ s.address := Server.notMem_address hs (by decide)
  cases h with
  | @base64 e he =>
      have hplain : urlDecode (inBase64 e (utf8 s.credentials)) =
          inBase64 e (utf8 s.credentials) := by
        rw [urlDecode_of_notMem (notMem_inBase64 he _ (by decide))]
        refine (List.map_congr_left fun c hc => ?_).trans (List.map_id _)
        refine if_neg ?_
        rintro rfl
        exact hplus hc
      refine .base64 rfl haddress ?_ ?_
      · rw [hplain]
        exact notMem_inBase64 he _ (by decide)
      · rw [hplain, decodeBase64_inBase64 he (credentials_ne_nil s)]
  | percent h =>
      have hdecoded : urlDecode userinfo = s.credentials := (urlDecode_percentEncoded h).2.mpr hplus
      rw [← hdecoded]
      refine .plain rfl haddress ?_
      rw [hdecoded]
      exact List.mem_append_right _ List.mem_cons_self
  | @whole e he =>
      have hne : s.credentials ++ '@' :: s.address ≠ [] :=
        List.append_ne_nil_of_left_ne_nil (credentials_ne_nil s) _
      exact .whole (notMem_inBase64 he _ (by decide)) (decodeBase64_inBase64 he hne) haddress
        (credentials_ne_nil s)

theorem eq_of_blanks {t t' : Text} (h : List.Forall₂ Blanks t t') (hno : '+' ∉ t) : t' = t := by
  induction h with
  | nil => rfl
  | cons hc h ih =>
      rw [List.mem_cons, not_or] at hno
      rw [ih hno.2, hc.resolve_right fun hplus => hno.1 hplus.1.symm]

/-- The blanks of a percent-encoded userinfo are in its password, and tell it. -/
theorem notMem_plus_percent (hs : s.Valid) {u method : Text} (h : PercentEncoded s.credentials u)
    (hdecoded : urlDecode u = method ++ ':' :: s.password) : '+' ∉ u := by
  obtain ⟨hblanks, hsame⟩ := urlDecode_percentEncoded h
  rw [hdecoded, Server.credentials] at hblanks
  have hlength : s.method.length = method.length := by
    have hall := hblanks.length_eq
    rw [List.length_append, List.length_append] at hall
    exact Nat.add_right_cancel hall
  have hmethod : method = s.method := by
    have hfront : List.Forall₂ Blanks s.method method := by
      have htake := List.forall₂_take s.method.length hblanks
      rwa [List.take_left, hlength, List.take_left] at htake
    exact eq_of_blanks hfront (method_chars hs.method).2.2.2.1
  rw [← hsame, hdecoded, hmethod, Server.credentials]

theorem length_lowercaseChar_le (c : Char) : (lowercaseChar c).length ≤ c.utf8Size := by
  have hpos := c.utf8Size_pos
  unfold lowercaseChar
  split
  · exact hpos
  · split
    · rename_i hdotted
      have hc : c = Char.ofNat 0x130 := by
        rw [← Char.ofNat_toNat c, beq_iff_eq.mp hdotted]
      rw [hc]
      decide
    · exact hpos

theorem length_lowercase_le (t : Text) : (lowercase t).length ≤ (utf8 t).length := by
  induction t with
  | nil => exact Nat.zero_le _
  | cons c t ih =>
      rw [lowercase, List.flatMap_cons, List.length_append, length_utf8_cons]
      exact Nat.add_le_add (length_lowercaseChar_le c) ih

/-- A method is not shorter for what is trimmed from it. -/
theorem length_method_le {method : Text} (h : lowercase (trim method) ∈ shadowsocksMethods) :
    (utf8 (lowercase (trim method))).length ≤ (utf8 method).length := by
  have htrim : (utf8 (trim method)).length ≤ (utf8 method).length := by
    have hpart : List.Sublist (trim method) method :=
      (List.rdropWhile_prefix _ _).sublist.trans (List.dropWhile_suffix _).sublist
    exact (hpart.flatMap _).length_le
  calc (utf8 (lowercase (trim method))).length
      = (lowercase (trim method)).length := (method_chars h).2.1
    _ ≤ (utf8 (trim method)).length := length_lowercase_le _
    _ ≤ (utf8 method).length := htrim

/-- A plus sign is the digit that is lost. -/
theorem kept_blanked {ds : List Nat} (h : ∀ d ∈ ds, d < 64) (fill : Nat) :
    (trim ((symbols .std ds fill).map blanked)).filter isKept =
      symbols .std (ds.filter (· != 62)) fill := by
  have hblank : ∀ c ∈ (symbols .std ds fill).map blanked,
      isWhitespace c = true → isKept c = false := by
    intro c hc hwhite
    obtain ⟨x, hx, rfl⟩ := List.mem_map.mp hc
    unfold blanked at hwhite ⊢
    split
    · rfl
    · rename_i hplus
      rw [if_neg hplus, shown_symbols (.inl rfl) h fill x hx] at hwhite
      cases hwhite
  rw [trim, filter_trimBy hblank]
  induction ds with
  | nil =>
      rw [symbols, List.map_nil, List.nil_append, List.map_replicate]
      exact List.filter_replicate_of_pos rfl
  | cons d ds ih =>
      have hd := h d List.mem_cons_self
      have hrest := ih (fun d hd => h d (List.mem_cons_of_mem _ hd))
        fun c hc => hblank c (List.mem_cons_of_mem _ hc)
      have hcons : ∀ x ds', symbols .std (x :: ds') fill =
          symbolChar .std x :: symbols .std ds' fill := fun _ _ => rfl
      rw [hcons, List.map_cons]
      by_cases h62 : d = 62
      · rw [blanked, if_pos ((symbolChar_std_eq_plus_iff hd).mpr h62),
          List.filter_cons_of_neg (by decide), hrest, List.filter_cons_of_neg (by simp [h62])]
      · have hplus : symbolChar .std d ≠ '+' :=
          fun heq => h62 ((symbolChar_std_eq_plus_iff hd).mp heq)
        have hkept : isKept (symbolChar .std d) = true := by
          have hno := (isSymbol (.inl rfl) hd : IsSymbol .std d).no_mark
          simp only [List.mem_cons, not_or] at hno
          simp [isKept, hno]
        rw [blanked, if_neg hplus, List.filter_cons_of_pos hkept, hrest,
          List.filter_cons_of_pos (by simpa using h62), hcons]

theorem replacement_notMem_method {method : Text}
    (h : lowercase (trim method) ∈ shadowsocksMethods) : replacement ∉ method := by
  intro hmem
  refine (method_chars h).2.2.2.2
    (List.mem_flatMap.mpr ⟨replacement, mem_trimBy hmem (by decide), ?_⟩)
  decide

/-- What is left of a Base64 userinfo without its plus signs is too short to be the same. -/
theorem notMem_plus_base64 (hs : s.Valid) (hpassword : replacement ∉ s.password) {e : Base64}
    (he : e.alphabet = .std ∨ e.alphabet = .url) {method : Text}
    (hmethod : lowercase (trim method) = s.method)
    (h : decodeBase64 (urlDecode (inBase64 e (utf8 s.credentials))) =
      some (method ++ ':' :: s.password)) : '+' ∉ inBase64 e (utf8 s.credentials) := by
  have hlt := Base64.digits_lt (utf8 s.credentials)
  have hlower : lowercase (trim method) ∈ shadowsocksMethods := hmethod ▸ hs.method
  rw [urlDecode_of_notMem (notMem_inBase64 he _ (by decide))] at h
  rw [inBase64_eq] at h ⊢
  intro hplus
  have hmem : ∃ d ∈ Base64.digits (utf8 s.credentials), symbolChar e.alphabet d = '+' := by
    rcases List.mem_append.mp hplus with hmem | hmem
    · exact List.mem_map.mp hmem
    · cases List.eq_of_mem_replicate hmem
  obtain ⟨d, hd, hsymbol⟩ := hmem
  rcases he with hstd | hurl
  · rw [hstd] at h hsymbol
    have h62 := (symbolChar_std_eq_plus_iff (hlt d hd)).mp hsymbol
    have hkept : ∀ d ∈ (Base64.digits (utf8 s.credentials)).filter (· != 62), d < 64 :=
      fun d hd => hlt d (List.mem_of_mem_filter hd)
    rw [decodeBase64_symbols (.inl rfl) hkept (kept_blanked hlt _)] at h
    split at h
    · cases h
    · obtain ⟨bs, hbs, hdecoded⟩ := Option.map_eq_some_iff.mp h
      split at hbs
      · have hshort : ((Base64.digits (utf8 s.credentials)).filter (· != 62)).length <
            (Base64.digits (utf8 s.credentials)).length :=
          List.length_filter_lt_length_iff_exists.mpr ⟨d, hd, by simp [h62]⟩
        have hno : replacement ∉ decodeToString bs := by
          rw [hdecoded]
          simp [replacement_notMem_method hlower, hpassword]
          decide
        have hfits := length_utf8_decodeToString hno
        have hall := Base64.length_digits (utf8 s.credentials)
        have hread := length_base64Bytes hbs
        have hle := length_method_le hlower
        have htext : ∀ m, (utf8 (m ++ ':' :: s.password)).length =
            (utf8 m).length + (utf8 (':' :: s.password)).length := by
          intro m
          rw [utf8, List.flatMap_append, List.length_append]
          rfl
        rw [hdecoded, htext] at hfits
        rw [hmethod] at hle
        rw [Server.credentials, htext] at hall
        rw [Server.credentials] at hshort hread
        omega
      · cases hbs
  · rw [hurl] at hsymbol
    exact symbolChar_url_ne_plus (hlt d hd) hsymbol

/-- A userinfo that stands before the address is read as it is decoded, or in Base64. -/
theorem spells_at {u credentials hostPort : Text} (haddress : '@' ∉ s.address)
    (h : Spells (u ++ '@' :: s.address) credentials hostPort) :
    (urlDecode u = credentials ∧ ':' ∈ urlDecode u) ∨
      (':' ∉ urlDecode u ∧ decodeBase64 (urlDecode u) = some credentials) := by
  have hsame : ∀ {u'}, u ++ '@' :: s.address = u' ++ '@' :: hostPort → '@' ∉ hostPort → u = u' := by
    intro u' heq hfree
    have hcut := (cutLast_append haddress u).symm.trans ((congrArg _ heq).trans
      (cutLast_append hfree u'))
    exact congrArg Prod.fst (Option.some.inj hcut)
  cases h with
  | plain hmain hfree hcolon =>
      rw [hsame hmain hfree]
      exact .inl ⟨rfl, hcolon⟩
  | base64 hmain hfree hcolon h =>
      rw [hsame hmain hfree]
      exact .inr ⟨hcolon, h⟩
  | whole hmain => exact absurd (List.mem_append_right u List.mem_cons_self) hmain

theorem mem_of_blanks {t t' : Text} (h : List.Forall₂ Blanks t t') {c : Char} (hc : c ≠ '+')
    (hmem : c ∈ t) : c ∈ t' := by
  induction h with
  | nil => exact hmem
  | cons hd h ih =>
      rcases List.mem_cons.mp hmem with rfl | hmem
      · rw [hd.resolve_right fun hplus => hc hplus.1]
        exact List.mem_cons_self
      · exact List.mem_cons_of_mem _ (ih hmem)

section Json

variable [JsonReader]

/-- **How a Shadowsocks link is read in each of its spellings:** as the server it spells where no
plus sign is in its userinfo, and as another or as none where one is. -/
theorem parse_spelling {userinfo : Text} (hs : s.Valid) (h : Spelling s userinfo main)
    (slash : Bool) (tag : Option Text) :
    ('+' ∉ userinfo → Gives (shadowsocksLink main slash tag) s) ∧
      (replacement ∉ s.password → Gives (shadowsocksLink main slash tag) s → '+' ∉ userinfo) := by
  have hstands := stands_spelling hs h
  refine ⟨fun hplus => gives_of_spells hs hstands slash tag (spells_spelling hs h hplus), ?_⟩
  intro hpassword hgives
  obtain ⟨method, hostPort, hmethod, -, hspells⟩ := spells_of_gives hstands hgives
  have haddress : '@' ∉ s.address := Server.notMem_address hs (by decide)
  cases h with
  | base64 he =>
      rcases spells_at haddress hspells with ⟨-, hcolon⟩ | ⟨-, hdecoded⟩
      · rw [urlDecode_of_notMem (notMem_inBase64 he _ (by decide))] at hcolon
        obtain ⟨c, hc, hblank⟩ := List.mem_map.mp hcolon
        unfold blanked at hblank
        split at hblank
        · cases hblank
        · rw [hblank] at hc
          exact absurd hc (notMem_inBase64 he _ (by decide))
      · exact notMem_plus_base64 hs hpassword he hmethod hdecoded
  | percent h =>
      rcases spells_at haddress hspells with ⟨hdecoded, -⟩ | ⟨hcolon, -⟩
      · exact notMem_plus_percent hs h hdecoded
      · have hmem : ':' ∈ s.credentials := List.mem_append_right _ List.mem_cons_self
        exact absurd (mem_of_blanks (urlDecode_percentEncoded h).1 (by decide) hmem) hcolon
  | whole he => exact List.not_mem_nil

end Json

section

local instance : JsonReader where
  parseToJsonElement _ := none
  intOrNull _ := none

/-- The standard alphabet writes a plus sign for the end of this password. -/
def plusServer : Server where
  method := txt "aes-256-gcm"
  password := txt "ab>"
  host := txt "example.org"
  ipv6 := false
  port := 8388

theorem valid_plusServer : plusServer.Valid where
  method := by decide
  password := by decide
  host := by decide
  shown := by decide
  plain := by decide
  name := by decide
  port := by decide

/-- In the URL alphabet it is read back. -/
theorem parse_spelling_url : Gives (shadowsocksLink
    (inBase64 ⟨.url, false⟩ (utf8 plusServer.credentials) ++ '@' :: plusServer.address) true
    (some (txt "one"))) plusServer :=
  (parse_spelling valid_plusServer (.base64 (.inr rfl)) true (some (txt "one"))).1
    (by decide)

/-- In the standard alphabet its last character is lost. -/
theorem parse_spelling_plus : ¬ ∀ (s : Server) (userinfo main : Text) (slash : Bool)
    (tag : Option Text), s.Valid → Spelling s userinfo main →
      Gives (shadowsocksLink main slash tag) s := by
  intro h
  let e : Base64 := ⟨.std, false⟩
  have hspelling : Spelling plusServer (inBase64 e (utf8 plusServer.credentials))
      (inBase64 e (utf8 plusServer.credentials) ++ '@' :: plusServer.address) := .base64 (.inl rfl)
  obtain ⟨tag, hparse⟩ := h plusServer _ _ false none valid_plusServer hspelling
  have hdialled : (LinkParser.parse (shadowsocksLink
      (inBase64 ⟨.std, false⟩ (utf8 plusServer.credentials) ++ '@' :: plusServer.address) false
      none)).map OutboundSpec.dialled =
        some ⟨txt "example.org", 8388, [txt "aes-256-gcm", txt "ab"]⟩ := by decide
  rw [hparse] at hdialled
  have hpassword : [plusServer.method, plusServer.password] = [txt "aes-256-gcm", txt "ab"] :=
    congrArg Dialled.credentials (Option.some.inj hdialled)
  exact absurd hpassword (by decide)

end

end Ghostlane.App
