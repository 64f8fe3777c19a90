import Ghostlane.App.LinkParser

/-!
# Ghostlane.App.LinkReading

What the link readers take, said of the text. A link with an authority is its parts in order
(`splitLink_iff`), and a Shadowsocks link its credentials in one of three spellings
(`parseShadowsocks_iff`).
-/

namespace Ghostlane.App

open Ghostlane.Lib

/-! ### Parts behind a mark -/

/-- A part with its mark, where it is there. -/
def marked (mark : Char) : Option Text → Text
  | none => []
  | some t => mark :: t

theorem splitFirst_iff {c : Char} {t a : Text} {b : Option Text} :
    splitFirst c t = (a, b) ↔ t = a ++ marked c b ∧ c ∉ a := by
  constructor
  · intro h
    rcases splitFirst_cases c t with ⟨hsplit, hfree⟩ | ⟨a', b', hsplit, rfl, hfree⟩
    · rw [hsplit] at h
      cases h
      exact ⟨(List.append_nil t).symm, hfree⟩
    · rw [hsplit] at h
      cases h
      exact ⟨rfl, hfree⟩
  · rintro ⟨rfl, hfree⟩
    cases b with
    | none =>
        rw [marked, List.append_nil]
        exact splitFirst_of_notMem hfree
    | some b => exact splitFirst_append hfree b

theorem ne_nil_of_not_blank {t : Text} (h : isBlank t = false) : t ≠ [] := by
  rintro rfl
  cases h

/-! ### Links with an authority -/

/-- A link behind its scheme, part by part. -/
structure LinkText where
  userinfo : Text
  host : Text
  port : Text
  query : Option Text
  fragment : Option Text

namespace LinkText

def authority (l : LinkText) : Text := l.userinfo ++ '@' :: (l.host ++ ':' :: l.port)

def text (l : LinkText) : Text := l.authority ++ marked '?' l.query ++ marked '#' l.fragment

/-- Each mark is the first or the last of its kind, and the port is a number. -/
structure Reads (l : LinkText) (port : Int) : Prop where
  no_fragment : '#' ∉ l.authority ++ marked '?' l.query
  no_query : '?' ∉ l.authority
  no_userinfo : '@' ∉ l.host ++ ':' :: l.port
  no_port : ':' ∉ l.port
  host : isBlank l.host = false
  port : toIntOrNull 10 l.port = some port

def pairs (l : LinkText) : List (Text × Text) := (l.query.map parseQuery).getD []

def parts (l : LinkText) (port : Int) : Parts where
  userinfo := l.userinfo
  host := l.host
  port := port
  query := l.pairs
  tag := (l.fragment.map urlDecode).getD []

end LinkText

/-- **What `splitLink` splits.** -/
theorem splitLink_iff {s scheme : Text} {p : Parts} : splitLink s scheme = some p ↔
    ∃ (l : LinkText) (n : Int), l.Reads n ∧ removePrefix s scheme = l.text ∧ p = l.parts n := by
  rw [splitLink]
  constructor
  · intro h
    cases hhash : splitFirst '#' (removePrefix s scheme) with
    | mk beforeHash fragment =>
        rw [hhash] at h
        dsimp only at h
        cases hquery : splitFirst '?' beforeHash with
        | mk authority query =>
            rw [hquery] at h
            dsimp only at h
            obtain ⟨⟨userinfo, hostPort⟩, hat, h⟩ := Option.bind_eq_some_iff.mp h
            obtain ⟨⟨host, port⟩, hcolon, h⟩ := Option.bind_eq_some_iff.mp h
            dsimp only at h
            split at h
            · cases h
            · obtain ⟨n, hn, h⟩ := Option.bind_eq_some_iff.mp h
              split at h
              · cases h
              · rename_i hblank
                have hp := (Option.some.inj h).symm
                obtain ⟨hbody, hfragment⟩ := splitFirst_iff.mp hhash
                obtain ⟨rfl, hfree⟩ := splitFirst_iff.mp hquery
                obtain ⟨rfl, huser⟩ := cutLast_eq_some_iff.mp hat
                obtain ⟨rfl, hport⟩ := cutLast_eq_some_iff.mp hcolon
                exact ⟨⟨userinfo, host, port, query, fragment⟩, n,
                  ⟨hfragment, hfree, huser, hport, Bool.not_eq_true _ ▸ hblank, hn⟩, hbody, hp⟩
  · rintro ⟨l, n, hreads, hbody, rfl⟩
    have hhash : splitFirst '#' (removePrefix s scheme) =
        (l.authority ++ marked '?' l.query, l.fragment) :=
      splitFirst_iff.mpr ⟨hbody, hreads.no_fragment⟩
    have hquery : splitFirst '?' (l.authority ++ marked '?' l.query) = (l.authority, l.query) :=
      splitFirst_iff.mpr ⟨rfl, hreads.no_query⟩
    have hat : cutLast '@' l.authority = some (l.userinfo, l.host ++ ':' :: l.port) :=
      cutLast_append hreads.no_userinfo l.userinfo
    have hcolon : cutLast ':' (l.host ++ ':' :: l.port) = some (l.host, l.port) :=
      cutLast_append hreads.no_port l.host
    rw [hhash]
    dsimp only
    rw [hquery]
    dsimp only
    rw [hat, Option.bind_eq_bind, Option.bind_some]
    dsimp only
    rw [hcolon, Option.bind_some]
    dsimp only
    rw [if_neg (ne_nil_of_not_blank hreads.host), hreads.port, hreads.host]
    rfl

/-! ### Shadowsocks links -/

/-- The credentials and the address before the query: percent-encoded, in base64, or in base64
together. -/
inductive Spells (main : Text) : Text → Text → Prop
  | plain {userinfo hostPort : Text} (hmain : main = userinfo ++ '@' :: hostPort)
      (hfree : '@' ∉ hostPort) (hcolon : ':' ∈ urlDecode userinfo) :
      Spells main (urlDecode userinfo) hostPort
  | base64 {userinfo credentials hostPort : Text} (hmain : main = userinfo ++ '@' :: hostPort)
      (hfree : '@' ∉ hostPort) (hcolon : ':' ∉ urlDecode userinfo)
      (h : decodeBase64 (urlDecode userinfo) = some credentials) : Spells main credentials hostPort
  | whole {credentials hostPort : Text} (hmain : '@' ∉ main)
      (h : decodeBase64 main = some (credentials ++ '@' :: hostPort)) (hfree : '@' ∉ hostPort)
      (hne : credentials ≠ []) : Spells main credentials hostPort

theorem shadowsocksParts_iff {main credentials hostPort : Text} :
    shadowsocksParts main = some (credentials, hostPort) ↔ Spells main credentials hostPort := by
  unfold shadowsocksParts
  constructor
  · intro h
    split at h
    · rename_i userinfo hostPort' hat
      obtain ⟨hmain, hfree⟩ := cutLast_eq_some_iff.mp hat
      dsimp only at h
      split at h
      · rename_i hcolon
        cases h
        exact .plain hmain hfree hcolon
      · rename_i hcolon
        obtain ⟨text, htext, h⟩ := Option.map_eq_some_iff.mp h
        cases h
        exact .base64 hmain hfree hcolon htext
    · rename_i hat
      obtain ⟨decoded, hdecoded, h⟩ := Option.bind_eq_some_iff.mp h
      obtain ⟨⟨credentials', hostPort'⟩, hcut, h⟩ := Option.bind_eq_some_iff.mp h
      dsimp only at h
      split at h
      · cases h
      · rename_i hne
        cases h
        obtain ⟨rfl, hfree⟩ := cutLast_eq_some_iff.mp hcut
        exact .whole (notMem_of_cutLast hat) hdecoded hfree hne
  · intro h
    cases h with
    | plain hmain hfree hcolon =>
        rw [hmain, cutLast_append hfree]
        exact if_pos hcolon
    | base64 hmain hfree hcolon h =>
        rw [hmain, cutLast_append hfree]
        dsimp only
        rw [if_neg hcolon, h]
        rfl
    | whole hmain h hfree hne =>
        rw [cutLast_of_notMem hmain, h]
        dsimp only [Option.bind_eq_bind, Option.bind_some]
        rw [cutLast_append hfree]
        exact if_neg hne

/-- A Shadowsocks link behind its scheme. The credentials and the address stand in `main`. -/
structure ShadowsocksText where
  main : Text
  query : Option Text
  fragment : Option Text
  method : Text
  password : Text
  host : Text
  port : Text

namespace ShadowsocksText

def text (l : ShadowsocksText) : Text := l.main ++ marked '?' l.query ++ marked '#' l.fragment

/-- The host without brackets around it. -/
def bare (l : ShadowsocksText) : Text := removeSuffix (removePrefix l.host (txt "[")) ']'

/-- The link says this, with this port. -/
structure Reads (l : ShadowsocksText) (port : Int) : Prop where
  no_fragment : '#' ∉ l.main ++ marked '?' l.query
  no_query : '?' ∉ l.main
  no_plugin :
    ((l.query.map parseQuery).bind (lastValue · (txt "plugin"))).any (!isBlank ·) = false
  spells : Spells (l.main.rdropWhile (· == '/')) (l.method ++ ':' :: l.password)
    (l.host ++ ':' :: l.port)
  no_password : ':' ∉ l.method
  no_port : ':' ∉ l.port
  method : lowercase (trim l.method) ∈ shadowsocksMethods
  password : l.password ≠ []
  host : isBlank l.bare = false
  port : toIntOrNull 10 l.port = some port

def spec (l : ShadowsocksText) (port : Int) : OutboundSpec where
  host := l.bare
  port := port
  tag := ifBlank ((l.fragment.map urlDecode).getD []) l.bare
  details := .shadowsocks (lowercase (trim l.method)) l.password

end ShadowsocksText

/-- **What `parseShadowsocks` takes.** -/
theorem parseShadowsocks_iff {s : Text} {spec : OutboundSpec} : parseShadowsocks s = some spec ↔
    ∃ (l : ShadowsocksText) (n : Int),
      l.Reads n ∧ removePrefix s (txt "ss://") = l.text ∧ spec = l.spec n := by
  rw [parseShadowsocks]
  constructor
  · intro h
    cases hhash : splitFirst '#' (removePrefix s (txt "ss://")) with
    | mk body fragment =>
        rw [hhash] at h
        dsimp only at h
        cases hquery : splitFirst '?' body with
        | mk main query =>
            rw [hquery] at h
            dsimp only at h
            split at h
            · cases h
            · rename_i hplugin
              obtain ⟨⟨credentials, hostPort⟩, hparts, h⟩ := Option.bind_eq_some_iff.mp h
              dsimp only at h
              cases hcut : splitFirst ':' credentials with
              | mk method behind =>
                  rw [hcut] at h
                  dsimp only at h
                  split at h
                  · cases h
                  · rename_i hmethod
                    obtain ⟨⟨host, port⟩, hcolon, h⟩ := Option.bind_eq_some_iff.mp h
                    dsimp only at h
                    split at h
                    · cases h
                    · obtain ⟨n, hn, h⟩ := Option.bind_eq_some_iff.mp h
                      split at h
                      · cases h
                      · rename_i hblank
                        have hspec := (Option.some.inj h).symm
                        rw [not_or, not_not] at hmethod
                        obtain ⟨hbody, hfragment⟩ := splitFirst_iff.mp hhash
                        obtain ⟨rfl, hfree⟩ := splitFirst_iff.mp hquery
                        obtain ⟨rfl, hname⟩ := splitFirst_iff.mp hcut
                        obtain ⟨rfl, hport⟩ := cutLast_eq_some_iff.mp hcolon
                        cases behind with
                        | none => exact absurd rfl hmethod.2
                        | some password =>
                            exact ⟨⟨main, query, fragment, method, password, host, port⟩, n,
                              ⟨hfragment, hfree, Bool.not_eq_true _ ▸ hplugin,
                                shadowsocksParts_iff.mp hparts, hname, hport, hmethod.1,
                                hmethod.2, Bool.not_eq_true _ ▸ hblank, hn⟩, hbody, hspec⟩
  · rintro ⟨l, n, hreads, hbody, rfl⟩
    have hhash : splitFirst '#' (removePrefix s (txt "ss://")) =
        (l.main ++ marked '?' l.query, l.fragment) :=
      splitFirst_iff.mpr ⟨hbody, hreads.no_fragment⟩
    have hquery : splitFirst '?' (l.main ++ marked '?' l.query) = (l.main, l.query) :=
      splitFirst_iff.mpr ⟨rfl, hreads.no_query⟩
    have hcut : splitFirst ':' (l.method ++ ':' :: l.password) = (l.method, some l.password) :=
      splitFirst_append hreads.no_password l.password
    have hcolon : cutLast ':' (l.host ++ ':' :: l.port) = some (l.host, l.port) :=
      cutLast_append hreads.no_port l.host
    have hhost : l.host ≠ [] := by
      intro hnil
      have hblank := hreads.host
      rw [ShadowsocksText.bare, hnil] at hblank
      cases hblank
    have hmethod : ¬ (lowercase (trim l.method) ∉ shadowsocksMethods ∨ l.password = []) := by
      rw [not_or, not_not]
      exact ⟨hreads.method, hreads.password⟩
    have hblank := hreads.host
    rw [ShadowsocksText.bare] at hblank
    rw [hhash]
    dsimp only
    rw [hquery]
    dsimp only
    rw [hreads.no_plugin, if_neg Bool.false_ne_true, shadowsocksParts_iff.mpr hreads.spells]
    dsimp only [Option.bind_eq_bind, Option.bind_some]
    rw [hcut]
    dsimp only [Option.getD_some]
    rw [if_neg hmethod, hcolon]
    dsimp only [Option.bind_some]
    rw [if_neg hhost, hreads.port]
    dsimp only [Option.bind_some]
    rw [hblank]
    rfl

end Ghostlane.App
