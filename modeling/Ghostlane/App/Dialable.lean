import Ghostlane.App.LinkReading

/-!
# Ghostlane.App.Dialable

Which links are read into something that cannot be dialled. Each reader checks what it looks at, and
none of them looks at everything: the port is any number, brackets stay around a host, and a user
may be blank (`parse_dialable_iff`).
-/

namespace Ghostlane.App

open Ghostlane.Lib

/-! ### What is dialled -/

/-- Where, and as whom. -/
structure Dialled where
  host : Text
  port : Int
  credentials : List Text
  deriving DecidableEq

def OutboundDetails.credentials : OutboundDetails → List Text
  | .vless uuid .. => [uuid]
  | .hysteria2 password .. => [password]
  | .trojan password .. => [password]
  | .shadowsocks method password => [method, password]
  | .vmess uuid .. => [uuid]

def OutboundSpec.dialled (spec : OutboundSpec) : Dialled :=
  ⟨spec.host, spec.port, spec.details.credentials⟩

def InRange (port : Int) : Prop := 1 ≤ port ∧ port ≤ 65535

def Bracketed (host : Text) : Prop := '[' ∈ host ∨ ']' ∈ host

instance : DecidablePred InRange := fun port =>
  inferInstanceAs (Decidable (1 ≤ port ∧ port ≤ 65535))

instance : DecidablePred Bracketed := fun host =>
  inferInstanceAs (Decidable ('[' ∈ host ∨ ']' ∈ host))

/-- A core takes it. -/
structure Dialable (d : Dialled) : Prop where
  port : InRange d.port
  host : isBlank d.host = false
  bare : ¬ Bracketed d.host
  credentials : ∀ c ∈ d.credentials, isBlank c = false

theorem not_blank_of_method {method : Text} (h : method ∈ shadowsocksMethods) :
    isBlank method = false := by
  have hall : ∀ m ∈ shadowsocksMethods, isBlank m = false := by decide
  exact hall method h

/-- Where the host is not blank and one name is given, three things are left to go wrong. -/
theorem not_dialable_iff {host : Text} {port : Int} {name : Text} (hhost : isBlank host = false) :
    ¬ Dialable ⟨host, port, [name]⟩ ↔ ¬ InRange port ∨ Bracketed host ∨ isBlank name = true := by
  constructor
  · intro h
    by_contra hnot
    rw [not_or, not_or, not_not, Bool.not_eq_true] at hnot
    exact h ⟨hnot.1, hhost, hnot.2.1, List.forall_mem_singleton.mpr hnot.2.2⟩
  · rintro (hport | hbrackets | hname) h
    · exact hport h.port
    · exact h.bare hbrackets
    · have hshown := h.credentials name (List.mem_singleton_self name)
      rw [hname] at hshown
      cases hshown

theorem not_dialable_method_iff {host : Text} {port : Int} {method password : Text}
    (hhost : isBlank host = false) (hmethod : isBlank method = false) :
    ¬ Dialable ⟨host, port, [method, password]⟩ ↔
      ¬ InRange port ∨ Bracketed host ∨ isBlank password = true := by
  rw [← not_dialable_iff hhost, not_iff_not]
  constructor
  · exact fun h => ⟨h.port, h.host, h.bare,
      fun c hc => h.credentials c (List.mem_cons_of_mem method hc)⟩
  · exact fun h => ⟨h.port, h.host, h.bare, List.forall_mem_cons.mpr ⟨hmethod, h.credentials⟩⟩

/-! ### What each reader gives -/

theorem parseVless_dialled {s : Text} {d : Dialled} :
    (parseVless s).map OutboundSpec.dialled = some d ↔
    ∃ (l : LinkText) (n : Int), l.Reads n ∧ removePrefix s (txt "vless://") = l.text ∧
      d = ⟨l.host, n, [l.userinfo]⟩ := by
  have hmap : (parseVless s).map OutboundSpec.dialled =
      (splitLink s (txt "vless://")).map fun p => ⟨p.host, p.port, [p.userinfo]⟩ := by
    rw [parseVless]
    cases splitLink s (txt "vless://") <;> rfl
  rw [hmap, Option.map_eq_some_iff]
  constructor
  · rintro ⟨p, hp, rfl⟩
    obtain ⟨l, n, hreads, htext, rfl⟩ := splitLink_iff.mp hp
    exact ⟨l, n, hreads, htext, rfl⟩
  · rintro ⟨l, n, hreads, htext, rfl⟩
    exact ⟨l.parts n, splitLink_iff.mpr ⟨l, n, hreads, htext, rfl⟩, rfl⟩

theorem parseHy2_dialled {s scheme : Text} {d : Dialled} :
    (parseHy2 s scheme).map OutboundSpec.dialled = some d ↔
      ∃ (l : LinkText) (n : Int), l.Reads n ∧ removePrefix s scheme = l.text ∧
        d = ⟨l.host, n, [l.userinfo]⟩ := by
  have hmap : (parseHy2 s scheme).map OutboundSpec.dialled =
      (splitLink s scheme).map fun p => ⟨p.host, p.port, [p.userinfo]⟩ := by
    rw [parseHy2]
    cases splitLink s scheme <;> rfl
  rw [hmap, Option.map_eq_some_iff]
  constructor
  · rintro ⟨p, hp, rfl⟩
    obtain ⟨l, n, hreads, htext, rfl⟩ := splitLink_iff.mp hp
    exact ⟨l, n, hreads, htext, rfl⟩
  · rintro ⟨l, n, hreads, htext, rfl⟩
    exact ⟨l.parts n, splitLink_iff.mpr ⟨l, n, hreads, htext, rfl⟩, rfl⟩

/-- What the Trojan reader asks of a link beside its parts. -/
structure LinkText.IsTrojan (l : LinkText) : Prop where
  userinfo : isBlank l.userinfo = false
  security : (lastValue l.pairs (txt "security")).map lowercase ≠ some (txt "reality")
  transport : (streamTransport (ifEmpty (lowercase (trim (valueOf l.pairs "type"))) (txt "tcp"))
    l.pairs).isSome = true

theorem parseTrojan_dialled {s : Text} {d : Dialled} :
    (parseTrojan s).map OutboundSpec.dialled = some d ↔
      ∃ (l : LinkText) (n : Int), l.Reads n ∧ l.IsTrojan ∧
        removePrefix s (txt "trojan://") = l.text ∧ d = ⟨l.host, n, [urlDecode l.userinfo]⟩ := by
  rw [Option.map_eq_some_iff, parseTrojan]
  constructor
  · rintro ⟨spec, h, rfl⟩
    obtain ⟨p, hp, h⟩ := Option.bind_eq_some_iff.mp h
    dsimp only at h
    split at h
    · cases h
    · rename_i huser
      split at h
      · cases h
      · rename_i hsecurity
        obtain ⟨transport, htransport, h⟩ := Option.bind_eq_some_iff.mp h
        cases h
        obtain ⟨l, n, hreads, htext, rfl⟩ := splitLink_iff.mp hp
        exact ⟨l, n, hreads, ⟨Bool.not_eq_true _ ▸ huser, hsecurity,
          Option.isSome_iff_exists.mpr ⟨transport, htransport⟩⟩, htext, rfl⟩
  · rintro ⟨l, n, hreads, htrojan, htext, rfl⟩
    obtain ⟨transport, htransport⟩ := Option.isSome_iff_exists.mp htrojan.transport
    have huser : ¬ isBlank l.userinfo = true := by
      rw [htrojan.userinfo]
      exact Bool.false_ne_true
    rw [splitLink_iff.mpr ⟨l, n, hreads, htext, rfl⟩, Option.bind_eq_bind, Option.bind_some]
    exact ⟨⟨l.host, n, ifBlank (l.parts n).tag l.host,
        .trojan (urlDecode l.userinfo) (tlsOf l.pairs l.host) transport⟩,
      (if_neg huser).trans ((if_neg htrojan.security).trans
        (Option.bind_eq_some_iff.mpr ⟨transport, htransport, rfl⟩)), rfl⟩

theorem parseShadowsocks_dialled {s : Text} {d : Dialled} :
    (parseShadowsocks s).map OutboundSpec.dialled = some d ↔
      ∃ (l : ShadowsocksText) (n : Int), l.Reads n ∧ removePrefix s (txt "ss://") = l.text ∧
        d = ⟨l.bare, n, [lowercase (trim l.method), l.password]⟩ := by
  rw [Option.map_eq_some_iff]
  constructor
  · rintro ⟨spec, h, rfl⟩
    obtain ⟨l, n, hreads, htext, rfl⟩ := parseShadowsocks_iff.mp h
    exact ⟨l, n, hreads, htext, rfl⟩
  · rintro ⟨l, n, hreads, htext, rfl⟩
    exact ⟨l.spec n, parseShadowsocks_iff.mpr ⟨l, n, hreads, htext, rfl⟩, rfl⟩

section Json

variable [JsonReader]

/-- A field of a VMess object, as `str` reads it. -/
def vmessField (fields : JsonObject) (key : String) : Text :=
  trim (((lastValue fields (txt key)).bind JsonElement.content?).getD [])

/-- The object a VMess link wraps. -/
def vmessObject (body : Text) : Option JsonObject :=
  (((decodeBase64 (trim body)).map trim).bind
    JsonReader.parseToJsonElement).bind JsonElement.fields?

def vmessNet (fields : JsonObject) : Text :=
  ifEmpty (lowercase (vmessField fields "net")) (txt "tcp")

/-- What the VMess reader asks of an object. -/
structure VmessReads (fields : JsonObject) (port : Int) : Prop where
  port : toIntOrNull 10 (vmessField fields "port") = some port
  host : isBlank (vmessField fields "add") = false
  uuid : isBlank (vmessField fields "id") = false
  disguise : ¬ (vmessNet fields = txt "tcp" ∧ lowercase (vmessField fields "type") ≠ [] ∧
    lowercase (vmessField fields "type") ≠ txt "none")
  transport : vmessNet fields = txt "grpc" ∨ (streamTransport (vmessNet fields)
    [(txt "path", vmessField fields "path"), (txt "host", vmessField fields "host"),
      (txt "serviceName", vmessField fields "path")]).isSome = true

theorem parseVmess_dialled {s : Text} {d : Dialled} :
    (parseVmess s).map OutboundSpec.dialled = some d ↔
      ∃ fields n, vmessObject (removePrefix s (txt "vmess://")) = some fields ∧
        VmessReads fields n ∧ d = ⟨vmessField fields "add", n, [vmessField fields "id"]⟩ := by
  rw [Option.map_eq_some_iff, parseVmess]
  constructor
  · rintro ⟨spec, h, rfl⟩
    obtain ⟨json, hjson, h⟩ := Option.bind_eq_some_iff.mp h
    obtain ⟨fields, hfields, h⟩ := Option.bind_eq_some_iff.mp h
    dsimp only at h
    obtain ⟨n, hn, h⟩ := Option.bind_eq_some_iff.mp h
    have hobject : vmessObject (removePrefix s (txt "vmess://")) = some fields := by
      rw [vmessObject, hjson]
      exact hfields
    split at h
    · cases h
    · rename_i hblank
      rw [not_or, Bool.not_eq_true, Bool.not_eq_true] at hblank
      split at h
      · cases h
      · rename_i hdisguise
        split at h
        · rename_i hgrpc
          cases h
          exact ⟨fields, n, hobject, ⟨hn, hblank.1, hblank.2, hdisguise, .inl hgrpc⟩, rfl⟩
        · obtain ⟨transport, htransport, h⟩ := Option.bind_eq_some_iff.mp h
          cases h
          exact ⟨fields, n, hobject, ⟨hn, hblank.1, hblank.2, hdisguise,
            .inr (Option.isSome_iff_exists.mpr ⟨transport, htransport⟩)⟩, rfl⟩
  · rintro ⟨fields, n, hobject, hreads, rfl⟩
    obtain ⟨element, helement, hfields⟩ := Option.bind_eq_some_iff.mp hobject
    obtain ⟨json, hjson, hparse⟩ := Option.bind_eq_some_iff.mp helement
    have hblank : ¬ (isBlank (vmessField fields "add") = true ∨
        isBlank (vmessField fields "id") = true) := by
      rw [hreads.host, hreads.uuid]
      decide
    have hport := hreads.port
    have hdisguise := hreads.disguise
    have htransport := hreads.transport
    simp only [vmessNet, vmessField] at hport hblank hdisguise htransport
    rw [hjson, Option.bind_eq_bind, Option.bind_some, hparse]
    dsimp only [Option.bind_eq_bind, Option.bind_some]
    rw [hfields]
    dsimp only [Option.bind_some]
    rw [hport]
    dsimp only [Option.bind_some]
    rw [if_neg hblank, if_neg hdisguise]
    rcases htransport with hgrpc | hstream
    · rw [if_pos hgrpc]
      exact ⟨_, rfl, rfl⟩
    · by_cases hgrpc : ifEmpty (lowercase (trim (((lastValue fields (txt "net")).bind
          JsonElement.content?).getD []))) (txt "tcp") = txt "grpc"
      · rw [if_pos hgrpc]
        exact ⟨_, rfl, rfl⟩
      · obtain ⟨transport, htransport⟩ := Option.isSome_iff_exists.mp hstream
        rw [if_neg hgrpc, htransport]
        exact ⟨_, rfl, rfl⟩

/-! ### Which links cannot be dialled -/

/-- A link that is taken and cannot be dialled: its port is out of range, there are brackets in its
host, or it names nobody. -/
inductive Undialable : Text → Prop
  | named {scheme : Text} {l : LinkText} {n : Int}
      (hscheme : scheme ∈ [txt "vless://", txt "hysteria2://", txt "hy2://"]) (h : l.Reads n)
      (hbad : ¬ InRange n ∨ Bracketed l.host ∨ isBlank l.userinfo = true) :
      Undialable (scheme ++ l.text)
  | trojan {l : LinkText} {n : Int} (h : l.Reads n) (htrojan : l.IsTrojan)
      (hbad : ¬ InRange n ∨ Bracketed l.host ∨ isBlank (urlDecode l.userinfo) = true) :
      Undialable (txt "trojan://" ++ l.text)
  | shadowsocks {l : ShadowsocksText} {n : Int} (h : l.Reads n)
      (hbad : ¬ InRange n ∨ Bracketed l.bare ∨ isBlank l.password = true) :
      Undialable (txt "ss://" ++ l.text)
  | vmess {body : Text} {fields : JsonObject} {n : Int} (hobject : vmessObject body = some fields)
      (h : VmessReads fields n) (hbad : ¬ InRange n ∨ Bracketed (vmessField fields "add")) :
      Undialable (txt "vmess://" ++ body)

namespace LinkParser

section Schemes

variable {line rest : Text}

theorem parse_vless (ht : trim line = txt "vless://" ++ rest) :
    parse line = parseVless (txt "vless://" ++ rest) := by
  rw [parse, ht]
  rfl

theorem parse_hysteria2 (ht : trim line = txt "hysteria2://" ++ rest) :
    parse line = parseHy2 (txt "hysteria2://" ++ rest) (txt "hysteria2://") := by
  rw [parse, ht]
  rfl

theorem parse_hy2 (ht : trim line = txt "hy2://" ++ rest) :
    parse line = parseHy2 (txt "hy2://" ++ rest) (txt "hy2://") := by
  rw [parse, ht]
  rfl

theorem parse_trojan (ht : trim line = txt "trojan://" ++ rest) :
    parse line = parseTrojan (txt "trojan://" ++ rest) := by
  rw [parse, ht]
  rfl

theorem parse_ss (ht : trim line = txt "ss://" ++ rest) :
    parse line = parseShadowsocks (txt "ss://" ++ rest) := by
  rw [parse, ht]
  rfl

theorem parse_vmess (ht : trim line = txt "vmess://" ++ rest) :
    parse line = parseVmess (txt "vmess://" ++ rest) := by
  rw [parse, ht]
  rfl

end Schemes

/-- A line that is read begins with one of the schemes. -/
theorem exists_scheme {line : Text} {spec : OutboundSpec} (h : parse line = some spec) :
    ∃ scheme ∈ schemes, ∃ rest, trim line = scheme ++ rest := by
  by_contra hnot
  have hstart : ∀ scheme ∈ schemes, startsWith (trim line) scheme = false := by
    intro scheme hscheme
    rw [← Bool.not_eq_true]
    exact fun hstart => hnot ⟨scheme, hscheme, exists_of_startsWith hstart⟩
  simp only [schemes, List.forall_mem_cons] at hstart
  obtain ⟨hvless, hhysteria2, hhy2, htrojan, hss, hvmess, -⟩ := hstart
  rw [parse, hvless, hhysteria2, hhy2, htrojan, hss, hvmess] at h
  cases h

theorem undialable_of_parse {line : Text} {spec : OutboundSpec} (h : parse line = some spec)
    (hbad : ¬ Dialable spec.dialled) : Undialable (trim line) := by
  obtain ⟨scheme, hscheme, rest, ht⟩ := exists_scheme h
  simp only [schemes, List.mem_cons, List.not_mem_nil, or_false] at hscheme
  rw [ht]
  rcases hscheme with rfl | rfl | rfl | rfl | rfl | rfl
  · rw [parse_vless ht] at h
    obtain ⟨l, n, hreads, hrest, hd⟩ := parseVless_dialled.mp (congrArg (Option.map _) h)
    rw [removePrefix_append] at hrest
    rw [hd, not_dialable_iff hreads.host] at hbad
    exact hrest ▸ .named (by decide) hreads hbad
  · rw [parse_hysteria2 ht] at h
    obtain ⟨l, n, hreads, hrest, hd⟩ := parseHy2_dialled.mp (congrArg (Option.map _) h)
    rw [removePrefix_append] at hrest
    rw [hd, not_dialable_iff hreads.host] at hbad
    exact hrest ▸ .named (by decide) hreads hbad
  · rw [parse_hy2 ht] at h
    obtain ⟨l, n, hreads, hrest, hd⟩ := parseHy2_dialled.mp (congrArg (Option.map _) h)
    rw [removePrefix_append] at hrest
    rw [hd, not_dialable_iff hreads.host] at hbad
    exact hrest ▸ .named (by decide) hreads hbad
  · rw [parse_trojan ht] at h
    obtain ⟨l, n, hreads, htrojan, hrest, hd⟩ :=
      parseTrojan_dialled.mp (congrArg (Option.map _) h)
    rw [removePrefix_append] at hrest
    rw [hd, not_dialable_iff hreads.host] at hbad
    exact hrest ▸ .trojan hreads htrojan hbad
  · rw [parse_ss ht] at h
    obtain ⟨l, n, hreads, hrest, hd⟩ := parseShadowsocks_dialled.mp (congrArg (Option.map _) h)
    rw [removePrefix_append] at hrest
    rw [hd, not_dialable_method_iff hreads.host (not_blank_of_method hreads.method)] at hbad
    exact hrest ▸ .shadowsocks hreads hbad
  · rw [parse_vmess ht] at h
    obtain ⟨fields, n, hobject, hreads, hd⟩ := parseVmess_dialled.mp (congrArg (Option.map _) h)
    rw [removePrefix_append] at hobject
    rw [hd, not_dialable_iff hreads.host, hreads.uuid] at hbad
    exact .vmess hobject hreads (hbad.imp_right (Or.resolve_right · Bool.false_ne_true))

theorem parse_of_undialable {line : Text} (h : Undialable (trim line)) :
    ∃ spec, parse line = some spec ∧ ¬ Dialable spec.dialled := by
  have hgives : ∀ {o : Option OutboundSpec} {d : Dialled}, parse line = o →
      o.map OutboundSpec.dialled = some d → ¬ Dialable d →
        ∃ spec, parse line = some spec ∧ ¬ Dialable spec.dialled := by
    rintro o d hparse hd hbad
    obtain ⟨spec, hspec, rfl⟩ := Option.map_eq_some_iff.mp hd
    exact ⟨spec, hparse.trans hspec, hbad⟩
  generalize ht : trim line = t at h
  cases h with
  | @named scheme l n hscheme hreads hbad =>
      simp only [List.mem_cons, List.not_mem_nil, or_false] at hscheme
      rw [← not_dialable_iff hreads.host] at hbad
      rcases hscheme with rfl | rfl | rfl
      · exact hgives (parse_vless ht)
          (parseVless_dialled.mpr ⟨l, n, hreads, removePrefix_append .., rfl⟩) hbad
      · exact hgives (parse_hysteria2 ht)
          (parseHy2_dialled.mpr ⟨l, n, hreads, removePrefix_append .., rfl⟩) hbad
      · exact hgives (parse_hy2 ht)
          (parseHy2_dialled.mpr ⟨l, n, hreads, removePrefix_append .., rfl⟩) hbad
  | @trojan l n hreads htrojan hbad =>
      rw [← not_dialable_iff hreads.host] at hbad
      exact hgives (parse_trojan ht)
        (parseTrojan_dialled.mpr ⟨l, n, hreads, htrojan, removePrefix_append .., rfl⟩) hbad
  | @shadowsocks l n hreads hbad =>
      rw [← not_dialable_method_iff hreads.host (not_blank_of_method hreads.method)] at hbad
      exact hgives (parse_ss ht)
        (parseShadowsocks_dialled.mpr ⟨l, n, hreads, removePrefix_append .., rfl⟩) hbad
  | @vmess body fields n hobject hreads hbad =>
      refine hgives (parse_vmess ht) (parseVmess_dialled.mpr ⟨fields, n, ?_, hreads, rfl⟩)
        ((not_dialable_iff hreads.host).mpr (hbad.imp_right Or.inl))
      rw [removePrefix_append]
      exact hobject

/-- **Which lines are dialled as they are read:** all but the undialable ones. -/
theorem parse_dialable_iff (line : Text) :
    (∀ spec, parse line = some spec → Dialable spec.dialled) ↔ ¬ Undialable (trim line) := by
  constructor
  · intro h hbad
    obtain ⟨spec, hspec, hnot⟩ := parse_of_undialable hbad
    exact hnot (h spec hspec)
  · intro h spec hspec
    by_contra hnot
    exact h (undialable_of_parse hspec hnot)

end LinkParser

end Json

section

local instance : JsonReader where
  parseToJsonElement _ := none
  intOrNull _ := none

/-- A port that is none. -/
theorem LinkParser.parse_port_zero :
    ¬ ∀ spec, parse (txt "vless://id@host:0") = some spec → Dialable spec.dialled := by
  intro h
  have hdialled : (parse (txt "vless://id@host:0")).map OutboundSpec.dialled =
      some ⟨txt "host", 0, [txt "id"]⟩ := by decide
  obtain ⟨spec, hspec, hd⟩ := Option.map_eq_some_iff.mp hdialled
  have hport := (h spec hspec).port
  rw [hd] at hport
  exact absurd hport (by decide)

end

end Ghostlane.App
