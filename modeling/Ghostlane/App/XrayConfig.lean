import Ghostlane.App.LinkParser
import Ghostlane.App.Routing
import Ghostlane.Lib.Xray

/-!
# Ghostlane.App.XrayConfig

The document Xray runs on (`XrayConfig.buildXhttp` of `net/XrayConfig.kt`), and the router it makes
of Xray where Xray is the only one in the path. Three of its parts depend on each other: the
resolvers with their names, the rules with the tags they name, and the outbounds. Whatever is asked
for, what they make together is `Routed` (`buildXhttp_routed`).

The document is embedded as its objects; its text is theirs, printed.
-/

namespace Ghostlane.App

open Ghostlane.Lib Ghostlane.Lib.Xray

/-! ### The network's own resolver -/

inductive DirectDns
  | system
  | servers (addresses : List Text)
  | placeholder
  deriving DecidableEq, Repr

/-- Four numbers up to 255, as Kotlin reads numbers. -/
def dottedQuad (host : Text) : Bool :=
  let parts := splitAll (· == '.') host
  parts.length == 4 && parts.all fun part => (toIntOrNull 10 part).any fun n => 0 ≤ n && n ≤ 255

namespace DirectDns

def isLinkLocal (host : Text) : Bool := (host.take 5).map Char.toLower == txt "fe80:"

def isLoopback (host : Text) : Bool := startsWith host (txt "127.") || host == txt "::1"

/-- `substringBefore('%')`. -/
def withoutZone (host : Text) : Text := (splitFirst '%' host).1

def directDnsPlaceholder : Text := txt "198.51.100.53"

def directDnsFallback : Text := txt "77.88.8.8"

/-- `pick`: the first IPv4, else the first global IPv6, else a link-local one with its zone. -/
def pick (addresses : List Text) : Text :=
  let hosts := (addresses.map trim).filter fun host => host ≠ [] && !isLoopback (withoutZone host)
  let v4 := (hosts.map withoutZone).find? dottedQuad
  let v6 := (hosts.map withoutZone).find? fun host => host.contains ':' && !isLinkLocal host
  let zoned := hosts.find? fun host => isLinkLocal (withoutZone host) && host.contains '%'
  ((v4.or v6).or zoned).getD directDnsFallback

end DirectDns

/-! ### What is asked for -/

/-- `Routing`. Where the lists lie on disk is the caller's. -/
inductive XrayRouting
  | global
  | bypassRussia (directDns : DirectDns)
  | rules (directDns : DirectDns) (rules : Rules)

/-- `XrayGeodata.Lists`. -/
structure Geodata where
  domains : List Text
  cidrs : List Text

structure SocksLogin where
  username : Text
  password : Text

/-- The arguments of `buildXhttp` beside the spec. -/
structure XrayOptions where
  socksPort : Int := 10810
  routing : XrayRouting := .global
  directDns : DirectDns := .placeholder
  geodata : Option Geodata := none
  answersDns : Bool := false
  verboseLogs : Bool := false
  login : Option SocksLogin := none
  bindInterface : Option Text := none

namespace XrayConfig

def xhttpMaxEachPostBytes : Nat := 200000

def remoteDnsServer : Text := txt "1.1.1.1"

def privateRanges : List Text :=
  [txt "0.0.0.0/8", txt "10.0.0.0/8", txt "100.64.0.0/10", txt "127.0.0.0/8", txt "169.254.0.0/16",
    txt "172.16.0.0/12", txt "192.168.0.0/16", txt "224.0.0.0/4", txt "240.0.0.0/4",
    txt "::1/128", txt "fc00::/7", txt "fe80::/10", txt "ff00::/8"]

/-- `isIpLiteral`. -/
def isIpLiteral (host : Text) : Bool := host.contains ':' || dottedQuad host

def directDnsAddress : DirectDns → Text
  | .system => txt "localhost"
  | .servers addresses => DirectDns.pick addresses
  | .placeholder => DirectDns.directDnsPlaceholder

/-- `putDns`. -/
def putDns (direct : DirectDns) (geodata : Option Geodata) (serverName : Option Text) :
    Xray.Dns :=
  let directNames := ((geodata.map (·.domains)).getD []) ++
    (serverName.map fun name => txt "full:" ++ name).toList
  { queryStrategy := txt "UseIPv4"
    servers :=
      (if directNames = [] then []
      else [{ tag := txt "dns-direct", address := directDnsAddress direct, port := 53,
              domains := directNames, skipFallback := true }]) ++
        [{ tag := txt "dns-remote", address := remoteDnsServer, port := 53 }] }

/-- `putRouting`. -/
def putRouting (geodata : Option Geodata) (serverByName : Bool) : Xray.Routing where
  domainStrategy := txt "AsIs"
  rules :=
    [{ inboundTag := [txt "in"], network := some .udp, port := some 53,
       outboundTag := txt "dns-out" }] ++
    (if geodata.isSome || serverByName then
      [{ inboundTag := [txt "dns-direct"], outboundTag := txt "direct" }]
    else []) ++
    [{ inboundTag := [txt "dns-remote"], outboundTag := txt "out" }] ++
    match geodata with
    | none => []
    | some lists =>
        [{ ip := some privateRanges, outboundTag := txt "direct" },
          { domain := some lists.domains, outboundTag := txt "direct" },
          { ip := some lists.cidrs, outboundTag := txt "direct" }]

/-- The `streamSettings` of the server. -/
def streamSettings (sni publicKey shortId fingerprint path host mode : Text) (plain : Bool)
    (serverByName : Bool) (bindInterface : Option Text) : StreamSettings :=
  let xhttp : XhttpSettings :=
    { path, host := some host, mode, scMaxEachPostBytes := some xhttpMaxEachPostBytes }
  let sockopt : Option Sockopt :=
    if serverByName || bindInterface.isSome then
      some { domainStrategy := if serverByName then some (txt "UseIPv4") else none
             interface := bindInterface }
    else none
  if plain then
    { network := txt "xhttp", security := txt "none", xhttpSettings := some xhttp, sockopt }
  else if isBlank publicKey then
    { network := txt "xhttp", security := txt "tls", xhttpSettings := some xhttp, sockopt
      tlsSettings :=
        some { serverName := sni, fingerprint := some fingerprint, allowInsecure := some false } }
  else
    { network := txt "xhttp", security := txt "reality", xhttpSettings := some xhttp, sockopt
      realitySettings := some { serverName := sni, fingerprint, publicKey, shortId } }

/-- The direct resolver and the lists of a bypass. -/
def bypassOf (options : XrayOptions) : Option DirectDns :=
  match options.routing with
  | .bypassRussia directDns => some directDns
  | _ => none

/-- Whether the document answers the system's DNS. -/
def resolvesNames (options : XrayOptions) : Bool :=
  options.answersDns || (bypassOf options).isSome

/-- The lists of a document: none without the bypass. -/
def listsOf (options : XrayOptions) : Option Geodata :=
  (bypassOf options).bind fun _ => options.geodata

/-- Whether the document has to resolve the server's own name. -/
def serverByName (host : Text) (options : XrayOptions) : Bool :=
  resolvesNames options && !isIpLiteral host

/-- `buildXhttp`: nothing where it throws. -/
def buildXhttp (spec : OutboundSpec) (options : XrayOptions) : Option Config :=
  match spec.details with
  | .vless uuid sni publicKey shortId fingerprint _ (.xhttp path host mode) plain _ =>
      let bypass := bypassOf options
      if bypass.isSome && options.geodata.isNone then none
      else
        let direct := bypass.getD options.directDns
        let resolvesNames := resolvesNames options
        let serverByName := serverByName spec.host options
        let hasDirect := bypass.isSome || serverByName
        some {
          loglevel := if options.verboseLogs then txt "debug" else txt "warning"
          dns := if resolvesNames then
              some (putDns direct (listsOf options) (if serverByName then some spec.host else none))
            else none
          inbounds := [{
            tag := txt "in", listen := txt "127.0.0.1", port := options.socksPort
            accounts := (options.login.map fun login => ⟨login.username, login.password⟩).toList
            udp := true
            destOverride := if resolvesNames then [txt "http", txt "tls", txt "quic"] else [] }]
          outbounds :=
            [{ tag := txt "out", protocol := txt "vless"
               vnext := [{ address := spec.host, port := spec.port
                           users := [{ id := uuid, encryption := txt "none" }] }]
               streamSettings := some (streamSettings sni publicKey shortId fingerprint path host
                 mode plain serverByName options.bindInterface) }] ++
            (if hasDirect then
              [{ tag := txt "direct", protocol := txt "freedom"
                 domainStrategy := some (txt "UseIPv4") }]
            else []) ++
            if resolvesNames then [{ tag := txt "dns-out", protocol := txt "dns" }] else []
          routing := if resolvesNames then some (putRouting (listsOf options) serverByName)
            else none }
  | _ => none

/-! ### Where connections go -/

/-- A private address, told by its number: of this network, a private one or the machine's own, of
a carrier's, of the link, to many at once, or reserved. -/
def IsPrivate : Inet.Address → Prop
  | .v4 a =>
      a.toNat >>> 24 ∈ [0, 10, 127] ∨ a.toNat >>> 22 = 100 * 4 + 1 ∨
      a.toNat >>> 16 ∈ [169 * 256 + 254, 192 * 256 + 168] ∨
      a.toNat >>> 20 = 172 * 16 + 1 ∨ 224 ≤ a.toNat >>> 24
  | .v6 a =>
      a.toNat = 1 ∨ a.toNat >>> 121 = 0xFC >>> 1 ∨ a.toNat >>> 118 = 0xFE80 >>> 6 ∨
      a.toNat >>> 120 = 0xFF

theorem readPrefix_privateRanges : privateRanges.map Inet.readPrefix =
    [some ⟨.v4 0, 8⟩, some ⟨.v4 0x0A000000, 8⟩, some ⟨.v4 0x64400000, 10⟩,
      some ⟨.v4 0x7F000000, 8⟩, some ⟨.v4 0xA9FE0000, 16⟩, some ⟨.v4 0xAC100000, 12⟩,
      some ⟨.v4 0xC0A80000, 16⟩, some ⟨.v4 0xE0000000, 4⟩, some ⟨.v4 0xF0000000, 4⟩,
      some ⟨.v6 1, 128⟩, some ⟨.v6 (0xFC00 <<< 112), 7⟩, some ⟨.v6 (0xFE80 <<< 112), 10⟩,
      some ⟨.v6 (0xFF00 <<< 112), 8⟩] := by
  decide +kernel

/-- The ranges spelled out are the private addresses. -/
theorem addressOn_privateRanges (a : Inet.Address) :
    privateRanges.any (addressOn · a) = true ↔ IsPrivate a := by
  have hread : privateRanges.any (addressOn · a) =
      (privateRanges.map Inet.readPrefix).any (·.any (·.contains a)) := by
    rw [List.any_map]
    rfl
  have hbegins : ∀ {w k : Nat} (x y : BitVec w), (x >>> k == y >>> k) = true ↔
      x.toNat / 2 ^ k = y.toNat / 2 ^ k := by
    intro w k x y
    rw [beq_iff_eq, ← BitVec.toNat_inj, BitVec.toNat_ushiftRight, BitVec.toNat_ushiftRight,
      Nat.shiftRight_eq_div_pow, Nat.shiftRight_eq_div_pow]
  rw [hread, readPrefix_privateRanges]
  cases a with
  | v4 a =>
      have hlt := a.isLt
      simp only [List.any_cons, List.any_nil, Option.any_some, Inet.Prefix.contains,
        Bool.or_eq_true, hbegins, Bool.false_eq_true, or_false]
      simp [IsPrivate, Nat.shiftRight_eq_div_pow]
      omega
  | v6 a =>
      simp only [List.any_cons, List.any_nil, Option.any_some, Inet.Prefix.contains,
        Bool.or_eq_true, hbegins, Bool.false_eq_true, or_false, false_or]
      simp [IsPrivate, Nat.shiftRight_eq_div_pow]
      omega

/-- The destination is a private address. -/
def ToPrivate : Xray.Destination → Prop
  | .name _ => False
  | .address a => IsPrivate a

theorem toPrivate_iff (d : Xray.Destination) :
    d.addressed privateRanges = true ↔ ToPrivate d := by
  cases d with
  | name name => exact iff_of_false Bool.false_ne_true id
  | address a => exact addressOn_privateRanges a

instance : DecidablePred ToPrivate := fun d => decidable_of_iff _ (toPrivate_iff d)

section Routed

variable [Patterns]

/-- The local network and what is on the lists. -/
abbrev GoesDirect (lists : Geodata) (d : Xray.Destination) : Prop :=
  ToPrivate d ∨ d.named lists.domains = true ∨ d.addressed lists.cidrs = true

/-- A query of a client's. -/
abbrev IsQuery (c : Xray.Connection) : Prop := c.network = .udp ∧ c.port = 53

/-- The document is for the bypass, with these lists. -/
abbrev Bypasses (options : XrayOptions) (lists : Geodata) : Prop :=
  (∃ directDns, options.routing = .bypassRussia directDns) ∧ options.geodata = some lists

/-- A host that is an address: there is a colon in it, or it is four numbers up to 255. -/
def IsAddress (host : Text) : Prop :=
  ':' ∈ host ∨ ∃ parts : List Text, host = ['.'].intercalate parts ∧ parts.length = 4 ∧
    ∀ part ∈ parts, ∃ n, toIntOrNull 10 part = some n ∧ 0 ≤ n ∧ n ≤ 255

/-- What the resolvers, the rules and the outbounds of a document make together. -/
structure Routed (host : Text) (options : XrayOptions) (config : Config) : Prop where
  /-- It resolves names for the bypass, and where it is asked to answer. -/
  resolver : config.dns.isSome ↔
    options.answersDns = true ∨ ∃ directDns, options.routing = .bypassRussia directDns
  /-- A client's query is answered by the resolver within. -/
  answered : config.dns.isSome → ∀ c, c.inbound = txt "in" → IsQuery c →
    ∃ o ∈ config.outbounds, o.protocol = txt "dns" ∧ config.route c = some o.tag
  /-- Only the lists' names and the server's own are asked of the network underneath. -/
  asked : ∀ dns, config.dns = some dns → ∀ name,
    (∃ s ∈ dns.asked name, s.tag = txt "dns-direct") ↔
      (∃ lists, Bypasses options lists ∧ lists.domains.any (nameOn · name) = true) ∨
        (¬ IsAddress host ∧ name = host)
  direct : ∀ lists, Bypasses options lists → ∀ c, c.inbound = txt "in" → ¬ IsQuery c →
    (config.route c = some (txt "direct") ↔ GoesDirect lists c.destination)
  out : ∀ c, c.inbound = txt "in" → ¬ IsQuery c →
    (∀ lists, Bypasses options lists → ¬ GoesDirect lists c.destination) →
      config.route c = some (txt "out")
  /-- The resolvers' queries leave by their own sides, wherever they are bound. -/
  directQueries : ∀ dns, config.dns = some dns → ∀ s ∈ dns.servers, s.tag = txt "dns-direct" →
    ∀ c, c.inbound = s.tag → config.route c = some (txt "direct")
  remoteQueries : ∀ dns, config.dns = some dns → ∀ s ∈ dns.servers, s.tag = txt "dns-remote" →
    ∀ c, c.inbound = s.tag → config.route c = some (txt "out")
  defined : ∀ routing, config.routing = some routing → ∀ rule ∈ routing.rules,
    ∃ o ∈ config.outbounds, o.tag = rule.outboundTag

omit [Patterns] in
theorem mem_listsOf {options : XrayOptions} {lists : Geodata} :
    lists ∈ listsOf options ↔ Bypasses options lists := by
  unfold listsOf bypassOf Bypasses
  cases options.routing <;> simp

omit [Patterns] in
theorem resolvesNames_iff {options : XrayOptions} : resolvesNames options = true ↔
    options.answersDns = true ∨ ∃ directDns, options.routing = .bypassRussia directDns := by
  unfold resolvesNames bypassOf
  cases options.routing <;> simp

omit [Patterns] in
theorem isIpLiteral_iff (host : Text) : isIpLiteral host = true ↔ IsAddress host := by
  have hread : ∀ part : Text, (toIntOrNull 10 part).any (fun n => 0 ≤ n && n ≤ 255) = true ↔
      ∃ n, toIntOrNull 10 part = some n ∧ 0 ≤ n ∧ n ≤ 255 := by
    intro part
    cases toIntOrNull 10 part <;> simp
  unfold isIpLiteral IsAddress dottedQuad
  rw [Bool.or_eq_true, List.contains_iff_mem]
  refine or_congr_right ?_
  have hsplit : splitAll (· == '.') host = host.splitOn '.' := splitAll_eq_splitOnP _ host
  dsimp only
  rw [hsplit, Bool.and_eq_true, beq_iff_eq, List.all_eq_true]
  constructor
  · rintro ⟨hfour, hparts⟩
    exact ⟨host.splitOn '.', (List.intercalate_splitOn '.').symm, hfour,
      fun part hpart => (hread part).mp (hparts part hpart)⟩
  · rintro ⟨parts, rfl, hfour, hparts⟩
    have hfree : ∀ part ∈ parts, '.' ∉ part := by
      intro part hpart hdot
      obtain ⟨n, hn, -⟩ := hparts part hpart
      exact absurd (toIntOrNull_chars hn '.' hdot) (by decide)
    have hne : parts ≠ [] := by
      rintro rfl
      cases hfour
    rw [List.splitOn_intercalate '.' hfree hne]
    exact ⟨hfour, fun part hpart => (hread part).mpr (hparts part hpart)⟩

/-- The rules, read in order. -/
theorem route_putRouting (geodata : Option Geodata) (byName : Bool) (first : Text)
    (c : Xray.Connection) :
    (putRouting geodata byName).route first c =
      if c.inbound = txt "in" ∧ IsQuery c then txt "dns-out"
      else if (geodata.isSome || byName) = true ∧ c.inbound = txt "dns-direct" then txt "direct"
      else if c.inbound = txt "dns-remote" then txt "out"
      else match geodata with
        | none => first
        | some lists => if GoesDirect lists c.destination then txt "direct" else first := by
  have hquery : ∀ (tags : List Xray.Rule), Xray.Routing.route ⟨txt "AsIs",
      { inboundTag := [txt "in"], network := some .udp, port := some 53,
        outboundTag := txt "dns-out" } :: tags⟩ first c =
      if c.inbound = txt "in" ∧ IsQuery c then txt "dns-out"
      else Xray.Routing.route ⟨txt "AsIs", tags⟩ first c := by
    intro tags
    rw [route_cons]
    refine if_congr ?_ rfl rfl
    simp [Xray.Rule.concerns, IsQuery, eq_comm (b := c.network), eq_comm (b := c.port), and_assoc]
  have htag : ∀ (tag target : Text) (tags : List Xray.Rule), Xray.Routing.route ⟨txt "AsIs",
      { inboundTag := [tag], outboundTag := target } :: tags⟩ first c =
      if c.inbound = tag then target else Xray.Routing.route ⟨txt "AsIs", tags⟩ first c := by
    intro tag target tags
    rw [route_cons]
    refine if_congr ?_ rfl rfl
    simp [Xray.Rule.concerns]
  have hlists : ∀ lists : Geodata, Xray.Routing.route ⟨txt "AsIs",
      [{ ip := some privateRanges, outboundTag := txt "direct" },
        { domain := some lists.domains, outboundTag := txt "direct" },
        { ip := some lists.cidrs, outboundTag := txt "direct" }]⟩ first c =
      if GoesDirect lists c.destination then txt "direct" else first := by
    intro lists
    rw [route_cons, route_cons, route_cons, route_nil]
    simp only [Xray.Rule.concerns, List.isEmpty_nil, Bool.true_or, Option.all_none, Option.all_some,
      Bool.true_and, Bool.and_true, GoesDirect, toPrivate_iff, ite_or]
  unfold putRouting
  rw [List.append_assoc, List.append_assoc, List.singleton_append, hquery]
  refine if_congr Iff.rfl rfl ?_
  have hrest : Xray.Routing.route ⟨txt "AsIs",
      [{ inboundTag := [txt "dns-remote"], outboundTag := txt "out" }] ++
        match geodata with
        | none => []
        | some lists =>
            [{ ip := some privateRanges, outboundTag := txt "direct" },
              { domain := some lists.domains, outboundTag := txt "direct" },
              { ip := some lists.cidrs, outboundTag := txt "direct" }]⟩ first c =
      if c.inbound = txt "dns-remote" then txt "out"
      else match geodata with
        | none => first
        | some lists => if GoesDirect lists c.destination then txt "direct" else first := by
    rw [List.singleton_append, htag]
    refine if_congr Iff.rfl rfl ?_
    cases geodata with
    | none => rfl
    | some lists => exact hlists lists
  cases hbyName : geodata.isSome || byName with
  | false => simpa [hbyName] using hrest
  | true =>
      rw [if_pos rfl, List.singleton_append, htag]
      exact if_congr (by simp) rfl hrest

omit [Patterns] in
/-- What a document is made of. -/
theorem buildXhttp_parts {spec : OutboundSpec} {options : XrayOptions} {config : Config}
    (h : buildXhttp spec options = some config) :
    ((bypassOf options).isSome = (listsOf options).isSome) ∧
    config.dns = (if resolvesNames options then
      some (putDns ((bypassOf options).getD options.directDns) (listsOf options)
        (if serverByName spec.host options then some spec.host else none)) else none) ∧
    (∃ server : Xray.Outbound, server.tag = txt "out" ∧ config.outbounds = server ::
      ((if (listsOf options).isSome || serverByName spec.host options then
        [{ tag := txt "direct", protocol := txt "freedom"
           domainStrategy := some (txt "UseIPv4") }] else []) ++
      if resolvesNames options then [{ tag := txt "dns-out", protocol := txt "dns" }] else [])) ∧
    config.routing = if resolvesNames options then
      some (putRouting (listsOf options) (serverByName spec.host options)) else none := by
  unfold buildXhttp at h
  split at h
  · dsimp only at h
    split at h
    · cases h
    · rename_i hlists
      have hsame : (bypassOf options).isSome = (listsOf options).isSome := by
        unfold listsOf
        cases hbypass : bypassOf options with
        | none => rfl
        | some direct =>
            rw [hbypass, Option.isSome_some, Bool.true_and, Bool.not_eq_true,
              Option.isNone_eq_false_iff] at hlists
            exact hlists.symm
      cases h
      exact ⟨hsame, rfl, ⟨_, rfl, by rw [hsame]; rfl⟩, rfl⟩
  · cases h

/-- How a document sends a connection. -/
theorem route_buildXhttp {spec : OutboundSpec} {options : XrayOptions} {config : Config}
    (h : buildXhttp spec options = some config) (c : Xray.Connection) :
    config.route c = some (if resolvesNames options then
      (putRouting (listsOf options) (serverByName spec.host options)).route (txt "out") c
    else txt "out") := by
  obtain ⟨-, -, ⟨server, htag, houtbounds⟩, hrouting⟩ := buildXhttp_parts h
  rw [Config.route, houtbounds, hrouting, List.head?_cons, ← htag]
  cases resolvesNames options with
  | false => rfl
  | true => exact if_pos rfl

/-- What the direct resolver is asked. -/
theorem asked_putDns (direct : DirectDns) (geodata : Option Geodata) (serverName : Option Text)
    (name : Text) : (∃ s ∈ (putDns direct geodata serverName).asked name,
      s.tag = txt "dns-direct") ↔
      (∃ lists ∈ geodata, lists.domains.any (nameOn · name) = true) ∨ name ∈ serverName := by
  have hclaims : (((geodata.map (·.domains)).getD [] ++
      (serverName.map fun n => txt "full:" ++ n).toList).any (nameOn · name) = true) ↔
      (∃ lists ∈ geodata, lists.domains.any (nameOn · name) = true) ∨ name ∈ serverName := by
    rw [List.any_append, Bool.or_eq_true]
    refine or_congr ?_ ?_
    · cases geodata <;> simp
    · cases serverName with
      | none => simp
      | some n =>
          rw [Option.map_some, Option.toList_some, List.any_cons, List.any_nil, Bool.or_false,
            nameOn_full, Option.mem_some_iff, eq_comm]
  have hremote : ¬ (txt "dns-remote" = txt "dns-direct") := by decide
  rw [← hclaims]
  unfold putDns
  dsimp only
  generalize (geodata.map (·.domains)).getD [] ++
    (serverName.map fun n => txt "full:" ++ n).toList = directNames
  cases directNames with
  | nil => simp [Dns.asked, DnsServer.claims, hremote]
  | cons entry entries =>
      rw [if_neg (List.cons_ne_nil _ _)]
      cases hany : (entry :: entries).any (nameOn · name) with
      | false => simp [Dns.asked, DnsServer.claims, hremote, hany]
      | true => simp [Dns.asked, DnsServer.claims, hany]

omit [Patterns] in
theorem servers_putDns {direct : DirectDns} {geodata : Option Geodata} {serverName : Option Text}
    {s : Xray.DnsServer} (hs : s ∈ (putDns direct geodata serverName).servers)
    (htag : s.tag = txt "dns-direct") : (geodata.isSome || serverName.isSome) = true := by
  unfold putDns at hs
  dsimp only at hs
  rcases List.mem_append.mp hs with hs | hs
  · cases geodata with
    | some lists => rfl
    | none =>
        cases serverName with
        | some n => rfl
        | none => cases hs
  · rw [List.mem_singleton.mp hs] at htag
    exact absurd htag (by decide)

section Built

variable {spec : OutboundSpec} {options : XrayOptions} {config : Config}

/-- A connection of a client's that is no query goes by the lists, where there are any. -/
theorem route_client (h : buildXhttp spec options = some config) {c : Xray.Connection}
    (hin : c.inbound = txt "in") (hquery : ¬ IsQuery c) :
    config.route c = some (match listsOf options with
      | none => txt "out"
      | some lists => if GoesDirect lists c.destination then txt "direct" else txt "out") := by
  have hrules : (putRouting (listsOf options) (serverByName spec.host options)).route (txt "out")
      c = match listsOf options with
        | none => txt "out"
        | some lists => if GoesDirect lists c.destination then txt "direct" else txt "out" := by
    rw [route_putRouting, hin, if_neg fun hboth => hquery hboth.2,
      if_neg fun hboth => absurd hboth.2 (by decide), if_neg (by decide)]
  rw [route_buildXhttp h, hrules]
  cases hlists : listsOf options with
  | none =>
      dsimp only
      rw [ite_self]
  | some lists =>
      have hyes : resolvesNames options = true := by
        rw [resolvesNames, (buildXhttp_parts h).1, hlists, Option.isSome_some, Bool.or_true]
      rw [if_pos hyes]

omit [Patterns] in
/-- The resolver of a document. -/
theorem dns_buildXhttp (h : buildXhttp spec options = some config) {dns : Xray.Dns}
    (hdns : config.dns = some dns) : resolvesNames options = true ∧
      dns = putDns ((bypassOf options).getD options.directDns) (listsOf options)
        (if serverByName spec.host options then some spec.host else none) := by
  rw [(buildXhttp_parts h).2.1] at hdns
  split at hdns
  · rename_i hyes
    exact ⟨hyes, (Option.some.inj hdns).symm⟩
  · cases hdns

omit [Patterns] in
theorem dns_isSome_iff (h : buildXhttp spec options = some config) :
    config.dns.isSome ↔ resolvesNames options = true := by
  rw [(buildXhttp_parts h).2.1]
  cases resolvesNames options <;> simp

omit [Patterns] in
/-- Where there is a direct resolver there is an outbound for it. -/
theorem direct_of_server {direct : DirectDns} {s : Xray.DnsServer}
    (hs : s ∈ (putDns direct (listsOf options)
      (if serverByName spec.host options then some spec.host else none)).servers)
    (hdirect : s.tag = txt "dns-direct") :
    ((listsOf options).isSome || serverByName spec.host options) = true := by
  have hsome := servers_putDns hs hdirect
  cases hname : serverByName spec.host options with
  | true => rw [Bool.or_true]
  | false => simpa [hname] using hsome

omit [Patterns] in
/-- Every rule names an outbound of the document. -/
theorem defined_buildXhttp (h : buildXhttp spec options = some config) {routing : Xray.Routing}
    (hrouting : config.routing = some routing) {rule : Xray.Rule} (hrule : rule ∈ routing.rules) :
    ∃ o ∈ config.outbounds, o.tag = rule.outboundTag := by
  obtain ⟨-, -, ⟨server, htag, houtbounds⟩, hrules⟩ := buildXhttp_parts h
  have hdirect : ((listsOf options).isSome || serverByName spec.host options) = true →
      ∃ o ∈ config.outbounds, o.tag = txt "direct" := by
    intro hhas
    refine ⟨{ tag := txt "direct", protocol := txt "freedom"
              domainStrategy := some (txt "UseIPv4") }, ?_, rfl⟩
    rw [houtbounds, hhas]
    exact List.mem_cons_of_mem _ (List.mem_append_left _ (List.mem_singleton_self _))
  rw [hrules] at hrouting
  split at hrouting
  · rename_i hyes
    cases hrouting
    unfold putRouting at hrule
    simp only [List.mem_append, List.mem_singleton, or_assoc] at hrule
    rcases hrule with rfl | hrule | rfl | hrule
    · refine ⟨{ tag := txt "dns-out", protocol := txt "dns" }, ?_, rfl⟩
      rw [houtbounds, hyes]
      exact List.mem_cons_of_mem _ (List.mem_append_right _ (List.mem_singleton_self _))
    · split at hrule
      · rename_i hhas
        rw [List.mem_singleton.mp hrule]
        exact hdirect hhas
      · cases hrule
    · exact ⟨server, houtbounds ▸ List.mem_cons_self, htag⟩
    · cases hlists : listsOf options with
      | none =>
          rw [hlists] at hrule
          cases hrule
      | some lists =>
          rw [hlists] at hrule
          have hto : rule.outboundTag = txt "direct" := by
            simp only [List.mem_cons, List.not_mem_nil, or_false] at hrule
            rcases hrule with rfl | rfl | rfl <;> rfl
          rw [hto]
          exact hdirect (by rw [hlists]; rfl)
  · cases hrouting

/-- **Everything to its side.** Whatever is asked for, the resolvers, the rules and the outbounds of
the document fit. -/
theorem buildXhttp_routed {spec : OutboundSpec} {options : XrayOptions} {config : Config}
    (h : buildXhttp spec options = some config) : Routed spec.host options config := by
  refine {
    resolver := (dns_isSome_iff h).trans resolvesNames_iff
    answered := ?answered
    asked := ?asked
    direct := ?direct
    out := ?out
    directQueries := ?directQueries
    remoteQueries := ?remoteQueries
    defined := fun routing hrouting rule hrule => defined_buildXhttp h hrouting hrule }
  case answered =>
    intro hsome c hin hquery
    obtain ⟨-, -, ⟨server, -, houtbounds⟩, -⟩ := buildXhttp_parts h
    have hyes := (dns_isSome_iff h).mp hsome
    refine ⟨{ tag := txt "dns-out", protocol := txt "dns" }, ?_, rfl, ?_⟩
    · rw [houtbounds, hyes]
      simp
    · rw [route_buildXhttp h, if_pos hyes, route_putRouting, if_pos ⟨hin, hquery⟩]
  case asked =>
    intro dns hdns name
    obtain ⟨hyes, rfl⟩ := dns_buildXhttp h hdns
    rw [asked_putDns]
    simp only [mem_listsOf]
    refine or_congr_right ?_
    rw [serverByName, hyes, Bool.true_and, ← isIpLiteral_iff]
    cases hliteral : isIpLiteral spec.host <;> simp [eq_comm]
  case direct =>
    intro lists hbypasses c hin hquery
    rw [route_client h hin hquery, mem_listsOf.mpr hbypasses]
    dsimp only
    by_cases hdirect : GoesDirect lists c.destination
    · rw [if_pos hdirect]
      exact iff_of_true rfl hdirect
    · rw [if_neg hdirect]
      exact iff_of_false (by decide) hdirect
  case out =>
    intro c hin hquery hnone
    rw [route_client h hin hquery]
    cases hlists : listsOf options with
    | none => rfl
    | some lists =>
        dsimp only
        rw [if_neg (hnone lists (mem_listsOf.mp hlists))]
  case directQueries =>
    intro dns hdns s hs hdirect c hin
    obtain ⟨hyes, rfl⟩ := dns_buildXhttp h hdns
    rw [route_buildXhttp h, if_pos hyes, route_putRouting, hin, hdirect,
      if_neg fun hboth => absurd hboth.1 (by decide), if_pos ⟨direct_of_server hs hdirect, rfl⟩]
  case remoteQueries =>
    intro dns hdns s hs hremote c hin
    obtain ⟨hyes, rfl⟩ := dns_buildXhttp h hdns
    rw [route_buildXhttp h, if_pos hyes, route_putRouting, hin, hremote,
      if_neg fun hboth => absurd hboth.1 (by decide),
      if_neg fun hboth => absurd hboth.2 (by decide), if_pos rfl]

end Built

end Routed

section Bypass

local instance noPatterns : Patterns where
  accepts _ _ := false

def namedServer : OutboundSpec where
  host := txt "s.example"
  port := 443
  tag := txt "s"
  details := .vless (txt "u") [] [] [] (txt "chrome") none
    (.xhttp (txt "/") [] (txt "auto")) false false

def bypassing : XrayOptions where
  routing := .bypassRussia .placeholder
  geodata := some ⟨[txt "domain:ru"], [txt "77.88.0.0/18"]⟩

/-- A server with a name, under the bypass. -/
theorem buildXhttp_routed_bypass : ∃ config, buildXhttp namedServer bypassing = some config ∧
    Routed namedServer.host bypassing config ∧
    config.route ⟨txt "in", .tcp, .name (txt "news.ru"), 443⟩ = some (txt "direct") := by
  have hrouted : Routed namedServer.host bypassing _ := buildXhttp_routed rfl
  refine ⟨_, rfl, hrouted, ?_⟩
  refine (hrouted.direct ⟨[txt "domain:ru"], [txt "77.88.0.0/18"]⟩ ⟨⟨_, rfl⟩, rfl⟩ _ rfl ?_).mpr ?_
  · exact fun hquery => absurd hquery.1 (by decide)
  · exact .inr (.inl (by decide))

end Bypass

end XrayConfig

end Ghostlane.App
