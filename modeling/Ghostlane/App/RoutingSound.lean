import Ghostlane.App.Routing
import Mathlib.Algebra.Group.Nat.Defs

/-!
# Ghostlane.App.RoutingSound

What the emitted rules mean. `routeRules_verdict` reads the route rules as one nested
case distinction, part by part as they are written: the local network, the user's
direct rules, the user's tunnel rules, the policy's lists, the final clause.
`dns_verdict` does the same for the DNS rules. Both orders are then compared with what
they are for: `policyOutbound` says where a destination goes that none of the user's
rules covers, and a name is to be resolved on the side its connection goes to.

The two lists take the user's rules in opposite orders, which decides something as soon
as one of the user's domains lies under another.
-/

namespace Ghostlane.App

open Ghostlane.Lib SingBoxConfig

variable {Addr : Type}

/-! ### What the user's rules cover -/

/-- A rule of the user's covers the names under its domain, or the addresses in its prefix. -/
def RoutingRule.covers (t : Tables Addr) : RoutingRule → Destination Addr → Bool
  | .domain suffix, .name name => hasDomainSuffix suffix name
  | .cidr range, .address a => t.inRange range a
  | .domain _, .address _ => false
  | .cidr _, .name _ => false

/-- One of the rules covers the destination. -/
def covered (t : Tables Addr) (rules : List RoutingRule) (d : Destination Addr) : Bool :=
  rules.any fun rule => rule.covers t d

/-- Where the policy sends a destination that no rule of the user's covers. -/
def policyOutbound (t : Tables Addr) (policy : Policy) (d : Destination Addr) : Outbound :=
  if t.privateTarget d then .direct
  else match policy with
    | .tunnel => .out
    | .bypass region =>
        if ((RuleSets.regional region).getD []).any fun file => t.onList file.tag d then .direct
        else .out
    | .blockedOnly =>
        if (RuleSets.blocked.any fun file => t.onList file.tag d) ||
            (match d with
              | .name name =>
                  (t.lookup name).any fun a => t.onList RuleSets.blockedIps.tag (.address a)
              | .address _ => false) then .out
        else .direct

section Emitted

variable (t : Tables Addr)

theorem covered_eq (rules : List RoutingRule) (d : Destination Addr) :
    covered t rules d =
      (Tables.suffixMatches (domains rules) d || t.cidrMatches (cidrs rules) d) := by
  induction rules with
  | nil => cases d <;> rfl
  | cons rule rules ih =>
      have hsplit : covered t (rule :: rules) d = (rule.covers t d || covered t rules d) := by
        simp only [covered, List.any_cons]
      rw [hsplit, ih]
      cases rule <;> cases d <;>
        simp [domains, cidrs, RoutingRule.covers, Tables.suffixMatches, Tables.cidrMatches]

/-- A name is covered by the domains alone. -/
theorem covered_name (rules : List RoutingRule) (name : Text) :
    covered t rules (.name name) =
      Tables.suffixMatches (domains rules) (.name name : Destination Addr) := by
  rw [covered_eq]
  simp only [Tables.cidrMatches, Bool.or_false]

/-! ### The route rules, part by part -/

variable {final : Verdict} (rest : List RouteRule)

/-- The rule of a list that has only the user's part. -/
theorem firstMatch_custom (rules : List RoutingRule) (outbound : Outbound) (d : Destination Addr)
    (port : Nat) :
    firstMatch t.routeRule final (addCustomRouteRule rules outbound ++ rest)
        { destination := d, port := port } =
      if covered t rules d then .to outbound
      else firstMatch t.routeRule final rest { destination := d, port := port } := by
  by_cases hnil : rules = []
  · subst hnil
    simp [addCustomRouteRule, covered]
  · have hemit : addCustomRouteRule rules outbound =
        [.to (domains rules) (cidrs rules) [] false outbound] := if_neg hnil
    rw [hemit, List.singleton_append]
    apply firstMatch_cons_ite
    simp only [Tables.routeRule, Connection.targets, List.map_nil, List.any_cons, List.any_nil,
      Bool.or_false, Bool.false_and, Tables.listMatches, covered_eq]

/-- The local network's rule. -/
theorem firstMatch_private (d : Destination Addr) (port : Nat) :
    firstMatch t.routeRule final (.to [] [] [] true .direct :: rest)
        { destination := d, port := port } =
      if t.privateTarget d then .to .direct
      else firstMatch t.routeRule final rest { destination := d, port := port } := by
  apply firstMatch_cons_ite
  cases d <;>
    simp [Tables.routeRule, Connection.targets, Tables.suffixMatches, Tables.cidrMatches,
      Tables.listMatches]

/-- A rule of lists alone, at a connection that may have been resolved. -/
theorem firstMatch_lists (tags : List Text) (outbound : Outbound) (c : Connection Addr) :
    firstMatch t.routeRule final (.to [] [] tags false outbound :: rest) c =
      if c.targets.any (t.listMatches tags) then .to outbound
      else firstMatch t.routeRule final rest c := by
  apply firstMatch_cons_ite
  have hitem : ∀ d : Destination Addr, (Tables.suffixMatches [] d || t.cidrMatches [] d ||
      (false && t.privateTarget d) || t.listMatches tags d) = t.listMatches tags d := by
    intro d
    cases d <;> simp [Tables.suffixMatches, Tables.cidrMatches]
  simp only [Tables.routeRule, hitem]

/-- `sniff` and `hijack-dns` let every connection by that is no DNS question. -/
theorem firstMatch_opening {port : Nat} (hport : port ≠ 53) (d : Destination Addr) :
    firstMatch t.routeRule final (.sniff :: .hijackDns 53 :: rest)
        { destination := d, port := port } =
      firstMatch t.routeRule final rest { destination := d, port := port } := by
  rw [firstMatch_cons_passes rfl, firstMatch_cons_passes]
  simp only [Tables.routeRule, if_neg hport]

/-- What the policy's own rules and the final clause make of a destination that is not the local
network's. -/
theorem firstMatch_policy {bypass : Rules} {lists : List RouteRule}
    (hlists : policyRouteRules bypass.policy = some lists) {d : Destination Addr}
    (hprivate : t.privateTarget d = false)
    (htail : ∀ c : Connection Addr, c.destination = d →
      firstMatch t.routeRule (.to (finalOutbound bypass)) rest c = .to (finalOutbound bypass))
    (port : Nat) :
    firstMatch t.routeRule (.to (finalOutbound bypass)) (lists ++ rest)
        { destination := d, port := port } =
      .to (policyOutbound t bypass.policy d) := by
  obtain ⟨policy, custom⟩ := bypass
  cases policy with
  | tunnel =>
      obtain rfl := Option.some.inj hlists
      rw [List.nil_append, htail _ rfl]
      simp [policyOutbound, hprivate, finalOutbound]
  | bypass region =>
      obtain ⟨files, hfiles, rfl⟩ := Option.map_eq_some_iff.mp hlists
      rw [List.singleton_append, firstMatch_lists, htail _ rfl]
      simp only [policyOutbound, hprivate, hfiles, Option.getD_some, Connection.targets,
        List.map_nil, List.any_cons, List.any_nil, Bool.or_false, Tables.listMatches, List.any_map,
        Function.comp_def, finalOutbound, Bool.false_eq_true, if_false]
      split <;> rfl
  | blockedOnly =>
      obtain rfl := Option.some.inj hlists
      simp only [List.cons_append, List.nil_append]
      rw [firstMatch_lists]
      -- the name is resolved between the two lists, so the second sees its addresses
      cases d with
      | name name =>
          rw [firstMatch_cons_passes rfl, firstMatch_lists, htail _ rfl]
          simp only [policyOutbound, hprivate, Connection.targets, List.map_nil, List.any_cons,
            List.any_nil, Bool.or_false, Tables.listMatches, List.any_map, Function.comp_def,
            RuleSets.blocked, finalOutbound, Bool.false_eq_true, if_false, if_true]
          cases t.onList RuleSets.blockedDomains.tag (.name name) <;>
            cases t.onList RuleSets.blockedIps.tag (.name name) <;>
            cases (t.lookup name).any fun a => t.onList RuleSets.blockedIps.tag (.address a) <;> rfl
      | address a =>
          rw [firstMatch_cons_passes rfl, firstMatch_lists, htail _ rfl]
          simp only [policyOutbound, hprivate, Connection.targets, List.map_nil, List.any_cons,
            List.any_nil, Bool.or_false, Tables.listMatches, RuleSets.blocked, finalOutbound,
            Bool.false_eq_true, if_false, if_true]
          cases t.onList RuleSets.blockedDomains.tag (.address a) <;>
            cases t.onList RuleSets.blockedIps.tag (.address a) <;> rfl

/-- **The route rules.** The local network first, the user's direct rules, the user's tunnel rules,
then the policy; `rest` are rules that let the destination by. -/
theorem firstMatch_routeRules {bypass : Rules} {rules : List RouteRule}
    (hrules : addPolicyRouteRules bypass = some rules) {d : Destination Addr}
    (htail : ∀ c : Connection Addr, c.destination = d →
      firstMatch t.routeRule (.to (finalOutbound bypass)) rest c = .to (finalOutbound bypass))
    {port : Nat} (hport : port ≠ 53) :
    firstMatch t.routeRule (.to (finalOutbound bypass)) (.sniff :: .hijackDns 53 :: rules ++ rest)
        { destination := d, port := port } =
      if t.privateTarget d then .to .direct
      else if covered t bypass.custom.direct d then .to .direct
      else if covered t bypass.custom.tunnel d then .to .out
      else .to (policyOutbound t bypass.policy d) := by
  obtain ⟨lists, hlists, rfl⟩ := Option.map_eq_some_iff.mp hrules
  simp only [List.cons_append, List.append_assoc]
  rw [firstMatch_opening t _ hport, firstMatch_private, firstMatch_custom, firstMatch_custom]
  by_cases hprivate : t.privateTarget d = true
  · rw [if_pos hprivate, if_pos hprivate]
  · rw [if_neg hprivate, if_neg hprivate]
    rw [firstMatch_policy t rest hlists (Bool.eq_false_iff.mpr hprivate) htail]

end Emitted

/-- The socks shapes' route rules, read as one case distinction. -/
theorem socks_verdict (t : Tables Addr) {bypass : Rules} {route : Route}
    (hroute : putBypassRoute bypass = some route) (d : Destination Addr) {port : Nat}
    (hport : port ≠ 53) :
    route.verdict t d port =
      if t.privateTarget d then .to .direct
      else if covered t bypass.custom.direct d then .to .direct
      else if covered t bypass.custom.tunnel d then .to .out
      else .to (policyOutbound t bypass.policy d) := by
  obtain ⟨rules, hrules, rfl⟩ := Option.map_eq_some_iff.mp hroute
  have hread := firstMatch_routeRules t [] hrules (d := d) (fun _ _ => rfl) hport
  rwa [List.append_nil] at hread

/-- **The user's own rules.** Of the destinations that are not the local network's, one that a
tunnel rule covers and no direct rule goes out; one that a direct rule covers and no tunnel rule
goes direct; one that neither covers goes where the policy says. Addresses of the local network go
direct, whatever the rules say. Connections to port 53 are DNS questions, which the core answers. -/
theorem own_rules_win (t : Tables Addr) {bypass : Rules} {route : Route}
    (hroute : putBypassRoute bypass = some route) (d : Destination Addr) {port : Nat}
    (hport : port ≠ 53) :
    (covered t bypass.custom.tunnel d = true → covered t bypass.custom.direct d = false →
        t.privateTarget d = false → route.verdict t d port = .to .out) ∧
      (covered t bypass.custom.direct d = true → covered t bypass.custom.tunnel d = false →
        route.verdict t d port = .to .direct) ∧
      (covered t bypass.custom.direct d = false → covered t bypass.custom.tunnel d = false →
        route.verdict t d port = .to (policyOutbound t bypass.policy d)) ∧
      (t.privateTarget d = true → route.verdict t d port = .to .direct) := by
  rw [socks_verdict t hroute d hport]
  refine ⟨?_, ?_, ?_, ?_⟩
  · intro htunnel hdirect hprivate
    simp [htunnel, hdirect, hprivate]
  · intro hdirect _
    simp [hdirect]
  · intro hdirect htunnel
    rw [hdirect, htunnel]
    -- the policy sends the local network direct as well
    by_cases hprivate : t.privateTarget d = true
    · simp [policyOutbound, hprivate]
    · simp [hprivate]
  · intro hprivate
    simp [hprivate]

/-- The value of a dotted quad. -/
def ipv4Value (octets : List Nat) : Nat := octets.foldl (fun value octet => value * 256 + octet) 0

/-- Whether a dotted quad is in a prefix as the rules write one, `203.0.113.0/24`. -/
def ipv4InRange (range : Text) (octets : List Nat) : Bool :=
  match cut '/' range with
  | none => false
  | some (base, bits) =>
      match (splitAll (· == '.') base).mapM (digitsValue 10), digitsValue 10 bits with
      | some network, some length =>
          ipv4Value network / 2 ^ (32 - length) == ipv4Value octets / 2 ^ (32 - length)
      | _, _ => false

/-- The IPv4 half of `PRIVATE_RANGES`, which spells out what the core takes for private. -/
def privateRanges : List Text :=
  [txt "0.0.0.0/8", txt "10.0.0.0/8", txt "100.64.0.0/10", txt "127.0.0.0/8", txt "169.254.0.0/16",
    txt "172.16.0.0/12", txt "192.168.0.0/16", txt "224.0.0.0/4", txt "240.0.0.0/4"]

/-- A core on an IPv4 network, with lists that hold every name and no address. -/
def everyNameListed : Tables (List Nat) where
  onList := fun tag d => match d with
    | .name _ => !(RuleSets.ips.map (·.tag)).contains tag
    | .address _ => false
  inRange := ipv4InRange
  isPrivate := fun a => privateRanges.any fun range => ipv4InRange range a
  isIpv6 := fun _ => false
  lookup := fun _ => []

/-- Bypassing Russia, with a site on its lists sent through the tunnel. -/
def vkThroughTunnel : Rules := ⟨.bypass (txt "ru"), ⟨[], [.domain (txt "vk.com")]⟩⟩

theorem own_rules_win_vk :
    ∃ route, putBypassRoute vkThroughTunnel = some route ∧
      route.verdict everyNameListed (.name (txt "m.vk.com")) 443 = .to .out :=
  ⟨_, rfl, (@own_rules_win _ everyNameListed vkThroughTunnel _ rfl (.name (txt "m.vk.com")) 443
    (by decide)).1 (by decide) (by decide) (by decide)⟩

/-- The user's rule for a network of private addresses, through the tunnel. -/
def officeThroughTunnel : Rules := ⟨.tunnel, ⟨[], [.cidr (txt "10.8.0.0/16")]⟩⟩

/-- A private address that a tunnel rule covers, and no direct one, goes direct. -/
theorem private_tunnel_rule_loses :
    ∃ route, putBypassRoute officeThroughTunnel = some route ∧
      covered everyNameListed officeThroughTunnel.custom.tunnel (.address [10, 8, 1, 2]) = true ∧
      covered everyNameListed officeThroughTunnel.custom.direct (.address [10, 8, 1, 2]) = false ∧
      route.verdict everyNameListed (.address [10, 8, 1, 2]) 443 = .to .direct :=
  ⟨_, rfl, by decide, by decide, by decide⟩

/-! ### The DNS rules, part by part -/

section Questions

variable (t : Tables Addr) {final : DnsAction} (rest : List DnsRule) (name : Text)
  (type : QueryType)

/-- What a question for a name bound for the tunnel is answered with: under `fakeTunnelNames` a fake
address, and no `HTTPS` record. -/
def tunnelAnswer (fakeTunnelNames : Bool) (type : QueryType) : DnsAction :=
  match fakeTunnelNames, type with
  | true, .a => .server .fakeIp
  | true, .aaaa => .server .fakeIp
  | true, .https => .reject
  | _, _ => .server .remote

/-- The names a rule of lists and suffixes is for. -/
def nameMatches (ruleSets suffixes : List Text) : Bool :=
  Tables.suffixMatches suffixes (.name name : Destination Addr) ||
    t.listMatches ruleSets (.name name)

theorem nameMatches_nil : nameMatches t name [] [] = false := rfl

variable {ruleSets suffixes : List Text}

/-- One rule of lists and suffixes. -/
theorem firstMatch_names (hnames : (ruleSets.isEmpty && suffixes.isEmpty) = false)
    (types : List QueryType) (action : DnsAction) :
    firstMatch t.dnsRule final
        ({ ruleSet := ruleSets, domainSuffix := suffixes, queryType := types, action := action } ::
          rest)
        (name, type) =
      if nameMatches t name ruleSets suffixes && (types.isEmpty || types.contains type) then action
      else firstMatch t.dnsRule final rest (name, type) := by
  apply firstMatch_cons_ite
  simp only [Tables.dnsRule, hnames, Bool.false_or]
  rfl

/-- The rules for names bound for the tunnel. -/
theorem firstMatch_tunnel (fakeTunnelNames : Bool) :
    firstMatch t.dnsRule final (tunnelDnsRules fakeTunnelNames ruleSets suffixes ++ rest)
      (name, type) =
      if nameMatches t name ruleSets suffixes then tunnelAnswer fakeTunnelNames type
      else firstMatch t.dnsRule final rest (name, type) := by
  by_cases hnames : (ruleSets.isEmpty && suffixes.isEmpty) = true
  · obtain ⟨rfl, rfl⟩ : ruleSets = [] ∧ suffixes = [] := by simpa using hnames
    rw [nameMatches_nil]
    rfl
  · rw [Bool.not_eq_true] at hnames
    cases fakeTunnelNames with
    | false =>
        simp only [tunnelDnsRules, hnames, Bool.false_eq_true, if_false, List.nil_append,
          List.singleton_append]
        rw [firstMatch_names t rest name type hnames]
        cases nameMatches t name ruleSets suffixes <;> cases type <;> rfl
    | true =>
        simp only [tunnelDnsRules, hnames, Bool.false_eq_true, if_false, if_true, List.cons_append,
          List.nil_append]
        rw [firstMatch_names t _ name type hnames, firstMatch_names t _ name type hnames,
          firstMatch_names t _ name type hnames]
        cases nameMatches t name ruleSets suffixes <;> cases type <;> rfl

/-- The rules for names that go straight out. -/
theorem firstMatch_direct :
    firstMatch t.dnsRule final (directDnsRules ruleSets suffixes ++ rest) (name, type) =
      if nameMatches t name ruleSets suffixes then .server .direct
      else firstMatch t.dnsRule final rest (name, type) := by
  by_cases hnames : (ruleSets.isEmpty && suffixes.isEmpty) = true
  · obtain ⟨rfl, rfl⟩ : ruleSets = [] ∧ suffixes = [] := by simpa using hnames
    rw [nameMatches_nil]
    rfl
  · rw [Bool.not_eq_true] at hnames
    simp only [directDnsRules, hnames, Bool.false_eq_true, if_false, List.singleton_append]
    rw [firstMatch_names t rest name type hnames]
    cases nameMatches t name ruleSets suffixes <;> rfl

end Questions

/-! ### Names and their connections -/

/-- The shapes that carry the user's rules. -/
inductive Shape where
  /-- Android and the desktop proxy. -/
  | socks
  /-- The desktop tun, less the first DNS rules it has of its own. -/
  | desktopTun
deriving DecidableEq, Repr

def Shape.dns : Shape → Rules → Option Dns
  | .socks => putBypassDns
  | .desktopTun => desktopTunDns

def Shape.route : Shape → Rules → Option Route
  | .socks => putBypassRoute
  | .desktopTun => desktopTunRoute

/-- Whether the shape answers a tunnel-bound name with a fake address. -/
def Shape.fakes : Shape → Bool
  | .socks => false
  | .desktopTun => true

/-- The core before it has looked anything up. -/
def Tables.unresolved (t : Tables Addr) : Tables Addr := { t with lookup := fun _ => [] }

/-- An address list has no names (`RuleSets.domains`). -/
def AddressListsHoldNoNames (t : Tables Addr) : Prop :=
  ∀ file ∈ RuleSets.ips, ∀ name, t.onList file.tag (.name name) = false

/-- The answer a name gets whose connection goes to the outbound. -/
def answerFor (fakeTunnelNames : Bool) (type : QueryType) : Outbound → DnsAction
  | .out => tunnelAnswer fakeTunnelNames type
  | .direct => .server .direct

/-- Asked through the tunnel, or answered with a fake address; the `HTTPS` question of a name that
has a fake address is refused. -/
def TunnelSide (action : DnsAction) (type : QueryType) : Prop :=
  action = .server .remote ∨ action = .server .fakeIp ∨ (action = .reject ∧ type = .https)

/-- The name is resolved on the side its connection goes to, before anything resolved it. -/
def ResolvedWhereSent (t : Tables Addr) (dns : Dns) (route : Route) (name : Text) (type : QueryType)
    (port : Nat) : Prop :=
  (dns.verdict t name type = .server .direct ↔
      route.verdict t.unresolved (.name name) port = .to .direct) ∧
    (TunnelSide (dns.verdict t name type) type ↔
      route.verdict t.unresolved (.name name) port = .to .out)

theorem tunnelAnswer_ne_direct (fakeTunnelNames : Bool) (type : QueryType) :
    tunnelAnswer fakeTunnelNames type ≠ .server .direct := by
  cases fakeTunnelNames <;> cases type <;> simp [tunnelAnswer]

theorem tunnelSide_tunnelAnswer (fakeTunnelNames : Bool) (type : QueryType) :
    TunnelSide (tunnelAnswer fakeTunnelNames type) type := by
  cases fakeTunnelNames <;> cases type <;> simp [TunnelSide, tunnelAnswer]

theorem not_tunnelSide_direct (type : QueryType) : ¬ TunnelSide (.server .direct) type := by
  simp [TunnelSide]

section Names

variable {t : Tables Addr} (hlists : AddressListsHoldNoNames t)

include hlists

/-- Among a region's lists, a name is on one of the name lists or on none. -/
theorem onRegional_eq {region : Text} {files : List RuleSetFile}
    (hfiles : RuleSets.regional region = some files) (name : Text) :
    (files.any fun file => t.onList file.tag (.name name)) =
      ((files.filter fun file => startsWith file.name (txt "geosite-")).any fun file =>
        t.onList file.tag (.name name)) := by
  have hip : ∀ file, file ∈ RuleSets.ips → t.onList file.tag (.name name) = false :=
    fun file hfile => hlists file hfile name
  have hru := hip RuleSets.geoipRu (by decide)
  have hir := hip RuleSets.geoipIr (by decide)
  have hcn := hip RuleSets.geoipCn (by decide)
  simp only [RuleSets.regional] at hfiles
  split at hfiles
  · obtain rfl := Option.some.inj hfiles
    have hkept : (RuleSets.all.filter fun file => startsWith file.name (txt "geosite-")) =
        [RuleSets.geositeRu, RuleSets.geositeTldRu] := by decide
    rw [hkept]
    simp [RuleSets.all, hru]
  · split at hfiles
    · obtain rfl := Option.some.inj hfiles
      have hkept : ([RuleSets.geositeCategoryIr, RuleSets.geoipIr].filter fun file =>
          startsWith file.name (txt "geosite-")) = [RuleSets.geositeCategoryIr] := by decide
      rw [hkept]
      simp [hir]
    · split at hfiles
      · obtain rfl := Option.some.inj hfiles
        have hkept : ([RuleSets.geositeCn, RuleSets.geositeTldCn, RuleSets.geoipCn].filter
            fun file => startsWith file.name (txt "geosite-")) =
            [RuleSets.geositeCn, RuleSets.geositeTldCn] := by
          decide
        rw [hkept]
        simp [hcn]
      · cases hfiles

/-- The policy's own DNS rules, before rules that answer every name as the final clause would. -/
theorem firstMatch_policyDns {bypass : Rules} {fakeTunnelNames : Bool} {lists rest : List DnsRule}
    (hrules : policyDnsRules fakeTunnelNames bypass.policy = some lists) (name : Text)
    (type : QueryType)
    (hrest : firstMatch t.dnsRule (.server (finalDns bypass)) rest (name, type) =
      answerFor fakeTunnelNames type (finalOutbound bypass)) :
    firstMatch t.dnsRule (.server (finalDns bypass)) (lists ++ rest) (name, type) =
      answerFor fakeTunnelNames type (policyOutbound t.unresolved bypass.policy (.name name)) := by
  obtain ⟨policy, custom⟩ := bypass
  cases policy with
  | tunnel =>
      obtain rfl := Option.some.inj hrules
      rw [List.nil_append, hrest]
      rfl
  | bypass region =>
      simp only [policyDnsRules, RuleSets.regionalDomains, Option.map_map] at hrules
      obtain ⟨files, hfiles, rfl⟩ := Option.map_eq_some_iff.mp hrules
      simp only [Function.comp_apply]
      rw [firstMatch_direct, hrest]
      have hon := onRegional_eq hlists hfiles name
      simp only [policyOutbound, Tables.unresolved, Tables.privateTarget, hfiles, Option.getD_some,
        Bool.false_eq_true, if_false, nameMatches, Tables.suffixMatches, List.any_nil,
        Bool.false_or,
        Tables.listMatches, List.any_map, Function.comp_def, hon]
      split <;> rfl
  | blockedOnly =>
      obtain rfl := Option.some.inj hrules
      rw [firstMatch_tunnel, hrest]
      have hips := hlists RuleSets.blockedIps (by decide) name
      simp only [policyOutbound, Tables.unresolved, Tables.privateTarget, nameMatches,
        Tables.suffixMatches, Tables.listMatches, RuleSets.blocked, List.any_cons, List.any_nil,
        Bool.or_false, Bool.false_or, Bool.false_eq_true, if_false, hips]
      split <;> rfl

omit hlists in
/-- The rules of a shape after the policy's, and its final clause, answer for the side what no rule
claims goes to. -/
theorem firstMatch_otherNames (bypass : Rules) (name : Text) (type : QueryType) :
    firstMatch t.dnsRule (.server (finalDns bypass)) [] (name, type) =
        answerFor false type (finalOutbound bypass) ∧
      firstMatch t.dnsRule (.server (finalDns bypass))
          (if bypass.policy = .blockedOnly then [] else addFakeIpRules) (name, type) =
        answerFor true type (finalOutbound bypass) := by
  by_cases hpolicy : bypass.policy = .blockedOnly
  · simp [finalDns, finalOutbound, hpolicy, answerFor]
  · have hfinal : finalDns bypass = .remote := if_neg hpolicy
    have hout : finalOutbound bypass = .out := if_neg hpolicy
    rw [hfinal, hout, if_neg hpolicy]
    constructor
    · cases type <;> rfl
    · cases type <;> rfl

/-- A shape's DNS rules: the user's tunnel names, the user's direct names, then the policy. -/
theorem firstMatch_dnsRules {bypass : Rules} {fakeTunnelNames : Bool} {rules rest : List DnsRule}
    (hrules : addPolicyDnsRules bypass fakeTunnelNames = some rules) (name : Text)
    (type : QueryType)
    (hrest : firstMatch t.dnsRule (.server (finalDns bypass)) rest (name, type) =
      answerFor fakeTunnelNames type (finalOutbound bypass)) :
    firstMatch t.dnsRule (.server (finalDns bypass)) (rules ++ rest) (name, type) =
      if covered t bypass.custom.tunnel (.name name) then tunnelAnswer fakeTunnelNames type
      else if covered t bypass.custom.direct (.name name) then .server .direct
      else answerFor fakeTunnelNames type
        (policyOutbound t.unresolved bypass.policy (.name name)) := by
  obtain ⟨lists, hpolicy, rfl⟩ := Option.map_eq_some_iff.mp hrules
  have hnames : ∀ user : List RoutingRule,
      nameMatches t name [] (domains user) = covered t user (.name name) := by
    intro user
    simp only [covered_name, nameMatches, Tables.listMatches, List.any_nil, Bool.or_false]
  rw [List.append_assoc, List.append_assoc, firstMatch_tunnel, firstMatch_direct, hnames, hnames,
    firstMatch_policyDns hlists hpolicy name type hrest]

/-- **The DNS rules.** `firstMatch_dnsRules` at either shape. -/
theorem dns_verdict {shape : Shape} {bypass : Rules} {dns : Dns}
    (hdns : shape.dns bypass = some dns) (name : Text) (type : QueryType) :
    dns.verdict t name type =
      if covered t bypass.custom.tunnel (.name name) then tunnelAnswer shape.fakes type
      else if covered t bypass.custom.direct (.name name) then .server .direct
      else answerFor shape.fakes type (policyOutbound t.unresolved bypass.policy (.name name)) := by
  have hother := firstMatch_otherNames (t := t) bypass name type
  cases shape with
  | socks =>
      obtain ⟨rules, hrules, rfl⟩ := Option.map_eq_some_iff.mp hdns
      have hread := firstMatch_dnsRules hlists hrules name type hother.1
      rwa [List.append_nil] at hread
  | desktopTun =>
      obtain ⟨rules, hrules, rfl⟩ := Option.map_eq_some_iff.mp hdns
      exact firstMatch_dnsRules hlists hrules name type hother.2

end Names

/-- The route rules of either shape at a name that is not resolved yet. -/
theorem name_verdict (t : Tables Addr) {shape : Shape} {bypass : Rules} {route : Route}
    (hroute : shape.route bypass = some route) (name : Text) {port : Nat} (hport : port ≠ 53) :
    route.verdict t.unresolved (.name name) port =
      if covered t bypass.custom.direct (.name name) then .to .direct
      else if covered t bypass.custom.tunnel (.name name) then .to .out
      else .to (policyOutbound t.unresolved bypass.policy (.name name)) := by
  cases shape with
  | socks => exact socks_verdict t.unresolved hroute (.name name) hport
  | desktopTun =>
      obtain ⟨rules, hrules, rfl⟩ := Option.map_eq_some_iff.mp hroute
      -- the refusal of IPv6 looks at addresses only
      have hpass : ∀ c : Connection Addr, c.destination = .name name →
          t.unresolved.routeRule (.rejectIpVersion 6) c = .passes c := by
        intro c hc
        simp only [Tables.routeRule, hc]
      have hread := firstMatch_routeRules t.unresolved [.rejectIpVersion 6] hrules
        (fun c hc => firstMatch_cons_passes (hpass c hc) []) hport
      exact hread

/-- **Names and their connections.** A name is resolved on the side its connection goes to, unless
a tunnel rule and a direct rule of the user's both cover it: the DNS rules take the tunnel's first,
and the route rules the direct ones. -/
theorem resolved_where_sent_iff (t : Tables Addr) (hlists : AddressListsHoldNoNames t)
    {shape : Shape} {bypass : Rules} {dns : Dns} {route : Route}
    (hdns : shape.dns bypass = some dns) (hroute : shape.route bypass = some route) (name : Text)
    (type : QueryType) {port : Nat} (hport : port ≠ 53) :
    ResolvedWhereSent t dns route name type port ↔
      ¬ (covered t bypass.custom.tunnel (.name name) = true ∧
          covered t bypass.custom.direct (.name name) = true) := by
  have hanswer := tunnelAnswer_ne_direct shape.fakes type
  have htunnel := tunnelSide_tunnelAnswer shape.fakes type
  have hdirect := not_tunnelSide_direct type
  rw [ResolvedWhereSent, dns_verdict hlists hdns, name_verdict t hroute name hport]
  cases hct : covered t bypass.custom.tunnel (.name name) with
  | true =>
      cases hcd : covered t bypass.custom.direct (.name name) with
      | true => simp [hanswer]
      | false => simp [hanswer, htunnel]
  | false =>
      cases hcd : covered t bypass.custom.direct (.name name) with
      | true => simp [hdirect]
      | false =>
          cases policyOutbound t.unresolved bypass.policy (.name name) with
          | out => simp [answerFor, hanswer, htunnel]
          | direct => simp [answerFor, hdirect]

theorem everyNameListed_addressLists : AddressListsHoldNoNames everyNameListed := by
  intro file hfile name
  have hheld : (RuleSets.ips.map (·.tag)).contains file.tag = true := by
    simpa using List.mem_map_of_mem hfile
  simp only [everyNameListed, hheld, Bool.not_true]

theorem resolved_where_sent_vk :
    ∃ dns route, Shape.dns .socks vkThroughTunnel = some dns ∧
      Shape.route .socks vkThroughTunnel = some route ∧
      ResolvedWhereSent everyNameListed dns route (txt "m.vk.com") .a 443 :=
  ⟨_, _, rfl, rfl, (@resolved_where_sent_iff _ everyNameListed everyNameListed_addressLists .socks
    vkThroughTunnel _ _ rfl rfl (txt "m.vk.com") .a 443 (by decide)).mpr (by decide)⟩

/-- A site sent through the tunnel, under a domain that goes direct. -/
def mailThroughTunnel : Rules :=
  ⟨.tunnel, ⟨[.domain (txt "example.com")], [.domain (txt "mail.example.com")]⟩⟩

/-- A name under both is asked for through the tunnel, and its connection goes direct. -/
theorem nested_rules_disagree :
    ∃ dns route, putBypassDns mailThroughTunnel = some dns ∧
      putBypassRoute mailThroughTunnel = some route ∧
      dns.verdict everyNameListed (txt "mail.example.com") .a = .server .remote ∧
      route.verdict everyNameListed.unresolved (.name (txt "mail.example.com")) 443 = .to .direct ∧
      ¬ ResolvedWhereSent everyNameListed dns route (txt "mail.example.com") .a 443 := by
  refine ⟨_, _, rfl, rfl, by decide, by decide, ?_⟩
  intro h
  have hdirect : Dns.verdict _ everyNameListed (txt "mail.example.com") .a = .server .direct :=
    h.1.mpr (by decide)
  revert hdirect
  decide

end Ghostlane.App
