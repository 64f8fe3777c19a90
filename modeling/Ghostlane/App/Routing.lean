import Ghostlane.App.Strings
import Ghostlane.Lib.FirstMatch

/-!
# Ghostlane.App.Routing

Where a connection goes, and where its name is resolved. A `Routing.Rules` names a
policy for the bundled lists and the user's own rules (`net/Routing.kt`);
`SingBoxConfig` writes it out as two ordered lists of rules, one for connections and
one for DNS questions, and the core takes the first that matches.

The rules are embedded as the objects the builder emits, field by field, and read by
`Route.verdict` and `Dns.verdict`. What the core knows that is not in the config (the
bytes of a list, what a prefix spans, which addresses are private, what a lookup on
the network underneath answers) is `Tables`.

A file's checksum and the parts of a config that no rule reads (servers, inbounds,
outbounds, logging, the cache) are left out. So are the first DNS rules of the desktop
tun: the server's own name, a line's own binary, local network names, and the zone a
tun answers itself.
-/

namespace Ghostlane.App

open Ghostlane.Lib

/-! ### The lists -/

/-- `RuleSets.File`: a bundled rule-set. -/
structure RuleSetFile where
  name : Text
  tag : Text
deriving DecidableEq, Repr

namespace RuleSets

def geositeRu : RuleSetFile := ⟨txt "geosite-category-ru.srs", txt "geosite-ru"⟩
def geositeTldRu : RuleSetFile := ⟨txt "geosite-tld-ru.srs", txt "geosite-tld-ru"⟩
def geoipRu : RuleSetFile := ⟨txt "geoip-ru.srs", txt "geoip-ru"⟩
def geositeCategoryIr : RuleSetFile := ⟨txt "geosite-category-ir.srs", txt "geosite-category-ir"⟩
def geositeCn : RuleSetFile := ⟨txt "geosite-cn.srs", txt "geosite-cn"⟩
def geositeTldCn : RuleSetFile := ⟨txt "geosite-tld-cn.srs", txt "geosite-tld-cn"⟩
def geoipIr : RuleSetFile := ⟨txt "geoip-ir.srs", txt "geoip-ir"⟩
def geoipCn : RuleSetFile := ⟨txt "geoip-cn.srs", txt "geoip-cn"⟩
def blockedDomains : RuleSetFile := ⟨txt "refilter-domains.srs", txt "refilter-domains"⟩
def blockedIps : RuleSetFile := ⟨txt "refilter-ips.srs", txt "refilter-ips"⟩

def blocked : List RuleSetFile := [blockedDomains, blockedIps]

/-- `all`: Russia's. -/
def all : List RuleSetFile := [geositeRu, geositeTldRu, geoipRu]

/-- A region's lists. The source throws for a region it has none for. -/
def regional (region : Text) : Option (List RuleSetFile) :=
  if region = txt "ru" then some all
  else if region = txt "ir" then some [geositeCategoryIr, geoipIr]
  else if region = txt "cn" then some [geositeCn, geositeTldCn, geoipCn]
  else none

/-- Those of them that list names, which is what a DNS rule can match. -/
def regionalDomains (region : Text) : Option (List RuleSetFile) :=
  (regional region).map fun files => files.filter fun file => startsWith file.name (txt "geosite-")

/-- The bundled lists of addresses. -/
def ips : List RuleSetFile := [geoipRu, geoipIr, geoipCn, blockedIps]

end RuleSets

/-! ### Policies and rules -/

/-- `Routing.Policy`: what the bundled lists mean. -/
inductive Policy where
  /-- No list: everything rides the tunnel but the user's own direct rules. -/
  | tunnel
  /-- The region's lists go straight out, the rest rides the tunnel. -/
  | bypass (region : Text)
  /-- Only the blocked lists and the user's tunnel rules ride the tunnel. -/
  | blockedOnly
deriving DecidableEq, Repr

/-- `RoutingRule`: a domain, which covers its subdomains, or an address prefix. -/
inductive RoutingRule where
  | domain (name : Text)
  | cidr (range : Text)
deriving DecidableEq, Repr

/-- The user's own rules, parsed. -/
structure CustomRules where
  direct : List RoutingRule
  tunnel : List RoutingRule
deriving DecidableEq, Repr

/-- `List<RoutingRule>.domains`. -/
def domains (rules : List RoutingRule) : List Text :=
  rules.filterMap fun rule => match rule with
    | .domain name => some name
    | .cidr _ => none

/-- `List<RoutingRule>.cidrs`. -/
def cidrs (rules : List RoutingRule) : List Text :=
  rules.filterMap fun rule => match rule with
    | .domain _ => none
    | .cidr range => some range

/-- `Routing.Rules`. -/
structure Rules where
  policy : Policy
  custom : CustomRules
deriving DecidableEq, Repr

/-! ### What the builder emits -/

inductive Outbound where
  | out
  | direct
deriving DecidableEq, Repr

/-- The DNS servers a rule can name, `dns-remote`, `dns-direct` and `dns-fakeip`. -/
inductive DnsServer where
  | remote
  | direct
  | fakeIp
deriving DecidableEq, Repr

/-- One object of `route.rules`. -/
inductive RouteRule where
  | sniff
  | hijackDns (port : Nat)
  /-- Any of the conditions that are there sends the connection to the outbound. -/
  | to (domainSuffix ipCidr ruleSet : List Text) (ipIsPrivate : Bool) (outbound : Outbound)
  | resolve (server : DnsServer)
  | rejectIpVersion (version : Nat)
deriving DecidableEq, Repr

structure Route where
  rules : List RouteRule
  final : Outbound
deriving DecidableEq, Repr

inductive QueryType where
  | a
  | aaaa
  | https
  | other (code : Nat)
deriving DecidableEq, Repr

inductive DnsAction where
  | server (server : DnsServer)
  | reject
deriving DecidableEq, Repr

/-- One object of `dns.rules`; a list that is not there is empty. -/
structure DnsRule where
  ruleSet : List Text := []
  domainSuffix : List Text := []
  queryType : List QueryType := []
  action : DnsAction
deriving DecidableEq, Repr

structure Dns where
  rules : List DnsRule
  final : DnsServer
deriving DecidableEq, Repr

namespace SingBoxConfig

/-- `addCustomRouteRule`: one rule for all of the user's, or none. -/
def addCustomRouteRule (rules : List RoutingRule) (outbound : Outbound) : List RouteRule :=
  if rules = [] then [] else [.to (domains rules) (cidrs rules) [] false outbound]

/-- The policy's own rules, the `when` of `addPolicyRouteRules`. -/
def policyRouteRules : Policy → Option (List RouteRule)
  | .tunnel => some []
  | .bypass region =>
      (RuleSets.regional region).map fun files => [.to [] [] (files.map (·.tag)) false .direct]
  | .blockedOnly =>
      some [.to [] [] [RuleSets.blockedDomains.tag] false .out,
        -- a site blocked by address alone has a name on no list
        .resolve .direct,
        .to [] [] [RuleSets.blockedIps.tag] false .out]

/-- `addPolicyRouteRules`. -/
def addPolicyRouteRules (bypass : Rules) : Option (List RouteRule) :=
  (policyRouteRules bypass.policy).map fun lists =>
    .to [] [] [] true .direct ::
      (addCustomRouteRule bypass.custom.direct .direct ++
        (addCustomRouteRule bypass.custom.tunnel .out ++ lists))

def finalOutbound (bypass : Rules) : Outbound :=
  if bypass.policy = .blockedOnly then .direct else .out

def finalDns (bypass : Rules) : DnsServer :=
  if bypass.policy = .blockedOnly then .direct else .remote

/-- The local function `tunnel` of `addPolicyDnsRules`. -/
def tunnelDnsRules (fakeTunnelNames : Bool) (ruleSets suffixes : List Text) : List DnsRule :=
  if ruleSets.isEmpty && suffixes.isEmpty then []
  else
    (if fakeTunnelNames then
      [{ ruleSet := ruleSets, domainSuffix := suffixes, queryType := [.a, .aaaa],
         action := .server .fakeIp },
       { ruleSet := ruleSets, domainSuffix := suffixes, queryType := [.https], action := .reject }]
    else []) ++
      [{ ruleSet := ruleSets, domainSuffix := suffixes, action := .server .remote }]

/-- The local function `direct` of `addPolicyDnsRules`. -/
def directDnsRules (ruleSets suffixes : List Text) : List DnsRule :=
  if ruleSets.isEmpty && suffixes.isEmpty then []
  else [{ ruleSet := ruleSets, domainSuffix := suffixes, action := .server .direct }]

/-- The policy's own rules, the `when` of `addPolicyDnsRules`. -/
def policyDnsRules (fakeTunnelNames : Bool) : Policy → Option (List DnsRule)
  | .tunnel => some []
  | .bypass region =>
      (RuleSets.regionalDomains region).map fun files => directDnsRules (files.map (·.tag)) []
  | .blockedOnly => some (tunnelDnsRules fakeTunnelNames [RuleSets.blockedDomains.tag] [])

/-- `addPolicyDnsRules`. -/
def addPolicyDnsRules (bypass : Rules) (fakeTunnelNames : Bool) : Option (List DnsRule) :=
  (policyDnsRules fakeTunnelNames bypass.policy).map fun lists =>
    tunnelDnsRules fakeTunnelNames [] (domains bypass.custom.tunnel) ++
      (directDnsRules [] (domains bypass.custom.direct) ++ lists)

/-- `addFakeIpRules`: every other name is the tunnel's. -/
def addFakeIpRules : List DnsRule :=
  [{ queryType := [.a, .aaaa], action := .server .fakeIp },
    { queryType := [.https], action := .reject }]

/-- `putBypassDns`, of the socks shapes. -/
def putBypassDns (bypass : Rules) : Option Dns :=
  (addPolicyDnsRules bypass false).map fun rules => ⟨rules, finalDns bypass⟩

/-- `putBypassRoute`, of the socks shapes. -/
def putBypassRoute (bypass : Rules) : Option Route :=
  (addPolicyRouteRules bypass).map fun rules =>
    ⟨.sniff :: .hijackDns 53 :: rules, finalOutbound bypass⟩

/-- The `dns` object of `buildDesktopTun` under a rule-based routing. -/
def desktopTunDns (bypass : Rules) : Option Dns :=
  (addPolicyDnsRules bypass true).map fun rules =>
    ⟨rules ++ (if bypass.policy = .blockedOnly then [] else addFakeIpRules), finalDns bypass⟩

/-- The `route` object of `buildDesktopTun` under a rule-based routing. -/
def desktopTunRoute (bypass : Rules) : Option Route :=
  (addPolicyRouteRules bypass).map fun rules =>
    ⟨.sniff :: .hijackDns 53 :: rules ++ [.rejectIpVersion 6], finalOutbound bypass⟩

end SingBoxConfig

/-! ### How the core reads it -/

/-- What a connection is to. -/
inductive Destination (Addr : Type) where
  | name (name : Text)
  | address (address : Addr)
deriving DecidableEq, Repr

/-- What the core knows beside its config. -/
structure Tables (Addr : Type) where
  /-- Membership in the rule-set of a tag. -/
  onList : Text → Destination Addr → Bool
  /-- Whether an address is in a prefix. -/
  inRange : Text → Addr → Bool
  isPrivate : Addr → Bool
  isIpv6 : Addr → Bool
  /-- What the network's own resolver answers for a name. -/
  lookup : Text → List Addr

/-- A connection on its way through the route rules. -/
structure Connection (Addr : Type) where
  destination : Destination Addr
  port : Nat
  /-- The addresses of a name, once a rule had it resolved. -/
  resolved : List Addr := []

/-- What the rules of a config make of a connection. -/
inductive Verdict where
  | to (outbound : Outbound)
  /-- A DNS question, answered by the core itself. -/
  | answered
  | rejected
deriving DecidableEq, Repr

/-- `domain_suffix`: the name itself, or one that ends in it at a label boundary. -/
def hasDomainSuffix (suffix name : Text) : Bool :=
  name == suffix || ('.' :: suffix).isSuffixOf name

section Core

variable {Addr : Type}

/-- What a connection can be matched by: its destination, and the addresses it was resolved to. -/
def Connection.targets (c : Connection Addr) : List (Destination Addr) :=
  c.destination :: c.resolved.map .address

namespace Tables

variable (t : Tables Addr)

/-- The suffixes of a rule at one target. -/
def suffixMatches (domainSuffix : List Text) : Destination Addr → Bool
  | .name name => domainSuffix.any fun suffix => hasDomainSuffix suffix name
  | .address _ => false

/-- The prefixes of a rule at one target. -/
def cidrMatches (ipCidr : List Text) : Destination Addr → Bool
  | .name _ => false
  | .address a => ipCidr.any fun range => t.inRange range a

/-- Whether a target is an address of the local network. -/
def privateTarget : Destination Addr → Bool
  | .name _ => false
  | .address a => t.isPrivate a

/-- Whether a target is on one of the lists. -/
def listMatches (ruleSet : List Text) (d : Destination Addr) : Bool :=
  ruleSet.any fun tag => t.onList tag d

/-- One route rule at a connection. -/
def routeRule : RouteRule → Connection Addr → Ruling (Connection Addr) Verdict
  | .sniff, c => .passes c
  | .hijackDns port, c => if c.port = port then .ends .answered else .passes c
  | .to domainSuffix ipCidr ruleSet ipIsPrivate outbound, c =>
      if c.targets.any fun d =>
          suffixMatches domainSuffix d || t.cidrMatches ipCidr d ||
            (ipIsPrivate && t.privateTarget d) || t.listMatches ruleSet d then
        .ends (.to outbound)
      else .passes c
  | .resolve _, c =>
      match c.destination with
      | .name name => .passes { c with resolved := t.lookup name }
      | .address _ => .passes c
  | .rejectIpVersion version, c =>
      match c.destination with
      | .name _ => .passes c
      | .address a => if version = (if t.isIpv6 a then 6 else 4) then .ends .rejected else .passes c

/-- One DNS rule at a question. -/
def dnsRule (r : DnsRule) (q : Text × QueryType) : Ruling (Text × QueryType) DnsAction :=
  if ((r.ruleSet.isEmpty && r.domainSuffix.isEmpty) ||
        suffixMatches r.domainSuffix (.name q.1 : Destination Addr) ||
        t.listMatches r.ruleSet (.name q.1)) &&
      (r.queryType.isEmpty || r.queryType.contains q.2) then
    .ends r.action
  else .passes q

end Tables

/-- Where a connection to a destination goes. -/
def Route.verdict (route : Route) (t : Tables Addr) (d : Destination Addr) (port : Nat) : Verdict :=
  firstMatch t.routeRule (.to route.final) route.rules { destination := d, port := port }

/-- What happens to a DNS question. -/
def Dns.verdict (dns : Dns) (t : Tables Addr) (name : Text) (type : QueryType) : DnsAction :=
  firstMatch t.dnsRule (.server dns.final) dns.rules (name, type)

end Core

end Ghostlane.App
