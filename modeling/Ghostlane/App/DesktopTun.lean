import Ghostlane.App.RoutingSound

/-!
# Ghostlane.App.DesktopTun

The tun of a desktop (`SingBoxConfig.buildDesktopTun`): a sing-box of its own in front of the core
that carries a line. The core is another process behind the same tun, so what it sends, and what it
asks for, has to be let out, or the tunnel carries itself; and what anybody else asks has to be
answered inside.

The rules are embedded as the objects the builder emits (`TunDnsRule`, `TunRouteRule`) and read as
`App.Routing` reads those of the other shapes, at a question or a connection that may name the
program behind it. `tun_answer` and `tun_goes` are the two lists of rules read as case distinctions;
what the tun is for follows from them.

Logging, the inbounds' addresses and credentials, the local API and the cache are left out: no rule
reads them.
-/

namespace Ghostlane.App.DesktopTun

open Ghostlane.Lib SingBoxConfig

/-! ### What the builder is given -/

/-- The arguments that decide what is in the rules. -/
structure TunOptions where
  verifyUsername : Text := []
  verifyPassword : Text := []
  directDnsDomains : List Text := []
  upstreamUdpIsLossy : Bool := false
  /-- `Routing.Global` is none. -/
  routing : Option Rules := none
  bindInterface : Option Text := none
  bypassProcessPaths : List Text := []
  strictRoute : Bool := false
  answersEveryName : Bool := false
  namesProgramsFor : Option Text := none

/-- Whether the daemon answers names itself. -/
def TunOptions.answersDns (o : TunOptions) : Bool :=
  o.upstreamUdpIsLossy || o.routing.isSome || o.strictRoute || o.answersEveryName

/-! ### What it emits -/

/-- `action` of a DNS rule; `predefined` says the code and the records itself. -/
inductive TunDnsAction
  | of (action : DnsAction)
  | predefined (rcode : Text) (answer : List Text)
  deriving DecidableEq, Repr

/-- One object of `dns.rules`; a list that is not there is empty. -/
structure TunDnsRule where
  domain : List Text := []
  domainSuffix : List Text := []
  /-- `domain_regex` of one expression, `^[^.]+$`. -/
  dotless : Bool := false
  ruleSet : List Text := []
  queryType : List QueryType := []
  processPath : List Text := []
  action : TunDnsAction
  deriving DecidableEq, Repr

structure TunDns where
  rules : List TunDnsRule
  /-- `dns.final`, or the first of the servers. -/
  final : DnsServer
  deriving DecidableEq, Repr

/-- One object of `route.rules`: as in the other shapes, or for what a program sends into
`tun-in`. -/
inductive TunRouteRule
  | of (rule : RouteRule)
  | program (processPath : List Text) (outbound : Outbound)
  deriving DecidableEq, Repr

structure TunRoute where
  rules : List TunRouteRule
  /-- `route.final`, or the first of the outbounds. -/
  final : Outbound
  deriving DecidableEq, Repr

structure TunConfig where
  dns : TunDns
  route : TunRoute
  deriving DecidableEq, Repr

def namesProgramsProbe : Text := txt "names-its-programs.ghostlane.invalid"
def namesProgramsAnswer : Text := txt "127.0.0.53"

/-- `NOERROR` is what an answer without a code has. -/
def probeRecord : TunDnsAction :=
  .predefined (txt "NOERROR") [namesProgramsProbe ++ txt ". IN A " ++ namesProgramsAnswer]

def noSuchName : TunDnsAction := .predefined (txt "NXDOMAIN") []

def noData : TunDnsAction := .predefined (txt "NOERROR") []

/-- `addNamesProgramsProbe`. -/
def addNamesProgramsProbe (program : Text) : List TunDnsRule :=
  [{ domain := [namesProgramsProbe], processPath := [program], action := probeRecord },
    { domain := [namesProgramsProbe], action := noSuchName }]

/-- `addNoResolverOfItsOwn`. -/
def addNoResolverOfItsOwn : List TunDnsRule :=
  [{ domainSuffix := [txt "resolver.arpa"], action := noData }]

/-- `LOCAL_NAME_SUFFIXES`, and the reverse of the private ranges. -/
def localSuffixes : List Text :=
  [txt "lan", txt "home", txt "home.arpa", txt "local", txt "localdomain", txt "internal",
    txt "intranet", txt "corp", txt "private", txt "10.in-addr.arpa"] ++
  (List.range' 16 16).map (fun n => decimal n ++ txt ".172.in-addr.arpa") ++
  [txt "168.192.in-addr.arpa", txt "254.169.in-addr.arpa"]

/-- `addLocalNetworkNames`. -/
def addLocalNetworkNames : List TunDnsRule :=
  [{ domainSuffix := localSuffixes, dotless := true, action := .of (.server .direct) }]

/-- A rule of the other shapes. -/
def shared (r : DnsRule) : TunDnsRule :=
  { ruleSet := r.ruleSet, domainSuffix := r.domainSuffix, queryType := r.queryType,
    action := .of r.action }

/-- `dns.rules`, where there are any. -/
def tunDnsRules (o : TunOptions) (policy : List DnsRule) : List TunDnsRule :=
  (match o.namesProgramsFor with
    | some program => addNamesProgramsProbe program
    | none => []) ++
  ((if o.answersEveryName && !o.bypassProcessPaths.isEmpty then
      [{ processPath := o.bypassProcessPaths, action := .of (.server .direct) }]
    else []) ++
  ((if !o.directDnsDomains.isEmpty then
    [{ domain := o.directDnsDomains, action := .of (.server .direct) }]
    else []) ++
  ((if o.answersDns then addNoResolverOfItsOwn else []) ++
  (policy.map shared ++
  ((if o.answersEveryName then addLocalNetworkNames else []) ++
  (if o.answersDns && (o.routing.map (·.policy) != some .blockedOnly) then addFakeIpRules.map shared
    else []))))))

/-- The rule that lets the lines' binaries out. -/
def letTheLinesOut (o : TunOptions) : List TunRouteRule :=
  if o.bypassProcessPaths.isEmpty then [] else [.program o.bypassProcessPaths .direct]

/-- `route.rules`. -/
def tunRouteRules (o : TunOptions) (policy : List RouteRule) : List TunRouteRule :=
  (if !o.answersEveryName then letTheLinesOut o else []) ++
  ((if o.answersDns then [.of .sniff, .of (.hijackDns 53)] else []) ++
  ((if o.answersEveryName then letTheLinesOut o else []) ++
  (policy.map .of ++ [.of (.rejectIpVersion 6)])))

/-- What the builder requires of its arguments. -/
def TunOptions.accepted (o : TunOptions) : Bool :=
  (isBlank o.verifyUsername == isBlank o.verifyPassword) &&
    (o.namesProgramsFor.isNone || o.answersEveryName) &&
    (o.routing.isNone || o.bindInterface.any fun name => !isBlank name)

/-- `buildDesktopTun`. The source throws where this is none. -/
def buildDesktopTun (o : TunOptions) : Option TunConfig :=
  if o.accepted then
    match o.routing with
    | none => some
        { dns := ⟨tunDnsRules o [], if o.answersDns then .remote else .direct⟩
          route := ⟨tunRouteRules o [], .out⟩ }
    | some bypass => do
        let dns ← addPolicyDnsRules bypass true
        let route ← addPolicyRouteRules bypass
        some
          { dns := ⟨tunDnsRules o dns, finalDns bypass⟩
            route := ⟨tunRouteRules o route, finalOutbound bypass⟩ }
  else none

/-! ### How the core reads it -/

/-- A question, and the program that asks where the core could tell. -/
structure Question where
  name : Text
  type : QueryType
  program : Option Text := none
  deriving DecidableEq, Repr

/-- The tags of the inbounds. -/
inductive Inbound
  | tunIn
  | verifyIn
  deriving DecidableEq, Repr

structure TunConnection (Addr : Type) where
  connection : Connection Addr
  inbound : Inbound
  program : Option Text := none

/-- `domain_regex` `^[^.]+$`. -/
def isDotless (name : Text) : Bool :=
  name != [] && !name.contains '.'

section Core

variable {Addr : Type} (t : Tables Addr)

/-- Any of the rule's names, and then each of its other conditions. -/
def TunDnsRule.matched (r : TunDnsRule) (q : Question) : Bool :=
  ((r.domain.isEmpty && r.domainSuffix.isEmpty && !r.dotless && r.ruleSet.isEmpty) ||
      r.domain.contains q.name ||
      Tables.suffixMatches r.domainSuffix (.name q.name : Destination Addr) ||
      (r.dotless && isDotless q.name) || t.listMatches r.ruleSet (.name q.name)) &&
    (r.queryType.isEmpty || r.queryType.contains q.type) &&
    (r.processPath.isEmpty || q.program.any r.processPath.contains)

/-- One DNS rule at a question. -/
def tunDnsRule (r : TunDnsRule) (q : Question) : Ruling Question TunDnsAction :=
  if r.matched t q then .ends r.action else .passes q

/-- One route rule at a connection. -/
def tunRouteRule : TunRouteRule → TunConnection Addr → Ruling (TunConnection Addr) Verdict
  | .of rule, c =>
      match t.routeRule rule c.connection with
      | .ends verdict => .ends verdict
      | .passes connection => .passes { c with connection }
  | .program processPath outbound, c =>
      if c.inbound = .tunIn ∧ c.program.any processPath.contains then .ends (.to outbound)
      else .passes c

/-- What a question that the tun takes is answered with. -/
def TunConfig.answer (config : TunConfig) (q : Question) : TunDnsAction :=
  firstMatch (tunDnsRule t) (.of (.server config.dns.final)) config.dns.rules q

/-- Where a connection goes. -/
def TunConfig.goes (config : TunConfig) (inbound : Inbound) (d : Destination Addr) (port : Nat)
    (program : Option Text) : Verdict :=
  firstMatch (tunRouteRule t) (.to config.route.final) config.route.rules
    { connection := { destination := d, port := port }, inbound := inbound, program := program }

/-- What becomes of a question sent into the tun: the tun answers it, or it goes on to the resolver
it was sent to. -/
inductive Asked
  | answered (action : TunDnsAction)
  | sent (verdict : Verdict)
  deriving DecidableEq, Repr

def TunConfig.asked (config : TunConfig) (resolver : Addr) (q : Question) : Asked :=
  match config.goes t .tunIn (.address resolver) 53 q.program with
  | .answered => .answered (config.answer t q)
  | verdict => .sent verdict

end Core

/-! ### The DNS rules, part by part -/

section Answers

variable {Addr : Type} (t : Tables Addr) {final : TunDnsAction} (rest : List TunDnsRule)
  (q : Question)

theorem firstMatch_rule (r : TunDnsRule) :
    firstMatch (tunDnsRule t) final (r :: rest) q =
      if r.matched t q then r.action else firstMatch (tunDnsRule t) final rest q := by
  have hrule : tunDnsRule t r q = if r.matched t q then .ends r.action else .passes q := rfl
  exact firstMatch_cons_ite hrule rest

/-- Rules of the other shapes are read as there. -/
theorem matched_shared (r : DnsRule) :
    t.dnsRule r (q.name, q.type) =
      if (shared r).matched t q then .ends r.action else .passes (q.name, q.type) := by
  have hread : (shared r).matched t q = (((r.ruleSet.isEmpty && r.domainSuffix.isEmpty) ||
      Tables.suffixMatches r.domainSuffix (.name q.name : Destination Addr) ||
      t.listMatches r.ruleSet (.name q.name)) &&
        (r.queryType.isEmpty || r.queryType.contains q.type)) := by
    simp [TunDnsRule.matched, shared, Bool.and_comm]
  rw [hread]
  rfl

theorem firstMatch_shared {rest : List TunDnsRule} {action : DnsAction}
    (hrest : firstMatch (tunDnsRule t) final rest q = .of action) (policy : List DnsRule) :
    firstMatch (tunDnsRule t) final (policy.map shared ++ rest) q =
      .of (firstMatch t.dnsRule action policy (q.name, q.type)) := by
  have hkeep : ∀ r s s', tunDnsRule t r s = .passes s' → s' = s := by
    intro r s s' h
    unfold tunDnsRule at h
    split at h
    · cases h
    · cases h
      rfl
  rw [firstMatch_append hkeep, hrest]
  exact firstMatch_map (fun r _ => matched_shared t q r) (fun _ _ => rfl)

/-- The probe's two rules: the program it is for, and everybody else. -/
theorem firstMatch_probe (program : Text) :
    firstMatch (tunDnsRule t) final (addNamesProgramsProbe program ++ rest) q =
      if q.name = namesProgramsProbe then
        (if q.program = some program then probeRecord else noSuchName)
      else firstMatch (tunDnsRule t) final rest q := by
  simp only [addNamesProgramsProbe, List.cons_append, List.nil_append, firstMatch_rule]
  have hname : ([namesProgramsProbe].contains q.name) = decide (q.name = namesProgramsProbe) := by
    simp
  have hprogram : (q.program.any [program].contains) = decide (q.program = some program) := by
    cases q.program <;> simp
  simp only [TunDnsRule.matched, hname, hprogram, Tables.suffixMatches, Tables.listMatches,
    List.any_nil, List.isEmpty_cons, List.isEmpty_nil, Bool.false_and, Bool.or_false, Bool.false_or,
    Bool.true_or, Bool.and_true, decide_eq_true_eq, Bool.and_eq_true]
  by_cases h : q.name = namesProgramsProbe
  · simp [h]
  · simp [h]

/-- Rules that may not be there. -/
theorem firstMatch_optional {b : Bool} {rules : List TunDnsRule} {p : Prop} [Decidable p]
    {action : TunDnsAction}
    (hrules : b = true → firstMatch (tunDnsRule t) final (rules ++ rest) q =
      if p then action else firstMatch (tunDnsRule t) final rest q) :
    firstMatch (tunDnsRule t) final ((if b then rules else []) ++ rest) q =
      if b = true ∧ p then action else firstMatch (tunDnsRule t) final rest q := by
  cases b with
  | false => simp
  | true => simpa using hrules rfl

/-- A name of the local network. -/
def isLocalName (name : Text) : Bool :=
  (localSuffixes.any fun suffix => hasDomainSuffix suffix name) || isDotless name

/-- A name in the zone the tun answers itself. -/
def isResolverName (name : Text) : Bool :=
  hasDomainSuffix (txt "resolver.arpa") name

theorem firstMatch_programs (processPath : List Text) (hpaths : processPath ≠ [])
    (action : TunDnsAction) :
    firstMatch (tunDnsRule t) final ([{ processPath := processPath, action := action }] ++ rest) q =
      if q.program.any processPath.contains = true then action
      else firstMatch (tunDnsRule t) final rest q := by
  rw [List.singleton_append, firstMatch_rule]
  simp [TunDnsRule.matched, hpaths]

theorem firstMatch_domain (domain : List Text) (hdomain : domain ≠ []) (action : TunDnsAction) :
    firstMatch (tunDnsRule t) final ([{ domain := domain, action := action }] ++ rest) q =
      if q.name ∈ domain then action else firstMatch (tunDnsRule t) final rest q := by
  rw [List.singleton_append, firstMatch_rule]
  simp [TunDnsRule.matched, hdomain, Tables.suffixMatches, Tables.listMatches]

theorem firstMatch_noResolver :
    firstMatch (tunDnsRule t) final (addNoResolverOfItsOwn ++ rest) q =
      if isResolverName q.name = true then noData else firstMatch (tunDnsRule t) final rest q := by
  rw [addNoResolverOfItsOwn, List.singleton_append, firstMatch_rule]
  have hread : TunDnsRule.matched t { domainSuffix := [txt "resolver.arpa"], action := noData } q =
      isResolverName q.name := by
    simp [TunDnsRule.matched, isResolverName, Tables.suffixMatches, Tables.listMatches]
  rw [hread]

theorem firstMatch_localNames :
    firstMatch (tunDnsRule t) final (addLocalNetworkNames ++ rest) q =
      if isLocalName q.name = true then .of (.server .direct)
      else firstMatch (tunDnsRule t) final rest q := by
  rw [addLocalNetworkNames, List.singleton_append, firstMatch_rule]
  have hsuffixes : localSuffixes.isEmpty = false := rfl
  simp [TunDnsRule.matched, isLocalName, hsuffixes, Tables.suffixMatches, Tables.listMatches]

end Answers

/-! ### What an answer is for -/

/-- Whether a program is one of the lines' binaries. -/
def TunOptions.isLine (o : TunOptions) (program : Option Text) : Bool :=
  program.any o.bypassProcessPaths.contains

/-- The name only the probe asks for, where the config has it. -/
def TunOptions.isProbe (o : TunOptions) (name : Text) : Bool :=
  o.namesProgramsFor.isSome && name == namesProgramsProbe

section Sides

variable {Addr : Type} (t : Tables Addr)

/-- The policy's lists have the destination, or an address that a name among it was resolved to. -/
def listed (policy : Policy) (d : Destination Addr) : Bool :=
  match policy with
  | .tunnel => false
  | .bypass region => ((RuleSets.regional region).getD []).any fun file => t.onList file.tag d
  | .blockedOnly =>
      (RuleSets.blocked.any fun file => t.onList file.tag d) ||
        match d with
        | .name name => (t.lookup name).any fun a => t.onList RuleSets.blockedIps.tag (.address a)
        | .address _ => false

/-- Where the policy's lists send what they have. -/
def listOutbound : Policy → Outbound
  | .bypass _ => .direct
  | _ => .out

/-- The side a name is resolved on that the tun has no rule of its own for. -/
def TunOptions.nameSide (o : TunOptions) (name : Text) : Outbound :=
  match o.routing with
  | none => if !o.answersDns || (o.answersEveryName && isLocalName name) then .direct else .out
  | some bypass =>
      if covered t bypass.custom.tunnel (.name name) then .out
      else if covered t bypass.custom.direct (.name name) then .direct
      else if listed t.unresolved bypass.policy (.name name) then listOutbound bypass.policy
      else if o.answersEveryName && isLocalName name then .direct
      else finalOutbound bypass

/-- What becomes of an address or a name that no list has. -/
def ending (outbound : Outbound) : Destination Addr → Verdict
  | .name _ => .to outbound
  | .address a => if t.isIpv6 a then .rejected else .to outbound

/-- Where a connection goes that no line's program opened. -/
def TunOptions.sends (o : TunOptions) (d : Destination Addr) : Verdict :=
  match o.routing with
  | none => ending t .out d
  | some bypass =>
      if t.privateTarget d then .to .direct
      else if covered t bypass.custom.direct d then .to .direct
      else if covered t bypass.custom.tunnel d then .to .out
      else if listed t bypass.policy d then .to (listOutbound bypass.policy)
      else ending t (finalOutbound bypass) d

/-- The policy's DNS rules, with anything behind them. -/
theorem firstMatch_policyNames {t : Tables Addr} (hlists : AddressListsHoldNoNames t)
    {bypass : Rules} {fakeTunnelNames : Bool} {rules : List DnsRule}
    (hrules : addPolicyDnsRules bypass fakeTunnelNames = some rules) (final : DnsAction)
    (name : Text) (type : QueryType) :
    firstMatch t.dnsRule final rules (name, type) =
      if covered t bypass.custom.tunnel (.name name) then tunnelAnswer fakeTunnelNames type
      else if covered t bypass.custom.direct (.name name) then .server .direct
      else if listed t.unresolved bypass.policy (.name name) then
        answerFor fakeTunnelNames type (listOutbound bypass.policy)
      else final := by
  obtain ⟨lists, hpolicy, rfl⟩ := Option.map_eq_some_iff.mp hrules
  have hnames : ∀ user : List RoutingRule,
      nameMatches t name [] (domains user) = covered t user (.name name) := by
    intro user
    simp only [covered_name, nameMatches, Tables.listMatches, List.any_nil, Bool.or_false]
  have hpart : firstMatch t.dnsRule final lists (name, type) =
      if listed t.unresolved bypass.policy (.name name) then
        answerFor fakeTunnelNames type (listOutbound bypass.policy)
      else final := by
    obtain ⟨policy, custom⟩ := bypass
    cases policy with
    | tunnel =>
        obtain rfl := Option.some.inj hpolicy
        simp [listed]
    | bypass region =>
        simp only [policyDnsRules, RuleSets.regionalDomains, Option.map_map] at hpolicy
        obtain ⟨files, hfiles, rfl⟩ := Option.map_eq_some_iff.mp hpolicy
        have hread := @firstMatch_direct _ t final [] name type (((files.filter fun file =>
          startsWith file.name (txt "geosite-")).map (·.tag))) []
        rw [List.append_nil] at hread
        rw [Function.comp_apply, hread]
        have hon := onRegional_eq hlists hfiles name
        simp only [listed, Tables.unresolved, hfiles, Option.getD_some, nameMatches,
          Tables.suffixMatches, List.any_nil, Bool.false_or, Tables.listMatches, List.any_map,
          Function.comp_def, hon]
        rfl
    | blockedOnly =>
        obtain rfl := Option.some.inj hpolicy
        have hread := @firstMatch_tunnel _ t final [] name type [RuleSets.blockedDomains.tag] []
          fakeTunnelNames
        rw [List.append_nil] at hread
        rw [hread]
        have hips := hlists RuleSets.blockedIps (by decide) name
        simp only [listed, Tables.unresolved, nameMatches, Tables.suffixMatches, Tables.listMatches,
          RuleSets.blocked, List.any_cons, List.any_nil, Bool.or_false, Bool.false_or, hips]
        rfl
  rw [firstMatch_tunnel, firstMatch_direct, hnames, hnames, hpart]

/-- The policy's route rules, with anything behind them that looks at the destination alone. -/
theorem firstMatch_policyRoute {bypass : Rules} {lists rest : List RouteRule} {final ends : Verdict}
    (hlists : policyRouteRules bypass.policy = some lists) {d : Destination Addr}
    (htail : ∀ c : Connection Addr, c.destination = d → firstMatch t.routeRule final rest c = ends)
    (port : Nat) :
    firstMatch t.routeRule final (lists ++ rest) { destination := d, port := port } =
      if listed t bypass.policy d then .to (listOutbound bypass.policy) else ends := by
  obtain ⟨policy, custom⟩ := bypass
  cases policy with
  | tunnel =>
      obtain rfl := Option.some.inj hlists
      rw [List.nil_append, htail _ rfl]
      simp [listed]
  | bypass region =>
      obtain ⟨files, hfiles, rfl⟩ := Option.map_eq_some_iff.mp hlists
      rw [List.singleton_append, firstMatch_lists, htail _ rfl]
      simp only [listed, listOutbound, hfiles, Option.getD_some, Connection.targets, List.map_nil,
        List.any_cons, List.any_nil, Bool.or_false, Tables.listMatches, List.any_map,
        Function.comp_def]
  | blockedOnly =>
      obtain rfl := Option.some.inj hlists
      simp only [List.cons_append, List.nil_append]
      rw [firstMatch_lists]
      -- the name is resolved between the two lists, so the second sees its addresses
      cases d with
      | name name =>
          rw [firstMatch_cons_passes rfl, firstMatch_lists, htail _ rfl]
          simp only [listed, listOutbound, Connection.targets, List.map_nil, List.any_cons,
            List.any_nil, Bool.or_false, Tables.listMatches, List.any_map, Function.comp_def,
            RuleSets.blocked]
          cases t.onList RuleSets.blockedDomains.tag (.name name) <;>
            cases t.onList RuleSets.blockedIps.tag (.name name) <;>
            cases (t.lookup name).any fun a => t.onList RuleSets.blockedIps.tag (.address a) <;> rfl
      | address a =>
          rw [firstMatch_cons_passes rfl, firstMatch_lists, htail _ rfl]
          simp only [listed, listOutbound, Connection.targets, List.map_nil, List.any_cons,
            List.any_nil, Bool.or_false, Tables.listMatches, RuleSets.blocked]
          cases t.onList RuleSets.blockedDomains.tag (.address a) <;>
            cases t.onList RuleSets.blockedIps.tag (.address a) <;> rfl

/-- The last rule, which refuses IPv6. -/
theorem firstMatch_ending (outbound : Outbound) {d : Destination Addr} (c : Connection Addr)
    (hc : c.destination = d) :
    firstMatch t.routeRule (.to outbound) [.rejectIpVersion 6] c = ending t outbound d := by
  subst hc
  cases hd : c.destination with
  | name name =>
      have hpass : t.routeRule (.rejectIpVersion 6) c = .passes c := by
        simp only [Tables.routeRule, hd]
      rw [firstMatch_cons_passes hpass]
      rfl
  | address a =>
      have hrule : t.routeRule (.rejectIpVersion 6) c =
          if t.isIpv6 a = true then .ends .rejected else .passes c := by
        cases h6 : t.isIpv6 a <;> simp [Tables.routeRule, hd, h6]
      rw [firstMatch_cons_ite hrule]
      rfl

end Sides

/-! ### The two lists, read -/

section Read

variable {Addr : Type} {t : Tables Addr} {o : TunOptions} {config : TunConfig}

/-- What the builder made of its options. -/
theorem buildDesktopTun_eq_some (h : buildDesktopTun o = some config) :
    o.accepted = true ∧
      ((o.routing = none ∧ config =
          { dns := ⟨tunDnsRules o [], if o.answersDns then .remote else .direct⟩
            route := ⟨tunRouteRules o [], .out⟩ }) ∨
        ∃ bypass dns route, o.routing = some bypass ∧ addPolicyDnsRules bypass true = some dns ∧
          addPolicyRouteRules bypass = some route ∧ config =
            { dns := ⟨tunDnsRules o dns, finalDns bypass⟩
              route := ⟨tunRouteRules o route, finalOutbound bypass⟩ }) := by
  unfold buildDesktopTun at h
  split at h
  · rename_i haccepted
    refine ⟨haccepted, ?_⟩
    split at h
    · rename_i hrouting
      exact .inl ⟨hrouting, (Option.some.inj h).symm⟩
    · rename_i bypass hrouting
      obtain ⟨dns, hdns, h⟩ := Option.bind_eq_some_iff.mp h
      obtain ⟨route, hroute, h⟩ := Option.bind_eq_some_iff.mp h
      exact .inr ⟨bypass, dns, route, hrouting, hdns, hroute, (Option.some.inj h).symm⟩
  · cases h

/-- The tun's own DNS rules, in front of the policy's. -/
theorem firstMatch_opening (final : TunDnsAction) (policy : List DnsRule) (q : Question) :
    firstMatch (tunDnsRule t) final (tunDnsRules o policy) q =
      if o.isProbe q.name then (if q.program = o.namesProgramsFor then probeRecord else noSuchName)
      else if o.answersEveryName && o.isLine q.program then .of (.server .direct)
      else if q.name ∈ o.directDnsDomains then .of (.server .direct)
      else if o.answersDns && isResolverName q.name then noData
      else firstMatch (tunDnsRule t) final (policy.map shared ++
        ((if o.answersEveryName then addLocalNetworkNames else []) ++
        (if o.answersDns && (o.routing.map (·.policy) != some .blockedOnly) then
          addFakeIpRules.map shared
          else []))) q := by
  have hprobe : ∀ rest, firstMatch (tunDnsRule t) final ((match o.namesProgramsFor with
      | some program => addNamesProgramsProbe program
      | none => []) ++ rest) q =
      if o.isProbe q.name then (if q.program = o.namesProgramsFor then probeRecord else noSuchName)
      else firstMatch (tunDnsRule t) final rest q := by
    intro rest
    unfold TunOptions.isProbe
    cases o.namesProgramsFor with
    | none => simp
    | some program => simp [firstMatch_probe]
  have hline : ∀ rest, firstMatch (tunDnsRule t) final
      ((if o.answersEveryName && !o.bypassProcessPaths.isEmpty then
        [{ processPath := o.bypassProcessPaths, action := .of (.server .direct) }] else []) ++
          rest) q =
      if o.answersEveryName && o.isLine q.program then .of (.server .direct)
      else firstMatch (tunDnsRule t) final rest q := by
    intro rest
    by_cases hpaths : o.bypassProcessPaths = []
    · have hnobody : o.isLine q.program = false := by
        cases q.program <;> simp [TunOptions.isLine, hpaths]
      simp [hnobody, hpaths]
    · have hthere : (o.answersEveryName && !o.bypassProcessPaths.isEmpty) = o.answersEveryName := by
        simp [hpaths]
      rw [hthere, firstMatch_optional t rest q (fun _ => firstMatch_programs t rest q _ hpaths _)]
      simp [TunOptions.isLine]
  have hdomain : ∀ rest, firstMatch (tunDnsRule t) final
      ((if !o.directDnsDomains.isEmpty then
        [{ domain := o.directDnsDomains, action := .of (.server .direct) }] else []) ++ rest) q =
      if q.name ∈ o.directDnsDomains then .of (.server .direct)
      else firstMatch (tunDnsRule t) final rest q := by
    intro rest
    by_cases hnone : o.directDnsDomains = []
    · simp [hnone]
    · have hthere : (!o.directDnsDomains.isEmpty) = true := by simp [hnone]
      rw [hthere, if_pos rfl, firstMatch_domain t rest q _ hnone]
  have hzone : ∀ rest, firstMatch (tunDnsRule t) final
      ((if o.answersDns then addNoResolverOfItsOwn else []) ++ rest) q =
      if o.answersDns && isResolverName q.name then noData
      else firstMatch (tunDnsRule t) final rest q := by
    intro rest
    rw [firstMatch_optional t rest q (fun _ => firstMatch_noResolver t rest q)]
    simp
  unfold tunDnsRules
  rw [hprobe, hline, hdomain, hzone]

/-- A fake address for every name, where it is asked for one. -/
theorem firstMatch_fakeIp (q : Question) :
    firstMatch (tunDnsRule t) (.of (.server .remote)) (addFakeIpRules.map shared) q =
      .of (tunnelAnswer true q.type) := by
  obtain ⟨name, type, program⟩ := q
  cases type <;> rfl

theorem answersDns_of_everyName (h : o.answersEveryName = true) : o.answersDns = true := by
  simp [TunOptions.answersDns, h]

theorem answersDns_of_routing {bypass : Rules} (h : o.routing = some bypass) :
    o.answersDns = true := by
  simp [TunOptions.answersDns, h]

/-- The side of every name that no rule has. -/
def TunOptions.finalSide (o : TunOptions) : Outbound :=
  match o.routing with
  | none => if o.answersDns then .out else .direct
  | some bypass => finalOutbound bypass

/-- `dns.final`. -/
def TunOptions.finalServer (o : TunOptions) : DnsServer :=
  match o.routing with
  | none => if o.answersDns then .remote else .direct
  | some bypass => finalDns bypass

/-- The rules behind the policy's answer the local network's names underneath, and every other name
as the final clause's side is. -/
theorem firstMatch_closing (q : Question) :
    firstMatch (tunDnsRule t) (.of (.server o.finalServer))
        ((if o.answersEveryName then addLocalNetworkNames else []) ++
          (if o.answersDns && (o.routing.map (·.policy) != some .blockedOnly) then
            addFakeIpRules.map shared
            else [])) q =
      .of (answerFor true q.type (if o.answersEveryName && isLocalName q.name then .direct
        else o.finalSide)) := by
  have hfakes : firstMatch (tunDnsRule t) (.of (.server o.finalServer))
      (if o.answersDns && (o.routing.map (·.policy) != some .blockedOnly) then
        addFakeIpRules.map shared
        else []) q = .of (answerFor true q.type o.finalSide) := by
    unfold TunOptions.finalServer TunOptions.finalSide
    cases hrouting : o.routing with
    | none =>
        cases hdns : o.answersDns with
        | true => exact firstMatch_fakeIp q
        | false => rfl
    | some bypass =>
        by_cases hpolicy : bypass.policy = .blockedOnly
        · simp [answersDns_of_routing hrouting, hpolicy, finalDns, finalOutbound, answerFor]
        · simp only [answersDns_of_routing hrouting, Option.map_some, Bool.true_and, bne_iff_ne,
            ne_eq, Option.some.injEq, hpolicy, not_false_eq_true, if_true, finalDns, finalOutbound,
            if_false]
          exact firstMatch_fakeIp q
  rw [firstMatch_optional t _ q (fun _ => firstMatch_localNames t _ q), hfakes]
  cases o.answersEveryName <;> cases isLocalName q.name <;> rfl

/-- **The DNS rules.** What a question is answered with. -/
theorem answer_eq (h : buildDesktopTun o = some config) (hlists : AddressListsHoldNoNames t)
    (q : Question) :
    config.answer t q =
      if o.isProbe q.name then (if q.program = o.namesProgramsFor then probeRecord else noSuchName)
      else if o.answersEveryName && o.isLine q.program then .of (.server .direct)
      else if q.name ∈ o.directDnsDomains then .of (.server .direct)
      else if o.answersDns && isResolverName q.name then noData
      else .of (answerFor true q.type (o.nameSide t q.name)) := by
  have hclosing := firstMatch_closing (t := t) (o := o) q
  unfold TunOptions.nameSide
  obtain ⟨-, ⟨hrouting, rfl⟩ | ⟨bypass, dns, route, hrouting, hdns, hroute, rfl⟩⟩ :=
    buildDesktopTun_eq_some h
  · have hfinal : o.finalServer = if o.answersDns then .remote else .direct := by
      simp only [TunOptions.finalServer, hrouting]
    rw [TunConfig.answer, ← hfinal, firstMatch_opening, List.map_nil, List.nil_append, hclosing]
    simp only [TunOptions.finalSide, hrouting]
    cases hanswers : o.answersDns with
    | true => cases o.answersEveryName && isLocalName q.name <;> rfl
    | false => cases o.answersEveryName && isLocalName q.name <;> rfl
  · have hfinal : o.finalServer = finalDns bypass := by
      simp only [TunOptions.finalServer, hrouting]
    rw [TunConfig.answer, ← hfinal, firstMatch_opening, firstMatch_shared t q hclosing,
      firstMatch_policyNames hlists hdns]
    simp only [TunOptions.finalSide, hrouting]
    cases covered t bypass.custom.tunnel (.name q.name) with
    | true => rfl
    | false =>
        cases covered t bypass.custom.direct (.name q.name) with
        | true => rfl
        | false =>
            cases listed t.unresolved bypass.policy (.name q.name) with
            | true => rfl
            | false => rfl

/-- Rules of the other shapes are read as there. -/
theorem firstMatch_of (final : Verdict) (rules : List RouteRule) (c : TunConnection Addr) :
    firstMatch (tunRouteRule t) final (rules.map .of) c =
      firstMatch t.routeRule final rules c.connection := by
  induction rules generalizing c with
  | nil => rfl
  | cons rule rules ih =>
      cases hrule : t.routeRule rule c.connection with
      | ends verdict =>
          have hends : tunRouteRule t (.of rule) c = .ends verdict := by
            simp only [tunRouteRule, hrule]
          rw [List.map_cons, firstMatch_cons_ends hends, firstMatch_cons_ends hrule]
      | passes connection =>
          have hpasses : tunRouteRule t (.of rule) c =
              .passes { c with connection := connection } := by
            simp only [tunRouteRule, hrule]
          rw [List.map_cons, firstMatch_cons_passes hpasses, firstMatch_cons_passes hrule, ih]

/-- The rule that lets the lines' binaries out, where it is. -/
theorem firstMatch_letTheLinesOut (final : Verdict) (b : Bool) (rest : List TunRouteRule)
    (c : TunConnection Addr) :
    firstMatch (tunRouteRule t) final ((if b then letTheLinesOut o else []) ++ rest) c =
      if b = true ∧ c.inbound = .tunIn ∧ o.isLine c.program then .to .direct
      else firstMatch (tunRouteRule t) final rest c := by
  cases b with
  | false => simp
  | true =>
      by_cases hpaths : o.bypassProcessPaths = []
      · have hnobody : o.isLine c.program = false := by
          cases c.program <;> simp [TunOptions.isLine, hpaths]
        simp [letTheLinesOut, hpaths, hnobody]
      · have hrule : tunRouteRule t (.program o.bypassProcessPaths .direct) c =
            if c.inbound = .tunIn ∧ o.isLine c.program then .ends (.to .direct)
            else .passes c := rfl
        simp only [letTheLinesOut, List.isEmpty_iff, hpaths, if_true, if_false,
          List.singleton_append, true_and]
        exact firstMatch_cons_ite hrule rest

/-- The tun's own route rules, in front of the policy's. -/
theorem goes_opening (final : Verdict) (policy : List RouteRule) (inbound : Inbound)
    (d : Destination Addr) (port : Nat) (program : Option Text) :
    firstMatch (tunRouteRule t) final (tunRouteRules o policy)
        { connection := { destination := d, port := port }, inbound := inbound,
          program := program } =
      if inbound = .tunIn ∧ o.isLine program ∧ ¬ (o.answersEveryName ∧ port = 53) then .to .direct
      else if o.answersDns ∧ port = 53 then .answered
      else firstMatch t.routeRule final (policy ++ [.rejectIpVersion 6])
        { destination := d, port := port } := by
  have hhijack : ∀ rest, firstMatch (tunRouteRule t) final
      ((if o.answersDns then [.of .sniff, .of (.hijackDns 53)] else []) ++ rest)
      { connection := { destination := d, port := port }, inbound := inbound, program := program } =
      if o.answersDns ∧ port = 53 then .answered
      else firstMatch (tunRouteRule t) final rest
        { connection := { destination := d, port := port }, inbound := inbound,
          program := program } := by
    intro rest
    cases o.answersDns with
    | false => simp
    | true =>
        simp only [if_true, true_and, List.cons_append, List.nil_append]
        rw [firstMatch_cons_passes rfl]
        apply firstMatch_cons_ite
        by_cases hport : port = 53
        · simp [tunRouteRule, Tables.routeRule, hport]
        · simp [tunRouteRule, Tables.routeRule, hport]
  have hpolicy : policy.map TunRouteRule.of ++ [.of (.rejectIpVersion 6)] =
      (policy ++ [RouteRule.rejectIpVersion 6]).map TunRouteRule.of := by simp
  unfold tunRouteRules
  rw [hpolicy, firstMatch_letTheLinesOut, hhijack, firstMatch_letTheLinesOut, firstMatch_of]
  cases heveryName : o.answersEveryName with
  | false => simp
  | true =>
      have hdns := answersDns_of_everyName heveryName
      by_cases hport : port = 53
      · simp [hdns, hport]
      · simp [hport]

/-- **The route rules.** Where a connection goes. -/
theorem goes_eq (h : buildDesktopTun o = some config) (inbound : Inbound) (d : Destination Addr)
    (port : Nat) (program : Option Text) :
    config.goes t inbound d port program =
      if inbound = .tunIn ∧ o.isLine program ∧ ¬ (o.answersEveryName ∧ port = 53) then .to .direct
      else if o.answersDns ∧ port = 53 then .answered
      else o.sends t d := by
  unfold TunOptions.sends
  obtain ⟨-, ⟨hrouting, rfl⟩ | ⟨bypass, dns, route, hrouting, hdns, hroute, rfl⟩⟩ :=
    buildDesktopTun_eq_some h
  · rw [TunConfig.goes, goes_opening, List.nil_append, firstMatch_ending t .out _ rfl]
    simp only [hrouting]
  · obtain ⟨lists, hlists, rfl⟩ := Option.map_eq_some_iff.mp hroute
    rw [TunConfig.goes, goes_opening]
    simp only [List.cons_append, List.append_assoc, hrouting]
    rw [firstMatch_private, firstMatch_custom, firstMatch_custom,
      firstMatch_policyRoute t hlists (fun c hc => firstMatch_ending t _ c hc)]

end Read

/-! ### What the tun is for -/

section Sides

variable {Addr : Type}

/-- Asked of the network underneath, by the tun or by whoever asks. -/
def Asked.underneath (asked : Asked) : Prop :=
  asked = .answered (.of (.server .direct)) ∨ asked = .sent (.to .direct)

/-- Asked through the tunnel, or answered for it. -/
def Asked.through (asked : Asked) (type : QueryType) : Prop :=
  (∃ action, asked = .answered (.of action) ∧ TunnelSide action type) ∨ asked = .sent (.to .out)

variable (t : Tables Addr) {o : TunOptions} {config : TunConfig}

/-- The questions that the tun takes, and those that go on to their resolver. -/
theorem asked_eq (h : buildDesktopTun o = some config) (resolver : Addr) (q : Question) :
    config.asked t resolver q =
      if o.isLine q.program && !o.answersEveryName then .sent (.to .direct)
      else if o.answersDns then .answered (config.answer t q)
      else .sent (ending t .out (.address resolver)) := by
  unfold TunConfig.asked
  rw [goes_eq h]
  cases hline : o.isLine q.program && !o.answersEveryName with
  | true =>
      obtain ⟨hline, hnot⟩ : o.isLine q.program = true ∧ o.answersEveryName = false := by
        simpa using hline
      simp [hline, hnot]
  | false =>
      have hpass : ¬ (o.isLine q.program = true ∧
          ¬ (o.answersEveryName = true ∧ (53 : Nat) = 53)) := by
        simpa using hline
      rw [if_neg (fun hboth => hpass hboth.2)]
      cases hdns : o.answersDns with
      | true => simp
      | false =>
          -- nothing is answered here, so no rules are on
          have hrouting : o.routing = none := by
            cases hrouting : o.routing with
            | none => rfl
            | some bypass => rw [answersDns_of_routing hrouting] at hdns; cases hdns
          simp only [TunOptions.sends, hrouting, Bool.false_eq_true, false_and, if_false, ending]
          cases t.isIpv6 resolver <;> rfl

/-- The names that the tun's own rules answer. -/
theorem answer_opening (h : buildDesktopTun o = some config) (q : Question) : ∃ others,
    config.answer t q =
      if o.isProbe q.name then (if q.program = o.namesProgramsFor then probeRecord else noSuchName)
      else if o.answersEveryName && o.isLine q.program then .of (.server .direct)
      else if q.name ∈ o.directDnsDomains then .of (.server .direct)
      else others := by
  obtain ⟨-, ⟨hrouting, rfl⟩ | ⟨bypass, dns, route, hrouting, hdns, hroute, rfl⟩⟩ :=
    buildDesktopTun_eq_some h
  · exact ⟨_, firstMatch_opening _ _ q⟩
  · exact ⟨_, firstMatch_opening _ _ q⟩

/-- **The tunnel does not carry its own line.** Whatever the policy, what a line's program sends
into the tun leaves by the physical interface, and what it asks for, all but the probe's name, is
asked of the network underneath; so is the server's own name, whoever asks for it, wherever the tun
answers. -/
theorem line_stays_outside (h : buildDesktopTun o = some config) {program : Text}
    (hline : program ∈ o.bypassProcessPaths) :
    (∀ d port, config.goes t .tunIn d port (some program) =
        if o.answersEveryName ∧ port = 53 then .answered else .to .direct) ∧
      (∀ resolver name type, (o.answersEveryName && o.isProbe name) = false →
        (config.asked t resolver ⟨name, type, some program⟩).underneath) ∧
      ∀ resolver q, o.answersDns = true → q.name ∈ o.directDnsDomains → o.isProbe q.name = false →
        (config.asked t resolver q).underneath := by
  have hline : o.isLine (some program) = true := by simpa [TunOptions.isLine] using hline
  refine ⟨?_, ?_, ?_⟩
  · intro d port
    rw [goes_eq h, hline]
    by_cases hquestion : o.answersEveryName = true ∧ port = 53
    · rw [if_neg (fun hgone => hgone.2.2 hquestion), if_pos hquestion,
        if_pos ⟨answersDns_of_everyName hquestion.1, hquestion.2⟩]
    · rw [if_pos ⟨rfl, rfl, hquestion⟩, if_neg hquestion]
  · intro resolver name type hprobe
    rw [asked_eq t h, hline]
    cases heveryName : o.answersEveryName with
    | false => exact .inr rfl
    | true =>
        obtain ⟨others, hanswer⟩ := answer_opening t h ⟨name, type, some program⟩
        rw [heveryName, Bool.true_and] at hprobe
        rw [hprobe, heveryName, hline] at hanswer
        rw [answersDns_of_everyName heveryName, hanswer]
        exact .inl rfl
  · intro resolver q hdns hname hprobe
    rw [asked_eq t h, hdns]
    cases o.isLine q.program && !o.answersEveryName with
    | true => exact .inr rfl
    | false =>
        obtain ⟨others, hanswer⟩ := answer_opening t h q
        rw [hprobe, if_pos hname, ite_self] at hanswer
        rw [hanswer]
        exact .inl rfl

/-- A tun on macOS in front of a line that dials for itself. -/
def besideEngine : TunOptions :=
  { bypassProcessPaths := [txt "/opt/ghostlane/olcrtc"], answersEveryName := true
    directDnsDomains := [txt "meet.example.org"] }

theorem line_stays_outside_engine : ∃ config, buildDesktopTun besideEngine = some config ∧
    config.goes everyNameListed .tunIn (.name (txt "meet.example.org")) 443
      (some (txt "/opt/ghostlane/olcrtc")) =
      .to .direct := by
  refine ⟨_, rfl, ?_⟩
  exact (@line_stays_outside _ everyNameListed besideEngine _ rfl (txt "/opt/ghostlane/olcrtc")
    (by decide)).1 (.name (txt "meet.example.org")) 443

/-! An answer lies on one of the two sides, or is the tun's own. -/

@[simp]
theorem underneath_answerFor (type : QueryType) (side : Outbound) :
    (Asked.answered (.of (answerFor true type side))).underneath ↔ side = .direct := by
  have hanswer := tunnelAnswer_ne_direct true type
  cases side <;> simp [Asked.underneath, answerFor, hanswer]

@[simp]
theorem through_answerFor (type : QueryType) (side : Outbound) :
    (Asked.answered (.of (answerFor true type side))).through type ↔ side = .out := by
  have htunnel := tunnelSide_tunnelAnswer true type
  cases side <;> simp [Asked.through, answerFor, htunnel, not_tunnelSide_direct]

@[simp]
theorem underneath_direct : (Asked.answered (.of (.server .direct))).underneath := .inl rfl

@[simp]
theorem not_through_direct (type : QueryType) :
    ¬ (Asked.answered (.of (.server .direct))).through type := by
  simp [Asked.through, not_tunnelSide_direct]

@[simp]
theorem not_underneath_predefined (rcode : Text) (answer : List Text) :
    ¬ (Asked.answered (.predefined rcode answer)).underneath := by
  simp [Asked.underneath]

@[simp]
theorem not_through_predefined (rcode : Text) (answer : List Text) (type : QueryType) :
    ¬ (Asked.answered (.predefined rcode answer)).through type := by
  simp [Asked.through]

/-- **Which names leave the tunnel.** A question is asked of the network underneath exactly where a
line's program asks it, or it is for the server's own name, or for a name that the user's rules, the
policy's lists or the local network have there; and through the tunnel exactly where they have it on
the other side. Whoever the resolver is, it decides nothing unless the tun answers no name at
all. -/
theorem asked_sides (hlists : AddressListsHoldNoNames t) (h : buildDesktopTun o = some config)
    (resolver : Addr) (q : Question) :
    ((config.asked t resolver q).underneath ↔
        if o.isLine q.program then ¬ (o.answersEveryName ∧ o.isProbe q.name)
        else o.answersDns ∧ ¬ o.isProbe q.name ∧
          (q.name ∈ o.directDnsDomains ∨
            (¬ isResolverName q.name ∧ o.nameSide t q.name = .direct))) ∧
      ((config.asked t resolver q).through q.type ↔
        ¬ o.isLine q.program ∧
          if o.answersDns then ¬ o.isProbe q.name ∧ q.name ∉ o.directDnsDomains ∧
            ¬ isResolverName q.name ∧ o.nameSide t q.name = .out
          else ¬ t.isIpv6 resolver) := by
  rw [asked_eq t h, answer_eq h hlists]
  cases hline : o.isLine q.program with
  | true =>
      cases heveryName : o.answersEveryName with
      | false => simp [Asked.underneath, Asked.through]
      | true =>
          rw [answersDns_of_everyName heveryName]
          cases hprobe : o.isProbe q.name with
          | true =>
              by_cases hasked : q.program = o.namesProgramsFor
              · simp [hasked, probeRecord]
              · simp [hasked, noSuchName]
          | false => simp
  | false =>
      cases hdns : o.answersDns with
      | false =>
          cases h6 : t.isIpv6 resolver <;> simp [Asked.underneath, Asked.through, ending, h6]
      | true =>
          cases hprobe : o.isProbe q.name with
          | true =>
              by_cases hasked : q.program = o.namesProgramsFor
              · simp [hasked, probeRecord]
              · simp [hasked, noSuchName]
          | false =>
              by_cases hdirect : q.name ∈ o.directDnsDomains
              · simp [hdirect]
              · cases hzone : isResolverName q.name with
                | true => simp [hdirect, noData]
                | false => simp [hdirect]

/-- The side a connection to a name goes to before anything resolved it. -/
def TunOptions.nameGoes (o : TunOptions) (name : Text) : Outbound :=
  match o.routing with
  | none => .out
  | some bypass =>
      if covered t bypass.custom.direct (.name name) then .direct
      else if covered t bypass.custom.tunnel (.name name) then .out
      else if listed t.unresolved bypass.policy (.name name) then listOutbound bypass.policy
      else finalOutbound bypass

theorem sends_name (name : Text) : o.sends t.unresolved (.name name) = .to (o.nameGoes t name) := by
  unfold TunOptions.sends TunOptions.nameGoes
  cases o.routing with
  | none => rfl
  | some bypass =>
      have hcovered : ∀ user : List RoutingRule,
          covered t.unresolved user (.name name) = covered t user (.name name) := by
        intro user
        rw [covered_name, covered_name]
      simp only [Tables.privateTarget, Bool.false_eq_true, if_false, hcovered, ending]
      split
      · rfl
      · split
        · rfl
        · split <;> rfl

/-- The two orders of the rules agree on a name, but for two kinds. -/
theorem nameSide_eq_nameGoes_iff {bypass : Rules} (hrules : o.routing = some bypass) (name : Text) :
    o.nameSide t name = o.nameGoes t name ↔
      ¬ (covered t bypass.custom.tunnel (.name name) ∧
        covered t bypass.custom.direct (.name name)) ∧
        ¬ (o.answersEveryName ∧ isLocalName name ∧ bypass.policy ≠ .blockedOnly ∧
          ¬ covered t bypass.custom.tunnel (.name name) ∧
            ¬ covered t bypass.custom.direct (.name name) ∧
          ¬ listed t.unresolved bypass.policy (.name name)) := by
  simp only [TunOptions.nameSide, TunOptions.nameGoes, hrules]
  cases covered t bypass.custom.tunnel (.name name) with
  | true => cases covered t bypass.custom.direct (.name name) <;> simp
  | false =>
      cases covered t bypass.custom.direct (.name name) with
      | true => simp
      | false =>
          cases listed t.unresolved bypass.policy (.name name) with
          | true => simp
          | false =>
              by_cases hpolicy : bypass.policy = .blockedOnly
              · simp [finalOutbound, hpolicy]
              · cases o.answersEveryName <;> cases isLocalName name <;>
                  simp [finalOutbound, hpolicy]

/-- **Names and their connections, in the whole tun.** Under rules, a name that anybody but a line
asks for is resolved on the side its connection goes to, but for five kinds: the probe's, a name of
the zone that the tun keeps to itself, the server's own where its connection would go out, one that
the user has on both lists, and one of the local network's that nothing sends direct. -/
theorem tun_resolved_where_sent_iff (hlists : AddressListsHoldNoNames t)
    (h : buildDesktopTun o = some config) {bypass : Rules} (hrules : o.routing = some bypass)
    (resolver : Addr) (q : Question) (hline : o.isLine q.program = false) {port : Nat}
    (hport : port ≠ 53) (inbound : Inbound) :
    (((config.asked t resolver q).underneath ↔
          config.goes t.unresolved inbound (.name q.name) port q.program = .to .direct) ∧
        ((config.asked t resolver q).through q.type ↔
          config.goes t.unresolved inbound (.name q.name) port q.program = .to .out)) ↔
      ¬ o.isProbe q.name ∧
        if q.name ∈ o.directDnsDomains then o.nameGoes t q.name = .direct
        else ¬ isResolverName q.name ∧
          ¬ (covered t bypass.custom.tunnel (.name q.name) ∧
            covered t bypass.custom.direct (.name q.name)) ∧
          ¬ (o.answersEveryName ∧ isLocalName q.name ∧ bypass.policy ≠ .blockedOnly ∧
            ¬ covered t bypass.custom.tunnel (.name q.name) ∧
              ¬ covered t bypass.custom.direct (.name q.name) ∧
            ¬ listed t.unresolved bypass.policy (.name q.name)) := by
  obtain ⟨hunderneath, hthrough⟩ := asked_sides t hlists h resolver q
  have hdns := answersDns_of_routing hrules
  have hgoes : config.goes t.unresolved inbound (.name q.name) port q.program =
      .to (o.nameGoes t q.name) := by
    rw [goes_eq h, hline]
    simp [hport, sends_name]
  rw [hunderneath, hthrough, hgoes, hline, hdns]
  rw [← nameSide_eq_nameGoes_iff t hrules]
  cases o.isProbe q.name with
  | true => cases o.nameGoes t q.name <;> simp
  | false =>
      by_cases hdirect : q.name ∈ o.directDnsDomains
      · cases o.nameGoes t q.name <;> simp [hdirect]
      · cases isResolverName q.name with
        | true => cases o.nameGoes t q.name <;> simp [hdirect]
        | false => cases o.nameGoes t q.name <;> cases o.nameSide t q.name <;> simp [hdirect]

theorem asked_sides_printer : ∃ config, buildDesktopTun besideEngine = some config ∧
    (config.asked everyNameListed [172, 19, 0, 2] ⟨txt "printer.lan", .a, none⟩).underneath :=
  ⟨_, rfl, (@asked_sides _ everyNameListed besideEngine _ everyNameListed_addressLists rfl
    [172, 19, 0, 2]
    ⟨txt "printer.lan", .a, none⟩).1.mpr (by decide)⟩

/-- The same with a site of a bypassed region sent through the tunnel. -/
def besideEngineUnderRules : TunOptions :=
  { besideEngine with routing := some vkThroughTunnel, bindInterface := some (txt "en0") }

theorem tun_resolved_where_sent_vk :
    ∃ config, buildDesktopTun besideEngineUnderRules = some config ∧
    (config.asked everyNameListed [172, 19, 0, 2] ⟨txt "m.vk.com", .a, none⟩).through .a := by
  refine ⟨_, rfl, ?_⟩
  exact ((@tun_resolved_where_sent_iff _ everyNameListed besideEngineUnderRules _
    everyNameListed_addressLists rfl vkThroughTunnel rfl [172, 19, 0, 2]
    ⟨txt "m.vk.com", .a, none⟩ rfl 443 (by decide) .tunIn).mpr (by decide)).2.mpr (by decide)

end Sides

end Ghostlane.App.DesktopTun
