import Ghostlane.Lib.FirstMatch
import Ghostlane.Lib.Inet
import Mathlib.Data.List.Infix

/-!
# Ghostlane.Lib.Xray

A document of Xray's, as far as its objects are used here, and how Xray reads it: which outbound a
connection leaves by, and which of its resolvers a name is asked of.

The rules of `routing` are taken in order, and what none of them matches leaves by the first
outbound. Under `domainStrategy: AsIs` a name is not resolved for the sake of a rule: a connection
is bound for a name or for an address, and a rule about the one says nothing of the other. A field
that is absent asks for nothing, and a list that is there matches what is on it.
-/

namespace Ghostlane.Lib.Xray

open Ghostlane.Lib.Inet

/-! ### The objects of a document -/

structure VlessUser where
  id : Text
  encryption : Text
  flow : Option Text := none
  deriving DecidableEq, Repr

/-- An object of `settings.vnext`. -/
structure Vnext where
  address : Text
  port : Int
  users : List VlessUser
  deriving DecidableEq, Repr

structure TlsSettings where
  serverName : Text
  fingerprint : Option Text := none
  alpn : List Text := []
  allowInsecure : Option Bool := none
  deriving DecidableEq, Repr

structure RealitySettings where
  serverName : Text
  fingerprint : Text
  publicKey : Text
  shortId : Text
  deriving DecidableEq, Repr

structure XhttpSettings where
  path : Text
  host : Option Text := none
  mode : Text
  scMaxEachPostBytes : Option Nat := none
  deriving DecidableEq, Repr

structure Sockopt where
  domainStrategy : Option Text := none
  interface : Option Text := none
  deriving DecidableEq, Repr

structure StreamSettings where
  network : Text
  security : Text
  tlsSettings : Option TlsSettings := none
  realitySettings : Option RealitySettings := none
  xhttpSettings : Option XhttpSettings := none
  sockopt : Option Sockopt := none
  deriving DecidableEq, Repr

structure Outbound where
  tag : Text
  protocol : Text
  vnext : List Vnext := []
  /-- Of a `freedom` outbound. -/
  domainStrategy : Option Text := none
  streamSettings : Option StreamSettings := none
  deriving DecidableEq, Repr

structure Account where
  user : Text
  pass : Text
  deriving DecidableEq, Repr

/-- A SOCKS inbound. One with accounts asks for a password. -/
structure Inbound where
  tag : Text
  listen : Text
  port : Int
  accounts : List Account := []
  udp : Bool
  /-- `sniffing.destOverride`, where it is enabled. -/
  destOverride : List Text := []
  deriving DecidableEq, Repr

/-- An object of `dns.servers`. -/
structure DnsServer where
  tag : Text
  address : Text
  port : Nat
  domains : List Text := []
  skipFallback : Bool := false
  deriving DecidableEq, Repr

structure Dns where
  queryStrategy : Text
  servers : List DnsServer
  deriving DecidableEq, Repr

inductive Network
  | tcp
  | udp
  deriving DecidableEq, Repr

/-- An object of `routing.rules`, of type `field`. -/
structure Rule where
  inboundTag : List Text := []
  network : Option Network := none
  port : Option Nat := none
  ip : Option (List Text) := none
  domain : Option (List Text) := none
  outboundTag : Text
  deriving DecidableEq, Repr

structure Routing where
  domainStrategy : Text
  rules : List Rule
  deriving DecidableEq, Repr

structure Config where
  loglevel : Text
  dns : Option Dns := none
  inbounds : List Inbound
  outbounds : List Outbound
  routing : Option Routing := none
  deriving DecidableEq, Repr

/-! ### Lists -/

/-- The patterns of `regexp:` entries. -/
class Patterns where
  accepts : Text → Text → Bool

/-- What an entry says behind a word. -/
def behind (word : String) (entry : Text) : Option Text :=
  if (txt word).isPrefixOf entry then some (entry.drop word.length) else none

section Names

variable [Patterns]

/-- Whether an entry of a list of names is about a name. -/
def nameOn (entry name : Text) : Bool :=
  match behind "full:" entry, behind "domain:" entry, behind "regexp:" entry with
  | some whole, _, _ => name == whole
  | _, some domain, _ => name == domain || ('.' :: domain).isSuffixOf name
  | _, _, some pattern => Patterns.accepts pattern name
  | _, _, _ => decide ((behind "keyword:" entry).getD entry <:+: name)

theorem nameOn_full (whole name : Text) :
    nameOn (txt "full:" ++ whole) name = true ↔ name = whole := by
  have hbehind : behind "full:" (txt "full:" ++ whole) = some whole := by
    rw [behind, if_pos (List.isPrefixOf_iff_prefix.mpr (List.prefix_append _ _))]
    rfl
  rw [nameOn, hbehind]
  exact beq_iff_eq

end Names

/-- Whether an entry of a list of addresses, one or a prefix, is about an address. -/
def addressOn (entry : Text) (a : Address) : Bool := (readPrefix entry).any (·.contains a)

/-! ### Connections -/

/-- What a connection is bound for. A name that was sniffed stands in the address's place. -/
inductive Destination
  | name (name : Text)
  | address (address : Address)
  deriving DecidableEq, Repr

structure Connection where
  /-- The tag of what it came from: an inbound, or the resolver whose query it is. -/
  inbound : Text
  network : Network
  destination : Destination
  port : Nat
  deriving DecidableEq, Repr

section Routes

variable [Patterns]

def Destination.named (names : List Text) : Destination → Bool
  | name n => names.any (nameOn · n)
  | address _ => false

def Destination.addressed (addresses : List Text) : Destination → Bool
  | name _ => false
  | address a => addresses.any (addressOn · a)

def Rule.concerns (r : Rule) (c : Connection) : Bool :=
  (r.inboundTag.isEmpty || r.inboundTag.contains c.inbound) && r.network.all (· == c.network) &&
    r.port.all (· == c.port) && r.ip.all c.destination.addressed &&
    r.domain.all c.destination.named

def Rule.ruling (r : Rule) (c : Connection) : Ruling Connection Text :=
  if r.concerns c = true then .ends r.outboundTag else .passes c

/-- The tag of the outbound a connection leaves by. -/
def Routing.route (routing : Routing) (first : Text) (c : Connection) : Text :=
  firstMatch Rule.ruling first routing.rules c

theorem route_cons (strategy : Text) (r : Rule) (rules : List Rule) (first : Text)
    (c : Connection) : Routing.route ⟨strategy, r :: rules⟩ first c =
      if r.concerns c = true then r.outboundTag else Routing.route ⟨strategy, rules⟩ first c :=
  firstMatch_cons_ite (by rfl) rules

@[simp] theorem route_nil (strategy first : Text) (c : Connection) :
    Routing.route ⟨strategy, []⟩ first c = first := rfl

/-- The outbound a connection leaves by, where names are taken as they are. -/
def Config.route (config : Config) (c : Connection) : Option Text :=
  match config.outbounds.head?, config.routing with
  | none, _ => none
  | some first, none => some first.tag
  | some first, some routing =>
      if routing.domainStrategy = txt "AsIs" then some (routing.route first.tag c) else none

/-! ### Names -/

def DnsServer.claims (s : DnsServer) (name : Text) : Bool := s.domains.any (nameOn · name)

/-- The servers a name is asked of, one after another until one answers: those whose list it is on,
then the others, unless they are for their own names only. -/
def Dns.asked (dns : Dns) (name : Text) : List DnsServer :=
  let servers := dns.servers.filter (·.claims name) ++
    dns.servers.filter fun s => !s.claims name && !s.skipFallback
  if servers = [] then dns.servers.take 1 else servers

end Routes

end Ghostlane.Lib.Xray
