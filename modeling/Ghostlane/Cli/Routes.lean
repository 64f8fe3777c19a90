import Ghostlane.Lib.BlockCipher
import Ghostlane.Lib.Exclusive
import Mathlib.Data.Fintype.Pi

/-!
# Ghostlane.Cli.Routes

The policy rules beside sing-box's (`internal/routes/routes.go`): one rule per address of the
host at a priority of its own, kept equal to the addresses by `Sync`. The kernel's rules are a
set: one that is there is not added again, and one that is not there is not deleted. A call may
also be refused for any other reason (`Netlink`).
-/

namespace Ghostlane.Cli.Routes

open Ghostlane.Lib

/-! ### Addresses -/

inductive Family
  | inet
  | inet6
  deriving DecidableEq, Repr

/-- `netip.Addr`, without a zone. -/
inductive Addr
  | v4 (ip : Octets 4)
  | v6 (ip : Octets 16)
  deriving DecidableEq

namespace Addr

/-- `netip.AddrFromSlice`. -/
def ofSlice (ip : Bytes) : Option Addr :=
  if ip.length = 4 then some (v4 (Octets.ofBytes 4 ip))
  else if ip.length = 16 then some (v6 (Octets.ofBytes 16 ip))
  else none

def asSlice : Addr → Bytes
  | v4 ip => ip.bytes
  | v6 ip => ip.bytes

def is6 : Addr → Bool
  | v4 _ => false
  | v6 _ => true

/-- `::ffff:0:0/96`: an IPv4 address in an IPv6 one. -/
def mappedPrefix : Bytes := List.replicate 10 0 ++ [0xFF, 0xFF]

def unmap : Addr → Addr
  | v4 ip => v4 ip
  | v6 ip =>
      if ip.bytes.take 12 = mappedPrefix then v4 (Octets.ofBytes 4 (ip.bytes.drop 12)) else v6 ip

/-- `127.0.0.0/8` and `::1`. -/
def isLoopback : Addr → Bool
  | v4 ip => ip 0 == 127
  | v6 ip => ip.bytes == List.replicate 15 0 ++ [1]

/-- `169.254.0.0/16` and `fe80::/10`. -/
def isLinkLocalUnicast : Addr → Bool
  | v4 ip => ip 0 == 169 && ip 1 == 254
  | v6 ip => ip 0 == 0xFE && ip 1 &&& 0xC0 == 0x80

@[simp] theorem ofSlice_asSlice (a : Addr) : ofSlice a.asSlice = some a := by
  cases a with
  | v4 ip =>
      have hback := Octets.ofBytes_bytes_append ip []
      rw [List.append_nil] at hback
      rw [asSlice, ofSlice, if_pos (Octets.length_bytes ip), hback]
  | v6 ip =>
      have hback := Octets.ofBytes_bytes_append ip []
      rw [List.append_nil] at hback
      rw [asSlice, ofSlice, if_neg (by rw [Octets.length_bytes]; decide),
        if_pos (Octets.length_bytes ip), hback]

@[simp] theorem unmap_unmap (a : Addr) : a.unmap.unmap = a.unmap := by
  cases a with
  | v4 ip => rfl
  | v6 ip =>
      by_cases hmapped : ip.bytes.take 12 = mappedPrefix
      · rw [unmap, if_pos hmapped]
        rfl
      · rw [unmap, if_neg hmapped, unmap, if_neg hmapped]

end Addr

/-! ### The kernel -/

/-- `netlink.Rule`, as far as it is read or set here; `other` is what else one may say. -/
structure Rule where
  family : Family
  priority : Nat
  table : Nat
  /-- The source's address and the length of its prefix. -/
  src : Option (Bytes × Nat) := none
  suppressPrefixlen : Int := -1
  uidRange : Option (Nat × Nat) := none
  other : Bytes := []
  deriving DecidableEq, Repr

structure Route where
  family : Family
  table : Nat
  unreachable : Bool := false
  dst : Bytes × Nat
  other : Bytes := []
  deriving DecidableEq, Repr

structure Kernel where
  rules : Exclusive Rule
  routes : List Route

/-- The errors that are told apart. -/
inductive Errno
  | eexist
  | enoent
  | eafnosupport
  | epfnosupport
  | eprotonosupport
  | enotsup
  | other (n : Nat)
  deriving DecidableEq, Repr

/-- When rules are listed: before the switch goes in, to sync, and to take the switch out. -/
inductive Occasion
  | install
  | sync
  | remove
  deriving DecidableEq, Repr

/-- Which calls the kernel refuses, beside those its rules make impossible. -/
structure Netlink where
  ruleList : Occasion → Family → Option Errno := fun _ _ => none
  ruleAdd : Rule → Option Errno := fun _ => none
  ruleDel : Rule → Option Errno := fun _ => none
  routeReplace : Route → Option Errno := fun _ => none
  routeList : Family → Option Errno := fun _ => none
  routeDel : Route → Option Errno := fun _ => none
  addrList : Option Errno := none

/-- What went wrong, with the words it is wrapped in. -/
inductive RouteError
  | plain (e : Errno)
  /-- `rule del %s: %w`. -/
  | ruleDel (a : Addr) (e : Errno)
  /-- `rule add %s: %w`. -/
  | ruleAdd (a : Addr) (e : Errno)
  /-- `unreachable default (family %d): %w`. -/
  | unreachableDefault (family : Family) (e : Errno)
  /-- `rule %d (family %d): %w`. -/
  | switchRule (priority : Nat) (family : Family) (e : Errno)
  /-- `rule %d: %w`. -/
  | leftRule (priority : Nat) (e : Errno)
  /-- `table %d route: %w`. -/
  | tableRoute (table : Nat) (e : Errno)
  deriving DecidableEq

/-! ### The addresses of the host -/

/-- `netlink.Addr`. -/
structure HostAddr where
  scope : Nat
  linkIndex : Int
  /-- `IPNet.IP`, where there is one. -/
  ip : Option Bytes
  deriving DecidableEq, Repr

/-- `RT_SCOPE_UNIVERSE`. -/
def scopeUniverse : Nat := 0
/-- `RT_TABLE_MAIN`. -/
def tableMain : Nat := 254

def ownAddressPriority : Nat := 8990

def filterGlobal (addrs : List HostAddr) (excludeIndex : Int) : List Addr :=
  addrs.filterMap fun a =>
    if a.scope ≠ scopeUniverse ∨ a.linkIndex = excludeIndex then none
    else do
      let ip := (← Addr.ofSlice (← a.ip)).unmap
      if ip.isLoopback ∨ ip.isLinkLocalUnicast then none else return ip

/-! ### `Sync` -/

/-- The addresses to add and those to delete, in order. -/
def diff (held want : List Addr) : List Addr × List Addr :=
  (want.filter (· ∉ held), held.filter (· ∉ want))

/-- The rule that lets an address of the host answer by the main table. -/
def ownRule (a : Addr) : Rule where
  family := if a.is6 then .inet6 else .inet
  priority := ownAddressPriority
  table := tableMain
  src := some (a.asSlice, if a.is6 then 128 else 32)

/-- The address a rule at the priority is from. -/
def ownAddress (r : Rule) : Option Addr :=
  if r.priority = ownAddressPriority then r.src.bind fun src => (Addr.ofSlice src.1).map Addr.unmap
  else none

/-- `netlink.RuleList`. -/
def Kernel.rulesOf (k : Kernel) (family : Family) : List Rule :=
  k.rules.elems.filter (·.family = family)

/-- The addresses that have a rule. -/
def Kernel.held (k : Kernel) : List Addr :=
  (k.rulesOf .inet).filterMap ownAddress ++ (k.rulesOf .inet6).filterMap ownAddress

def existing (n : Netlink) (k : Kernel) : Except Errno (List Addr) :=
  match n.ruleList .sync .inet, n.ruleList .sync .inet6 with
  | some e, _ => .error e
  | none, some e => .error e
  | none, none => .ok k.held

/-- Delete the addresses' rules, and add those of others. -/
def edit (n : Netlink) (rules : Exclusive Rule) (add del : List Addr) :
    Exclusive Rule × List RouteError :=
  let (rules, delErrs) := rules.delEach ownRule (fun a => n.ruleDel (ownRule a)) .enoent del
  let (rules, addErrs) := rules.addEach ownRule (fun a => n.ruleAdd (ownRule a)) .eexist add
  (rules, delErrs.map (fun e => .ruleDel e.1 e.2) ++ addErrs.map (fun e => .ruleAdd e.1 e.2))

/-- `syncLocked`; no error is the empty list. -/
def sync (n : Netlink) (addrs : List Addr) (k : Kernel) : Kernel × List RouteError :=
  match existing n k with
  | .error e => (k, [.plain e])
  | .ok held =>
      let (add, del) := diff held addrs
      let (rules, errs) := edit n k.rules add del
      ({ k with rules }, errs)

/-! ### An address and its rule -/

theorem ownRule_injective : Function.Injective ownRule := by
  intro a b h
  have hsrc : a.asSlice = b.asSlice := congrArg (fun r : Rule => (r.src.getD ([], 0)).1) h
  have hback := congrArg Addr.ofSlice hsrc
  rw [Addr.ofSlice_asSlice, Addr.ofSlice_asSlice] at hback
  exact Option.some.inj hback

@[simp] theorem ownAddress_ownRule (a : Addr) : ownAddress (ownRule a) = some a.unmap := by
  rw [ownAddress, if_pos (show (ownRule a).priority = ownAddressPriority from rfl)]
  change (Addr.ofSlice a.asSlice).map Addr.unmap = _
  rw [Addr.ofSlice_asSlice]
  rfl

/-- An address is read unmapped, off a rule at the priority. -/
theorem of_ownAddress {r : Rule} {a : Addr} (h : ownAddress r = some a) :
    r.priority = ownAddressPriority ∧ a.unmap = a := by
  unfold ownAddress at h
  split at h
  · rename_i hpriority
    obtain ⟨src, -, hsrc⟩ := Option.bind_eq_some_iff.mp h
    obtain ⟨b, -, rfl⟩ := Option.map_eq_some_iff.mp hsrc
    exact ⟨hpriority, b.unmap_unmap⟩
  · cases h

theorem unmap_of_mem_filterGlobal {addrs : List HostAddr} {excludeIndex : Int} {a : Addr}
    (h : a ∈ filterGlobal addrs excludeIndex) : a.unmap = a := by
  obtain ⟨found, -, hfound⟩ := List.mem_filterMap.mp h
  split at hfound
  · cases hfound
  · simp only [Option.bind_eq_bind, Option.bind_eq_some_iff] at hfound
    obtain ⟨ip, -, addr, -, hkept⟩ := hfound
    split at hkept
    · cases hkept
    · cases hkept
      exact addr.unmap_unmap

theorem mem_held {k : Kernel} {a : Addr} :
    a ∈ k.held ↔ ∃ r ∈ k.rules.elems, ownAddress r = some a := by
  simp only [Kernel.held, Kernel.rulesOf, List.mem_append, List.mem_filterMap, List.mem_filter,
    decide_eq_true_eq]
  constructor
  · rintro (⟨r, ⟨hr, -⟩, ha⟩ | ⟨r, ⟨hr, -⟩, ha⟩)
    · exact ⟨r, hr, ha⟩
    · exact ⟨r, hr, ha⟩
  · rintro ⟨r, hr, ha⟩
    cases hfamily : r.family with
    | inet => exact .inl ⟨r, ⟨hr, hfamily⟩, ha⟩
    | inet6 => exact .inr ⟨r, ⟨hr, hfamily⟩, ha⟩

theorem unmap_of_mem_held {k : Kernel} {a : Addr} (h : a ∈ k.held) : a.unmap = a := by
  obtain ⟨r, -, hr⟩ := mem_held.mp h
  exact (of_ownAddress hr).2

/-- The rules at the priority are rules of addresses, as this daemon writes them. -/
def Kernel.OwnOnly (k : Kernel) : Prop :=
  ∀ r ∈ k.rules.elems, r.priority = ownAddressPriority → ∃ a : Addr, a.unmap = a ∧ r = ownRule a

section Held

variable {k : Kernel}

theorem Kernel.OwnOnly.mem_held_iff (h : k.OwnOnly) {a : Addr} (ha : a.unmap = a) :
    a ∈ k.held ↔ ownRule a ∈ k.rules.elems := by
  rw [mem_held]
  constructor
  · rintro ⟨r, hr, hown⟩
    obtain ⟨b, hb, rfl⟩ := h r hr (of_ownAddress hown).1
    rw [ownAddress_ownRule, hb, Option.some.injEq] at hown
    exact hown ▸ hr
  · intro hmem
    exact ⟨_, hmem, by rw [ownAddress_ownRule, ha]⟩

theorem map_ownRule_filterMap {rules : List Rule}
    (h : ∀ r ∈ rules, r.priority = ownAddressPriority → ∃ a : Addr, a.unmap = a ∧ r = ownRule a) :
    (rules.filterMap ownAddress).map ownRule =
      rules.filter (·.priority = ownAddressPriority) := by
  induction rules with
  | nil => rfl
  | cons r rules ih =>
      have hrest := ih fun r hr => h r (List.mem_cons_of_mem _ hr)
      by_cases hpriority : r.priority = ownAddressPriority
      · obtain ⟨a, ha, rfl⟩ := h r List.mem_cons_self hpriority
        rw [List.filterMap_cons, ownAddress_ownRule, ha, List.filter_cons,
          if_pos (decide_eq_true hpriority), List.map_cons, hrest]
      · have hnone : ownAddress r = none := if_neg hpriority
        rw [List.filterMap_cons, hnone, List.filter_cons, if_neg (by simpa using hpriority), hrest]

/-- No address is held twice. -/
theorem Kernel.OwnOnly.nodup_held (h : k.OwnOnly) : (k.held.map ownRule).Nodup := by
  have hfamily : ∀ family, ∀ r ∈ k.rulesOf family, r.priority = ownAddressPriority →
      ∃ a : Addr, a.unmap = a ∧ r = ownRule a :=
    fun family r hr => h r (List.mem_filter.mp hr).1
  rw [Kernel.held, List.map_append, map_ownRule_filterMap (hfamily .inet),
    map_ownRule_filterMap (hfamily .inet6)]
  refine List.nodup_append'.mpr
    ⟨(k.rules.nodup.filter _).filter _, (k.rules.nodup.filter _).filter _, ?_⟩
  intro r h4 h6
  have hinet := (List.mem_filter.mp (List.mem_filter.mp h4).1).2
  have hinet6 := (List.mem_filter.mp (List.mem_filter.mp h6).1).2
  rw [decide_eq_true_eq] at hinet hinet6
  rw [hinet] at hinet6
  cases hinet6

end Held

/-! ### What an edit leaves -/

section Edit

variable {n : Netlink} {rules : Exclusive Rule} {add del : List Addr}

/-- The rules after an edit: what was not deleted, and what was added. -/
theorem mem_edit {r : Rule} : r ∈ (edit n rules add del).1.elems ↔
    (r ∈ rules.elems ∧ ¬ ∃ a ∈ del, n.ruleDel (ownRule a) = none ∧ ownRule a = r) ∨
      ∃ a ∈ add, n.ruleAdd (ownRule a) = none ∧ ownRule a = r := by
  rw [edit]
  exact Exclusive.mem_addEach.trans (or_congr_left Exclusive.mem_delEach)

/-- An edit goes through when nothing is refused, every rule to delete is there once and every
rule to add is not. -/
theorem edit_errors_eq_nil : (edit n rules add del).2 = [] ↔
    ((∀ a ∈ del, n.ruleDel (ownRule a) = none ∧ ownRule a ∈ rules.elems) ∧ del.Nodup) ∧
      (∀ a ∈ add, n.ruleAdd (ownRule a) = none ∧ ownRule a ∉
        (rules.delEach ownRule (fun a => n.ruleDel (ownRule a)) .enoent del).1.elems) ∧
      add.Nodup := by
  rw [edit]
  dsimp only
  rw [List.append_eq_nil_iff, List.map_eq_nil_iff, List.map_eq_nil_iff,
    Exclusive.delEach_errors_eq_nil, Exclusive.addEach_errors_eq_nil,
    List.nodup_map_iff ownRule_injective, List.nodup_map_iff ownRule_injective]

end Edit

/-! ### `Sync` settles the rules -/

section Settles

variable {k : Kernel} {want : List Addr}

theorem sync_eq (want : List Addr) (k : Kernel) :
    sync {} want k =
      ({ k with rules := (edit {} k.rules (want.filter (· ∉ k.held))
        (k.held.filter (· ∉ want))).1 },
        (edit {} k.rules (want.filter (· ∉ k.held)) (k.held.filter (· ∉ want))).2) := rfl

/-- `Sync` succeeds, the rules at the priority are one for each address that is wanted, and a
second `Sync` finds nothing to do. -/
structure Settles (k : Kernel) (want : List Addr) : Prop where
  ok : (sync {} want k).2 = []
  rules : ∀ r, r ∈ (sync {} want k).1.rules.elems ∧ r.priority = ownAddressPriority ↔
    ∃ a ∈ want, r = ownRule a
  steady : sync {} want (sync {} want k).1 = ((sync {} want k).1, [])

/-- The rules after a `Sync` that nothing refuses. -/
theorem mem_sync {r : Rule} : r ∈ (sync {} want k).1.rules.elems ↔
    (r ∈ k.rules.elems ∧ ¬ ∃ a ∈ k.held.filter (· ∉ want), ownRule a = r) ∨
      ∃ a ∈ want.filter (· ∉ k.held), ownRule a = r := by
  rw [sync_eq]
  refine mem_edit.trans ?_
  simp

/-- Where the rules at the priority are those of the addresses that are wanted, nothing is done. -/
theorem sync_of_settled (hwant : ∀ a ∈ want, a.unmap = a)
    (h : ∀ r, r ∈ k.rules.elems ∧ r.priority = ownAddressPriority ↔ ∃ a ∈ want, r = ownRule a) :
    sync {} want k = (k, []) := by
  have hown : k.OwnOnly := by
    intro r hr hpriority
    obtain ⟨a, ha, hrule⟩ := (h r).mp ⟨hr, hpriority⟩
    exact ⟨a, hwant a ha, hrule⟩
  have hadd : want.filter (· ∉ k.held) = [] := by
    rw [List.filter_eq_nil_iff]
    intro a ha hnot
    rw [decide_eq_true_eq, hown.mem_held_iff (hwant a ha)] at hnot
    exact hnot ((h (ownRule a)).mpr ⟨a, ha, rfl⟩).1
  have hdel : k.held.filter (· ∉ want) = [] := by
    rw [List.filter_eq_nil_iff]
    intro a ha hnot
    rw [decide_eq_true_eq] at hnot
    have hmem := (hown.mem_held_iff (unmap_of_mem_held ha)).mp ha
    obtain ⟨b, hb, hrule⟩ := (h (ownRule a)).mp ⟨hmem, rfl⟩
    exact hnot (ownRule_injective hrule ▸ hb)
  rw [sync_eq, hadd, hdel]
  rfl

/-- **`Sync` settles the rules exactly when** the priority holds rules of this daemon alone, and
no address that is yet to get its rule is listed twice. -/
theorem sync_settles_iff (k : Kernel) (found : List HostAddr) (excludeIndex : Int) :
    Settles k (filterGlobal found excludeIndex) ↔
      k.OwnOnly ∧
        ((filterGlobal found excludeIndex).filter (ownRule · ∉ k.rules.elems)).Nodup := by
  set want := filterGlobal found excludeIndex with hdef
  have hwant : ∀ a ∈ want, a.unmap = a := fun a => unmap_of_mem_filterGlobal
  have hsame : k.OwnOnly → want.filter (ownRule · ∉ k.rules.elems) = want.filter (· ∉ k.held) := by
    intro hown
    refine List.filter_congr fun a ha => ?_
    rw [decide_eq_decide, hown.mem_held_iff (hwant a ha)]
  constructor
  · intro h
    have hown : k.OwnOnly := by
      intro r hr hpriority
      by_cases hdeleted : ∃ a ∈ k.held.filter (· ∉ want), ownRule a = r
      · obtain ⟨a, ha, rfl⟩ := hdeleted
        exact ⟨a, unmap_of_mem_held (List.mem_filter.mp ha).1, rfl⟩
      · obtain ⟨a, ha, hrule⟩ := (h.rules r).mp ⟨mem_sync.mpr (.inl ⟨hr, hdeleted⟩), hpriority⟩
        exact ⟨a, hwant a ha, hrule⟩
    refine ⟨hown, ?_⟩
    rw [hsame hown]
    exact (edit_errors_eq_nil.mp h.ok).2.2
  · rintro ⟨hown, hnodup⟩
    rw [hsame hown] at hnodup
    have hrules : ∀ r, r ∈ (sync {} want k).1.rules.elems ∧ r.priority = ownAddressPriority ↔
        ∃ a ∈ want, r = ownRule a := by
      intro r
      rw [mem_sync]
      constructor
      · rintro ⟨⟨hr, hkept⟩ | ⟨a, ha, rfl⟩, hpriority⟩
        · obtain ⟨a, ha, rfl⟩ := hown r hr hpriority
          refine ⟨a, ?_, rfl⟩
          by_contra hnot
          have hheld := (hown.mem_held_iff ha).mpr hr
          exact hkept ⟨a, List.mem_filter.mpr ⟨hheld, by simpa using hnot⟩, rfl⟩
        · exact ⟨a, (List.mem_filter.mp ha).1, rfl⟩
      · rintro ⟨a, ha, rfl⟩
        refine ⟨?_, rfl⟩
        by_cases hheld : a ∈ k.held
        · refine .inl ⟨(hown.mem_held_iff (hwant a ha)).mp hheld, ?_⟩
          rintro ⟨b, hb, hrule⟩
          have hnot := (List.mem_filter.mp hb).2
          rw [decide_eq_true_eq, ownRule_injective hrule] at hnot
          exact hnot ha
        · exact .inr ⟨a, List.mem_filter.mpr ⟨ha, by simpa using hheld⟩, rfl⟩
    refine ⟨?_, hrules, sync_of_settled hwant hrules⟩
    have hheld := (List.nodup_map_iff ownRule_injective).mp hown.nodup_held
    refine edit_errors_eq_nil.mpr ⟨⟨?_, hheld.filter _⟩, ?_, hnodup⟩
    · intro a ha
      have hmem := (List.mem_filter.mp ha).1
      exact ⟨rfl, (hown.mem_held_iff (unmap_of_mem_held hmem)).mp hmem⟩
    · intro a ha
      obtain ⟨hmem, hnot⟩ := List.mem_filter.mp ha
      rw [decide_eq_true_eq, hown.mem_held_iff (hwant a hmem)] at hnot
      exact ⟨rfl, fun hleft => hnot (Exclusive.mem_delEach.mp hleft).1⟩

end Settles

/-! ### An address on two interfaces -/

def sharedAddr : Addr := .v4 (Octets.ofBytes 4 [10, 0, 0, 5])

/-- Two interfaces of a host with one address. -/
def twoInterfaces : List HostAddr :=
  [{ scope := scopeUniverse, linkIndex := 2, ip := some [10, 0, 0, 5] },
    { scope := scopeUniverse, linkIndex := 3, ip := some [10, 0, 0, 5] }]

/-- No rules, and no routes. -/
def Kernel.bare : Kernel := { rules := Exclusive.empty, routes := [] }

/-- **An address on two interfaces fails a `Sync`**: its rule is added twice. -/
theorem shared_address_fails_sync :
    filterGlobal twoInterfaces (-1) = [sharedAddr, sharedAddr] ∧
      (sync {} [sharedAddr, sharedAddr] Kernel.bare).2 = [.ruleAdd sharedAddr .eexist] ∧
      ¬ Settles Kernel.bare (filterGlobal twoInterfaces (-1)) := by
  have hfound : filterGlobal twoInterfaces (-1) = [sharedAddr, sharedAddr] := by decide
  have hfails : (sync {} [sharedAddr, sharedAddr] Kernel.bare).2 =
      [.ruleAdd sharedAddr .eexist] := by
    decide
  refine ⟨hfound, hfails, ?_⟩
  intro h
  have hok := h.ok
  rw [hfound, hfails] at hok
  cases hok

end Ghostlane.Cli.Routes
