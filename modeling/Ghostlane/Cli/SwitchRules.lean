import Ghostlane.Cli.Routes

/-!
# Ghostlane.Cli.SwitchRules

The kill switch in the kernel (`InstallKillSwitch` and `RemoveKillSwitch` in
`internal/routes/routes.go`), and how the daemon puts it in together with the own-address rules
(`installKillSwitch` in `internal/daemon/connect.go`). Each family has a half of it: three rules
and an unreachable default route in a table of its own.

A kernel without IPv6 refuses its calls with errors that are told apart (`tolerableV6`), and the
half of IPv6 is then skipped from there on.
-/

namespace Ghostlane.Cli.Routes

open Ghostlane.Lib

/-! ### The code -/

def killSwitchLAN : Nat := 9098
def killSwitchSelf : Nat := 9099
def killSwitchDrop : Nat := 9100
def killSwitchTable : Nat := 2023

def killSwitchRules (family : Family) (uid : Nat) : List Rule :=
  [{ family, priority := killSwitchLAN, table := tableMain, suppressPrefixlen := 0 },
    { family, priority := killSwitchSelf, table := tableMain, uidRange := some (uid, uid) },
    { family, priority := killSwitchDrop, table := killSwitchTable }]

def unreachableDefault (family : Family) : Route where
  family
  table := killSwitchTable
  unreachable := true
  dst := (List.replicate (if family = .inet6 then 16 else 4) 0, 0)

def tolerableV6 : Errno → Bool
  | .eafnosupport | .epfnosupport | .eprotonosupport | .enotsup => true
  | _ => false

namespace RouteError

def errno : RouteError → Errno
  | plain e | ruleDel _ e | ruleAdd _ e | unreachableDefault _ e | switchRule _ _ e
  | leftRule _ e | tableRoute _ e => e

end RouteError

/-- The errors that count: none of IPv6 when one of them is tolerable. -/
def counted (family : Family) (errs : List RouteError) : List RouteError :=
  if family = .inet6 ∧ errs.any (tolerableV6 ·.errno) then [] else errs

/-- A rule at one of the priorities of the switch. -/
def isSwitchRule (r : Rule) : Bool := killSwitchLAN ≤ r.priority && r.priority ≤ killSwitchDrop

def removeKillSwitchRules (n : Netlink) (o : Occasion) (family : Family) (k : Kernel) :
    Kernel × List RouteError :=
  match n.ruleList o family with
  | some e => (k, [.plain e])
  | none =>
      let (rules, errs) := k.rules.delEach id n.ruleDel .enoent
        ((k.rulesOf family).filter isSwitchRule)
      ({ k with rules }, errs.map fun e => .leftRule e.1.priority e.2)

/-- A route of the table of the switch. -/
def isSwitchRoute (family : Family) (r : Route) : Bool :=
  r.family = family && r.table = killSwitchTable

/-- Delete the routes of the table. -/
def removeRoutes (n : Netlink) (family : Family) (k : Kernel) : Kernel × List RouteError :=
  match n.routeList family with
  | some e => (k, counted family [.plain e])
  | none =>
      ({ k with
          routes := k.routes.filter fun r => !isSwitchRoute family r || (n.routeDel r).isSome },
        (k.routes.filter (isSwitchRoute family)).filterMap fun r =>
          (n.routeDel r).map (.tableRoute killSwitchTable))

def removeFamily (n : Netlink) (family : Family) (k : Kernel) : Kernel × List RouteError :=
  let (k, ruleErrs) := removeKillSwitchRules n .remove family k
  let (k, routeErrs) := removeRoutes n family k
  (k, counted family ruleErrs ++ routeErrs)

/-- `RemoveKillSwitch`. -/
def removeKillSwitch (n : Netlink) (k : Kernel) : Kernel × List RouteError :=
  let (k, errs) := removeFamily n .inet k
  let (k, errs6) := removeFamily n .inet6 k
  (k, errs ++ errs6)

/-- `netlink.RouteReplace`: in place of the one to the same destination. -/
def Kernel.routeReplace (k : Kernel) (r : Route) : Kernel :=
  { k with
    routes := k.routes.filter (fun r' => ¬ (r'.family = r.family ∧ r'.table = r.table ∧
      r'.dst = r.dst)) ++ [r] }

@[simp] theorem routeReplace_rules (k : Kernel) (r : Route) : (k.routeReplace r).rules = k.rules :=
  rfl

/-- Add the rules in order, up to the one IPv6 is refused at. -/
def addSwitchRules (n : Netlink) (family : Family) :
    List Rule → Exclusive Rule → Exclusive Rule × List RouteError
  | [], rules => (rules, [])
  | r :: rs, rules =>
      match Exclusive.attempt .eexist (rules.add r) (n.ruleAdd r) with
      | .ok rules => addSwitchRules n family rs rules
      | .error e =>
          if family = .inet6 ∧ tolerableV6 e then (rules, [])
          else
            let (rules, errs) := addSwitchRules n family rs rules
            (rules, .switchRule r.priority family e :: errs)

/-- One turn of the loop of `InstallKillSwitch`. -/
def installFamily (n : Netlink) (uid : Nat) (family : Family) (k : Kernel) :
    Kernel × List RouteError :=
  let (k, errs) := removeKillSwitchRules n .install family k
  match n.routeReplace (unreachableDefault family) with
  | some e =>
      (k, counted family errs ++
        if family = .inet6 ∧ tolerableV6 e then [] else [.unreachableDefault family e])
  | none =>
      let k := k.routeReplace (unreachableDefault family)
      let (rules, ruleErrs) := addSwitchRules n family (killSwitchRules family uid) k.rules
      ({ k with rules }, counted family errs ++ ruleErrs)

/-- `InstallKillSwitch`. -/
def installKillSwitch (n : Netlink) (uid : Nat) (k : Kernel) : Kernel × List RouteError :=
  let (k, errs) := installFamily n uid .inet k
  let (k, errs6) := installFamily n uid .inet6 k
  if errs ++ errs6 = [] then (k, []) else ((removeKillSwitch n k).1, errs ++ errs6)

/-- The addresses of a host, and the interface that is left out. -/
structure Host where
  addrs : List HostAddr
  excludeIndex : Int

/-- `GlobalAddresses`. -/
def Host.globalAddresses (h : Host) : List Addr := filterGlobal h.addrs h.excludeIndex

namespace Daemon

/-- `syncOwnRules`. -/
def syncOwnRules (n : Netlink) (h : Host) (k : Kernel) : Kernel × List RouteError :=
  match n.addrList with
  | some e => (k, [.plain e])
  | none => sync n h.globalAddresses k

/-- `installKillSwitch`; `ksOn` where the switch is in already. -/
def installKillSwitch (n : Netlink) (uid : Nat) (h : Host) (ksOn : Bool) (k : Kernel) :
    Kernel × List RouteError :=
  if ksOn then (k, [])
  else
    let (k, errs) := Routes.installKillSwitch n uid k
    if errs ≠ [] then (k, errs)
    else
      let (k, errs) := syncOwnRules n h k
      if errs ≠ [] then ((removeKillSwitch n k).1, errs) else (k, [])

end Daemon

/-! ### What is there of a half -/

/-- The half of a family is in. -/
structure Kernel.AllIn (k : Kernel) (family : Family) (uid : Nat) : Prop where
  rules : ∀ r ∈ killSwitchRules family uid, r ∈ k.rules.elems
  route : unreachableDefault family ∈ k.routes

/-- Nothing of the half of a family is in. -/
structure Kernel.NoneIn (k : Kernel) (family : Family) : Prop where
  rules : ∀ r ∈ k.rules.elems, r.family = family → isSwitchRule r = false
  routes : ∀ r ∈ k.routes, isSwitchRoute family r = false

/-- Taking the switch out is refused nothing. -/
structure Netlink.Removes (n : Netlink) : Prop where
  ruleList : ∀ family, n.ruleList .remove family = none
  ruleDel : ∀ r, isSwitchRule r = true → n.ruleDel r = none
  routeList : ∀ family, n.routeList family = none
  routeDel : ∀ r, n.routeDel r = none

theorem isSwitchRule_of_mem {family : Family} {uid : Nat} {r : Rule}
    (h : r ∈ killSwitchRules family uid) : isSwitchRule r = true ∧ r.family = family := by
  simp only [killSwitchRules, List.mem_cons, List.not_mem_nil, or_false] at h
  rcases h with rfl | rfl | rfl <;>
    simp [isSwitchRule, killSwitchLAN, killSwitchSelf, killSwitchDrop]

theorem isSwitchRule_of_own {r : Rule} (h : r.priority = ownAddressPriority) :
    isSwitchRule r = false := by
  simp [isSwitchRule, h, ownAddressPriority, killSwitchLAN, killSwitchDrop]

/-! ### Taking it out -/

section Remove

variable {n : Netlink} {k : Kernel} {family : Family} {o : Occasion}

theorem removeKillSwitchRules_routes :
    (removeKillSwitchRules n o family k).1.routes = k.routes := by
  unfold removeKillSwitchRules
  split <;> rfl

/-- The rules that are left when they can be listed. -/
theorem removeKillSwitchRules_of_listed (hlist : n.ruleList o family = none)
    (hdel : ∀ r, isSwitchRule r = true → n.ruleDel r = none) :
    (∀ r, r ∈ (removeKillSwitchRules n o family k).1.rules.elems ↔
      r ∈ k.rules.elems ∧ ¬ (r.family = family ∧ isSwitchRule r = true)) ∧
    (removeKillSwitchRules n o family k).2 = [] := by
  have hlisted : ∀ r, r ∈ (k.rulesOf family).filter isSwitchRule ↔
      r ∈ k.rules.elems ∧ r.family = family ∧ isSwitchRule r = true := by
    intro r
    simp only [Kernel.rulesOf, List.mem_filter, decide_eq_true_eq, and_assoc]
  unfold removeKillSwitchRules
  rw [hlist]
  constructor
  · intro r
    refine Exclusive.mem_delEach.trans (and_congr_right fun hr => not_congr ?_)
    constructor
    · rintro ⟨r', hr', -, rfl⟩
      exact ((hlisted _).mp hr').2
    · intro hswitch
      exact ⟨r, (hlisted r).mpr ⟨hr, hswitch⟩, hdel r hswitch.2, rfl⟩
  · change List.map _ _ = []
    rw [List.map_eq_nil_iff, Exclusive.delEach_errors_eq_nil, List.map_id]
    refine ⟨fun r hr => ?_, (k.rules.nodup.filter _).filter _⟩
    have hswitch := (hlisted r).mp hr
    exact ⟨hdel r hswitch.2.2, hswitch.1⟩

/-- What taking one half out leaves. -/
theorem removeFamily_of_removes (hn : n.Removes) (k : Kernel) (family : Family) :
    (∀ r, r ∈ (removeFamily n family k).1.rules.elems ↔
      r ∈ k.rules.elems ∧ ¬ (r.family = family ∧ isSwitchRule r = true)) ∧
    (∀ r, r ∈ (removeFamily n family k).1.routes ↔
      r ∈ k.routes ∧ isSwitchRoute family r = false) := by
  obtain ⟨hrules, -⟩ := removeKillSwitchRules_of_listed (k := k) (hn.ruleList family) hn.ruleDel
  unfold removeFamily removeRoutes
  rw [hn.routeList family]
  refine ⟨hrules, fun r => ?_⟩
  dsimp only
  rw [removeKillSwitchRules_routes, List.mem_filter, hn.routeDel r]
  simp

/-- **Taking the switch out leaves nothing of it**, and every other rule. -/
theorem removeKillSwitch_of_removes (hn : n.Removes) :
    (∀ family, (removeKillSwitch n k).1.NoneIn family) ∧
      ∀ r, isSwitchRule r = false →
        (r ∈ (removeKillSwitch n k).1.rules.elems ↔ r ∈ k.rules.elems) := by
  obtain ⟨hrules, hroutes⟩ := removeFamily_of_removes hn k .inet
  obtain ⟨hrules6, hroutes6⟩ := removeFamily_of_removes hn (removeFamily n .inet k).1 .inet6
  change (∀ family, (removeFamily n .inet6 (removeFamily n .inet k).1).1.NoneIn family) ∧
    ∀ r, isSwitchRule r = false →
      (r ∈ (removeFamily n .inet6 (removeFamily n .inet k).1).1.rules.elems ↔ r ∈ k.rules.elems)
  constructor
  · intro family
    constructor
    · intro r hr hfamily
      rw [← Bool.not_eq_true]
      intro hswitch
      obtain ⟨hr4, hnot6⟩ := (hrules6 r).mp hr
      obtain ⟨-, hnot4⟩ := (hrules r).mp hr4
      cases family with
      | inet => exact hnot4 ⟨hfamily, hswitch⟩
      | inet6 => exact hnot6 ⟨hfamily, hswitch⟩
    · intro r hr
      obtain ⟨hr4, hnot6⟩ := (hroutes6 r).mp hr
      cases family with
      | inet => exact ((hroutes r).mp hr4).2
      | inet6 => exact hnot6
  · intro r hother
    have hnot : ∀ family, ¬ (r.family = family ∧ isSwitchRule r = true) := by
      rintro family ⟨-, hswitch⟩
      rw [hother] at hswitch
      cases hswitch
    rw [hrules6, hrules]
    simp only [hnot, not_false_eq_true, and_true]

end Remove

/-! ### Putting a half in -/

/-- The rules of a half that an earlier run left and that cannot be listed. -/
def leftRules (n : Netlink) (k : Kernel) (family : Family) : List Rule :=
  if (n.ruleList .install family).isSome then (k.rulesOf family).filter isSwitchRule else []

/-- Is this refusal one that skips what is left of IPv6? -/
abbrev Skips (family : Family) (e : Errno) : Prop := family = .inet6 ∧ tolerableV6 e = true

/-- Adding the rules, with `left` there already, reports nothing: they go in, up to one that is
skipped at. -/
def Quiet (n : Netlink) (family : Family) (left : List Rule) : List Rule → Prop
  | [] => True
  | r :: rs =>
      match n.ruleAdd r with
      | some e => Skips family e
      | none => r ∉ left ∧ Quiet n family left rs

/-- Putting the half of a family in reports nothing. -/
structure Passes (n : Netlink) (uid : Nat) (k : Kernel) (family : Family) : Prop where
  list : ∀ e, n.ruleList .install family = some e → Skips family e
  route : ∀ e, n.routeReplace (unreachableDefault family) = some e → Skips family e
  rules : n.routeReplace (unreachableDefault family) = none →
    Quiet n family (leftRules n k family) (killSwitchRules family uid)

/-- The rules of a half before the first that is refused. -/
def goesIn (n : Netlink) (uid : Nat) (family : Family) : List Rule :=
  (killSwitchRules family uid).takeWhile fun r => (n.ruleAdd r).isNone

theorem nodup_killSwitchRules (family : Family) (uid : Nat) :
    (killSwitchRules family uid).Nodup := by
  simp [killSwitchRules, killSwitchLAN, killSwitchSelf, killSwitchDrop]

section Adding

variable {n : Netlink} {family : Family} {rs : List Rule} {rules : Exclusive Rule}

theorem Quiet.congr {left left' : List Rule} (h : ∀ r ∈ rs, r ∈ left ↔ r ∈ left') :
    Quiet n family left rs ↔ Quiet n family left' rs := by
  induction rs with
  | nil => exact Iff.rfl
  | cons r rs ih =>
      unfold Quiet
      cases n.ruleAdd r with
      | some e => exact Iff.rfl
      | none =>
          exact and_congr (not_congr (h r List.mem_cons_self))
            (ih fun r' hr' => h r' (List.mem_cons_of_mem _ hr'))

theorem addSwitchRules_cons_of_refused {r : Rule} {e : Errno} (he : n.ruleAdd r = some e) :
    addSwitchRules n family (r :: rs) rules =
      if family = .inet6 ∧ tolerableV6 e then (rules, [])
      else ((addSwitchRules n family rs rules).1,
        .switchRule r.priority family e :: (addSwitchRules n family rs rules).2) := by
  rw [addSwitchRules, he]
  rfl

theorem addSwitchRules_cons_of_there {r : Rule} (hnone : n.ruleAdd r = none)
    (hmem : r ∈ rules.elems) :
    addSwitchRules n family (r :: rs) rules = ((addSwitchRules n family rs rules).1,
      .switchRule r.priority family .eexist :: (addSwitchRules n family rs rules).2) := by
  rw [addSwitchRules, hnone, Exclusive.add_of_mem hmem]
  exact if_neg fun h => by cases h.2

theorem addSwitchRules_cons_of_added {r : Rule} {rules' : Exclusive Rule}
    (hnone : n.ruleAdd r = none) (hadd : rules.add r = some rules') :
    addSwitchRules n family (r :: rs) rules = addSwitchRules n family rs rules' := by
  rw [addSwitchRules, hnone, hadd]
  rfl

/-- Adding rules leaves every other rule alone. -/
theorem filter_addSwitchRules (p : Rule → Bool) (h : ∀ r ∈ rs, p r = false) :
    (addSwitchRules n family rs rules).1.elems.filter p = rules.elems.filter p := by
  induction rs generalizing rules with
  | nil => rfl
  | cons r rs ih =>
      have hrest := fun r' hr' => h r' (List.mem_cons_of_mem _ hr')
      cases hrefuse : n.ruleAdd r with
      | some e =>
          rw [addSwitchRules_cons_of_refused hrefuse]
          split
          · rfl
          · exact ih hrest
      | none =>
          by_cases hmem : r ∈ rules.elems
          · rw [addSwitchRules_cons_of_there hrefuse hmem]
            exact ih hrest
          · obtain ⟨rules', hadd, helems⟩ := Exclusive.add_of_not_mem hmem
            rw [addSwitchRules_cons_of_added hrefuse hadd, ih hrest, helems, List.filter_append,
              List.filter_singleton, h r List.mem_cons_self]
            exact List.append_nil _

/-- Nothing is reported exactly when adding is quiet. -/
theorem addSwitchRules_errors_eq_nil (hnodup : rs.Nodup) :
    (addSwitchRules n family rs rules).2 = [] ↔ Quiet n family rules.elems rs := by
  induction rs generalizing rules with
  | nil => exact iff_of_true rfl trivial
  | cons r rs ih =>
      obtain ⟨hfresh, hrest⟩ := List.nodup_cons.mp hnodup
      unfold Quiet
      cases hrefuse : n.ruleAdd r with
      | some e =>
          rw [addSwitchRules_cons_of_refused hrefuse]
          by_cases hskip : family = .inet6 ∧ tolerableV6 e = true
          · rw [if_pos hskip]
            exact iff_of_true rfl hskip
          · rw [if_neg hskip]
            exact iff_of_false (List.cons_ne_nil _ _) hskip
      | none =>
          by_cases hmem : r ∈ rules.elems
          · rw [addSwitchRules_cons_of_there hrefuse hmem]
            exact iff_of_false (List.cons_ne_nil _ _) fun h => h.1 hmem
          · obtain ⟨rules', hadd, helems⟩ := Exclusive.add_of_not_mem hmem
            rw [addSwitchRules_cons_of_added hrefuse hadd, ih hrest]
            refine (Quiet.congr fun r' hr' => ?_).trans (and_iff_right hmem).symm
            have hne : r' ≠ r := fun heq => hfresh (heq ▸ hr')
            rw [helems, List.mem_append, List.mem_singleton, or_iff_left hne]

/-- What is there after rules were added quietly. -/
theorem mem_addSwitchRules (h : Quiet n family rules.elems rs) (hnodup : rs.Nodup) {r : Rule} :
    r ∈ (addSwitchRules n family rs rules).1.elems ↔
      r ∈ rules.elems ∨ r ∈ rs.takeWhile fun r => (n.ruleAdd r).isNone := by
  induction rs generalizing rules with
  | nil => simp [addSwitchRules]
  | cons x rs ih =>
      obtain ⟨hfresh, hrest⟩ := List.nodup_cons.mp hnodup
      unfold Quiet at h
      cases hrefuse : n.ruleAdd x with
      | some e =>
          rw [hrefuse] at h
          have hskip : Skips family e := h
          rw [addSwitchRules_cons_of_refused hrefuse, if_pos hskip, List.takeWhile_cons, hrefuse]
          simp
      | none =>
          rw [hrefuse] at h
          obtain ⟨rules', hadd, helems⟩ := Exclusive.add_of_not_mem h.1
          have hquiet : Quiet n family rules'.elems rs := by
            refine (Quiet.congr fun r' hr' => ?_).mp h.2
            have hne : r' ≠ x := fun heq => hfresh (heq ▸ hr')
            rw [helems, List.mem_append, List.mem_singleton, or_iff_left hne]
          rw [addSwitchRules_cons_of_added hrefuse hadd, ih hquiet hrest, helems,
            List.takeWhile_cons, hrefuse]
          simp [or_assoc]

end Adding

section Family

variable {n : Netlink} {uid : Nat} {k : Kernel} {family : Family}

/-- What is left after the rules of a half were removed. -/
theorem mem_removed (hdel : ∀ r, isSwitchRule r = true → n.ruleDel r = none) {r : Rule}
    (hfamily : r.family = family) (hswitch : isSwitchRule r = true) :
    r ∈ (removeKillSwitchRules n .install family k).1.rules.elems ↔ r ∈ leftRules n k family := by
  unfold leftRules
  cases hlist : n.ruleList .install family with
  | none =>
      rw [(removeKillSwitchRules_of_listed hlist hdel).1 r]
      simp [hfamily, hswitch]
  | some e =>
      unfold removeKillSwitchRules
      rw [hlist]
      simp [Kernel.rulesOf, hfamily, hswitch]

/-- What removing reports. -/
theorem removed_errors_eq_nil (hdel : ∀ r, isSwitchRule r = true → n.ruleDel r = none) :
    counted family (removeKillSwitchRules n .install family k).2 = [] ↔
      ∀ e, n.ruleList .install family = some e → Skips family e := by
  cases hlist : n.ruleList .install family with
  | none =>
      rw [(removeKillSwitchRules_of_listed hlist hdel).2]
      refine iff_of_true ?_ (fun e he => by cases he)
      unfold counted
      split <;> rfl
  | some e =>
      unfold removeKillSwitchRules
      rw [hlist]
      simp [counted, Skips, RouteError.errno]

theorem mem_killSwitchRules_left (hdel : ∀ r, isSwitchRule r = true → n.ruleDel r = none)
    {r : Rule} (hr : r ∈ killSwitchRules family uid) :
    r ∈ (removeKillSwitchRules n .install family k).1.rules.elems ↔ r ∈ leftRules n k family :=
  mem_removed hdel (isSwitchRule_of_mem hr).2 (isSwitchRule_of_mem hr).1

/-- A half reports nothing exactly when it passes. -/
theorem installFamily_errors_eq_nil (hdel : ∀ r, isSwitchRule r = true → n.ruleDel r = none) :
    (installFamily n uid family k).2 = [] ↔ Passes n uid k family := by
  have hremoved : counted family (removeKillSwitchRules n .install family k).2 = [] ↔ _ :=
    removed_errors_eq_nil hdel
  unfold installFamily
  dsimp only
  cases hroute : n.routeReplace (unreachableDefault family) with
  | some e =>
      dsimp only
      rw [List.append_eq_nil_iff, hremoved]
      constructor
      · rintro ⟨hlist, hskip⟩
        refine ⟨hlist, fun e' he' => ?_, fun hnone => absurd (hroute.symm.trans hnone) nofun⟩
        cases hroute.symm.trans he'
        by_contra hnot
        rw [if_neg hnot] at hskip
        cases hskip
      · intro h
        exact ⟨h.list, if_pos (h.route e hroute)⟩
  | none =>
      dsimp only
      rw [List.append_eq_nil_iff, hremoved,
        addSwitchRules_errors_eq_nil (nodup_killSwitchRules _ _), routeReplace_rules,
        Quiet.congr fun r hr => mem_killSwitchRules_left (k := k) hdel hr]
      constructor
      · rintro ⟨hlist, hquiet⟩
        exact ⟨hlist, fun e he => absurd (hroute.symm.trans he) nofun, fun _ => hquiet⟩
      · intro h
        exact ⟨h.list, h.rules hroute⟩

/-- Putting a half in leaves alone the rules that are not of it. -/
theorem filter_installFamily (p : Rule → Bool)
    (h : ∀ r, r.family = family → isSwitchRule r = true → p r = false) :
    (installFamily n uid family k).1.rules.elems.filter p = k.rules.elems.filter p := by
  have hremoved : (removeKillSwitchRules n .install family k).1.rules.elems.filter p =
      k.rules.elems.filter p := by
    unfold removeKillSwitchRules
    split
    · rfl
    · refine Exclusive.filter_delEach p fun r hr => ?_
      obtain ⟨hmem, hswitch⟩ := List.mem_filter.mp hr
      exact h r (of_decide_eq_true (List.mem_filter.mp hmem).2) hswitch
  unfold installFamily
  dsimp only
  split
  · exact hremoved
  · refine (filter_addSwitchRules p fun r hr => ?_).trans hremoved
    obtain ⟨hswitch, hfamily⟩ := isSwitchRule_of_mem hr
    exact h r hfamily hswitch

/-- And the routes of another family. -/
theorem mem_routes_installFamily {r : Route} (h : r.family ≠ family) :
    r ∈ (installFamily n uid family k).1.routes ↔ r ∈ k.routes := by
  unfold installFamily
  dsimp only
  split
  · rw [removeKillSwitchRules_routes]
  · rename_i hroute
    change r ∈ (Kernel.routeReplace _ _).routes ↔ _
    have hne : r ≠ unreachableDefault family := fun heq => h (heq ▸ rfl)
    rw [Kernel.routeReplace, List.mem_append, List.mem_singleton, or_iff_left hne, List.mem_filter,
      removeKillSwitchRules_routes]
    refine and_iff_left ?_
    rw [decide_eq_true_eq]
    exact fun heq => h heq.1

/-- A half whose route goes in has its rules up to the first that is refused, and what was left. -/
theorem installed_half (hdel : ∀ r, isSwitchRule r = true → n.ruleDel r = none)
    (h : Passes n uid k family) (hroute : n.routeReplace (unreachableDefault family) = none) :
    (∀ r, r.family = family → isSwitchRule r = true →
      (r ∈ (installFamily n uid family k).1.rules.elems ↔
        r ∈ leftRules n k family ∨ r ∈ goesIn n uid family)) ∧
      unreachableDefault family ∈ (installFamily n uid family k).1.routes := by
  have hquiet := (Quiet.congr fun r hr => mem_killSwitchRules_left (k := k) hdel hr).mpr
    (h.rules hroute)
  unfold installFamily
  dsimp only
  rw [hroute]
  constructor
  · intro r hfamily hswitch
    refine (mem_addSwitchRules hquiet (nodup_killSwitchRules _ _)).trans (or_congr_left ?_)
    exact mem_removed hdel hfamily hswitch
  · exact List.mem_append_right _ (List.mem_singleton_self _)

/-- A half whose route is refused has what was left. -/
theorem skipped_half (hdel : ∀ r, isSwitchRule r = true → n.ruleDel r = none) (uid : Nat)
    (k : Kernel) {e : Errno}
    (hroute : n.routeReplace (unreachableDefault family) = some e) :
    (∀ r, r.family = family → isSwitchRule r = true →
      (r ∈ (installFamily n uid family k).1.rules.elems ↔ r ∈ leftRules n k family)) ∧
      (installFamily n uid family k).1.routes = k.routes := by
  unfold installFamily
  dsimp only
  rw [hroute]
  exact ⟨fun r hfamily hswitch => mem_removed hdel hfamily hswitch, removeKillSwitchRules_routes⟩

end Family

/-! ### The own-address rules behind it -/

/-- The rules at the priority of the own-address rules, in order. -/
def Kernel.own (k : Kernel) : List Rule :=
  k.rules.elems.filter (·.priority = ownAddressPriority)

/-- Every call of the sync goes through: none is refused, what is to go is there once, and what
is to come is listed once. -/
structure Syncs (n : Netlink) (h : Host) (k : Kernel) : Prop where
  addrs : n.addrList = none
  lists : ∀ family, n.ruleList .sync family = none
  dels : ∀ a ∈ k.held, a ∉ h.globalAddresses →
    n.ruleDel (ownRule a) = none ∧ ownRule a ∈ k.rules.elems
  delsOnce : (k.held.filter (· ∉ h.globalAddresses)).Nodup
  adds : ∀ a ∈ h.globalAddresses, a ∉ k.held → n.ruleAdd (ownRule a) = none
  addsOnce : (h.globalAddresses.filter (· ∉ k.held)).Nodup

/-- The sync adds no rule: it does not get as far, or every rule it adds is refused. -/
def AddsNothing (n : Netlink) (h : Host) (k : Kernel) : Prop :=
  n.addrList ≠ none ∨ (∃ family, n.ruleList .sync family ≠ none) ∨
    ∀ a ∈ h.globalAddresses, a ∉ k.held → n.ruleAdd (ownRule a) ≠ none

section Own

variable {n : Netlink} {h : Host} {k k' : Kernel}

theorem held_congr (hown : k.own = k'.own) : k.held = k'.held := by
  have hread : ∀ (k : Kernel) (family : Family),
      (k.rulesOf family).filterMap ownAddress =
        (k.own.filter (·.family = family)).filterMap ownAddress := by
    intro k family
    rw [Kernel.rulesOf, Kernel.own, List.filter_comm]
    refine Eq.trans (List.filterMap_congr fun r _ => ?_) List.filterMap_filter.symm
    by_cases hpriority : r.priority = ownAddressPriority
    · rw [if_pos (decide_eq_true hpriority)]
    · rw [if_neg (by simpa using hpriority), ownAddress, if_neg hpriority]
  rw [Kernel.held, Kernel.held, hread k, hread k, hread k', hread k', hown]

theorem mem_own_iff {r : Rule} (hpriority : r.priority = ownAddressPriority) :
    r ∈ k.own ↔ r ∈ k.rules.elems := by
  rw [Kernel.own, List.mem_filter]
  exact and_iff_left (decide_eq_true hpriority)

theorem mem_held_of_ownRule {a : Addr} (ha : a.unmap = a) (hmem : ownRule a ∈ k.rules.elems) :
    a ∈ k.held :=
  mem_held.mpr ⟨_, hmem, by rw [ownAddress_ownRule, ha]⟩

theorem existing_of_listed (hlists : ∀ family, n.ruleList .sync family = none) :
    existing n k = .ok k.held := by
  unfold existing
  rw [hlists .inet, hlists .inet6]

theorem exists_error_of_refused {family : Family} (hrefused : n.ruleList .sync family ≠ none) :
    ∃ e, existing n k = .error e := by
  unfold existing
  cases hinet : n.ruleList .sync .inet with
  | some e => exact ⟨e, rfl⟩
  | none =>
      cases hinet6 : n.ruleList .sync .inet6 with
      | some e => exact ⟨e, rfl⟩
      | none =>
          cases family with
          | inet => exact absurd hinet hrefused
          | inet6 => exact absurd hinet6 hrefused

/-- Only rules of addresses are edited. -/
theorem syncOwnRules_frame (n : Netlink) (h : Host) (k : Kernel) :
    (Daemon.syncOwnRules n h k).1.routes = k.routes ∧
      ∀ r, isSwitchRule r = true →
        (r ∈ (Daemon.syncOwnRules n h k).1.rules.elems ↔ r ∈ k.rules.elems) := by
  unfold Daemon.syncOwnRules
  split
  · exact ⟨rfl, fun _ _ => Iff.rfl⟩
  · unfold sync
    split
    · exact ⟨rfl, fun _ _ => Iff.rfl⟩
    · refine ⟨rfl, fun r hswitch => mem_edit.trans ?_⟩
      have hne : ∀ a, ownRule a ≠ r := by
        rintro a rfl
        rw [isSwitchRule_of_own rfl] at hswitch
        cases hswitch
      simp [hne]

/-- The sync reports nothing exactly when every call goes through. -/
theorem syncOwnRules_errors_eq_nil : (Daemon.syncOwnRules n h k).2 = [] ↔ Syncs n h k := by
  unfold Daemon.syncOwnRules
  cases haddrs : n.addrList with
  | some e =>
      refine iff_of_false (List.cons_ne_nil _ _) fun hs => ?_
      cases haddrs.symm.trans hs.addrs
  | none =>
      by_cases hlists : ∀ family, n.ruleList .sync family = none
      · unfold sync
        rw [existing_of_listed hlists]
        refine edit_errors_eq_nil.trans ⟨?_, fun hs => ⟨⟨?_, hs.delsOnce⟩, ?_, hs.addsOnce⟩⟩
        · rintro ⟨⟨hdels, hdelsOnce⟩, hadds, haddsOnce⟩
          refine ⟨haddrs, hlists, fun a ha hnot => ?_, hdelsOnce, fun a ha hnot => ?_, haddsOnce⟩
          · exact hdels a (List.mem_filter.mpr ⟨ha, decide_eq_true hnot⟩)
          · exact (hadds a (List.mem_filter.mpr ⟨ha, decide_eq_true hnot⟩)).1
        · intro a ha
          obtain ⟨hheld, hnot⟩ := List.mem_filter.mp ha
          exact hs.dels a hheld (of_decide_eq_true hnot)
        · intro a ha
          obtain ⟨hwant, hnot⟩ := List.mem_filter.mp ha
          refine ⟨hs.adds a hwant (of_decide_eq_true hnot), fun hmem => ?_⟩
          have hkept := (Exclusive.mem_delEach.mp hmem).1
          exact of_decide_eq_true hnot (mem_held_of_ownRule (unmap_of_mem_filterGlobal hwant) hkept)
      · obtain ⟨family, hrefused⟩ := not_forall.mp hlists
        obtain ⟨e, he⟩ := exists_error_of_refused (k := k) hrefused
        unfold sync
        rw [he]
        exact iff_of_false (List.cons_ne_nil _ _) fun hs => hlists hs.lists

/-- No own-address rule is new after the sync exactly when it adds nothing. -/
theorem syncOwnRules_adds_iff : (∀ r ∈ (Daemon.syncOwnRules n h k).1.rules.elems,
      r.priority = ownAddressPriority → r ∈ k.rules.elems) ↔ AddsNothing n h k := by
  unfold Daemon.syncOwnRules AddsNothing
  cases haddrs : n.addrList with
  | some e => exact iff_of_true (fun r hr _ => hr) (.inl nofun)
  | none =>
      by_cases hlists : ∀ family, n.ruleList .sync family = none
      · unfold sync
        rw [existing_of_listed hlists]
        constructor
        · intro hkept
          refine .inr (.inr fun a ha hnot hadd => hnot ?_)
          refine mem_held_of_ownRule (unmap_of_mem_filterGlobal ha) (hkept (ownRule a) ?_ rfl)
          exact mem_edit.mpr (.inr ⟨a, List.mem_filter.mpr ⟨ha, decide_eq_true hnot⟩, hadd, rfl⟩)
        · rintro (hrefused | ⟨family, hrefused⟩ | hadds) r hr -
          · exact absurd rfl hrefused
          · exact absurd (hlists family) hrefused
          · rcases mem_edit.mp hr with ⟨hmem, -⟩ | ⟨a, ha, hadd, -⟩
            · exact hmem
            · obtain ⟨hwant, hnot⟩ := List.mem_filter.mp ha
              exact absurd hadd (hadds a hwant (of_decide_eq_true hnot))
      · obtain ⟨family, hrefused⟩ := not_forall.mp hlists
        obtain ⟨e, he⟩ := exists_error_of_refused (k := k) hrefused
        unfold sync
        rw [he]
        exact iff_of_true (fun r hr _ => hr) (.inr (.inl ⟨family, hrefused⟩))

/-- What the sync needs is the own-address rules. -/
theorem Syncs.congr (hown : k.own = k'.own) : Syncs n h k ↔ Syncs n h k' := by
  have hheld := held_congr hown
  have hrule : ∀ a, ownRule a ∈ k.rules.elems ↔ ownRule a ∈ k'.rules.elems := by
    intro a
    rw [← mem_own_iff (k := k) (show (ownRule a).priority = ownAddressPriority from rfl),
      ← mem_own_iff (k := k') (show (ownRule a).priority = ownAddressPriority from rfl), hown]
  constructor
  · intro hs
    refine ⟨hs.addrs, hs.lists, ?_, hheld ▸ hs.delsOnce, hheld ▸ hs.adds, hheld ▸ hs.addsOnce⟩
    intro a ha hnot
    obtain ⟨hdel, hmem⟩ := hs.dels a (hheld.symm ▸ ha) hnot
    exact ⟨hdel, (hrule a).mp hmem⟩
  · intro hs
    refine ⟨hs.addrs, hs.lists, ?_, hheld.symm ▸ hs.delsOnce, hheld.symm ▸ hs.adds,
      hheld.symm ▸ hs.addsOnce⟩
    intro a ha hnot
    obtain ⟨hdel, hmem⟩ := hs.dels a (hheld ▸ ha) hnot
    exact ⟨hdel, (hrule a).mpr hmem⟩

theorem AddsNothing.congr (hown : k.own = k'.own) : AddsNothing n h k ↔ AddsNothing n h k' := by
  unfold AddsNothing
  rw [held_congr hown]

end Own

/-! ### Whole or not at all -/

/-- The half of IPv6 goes in whole or stays out whole. With its route refused, it is what was there
before and could not be listed. -/
def Halves (n : Netlink) (uid : Nat) (k : Kernel) : Prop :=
  match n.routeReplace (unreachableDefault .inet6) with
  | none => ∀ r ∈ killSwitchRules .inet6 uid, r ∈ leftRules n k .inet6 ∨ r ∈ goesIn n uid .inet6
  | some _ =>
      ((∀ r ∈ killSwitchRules .inet6 uid, r ∈ leftRules n k .inet6) ∧
        unreachableDefault .inet6 ∈ k.routes) ∨
      leftRules n k .inet6 = [] ∧ ∀ r ∈ k.routes, isSwitchRoute .inet6 r = false

/-- What putting the switch in should leave: the half of IPv4 whole and that of IPv6 whole or not
at all, or, with an error, nothing of the switch and no new own-address rule. -/
structure Whole (n : Netlink) (uid : Nat) (h : Host) (k : Kernel) : Prop where
  ok : (Daemon.installKillSwitch n uid h false k).2 = [] →
    (Daemon.installKillSwitch n uid h false k).1.AllIn .inet uid ∧
      ((Daemon.installKillSwitch n uid h false k).1.AllIn .inet6 uid ∨
        (Daemon.installKillSwitch n uid h false k).1.NoneIn .inet6)
  undone : (Daemon.installKillSwitch n uid h false k).2 ≠ [] →
    (∀ family, (Daemon.installKillSwitch n uid h false k).1.NoneIn family) ∧
      ∀ r ∈ (Daemon.installKillSwitch n uid h false k).1.rules.elems,
        r.priority = ownAddressPriority → r ∈ k.rules.elems

section Both

variable {n : Netlink} {uid : Nat} {h : Host} {k : Kernel}

theorem inet6_ne_inet : Family.inet6 ≠ .inet := nofun

/-- The kernel once both halves were put in. -/
def bothIn (n : Netlink) (uid : Nat) (k : Kernel) : Kernel :=
  (installFamily n uid .inet6 (installFamily n uid .inet k).1).1

theorem rulesOf_installFamily {family other : Family} (hne : family ≠ other) :
    (installFamily n uid family k).1.rulesOf other = k.rulesOf other :=
  filter_installFamily _ fun _ hr _ => decide_eq_false (hr ▸ hne)

theorem mem_installFamily_other {family other : Family} (hne : family ≠ other) {r : Rule}
    (hr : r.family = other) :
    r ∈ (installFamily n uid family k).1.rules.elems ↔ r ∈ k.rules.elems := by
  have hkept : (installFamily n uid family k).1.rulesOf other = k.rulesOf other :=
    rulesOf_installFamily hne
  have hmem : ∀ k : Kernel, r ∈ k.rulesOf other ↔ r ∈ k.rules.elems := by
    intro k
    rw [Kernel.rulesOf, List.mem_filter]
    exact and_iff_left (decide_eq_true hr)
  rw [← hmem, hkept, hmem]

theorem leftRules_installFamily {family other : Family} (hne : family ≠ other) :
    leftRules n (installFamily n uid family k).1 other = leftRules n k other := by
  rw [leftRules, leftRules, rulesOf_installFamily hne]

theorem passes_installFamily {family other : Family} (hne : family ≠ other) :
    Passes n uid (installFamily n uid family k).1 other ↔ Passes n uid k other := by
  have hleft : leftRules n (installFamily n uid family k).1 other = leftRules n k other :=
    leftRules_installFamily hne
  constructor
  · intro h
    exact ⟨h.list, h.route, hleft ▸ h.rules⟩
  · intro h
    exact ⟨h.list, h.route, hleft.symm ▸ h.rules⟩

/-- Nothing of IPv4 is skipped, so all of its rules go in. -/
theorem Passes.goesIn_inet (hp : Passes n uid k .inet) :
    n.routeReplace (unreachableDefault .inet) = none ∧
      ∀ r ∈ killSwitchRules .inet uid, r ∈ goesIn n uid .inet := by
  have hroute : n.routeReplace (unreachableDefault .inet) = none := by
    rw [Option.eq_none_iff_forall_ne_some]
    intro e he
    exact absurd (hp.route e he).1 nofun
  have hall : ∀ {left rs}, Quiet n .inet left rs → ∀ r ∈ rs, (n.ruleAdd r).isNone := by
    intro left rs hquiet
    induction rs with
    | nil => nofun
    | cons x rs ih =>
        unfold Quiet at hquiet
        cases hrefuse : n.ruleAdd x with
        | some e =>
            rw [hrefuse] at hquiet
            exact absurd hquiet.1 nofun
        | none =>
            rw [hrefuse] at hquiet
            intro r hr
            rcases List.mem_cons.mp hr with rfl | hr
            · rw [hrefuse]
              rfl
            · exact ih hquiet.2 r hr
  refine ⟨hroute, fun r hr => ?_⟩
  rwa [goesIn, List.takeWhile_eq_self_iff.mpr (hall (hp.rules hroute))]

theorem allIn_inet_bothIn (hn : n.Removes) (hp : Passes n uid k .inet) :
    (bothIn n uid k).AllIn .inet uid := by
  obtain ⟨hroute, hall⟩ := hp.goesIn_inet
  obtain ⟨hrules, hdefault⟩ := installed_half hn.ruleDel hp hroute
  constructor
  · intro r hr
    obtain ⟨hswitch, hfamily⟩ := isSwitchRule_of_mem hr
    refine (mem_installFamily_other inet6_ne_inet hfamily).mpr ?_
    exact (hrules r hfamily hswitch).mpr (.inr (hall r hr))
  · exact (mem_routes_installFamily inet6_ne_inet.symm).mpr hdefault

/-- The half of IPv6 is whole or out exactly as said. -/
theorem bothIn_inet6_iff (hn : n.Removes) (hp : Passes n uid k .inet6) :
    (bothIn n uid k).AllIn .inet6 uid ∨ (bothIn n uid k).NoneIn .inet6 ↔ Halves n uid k := by
  have hp6 : Passes n uid (installFamily n uid .inet k).1 .inet6 :=
    (passes_installFamily inet6_ne_inet.symm).mpr hp
  have hleft : leftRules n (installFamily n uid .inet k).1 .inet6 = leftRules n k .inet6 :=
    leftRules_installFamily inet6_ne_inet.symm
  unfold Halves
  cases hroute : n.routeReplace (unreachableDefault .inet6) with
  | none =>
      obtain ⟨hrules, hdefault⟩ := installed_half hn.ruleDel hp6 hroute
      rw [hleft] at hrules
      constructor
      · rintro (hall | hnone) r hr
        · obtain ⟨hswitch, hfamily⟩ := isSwitchRule_of_mem hr
          exact (hrules r hfamily hswitch).mp (hall.rules r hr)
        · -- the route is in
          exact absurd (hnone.routes _ hdefault) (by decide)
      · intro hall
        refine .inl ⟨fun r hr => ?_, hdefault⟩
        obtain ⟨hswitch, hfamily⟩ := isSwitchRule_of_mem hr
        exact (hrules r hfamily hswitch).mpr (hall r hr)
  | some e =>
      obtain ⟨hrules, hroutes⟩ :=
        skipped_half hn.ruleDel uid (installFamily n uid .inet k).1 hroute
      rw [hleft] at hrules
      have hsame : ∀ r : Route, r.family = .inet6 →
          (r ∈ (bothIn n uid k).routes ↔ r ∈ k.routes) := by
        intro r hfamily
        rw [bothIn, hroutes]
        exact mem_routes_installFamily (hfamily ▸ inet6_ne_inet)
      refine or_congr ?_ ?_
      · constructor
        · intro hall
          refine ⟨fun r hr => ?_, (hsame _ rfl).mp hall.route⟩
          obtain ⟨hswitch, hfamily⟩ := isSwitchRule_of_mem hr
          exact (hrules r hfamily hswitch).mp (hall.rules r hr)
        · rintro ⟨hall, hdefault⟩
          refine ⟨fun r hr => ?_, (hsame _ rfl).mpr hdefault⟩
          obtain ⟨hswitch, hfamily⟩ := isSwitchRule_of_mem hr
          exact (hrules r hfamily hswitch).mpr (hall r hr)
      · have hleftOf : ∀ r ∈ leftRules n k .inet6, r.family = .inet6 ∧ isSwitchRule r = true := by
          intro r hr
          unfold leftRules at hr
          split at hr
          · obtain ⟨hmem, hswitch⟩ := List.mem_filter.mp hr
            exact ⟨of_decide_eq_true (List.mem_filter.mp hmem).2, hswitch⟩
          · cases hr
        have hfamilyOf : ∀ r : Route, isSwitchRoute .inet6 r = true → r.family = .inet6 := by
          intro r hr
          rw [isSwitchRoute, Bool.and_eq_true, decide_eq_true_eq] at hr
          exact hr.1
        constructor
        · intro hnone
          constructor
          · refine List.eq_nil_iff_forall_not_mem.mpr fun r hr => ?_
            obtain ⟨hfamily, hswitch⟩ := hleftOf r hr
            have hout := hnone.rules r ((hrules r hfamily hswitch).mpr hr) hfamily
            rw [hswitch] at hout
            cases hout
          · intro r hr
            rw [← Bool.not_eq_true]
            intro hswitch
            have hout := hnone.routes r ((hsame r (hfamilyOf r hswitch)).mpr hr)
            rw [hswitch] at hout
            cases hout
        · rintro ⟨hnil, hnone⟩
          constructor
          · intro r hr hfamily
            rw [← Bool.not_eq_true]
            intro hswitch
            have hin := (hrules r hfamily hswitch).mp hr
            rw [hnil] at hin
            cases hin
          · intro r hr
            rw [← Bool.not_eq_true]
            intro hswitch
            have hout := hnone r ((hsame r (hfamilyOf r hswitch)).mp hr)
            rw [hswitch] at hout
            cases hout

theorem own_bothIn : (bothIn n uid k).own = k.own := by
  have hnot : ∀ (family : Family) (r : Rule), r.family = family → isSwitchRule r = true →
      decide (r.priority = ownAddressPriority) = false := by
    rintro family r - hswitch
    refine decide_eq_false fun hpriority => ?_
    rw [isSwitchRule_of_own hpriority] at hswitch
    cases hswitch
  rw [bothIn, Kernel.own, filter_installFamily _ (hnot .inet6), filter_installFamily _ (hnot .inet)]
  rfl

/-- `InstallKillSwitch` passes with both halves, and takes everything out where one does not. -/
theorem installKillSwitch_eq (hn : n.Removes) :
    (Passes n uid k .inet ∧ Passes n uid k .inet6 ∧
      installKillSwitch n uid k = (bothIn n uid k, [])) ∨
    (¬ (Passes n uid k .inet ∧ Passes n uid k .inet6) ∧
      ∃ errs ≠ [],
        installKillSwitch n uid k = ((removeKillSwitch n (bothIn n uid k)).1, errs)) := by
  have hinet : (installFamily n uid .inet k).2 = [] ↔ Passes n uid k .inet :=
    installFamily_errors_eq_nil hn.ruleDel
  have hinet6 : (installFamily n uid .inet6 (installFamily n uid .inet k).1).2 = [] ↔
      Passes n uid k .inet6 :=
    (installFamily_errors_eq_nil hn.ruleDel).trans (passes_installFamily inet6_ne_inet.symm)
  unfold installKillSwitch
  dsimp only
  by_cases hboth : Passes n uid k .inet ∧ Passes n uid k .inet6
  · have herrs := List.append_eq_nil_iff.mpr ⟨hinet.mpr hboth.1, hinet6.mpr hboth.2⟩
    exact .inl ⟨hboth.1, hboth.2, if_pos herrs⟩
  · refine .inr ⟨hboth, _, fun herrs => hboth ?_, if_neg fun herrs => hboth ?_⟩
    all_goals
      obtain ⟨h4, h6⟩ := List.append_eq_nil_iff.mp herrs
      exact ⟨hinet.mp h4, hinet6.mp h6⟩

theorem allIn_congr {k k' : Kernel} {family : Family} (hroutes : k.routes = k'.routes)
    (hrules : ∀ r, isSwitchRule r = true → (r ∈ k.rules.elems ↔ r ∈ k'.rules.elems)) :
    k.AllIn family uid ↔ k'.AllIn family uid := by
  constructor
  · intro h
    refine ⟨fun r hr => (hrules r (isSwitchRule_of_mem hr).1).mp (h.rules r hr), ?_⟩
    exact hroutes ▸ h.route
  · intro h
    refine ⟨fun r hr => (hrules r (isSwitchRule_of_mem hr).1).mpr (h.rules r hr), ?_⟩
    exact hroutes.symm ▸ h.route

theorem noneIn_congr {k k' : Kernel} {family : Family} (hroutes : k.routes = k'.routes)
    (hrules : ∀ r, isSwitchRule r = true → (r ∈ k.rules.elems ↔ r ∈ k'.rules.elems)) :
    k.NoneIn family ↔ k'.NoneIn family := by
  have hout : ∀ {k k' : Kernel},
      (∀ r, isSwitchRule r = true → (r ∈ k.rules.elems ↔ r ∈ k'.rules.elems)) →
      (∀ r ∈ k.rules.elems, r.family = family → isSwitchRule r = false) →
      ∀ r ∈ k'.rules.elems, r.family = family → isSwitchRule r = false := by
    intro k k' hsame h r hr hfamily
    rw [← Bool.not_eq_true]
    intro hswitch
    have hnot := h r ((hsame r hswitch).mpr hr) hfamily
    rw [hswitch] at hnot
    cases hnot
  constructor
  · intro h
    exact ⟨hout hrules h.rules, hroutes ▸ h.routes⟩
  · intro h
    exact ⟨hout (fun r hr => (hrules r hr).symm) h.rules, hroutes.symm ▸ h.routes⟩

/-- Nothing of the switch is left, and of the own-address rules those of `k`. -/
theorem removed_own {k : Kernel} (hn : n.Removes) {r : Rule}
    (hpriority : r.priority = ownAddressPriority) :
    r ∈ (removeKillSwitch n k).1.rules.elems ↔ r ∈ k.rules.elems :=
  (removeKillSwitch_of_removes hn).2 r (isSwitchRule_of_own hpriority)

/-- A half that does not pass takes everything out. -/
theorem whole_of_refused (uid : Nat) (h : Host) (k : Kernel) (hn : n.Removes)
    {errs : List RouteError} (herrs : errs ≠ [])
    (heq : installKillSwitch n uid k = ((removeKillSwitch n (bothIn n uid k)).1, errs)) :
    Whole n uid h k := by
  have hout : Daemon.installKillSwitch n uid h false k =
      ((removeKillSwitch n (bothIn n uid k)).1, errs) := by
    rw [Daemon.installKillSwitch, if_neg Bool.false_ne_true, heq]
    exact if_pos herrs
  constructor
  · intro hok
    rw [hout] at hok
    exact absurd hok herrs
  · intro _
    rw [hout]
    refine ⟨(removeKillSwitch_of_removes hn).1, fun r hr hpriority => ?_⟩
    have hboth := (removed_own hn hpriority).mp hr
    rwa [← mem_own_iff hpriority, own_bothIn, mem_own_iff hpriority] at hboth

/-- With both halves in and a sync that goes through, the half of IPv6 decides. -/
theorem whole_iff_of_syncs (hn : n.Removes) (hp4 : Passes n uid k .inet)
    (hp6 : Passes n uid k .inet6) (heq : installKillSwitch n uid k = (bothIn n uid k, []))
    (hs : Syncs n h k) : Whole n uid h k ↔ Halves n uid k := by
  obtain ⟨hroutes, hrules⟩ := syncOwnRules_frame n h (bothIn n uid k)
  have hsynced : (Daemon.syncOwnRules n h (bothIn n uid k)).2 = [] :=
    syncOwnRules_errors_eq_nil.mpr ((Syncs.congr own_bothIn).mpr hs)
  have hout : Daemon.installKillSwitch n uid h false k =
      ((Daemon.syncOwnRules n h (bothIn n uid k)).1, []) := by
    rw [Daemon.installKillSwitch, if_neg Bool.false_ne_true, heq]
    dsimp only
    rw [if_neg (not_not_intro rfl), if_neg (not_not_intro hsynced)]
  have hhalves : _ ↔ Halves n uid k := bothIn_inet6_iff hn hp6
  rw [← allIn_congr hroutes hrules, ← noneIn_congr hroutes hrules] at hhalves
  constructor
  · intro hwhole
    have hok := hwhole.ok
    rw [hout] at hok
    exact hhalves.mp (hok rfl).2
  · intro hcond
    refine ⟨fun _ => ?_, fun herr => ?_⟩
    · rw [hout]
      exact ⟨(allIn_congr hroutes hrules).mpr (allIn_inet_bothIn hn hp4), hhalves.mpr hcond⟩
    · rw [hout] at herr
      exact absurd rfl herr

/-- With both halves in and a sync that fails, the rules it added before decide. -/
theorem whole_iff_of_not_syncs (hn : n.Removes)
    (heq : installKillSwitch n uid k = (bothIn n uid k, [])) (hs : ¬ Syncs n h k) :
    Whole n uid h k ↔ AddsNothing n h k := by
  have hfailed : (Daemon.syncOwnRules n h (bothIn n uid k)).2 ≠ [] := by
    intro hok
    exact hs ((Syncs.congr own_bothIn).mp (syncOwnRules_errors_eq_nil.mp hok))
  have hout : Daemon.installKillSwitch n uid h false k =
      ((removeKillSwitch n (Daemon.syncOwnRules n h (bothIn n uid k)).1).1,
        (Daemon.syncOwnRules n h (bothIn n uid k)).2) := by
    rw [Daemon.installKillSwitch, if_neg Bool.false_ne_true, heq]
    dsimp only
    rw [if_neg (not_not_intro rfl), if_pos hfailed]
  -- the rules at the priority are those the sync left
  have hown : ∀ r : Rule, r.priority = ownAddressPriority →
      (r ∈ (bothIn n uid k).rules.elems ↔ r ∈ k.rules.elems) := by
    intro r hpriority
    rw [← mem_own_iff hpriority, own_bothIn, mem_own_iff hpriority]
  have hadds : AddsNothing n h (bothIn n uid k) ↔ AddsNothing n h k := AddsNothing.congr own_bothIn
  rw [← syncOwnRules_adds_iff] at hadds
  constructor
  · intro hwhole
    have hundone := hwhole.undone
    rw [hout] at hundone
    refine hadds.mp fun r hr hpriority => (hown r hpriority).mpr ?_
    exact (hundone hfailed).2 r ((removed_own hn hpriority).mpr hr) hpriority
  · intro hcond
    refine ⟨fun hok => ?_, fun _ => ?_⟩
    · rw [hout] at hok
      exact absurd hok hfailed
    · rw [hout]
      refine ⟨(removeKillSwitch_of_removes hn).1, fun r hr hpriority => ?_⟩
      refine (hown r hpriority).mp ?_
      exact hadds.mpr hcond r ((removed_own hn hpriority).mp hr) hpriority

/-- **The switch goes in whole or not at all exactly when**, if both halves pass, the half of IPv6
is not cut short by a refusal that is skipped at, and a sync that fails adds no rule first. -/
theorem installKillSwitch_whole_iff (n : Netlink) (uid : Nat) (h : Host) (k : Kernel)
    (hn : n.Removes) :
    Whole n uid h k ↔ (Passes n uid k .inet → Passes n uid k .inet6 →
      (Syncs n h k → Halves n uid k) ∧ (¬ Syncs n h k → AddsNothing n h k)) := by
  rcases installKillSwitch_eq hn with ⟨hp4, hp6, heq⟩ | ⟨hnot, errs, herrs, heq⟩
  · rw [forall_prop_of_true hp4, forall_prop_of_true hp6]
    by_cases hs : Syncs n h k
    · rw [whole_iff_of_syncs hn hp4 hp6 heq hs, forall_prop_of_true hs]
      exact (and_iff_left (absurd hs)).symm
    · rw [whole_iff_of_not_syncs hn heq hs, forall_prop_of_true hs]
      exact (and_iff_right fun h => absurd h hs).symm
  · refine iff_of_true (whole_of_refused uid h k hn herrs heq) fun hp4 hp6 => ?_
    exact absurd ⟨hp4, hp6⟩ hnot

end Both

/-- A host with two addresses. -/
def Host.two : Host where
  addrs := [{ scope := scopeUniverse, linkIndex := 2, ip := some [192, 0, 2, 1] },
    { scope := scopeUniverse, linkIndex := 2, ip := some [192, 0, 2, 2] }]
  excludeIndex := 7

/-- A kernel that refuses the rules of the addresses. -/
def refusingOwn : Netlink where
  ruleAdd r := if r.priority = ownAddressPriority then some (.other 12) else none

theorem refusingOwn_passes (uid : Nat) (family : Family) :
    Passes refusingOwn uid Kernel.bare family where
  list e he := by cases he
  route e he := by cases he
  rules _ := ⟨List.not_mem_nil, List.not_mem_nil, List.not_mem_nil, trivial⟩

/-- With nothing refused the switch goes in whole; with the rules of its addresses refused, both
halves are taken out again. -/
theorem installKillSwitch_whole_two :
    Whole {} 990 Host.two Kernel.bare ∧
      (∀ family, Passes refusingOwn 990 Kernel.bare family) ∧
      (Daemon.installKillSwitch refusingOwn 990 Host.two false Kernel.bare).2 ≠ [] ∧
      Whole refusingOwn 990 Host.two Kernel.bare := by
  have hremoves : ∀ n : Netlink, n = {} ∨ n = refusingOwn → n.Removes := by
    rintro n (rfl | rfl) <;> exact ⟨fun _ => rfl, fun _ _ => rfl, fun _ => rfl, fun _ => rfl⟩
  refine ⟨?_, refusingOwn_passes 990, by decide, ?_⟩
  · refine (installKillSwitch_whole_iff {} 990 Host.two Kernel.bare (hremoves _ (.inl rfl))).mpr
      fun _ _ => ?_
    refine ⟨fun _ => ?_, fun hnot => absurd (syncOwnRules_errors_eq_nil.mp (by decide)) hnot⟩
    change ∀ r ∈ killSwitchRules .inet6 990, _
    decide
  · refine (installKillSwitch_whole_iff refusingOwn 990 Host.two Kernel.bare
      (hremoves _ (.inr rfl))).mpr fun _ _ => ?_
    refine ⟨fun hs => absurd (syncOwnRules_errors_eq_nil.mpr hs) (by decide), fun _ => ?_⟩
    refine .inr (.inr fun a _ _ h => ?_)
    cases h

/-- One refused rule leaves a part: the second rule of IPv6, refused as on a kernel without IPv6,
leaves the route and the first rule with no error; the rule of the second address, refused for
another reason, leaves the rule of the first. -/
theorem switch_left_in_part :
    (∃ n : Netlink, n.Removes ∧ (Daemon.installKillSwitch n 990 Host.two false Kernel.bare).2 = [] ∧
      ¬ Whole n 990 Host.two Kernel.bare) ∧
    ∃ n : Netlink, n.Removes ∧ (Daemon.installKillSwitch n 990 Host.two false Kernel.bare).2 ≠ [] ∧
      ¬ Whole n 990 Host.two Kernel.bare := by
  have hremoves : ∀ add : Rule → Option Errno, Netlink.Removes { ruleAdd := add } := by
    intro add
    exact ⟨fun _ => rfl, fun _ _ => rfl, fun _ => rfl, fun _ => rfl⟩
  constructor
  · refine ⟨{ ruleAdd := fun r =>
      if r.family = .inet6 ∧ r.priority = killSwitchSelf then some .eafnosupport else none },
      hremoves _, by decide, fun hwhole => ?_⟩
    rcases (hwhole.ok (by decide)).2 with hall | hnone
    · exact absurd (hall.rules _ (List.mem_cons_of_mem _ List.mem_cons_self)) (by decide)
    · exact absurd (hnone.routes (unreachableDefault .inet6) (by decide)) (by decide)
  · refine ⟨{ ruleAdd := fun r =>
      if r.src = some ([192, 0, 2, 2], 32) then some (.other 12) else none },
      hremoves _, by decide, fun hwhole => ?_⟩
    have hkept := (hwhole.undone (by decide)).2
      (ownRule (.v4 (Octets.ofBytes 4 [192, 0, 2, 1]))) (by decide) rfl
    exact absurd hkept (by decide)

end Ghostlane.Cli.Routes
