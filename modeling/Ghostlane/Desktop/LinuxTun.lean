import Ghostlane.Lib.Runs

/-!
# Ghostlane.Desktop.LinuxTun

The Linux tunnel and its kill switch (`LinuxTunController`, `LinuxKillSwitch`). Four
parties share the machine: the app, which is not root and moves one statement at a time
(`Stage`); the scripts it has run as root, behind a dialog that may be closed; hev, which
holds the tun and runs scripts of its own, as they stand in their files when it comes to
them; and the kernel, whose rules and table are what lets traffic out. One script file is
at once hev's pre-down and the app's cleanup, and a line of a script is a step, so every
order of lines, signals and statements is a schedule.

Every question the app puts to the system may go unanswered, which reads as no; every
line may fail; every file may turn out not to be writable.

Left out: `ip -6` and `resolvectl` lines beyond their being there (`Line.elsewhere`),
hev's config, logs, and waiting.
-/

namespace Ghostlane.Desktop.Linux

open Ghostlane.Lib

/-! ### Scripts -/

/-- What a line of a script does. `ip rule` and `ip route` lines are the IPv4 ones. -/
inductive Line where
  /-- `ip rule del uidrange 0-0 lookup main pref 10` -/
  | delRootRule
  /-- `ip rule del lookup 51820 pref 20` -/
  | delTunRule
  /-- `ip route flush table 51820` -/
  | flushTable
  /-- `ip link add olcboxks0 type dummy` -/
  | addDummy
  /-- `ip link set olcboxks0 up` -/
  | setDummyUp
  /-- `ip route replace default dev olcboxks0 metric 4294967295 table 51820` -/
  | replaceBlockRoute
  /-- `ip link del olcboxks0` -/
  | delDummy
  /-- `ip link set olcbox0 up` -/
  | setTunUp
  /-- `ip rule add uidrange 0-0 lookup main pref 10` -/
  | addRootRule
  /-- `ip route add default dev olcbox0 table 51820` -/
  | addTunRoute
  /-- `ip route replace default dev olcbox0 table 51820` -/
  | replaceTunRoute
  /-- `ip rule add lookup 51820 pref 20` -/
  | addTunRule
  /-- The loop that writes the `rp_filter` values down and sets them to zero. -/
  | saveRpFilter
  /-- The loop that puts them back and removes the file. -/
  | restoreRpFilter
  /-- IPv6 and the resolver. -/
  | elsewhere
  /-- `[ -e "$stop_asked" ] || exit 0` -/
  | unlessAsked
  /-- The round of `tunnelEndLines` that sends SIGINT to who holds the tun. -/
  | interruptTunnel
  /-- The rounds that kill it. -/
  | killTunnel
  /-- `engineEndLines` -/
  | endEngines
  deriving DecidableEq, Repr

/-- A line and whether its failure ends the script: under `set -e`, without `|| true`. -/
structure Cmd where
  line : Line
  strict : Bool := false
  deriving DecidableEq, Repr

abbrev Script := List Cmd

/-- `upScriptContent` without the kill switch. -/
def plainUpScript : Script :=
  [⟨.delRootRule, false⟩, ⟨.delTunRule, false⟩, ⟨.flushTable, false⟩, ⟨.saveRpFilter, true⟩,
    ⟨.setTunUp, true⟩, ⟨.addRootRule, true⟩, ⟨.addTunRoute, true⟩, ⟨.addTunRule, true⟩,
    ⟨.elsewhere, false⟩]

/-- `killSwitchUpScript`: it takes nothing away. -/
def killSwitchUpScript : Script :=
  [⟨.addDummy, false⟩, ⟨.setDummyUp, false⟩, ⟨.replaceBlockRoute, false⟩, ⟨.saveRpFilter, true⟩,
    ⟨.setTunUp, true⟩, ⟨.addRootRule, false⟩, ⟨.replaceTunRoute, true⟩, ⟨.addTunRule, false⟩,
    ⟨.elsewhere, false⟩]

/-- `upScriptContent`. -/
def upScriptContent (killSwitch : Bool) : Script :=
  if killSwitch then killSwitchUpScript else plainUpScript

/-- `removalScript`: with a marker to look for, only when it is there. -/
def removalScript (stopAsked : Bool) : Script :=
  (if stopAsked then [⟨.unlessAsked, false⟩] else []) ++
    [⟨.delRootRule, false⟩, ⟨.delTunRule, false⟩, ⟨.flushTable, false⟩, ⟨.elsewhere, false⟩,
      ⟨.delDummy, false⟩, ⟨.elsewhere, false⟩, ⟨.restoreRpFilter, false⟩]

/-- `downScriptContent`. -/
def downScriptContent (stopAsked : Bool) : Script :=
  if stopAsked then removalScript true
  else [⟨.delRootRule, false⟩, ⟨.delTunRule, false⟩, ⟨.flushTable, false⟩, ⟨.elsewhere, false⟩,
    ⟨.restoreRpFilter, false⟩]

/-- `cleanupScriptContent`. -/
def cleanupScriptContent : Script := removalScript false

/-- `tunnelEndLines`. -/
def tunnelEndLines : Script := [⟨.interruptTunnel, false⟩, ⟨.killTunnel, false⟩]

/-- `withTunnelEnded`. -/
def withTunnelEnded (script : Script) : Script := tunnelEndLines ++ script

/-- `withEnginesEnded`. -/
def withEnginesEnded (script : Script) : Script := ⟨.endEngines, false⟩ :: script

/-- `endTunnelScriptContent`. -/
def endTunnelScriptContent : Script := tunnelEndLines

/-- What `writeCleanupScript` writes; `naming` says there is a name the engines go by. -/
def cleanupScript (naming removeBlockDevice endTunnel endEngines : Bool) : Script :=
  let removal := if removeBlockDevice then cleanupScriptContent else downScriptContent false
  let withEngines := if naming && endEngines then withEnginesEnded removal else removal
  if endTunnel then withTunnelEnded withEngines else withEngines

/-! ### The kernel -/

/-- The IPv4 rules, table 51820, the two devices, and the file the `rp_filter` values are kept
in. -/
structure Kernel where
  /-- The rule of preference 10: root's lookups go to the main table. -/
  rootRule : Bool := false
  /-- The rule of preference 20: everyone's go to table 51820. -/
  tunRule : Bool := false
  /-- `default dev olcbox0`, metric 0. -/
  tunRoute : Bool := false
  /-- `default dev olcboxks0`, the last metric. -/
  blockRoute : Bool := false
  dummy : Bool := false
  tun : Bool := false
  rpFilterState : Bool := false
  deriving DecidableEq, Repr

namespace Kernel

/-- The block is in force: the rule, and in its table the route that drops. -/
def block (k : Kernel) : Bool := k.tunRule && k.blockRoute

/-- What a line that touches the kernel does to it, `none` where it has to fail: what is added must
not be there, what is removed and what is routed over must be. `replace` puts its own route in
place of one of the same metric, and the two default routes differ in that. -/
def apply (k : Kernel) : Line → Option Kernel
  | .delRootRule => if k.rootRule then some { k with rootRule := false } else none
  | .delTunRule => if k.tunRule then some { k with tunRule := false } else none
  | .flushTable => some { k with tunRoute := false, blockRoute := false }
  | .addDummy => if k.dummy then none else some { k with dummy := true }
  | .setDummyUp => if k.dummy then some k else none
  | .replaceBlockRoute => if k.dummy then some { k with blockRoute := true } else none
  | .delDummy => if k.dummy then some { k with dummy := false, blockRoute := false } else none
  | .setTunUp => if k.tun then some k else none
  | .addRootRule => if k.rootRule then none else some { k with rootRule := true }
  | .addTunRoute => if k.tun && !k.tunRoute then some { k with tunRoute := true } else none
  | .replaceTunRoute => if k.tun then some { k with tunRoute := true } else none
  | .addTunRule => if k.tunRule then none else some { k with tunRule := true }
  | .saveRpFilter => some { k with rpFilterState := true }
  | .restoreRpFilter => some { k with rpFilterState := false }
  | .elsewhere | .unlessAsked | .interruptTunnel | .killTunnel | .endEngines => some k

/-- Who held the tun is gone, and the device and its route with it. -/
def withoutTun (k : Kernel) : Kernel := { k with tun := false, tunRoute := false }

end Kernel

/-! ### The machine -/

/-- How far a call of the controller has come. `withSwitch` is the start's own. -/
inductive Stage where
  | idle
  /-- Whether a tunnel from before still holds the tun. -/
  | startAsks (withSwitch : Bool)
  /-- The password dialog for the script that ends it. -/
  | startDialog (withSwitch : Bool)
  | startRuns (withSwitch : Bool) (rest : Script)
  /-- Whether it is still there. -/
  | startAsksAgain (withSwitch : Bool)
  | startWritesUp (withSwitch : Bool)
  | startWritesDown (withSwitch : Bool)
  | startWritesConfig (withSwitch : Bool)
  | startLaunches (withSwitch : Bool)
  /-- `waitForTunReady`. -/
  | startWaits (withSwitch : Bool)
  /-- What there is to clean up. -/
  | stopAsks
  | stopDialog
  | stopRuns (rest : Script)
  | stopEnds
  deriving DecidableEq, Repr

/-- The controller's flags, its files, hev and the kernel. -/
structure Machine where
  kernel : Kernel := {}
  /-- `linux-tun-stop.asked` is there. -/
  stopAsked : Bool := false
  /-- `linux-tun-up.sh`: hev's post-up. -/
  upScript : Script := []
  /-- `linux-tun-down.sh`: hev's pre-down and the app's cleanup. -/
  downScript : Script := []
  held : Bool := false
  startedWithKillSwitch : Bool := false
  routesInstalled : Bool := false
  /-- `ownTunnel` is not null. -/
  ownTunnel : Bool := false
  /-- `enginesNaming` names something. -/
  enginesNaming : Bool := false
  stage : Stage := .idle
  /-- A hev was launched and has not taken the tun yet. -/
  launched : Bool := false
  /-- The hev that holds the tun was sent a SIGINT. -/
  stopping : Bool := false
  /-- What hev's scripts still have to do. -/
  hevScripts : List Script := []
  deriving DecidableEq, Repr

/-- What the system answers while the app goes on. A question left unanswered reads as no. -/
structure Answers where
  /-- Nothing throws: the file is written, the process is launched. -/
  done : Bool := true
  /-- The password is given. -/
  granted : Bool := true
  /-- The question is answered whether the tun exists, -/
  tun : Bool := true
  /-- the kill switch's device, -/
  dummy : Bool := true
  /-- the rule, -/
  rule : Bool := true
  /-- the tun's route, -/
  tunRoute : Bool := true
  /-- and the block's. -/
  blockRoute : Bool := true
  /-- An engine is still there. -/
  engine : Bool := false
  /-- The controller's own hev is alive. -/
  alive : Bool := true
  /-- Nobody answers on the port the tun points at. -/
  nowhere : Bool := false
  /-- The tunnel comes up before the time is over. -/
  ready : Bool := true
  deriving DecidableEq, Repr

namespace Machine

/-- `interfaceExists(TUN_NAME)`. -/
def tunExists (m : Machine) (a : Answers) : Bool := m.kernel.tun && a.tun

/-- `interfaceExists(KILL_SWITCH_DEVICE)`. -/
def dummyExists (m : Machine) (a : Answers) : Bool := m.kernel.dummy && a.dummy

/-- `routeRuleExists`. -/
def routeRuleExists (m : Machine) (a : Answers) : Bool := m.kernel.tunRule && a.rule

/-- `routeTableExists`. -/
def routeTableExists (m : Machine) (a : Answers) : Bool := m.kernel.tunRoute && a.tunRoute

/-- `killSwitchRouteExists`. -/
def killSwitchRouteExists (m : Machine) (a : Answers) : Bool := m.kernel.blockRoute && a.blockRoute

/-- `blockStands`. -/
def blockStands (m : Machine) (a : Answers) : Bool :=
  m.routeRuleExists a && m.killSwitchRouteExists a

/-- `blockLeftStanding`: with nothing in front of it that carries. -/
def blockLeftStanding (m : Machine) (a : Answers) : Bool :=
  m.blockStands a && (m.ownTunnel && a.alive || !m.tunExists a || m.tunExists a && a.nowhere)

/-- hev, asked to stop, runs its pre-down as the file is now. It is asked once. -/
def interrupted (m : Machine) : Machine :=
  if m.kernel.tun && !m.stopping then
    { m with stopping := true, hevScripts := m.hevScripts ++ [m.downScript] }
  else m

/-- The hev that held the tun is gone. -/
def withoutHev (m : Machine) : Machine :=
  { m with kernel := m.kernel.withoutTun, stopping := false }

/-- A script's next line, and what is left of the script. hev runs its scripts with arguments, and
what ends processes is only for a script run without. -/
def exec (m : Machine) (arguments ok : Bool) (c : Cmd) (rest : Script) : Machine × Script :=
  match c.line with
  | .unlessAsked => (m, if m.stopAsked then rest else [])
  | .interruptTunnel => (if ok && !arguments then m.interrupted else m, rest)
  | .killTunnel => (if ok && !arguments then m.withoutHev else m, rest)
  | line =>
      match if ok then m.kernel.apply line else none with
      | some k => ({ m with kernel := k }, rest)
      | none => (m, if c.strict then [] else rest)

/-! ### The controller -/

/-- The beginning of `start`. The marker is deleted before anything else, or the start throws. -/
def start (m : Machine) (killSwitch cleared : Bool) : Machine :=
  let withSwitch := killSwitch || m.held
  if !withSwitch then { m with stage := .startAsks withSwitch }
  else if cleared then { m with stopAsked := false, stage := .startAsks withSwitch }
  else m

/-- The beginning of `stop`: held, the process goes and the block stays. -/
def stop (m : Machine) (wrote : Bool) : Machine :=
  if m.held then { m with routesInstalled := false, stage := .idle }
  else
    { m with
      stopAsked := m.stopAsked || m.startedWithKillSwitch && wrote
      stage := .stopAsks }

/-- The script that ends a tunnel from before: under the switch it removes nothing. -/
def endingScript (m : Machine) (withSwitch : Bool) (a : Answers) : Script :=
  if withSwitch then endTunnelScriptContent
  else cleanupScript m.enginesNaming (m.dummyExists a) true false

/-- Something is left for a stop to clean up. -/
def leftToClean (m : Machine) (a : Answers) : Bool :=
  m.tunExists a || m.routeRuleExists a || m.routeTableExists a || m.kernel.rpFilterState ||
    m.dummyExists a || m.enginesNaming && a.engine

/-- `waitForTunReady` comes back. -/
def comesUp (m : Machine) (a : Answers) : Bool :=
  a.ready && m.tunExists a && m.routeRuleExists a && m.routeTableExists a

/-- The tunnel is up: nothing is held behind one that came up without the block. -/
def connected (m : Machine) (withSwitch : Bool) (a : Answers) : Machine :=
  let armed := withSwitch && m.killSwitchRouteExists a
  { m with routesInstalled := true, held := m.held && armed, stage := .idle }

/-- The end of `stop`, with what became of deleting the marker. -/
def stopped (m : Machine) (a : Answers) : Machine :=
  { m with
    routesInstalled := false
    startedWithKillSwitch := false
    stopAsked := m.stopAsked && !a.done
    held := m.blockLeftStanding a
    stage := .idle }

/-- The call that is under way goes on by a statement. `none` while it waits for a script. -/
def goOn (m : Machine) (a : Answers) : Option Machine :=
  match m.stage with
  | .idle => none
  | .startAsks w =>
      if !m.tunExists a then some { m with stage := .startWritesUp w }
      else if a.done then some { m with downScript := m.endingScript w a, stage := .startDialog w }
      else some { m with stage := .idle }
  | .startDialog w =>
      if a.granted then some { m with stage := .startRuns w m.downScript }
      else some { m with stage := .startAsksAgain w }
  | .startRuns w rest => if rest = [] then some { m with stage := .startAsksAgain w } else none
  | .startAsksAgain w =>
      some { m with stage := if m.tunExists a then .idle else .startWritesUp w }
  | .startWritesUp w =>
      if a.done then some { m with upScript := upScriptContent w, stage := .startWritesDown w }
      else some { m with stage := .idle }
  | .startWritesDown w =>
      if a.done then
        some { m with downScript := downScriptContent w, stage := .startWritesConfig w }
      else some { m with stage := .idle }
  | .startWritesConfig w =>
      some { m with stage := if a.done then .startLaunches w else .idle }
  | .startLaunches w =>
      if a.done then
        some { m with
          startedWithKillSwitch := w, launched := true, ownTunnel := true, stage := .startWaits w }
      else some { m with startedWithKillSwitch := w, stage := .idle }
  | .startWaits w =>
      if m.comesUp a then some (m.connected w a) else some (m.stop a.done)
  | .stopAsks =>
      if m.leftToClean a && a.done then
        some { m with
          downScript := cleanupScript m.enginesNaming (m.dummyExists a) (m.tunExists a) true
          stage := .stopDialog }
      else some { m with stage := .stopEnds }
  | .stopDialog =>
      some { m with stage := if a.granted then .stopRuns m.downScript else .stopEnds }
  | .stopRuns rest => if rest = [] then some { m with stage := .stopEnds } else none
  | .stopEnds => some (m.stopped a)

/-- The next line of what the app has run as root. -/
def rootLine (m : Machine) (ok : Bool) : Option Machine :=
  match m.stage with
  | .startRuns w (c :: rest) =>
      let done := m.exec false ok c rest
      some { done.1 with stage := .startRuns w done.2 }
  | .stopRuns (c :: rest) =>
      let done := m.exec false ok c rest
      some { done.1 with stage := .stopRuns done.2 }
  | _ => none

/-- The next line of one of hev's scripts. -/
def hevLine (m : Machine) (i : Nat) (ok : Bool) : Option Machine :=
  match m.hevScripts[i]? with
  | some (c :: rest) =>
      let done := m.exec true ok c rest
      some { done.1 with hevScripts := done.1.hevScripts.set i done.2 }
  | _ => none

end Machine

/-! ### Schedules -/

/-- What can happen next. -/
inductive Event where
  | start (killSwitch cleared : Bool)
  | stop (wrote : Bool)
  | endHold
  | holdAfterTunDeath (wanted : Bool) (a : Answers)
  | findLeftoverBlock (a : Answers)
  | goOn (a : Answers)
  | rootLine (ok : Bool)
  | hevLine (i : Nat) (ok : Bool)
  /-- One of hev's scripts is killed where it is. -/
  | hevCut (i : Nat)
  /-- The hev that was launched takes the tun and runs its post-up. -/
  | hevUp
  /-- It ends before that. -/
  | hevLost
  | sigint
  | hevGone
  deriving DecidableEq, Repr

/-- One step. A call begins when none is under way. -/
def step (m : Machine) : Event → Option Machine
  | .start killSwitch cleared =>
      if m.stage = .idle then some (m.start killSwitch cleared) else none
  | .stop wrote => if m.stage = .idle then some (m.stop wrote) else none
  | .endHold => some { m with held := false }
  | .holdAfterTunDeath wanted a =>
      if m.stage = .idle then
        some { m with held := wanted && m.startedWithKillSwitch && m.blockStands a }
      else none
  | .findLeftoverBlock a =>
      if m.stage = .idle then
        some (if m.routesInstalled then m else { m with held := m.blockLeftStanding a })
      else none
  | .goOn a => m.goOn a
  | .rootLine ok => m.rootLine ok
  | .hevLine i ok => m.hevLine i ok
  | .hevCut i => some { m with hevScripts := m.hevScripts.eraseIdx i }
  | .hevUp =>
      if m.launched && !m.kernel.tun then
        some { m with
          launched := false
          stopping := false
          kernel := { m.kernel with tun := true }
          hevScripts := m.hevScripts ++ [m.upScript] }
      else none
  | .hevLost => some { m with launched := false }
  | .sigint => some m.interrupted
  | .hevGone => some m.withoutHev

/-! ### What a script can do to the block -/

/-- A line that takes a part of the block away. -/
def Line.removes : Line → Bool
  | .delTunRule | .flushTable | .delDummy => true
  | _ => false

/-- The script, run with the marker as it is, comes to no such line. -/
def spares (stopAsked : Bool) : Script → Bool
  | [] => true
  | c :: rest =>
      if c.line = .unlessAsked then !stopAsked || spares stopAsked rest
      else !c.line.removes && spares stopAsked rest

/-- A script that spares the block when a stop was asked for spares it when none was. -/
theorem spares_of_asked {s : Script} (h : spares true s = true) (stopAsked : Bool) :
    spares stopAsked s = true := by
  induction s with
  | nil => rfl
  | cons c rest ih =>
      simp only [spares] at h ⊢
      split at h
      · rename_i hc
        simp only [Bool.not_true, Bool.false_or] at h
        simp [hc, ih h]
      · rename_i hc
        simp only [Bool.and_eq_true, Bool.not_eq_true'] at h
        simp [hc, h.1, ih h.2]

theorem spares_tail {c : Cmd} {rest : Script} (h : spares true (c :: rest) = true) :
    spares true rest = true := by
  simp only [spares] at h
  split at h
  · simpa using h
  · simp only [Bool.and_eq_true] at h
    exact h.2

theorem spares_of_marker {s : Script} {stopAsked : Bool} (h : spares stopAsked s = true) :
    spares false s = true := by
  cases stopAsked with
  | false => exact h
  | true => exact spares_of_asked h false

theorem spares_killSwitchUpScript : spares true killSwitchUpScript = true := rfl

theorem spares_endTunnelScriptContent : spares true endTunnelScriptContent = true := rfl

namespace Kernel

/-- **A line that removes nothing of the block leaves it standing.** -/
theorem block_apply {k k' : Kernel} {l : Line} (hl : l.removes = false) (hk : k.apply l = some k')
    (hb : k.block = true) : k'.block = true := by
  simp only [block, Bool.and_eq_true] at hb ⊢
  cases l
  case delTunRule | flushTable | delDummy => exact absurd hl (by decide)
  all_goals
    simp only [apply, Option.ite_none_right_eq_some, Option.ite_none_left_eq_some,
      Option.some.injEq] at hk
  case saveRpFilter | restoreRpFilter | elsewhere | unlessAsked | interruptTunnel | killTunnel |
      endEngines =>
    subst hk
    exact hb
  all_goals
    obtain ⟨-, rfl⟩ := hk
    simp_all

theorem block_withoutTun {k : Kernel} (hb : k.block = true) : k.withoutTun.block = true := hb

end Kernel

/-! ### The hold over a run -/

/-- Where a call that began over the hold can be, and what is in the two files by then. -/
def Stage.Over (up down : Script) : Stage → Prop
  | .idle => True
  | .startAsks w | .startAsksAgain w | .startWritesUp w | .startWaits w => w = true
  | .startDialog w => w = true ∧ spares true down = true
  | .startRuns w rest => w = true ∧ spares true down = true ∧ spares true rest = true
  | .startWritesDown w | .startWritesConfig w | .startLaunches w => w = true ∧ spares true up = true
  | .stopAsks | .stopDialog | .stopRuns _ | .stopEnds => False

/-- **The hold.** The block stands, nothing that runs as root is on its way to take it down, and
the call under way is a start with the kill switch's scripts. -/
structure Machine.Holding (m : Machine) : Prop where
  block : m.kernel.block = true
  held : m.held = true
  scripts : ∀ s ∈ m.hevScripts, spares m.stopAsked s = true
  launched : m.launched = true → spares m.stopAsked m.upScript = true
  stage : m.stage.Over m.upScript m.downScript

/-- A line changes no file of the controller's. -/
theorem Machine.exec_files (m : Machine) (arguments ok : Bool) (c : Cmd) (rest : Script) :
    (m.exec arguments ok c rest).1.stopAsked = m.stopAsked ∧
      (m.exec arguments ok c rest).1.upScript = m.upScript ∧
      (m.exec arguments ok c rest).1.downScript = m.downScript := by
  have hint : m.interrupted.stopAsked = m.stopAsked ∧ m.interrupted.upScript = m.upScript ∧
      m.interrupted.downScript = m.downScript := by
    unfold Machine.interrupted
    split <;> exact ⟨rfl, rfl, rfl⟩
  unfold Machine.exec
  split
  · exact ⟨rfl, rfl, rfl⟩
  · dsimp only
    split
    · exact hint
    · exact ⟨rfl, rfl, rfl⟩
  · dsimp only
    split <;> exact ⟨rfl, rfl, rfl⟩
  · split <;> exact ⟨rfl, rfl, rfl⟩

/-- A line is done, or the script ends at it. -/
theorem Machine.exec_rest (m : Machine) (arguments ok : Bool) (c : Cmd) (rest : Script) :
    (m.exec arguments ok c rest).2 = rest ∨ (m.exec arguments ok c rest).2 = [] := by
  unfold Machine.exec
  split
  · dsimp only
    split <;> simp
  · exact .inl rfl
  · exact .inl rfl
  · split
    · exact .inl rfl
    · dsimp only
      split <;> simp

namespace Machine.Holding

variable {m m' : Machine}

/-- The call moves on and nothing else does. -/
theorem withStage (h : m.Holding) {stage : Stage} (hs : stage.Over m.upScript m.downScript) :
    Holding { m with stage := stage } :=
  ⟨h.block, h.held, h.scripts, h.launched, hs⟩

theorem withKernel (h : m.Holding) {k : Kernel} (hk : k.block = true) :
    Holding { m with kernel := k } :=
  ⟨hk, h.held, h.scripts, h.launched, h.stage⟩

/-- hev may be asked to stop where its pre-down spares the block. -/
theorem interrupted (h : m.Holding)
    (hd : m.kernel.tun = true → m.stopping = false → spares m.stopAsked m.downScript = true) :
    m.interrupted.Holding := by
  unfold Machine.interrupted
  split
  · rename_i hc
    simp only [Bool.and_eq_true, Bool.not_eq_true'] at hc
    refine ⟨h.block, h.held, fun s hs => ?_, h.launched, h.stage⟩
    rcases List.mem_append.mp hs with hs | hs
    · exact h.scripts s hs
    · rw [List.mem_singleton.mp hs]
      exact hd hc.1 hc.2
  · exact h

theorem withoutHev (h : m.Holding) : m.withoutHev.Holding :=
  ⟨Kernel.block_withoutTun h.block, h.held, h.scripts, h.launched, h.stage⟩

/-- **A line of a script that spares the block** keeps the hold, and what is left of the script
spares it too. Only a script run without arguments can interrupt hev. -/
theorem exec (h : m.Holding) {arguments ok : Bool} {c : Cmd} {rest : Script}
    (hs : spares m.stopAsked (c :: rest) = true)
    (hd : arguments = false → spares m.stopAsked m.downScript = true) :
    (m.exec arguments ok c rest).1.Holding ∧
      spares m.stopAsked (m.exec arguments ok c rest).2 = true := by
  simp only [spares] at hs
  unfold Machine.exec
  split
  · -- the marker decides, and where it is there the rest spares the block by itself
    rename_i hc
    simp only [hc, ↓reduceIte, Bool.or_eq_true, Bool.not_eq_true'] at hs
    refine ⟨h, ?_⟩
    split
    · rename_i hasked
      exact hs.resolve_left (by simp [hasked])
    · rfl
  · rename_i hc
    simp only [hc, reduceCtorEq, ↓reduceIte, Bool.and_eq_true] at hs
    refine ⟨?_, hs.2⟩
    dsimp only
    split
    · rename_i hargs
      simp only [Bool.and_eq_true, Bool.not_eq_true'] at hargs
      exact h.interrupted fun _ _ => hd hargs.2
    · exact h
  · rename_i hc
    simp only [hc, reduceCtorEq, ↓reduceIte, Bool.and_eq_true] at hs
    refine ⟨?_, hs.2⟩
    dsimp only
    split
    · exact h.withoutHev
    · exact h
  · rename_i hc _ _
    rw [if_neg hc] at hs
    simp only [Bool.and_eq_true, Bool.not_eq_true'] at hs
    split
    · rename_i hk
      rw [Option.ite_none_right_eq_some] at hk
      exact ⟨h.withKernel (Kernel.block_apply hs.1 hk.2 h.block), hs.2⟩
    · refine ⟨h, ?_⟩
      dsimp only
      split
      · rfl
      · exact hs.2

/-- The beginning of a start: over the hold it is one with the switch. -/
theorem start (h : m.Holding) (killSwitch cleared : Bool) :
    (m.start killSwitch cleared).Holding := by
  have hswitch : (killSwitch || m.held) = true := by simp [h.held]
  simp only [Machine.start, hswitch, Bool.not_true, Bool.false_eq_true, ↓reduceIte]
  split
  · exact ⟨h.block, h.held, fun s hs => spares_of_marker (h.scripts s hs),
      fun hl => spares_of_marker (h.launched hl), rfl⟩
  · exact h

/-- A stop leaves the hold alone. -/
theorem stop (h : m.Holding) (wrote : Bool) : (m.stop wrote).Holding := by
  unfold Machine.stop
  rw [if_pos h.held]
  exact ⟨h.block, h.held, h.scripts, h.launched, trivial⟩

/-- A tunnel that comes up over the hold comes up in front of the block. -/
theorem connected (h : m.Holding) {a : Answers} (ha : a.blockRoute = true) :
    (m.connected true a).Holding := by
  have hroute : m.kernel.blockRoute = true := by
    have := h.block
    simp only [Kernel.block, Bool.and_eq_true] at this
    exact this.2
  refine ⟨h.block, ?_, h.scripts, h.launched, trivial⟩
  simp [Machine.connected, Machine.killSwitchRouteExists, h.held, hroute, ha]

/-- **The start's statements keep the hold**, one at a time. -/
theorem goOn (h : m.Holding) {a : Answers}
    (ha : m.stage = .startWaits true → m.comesUp a = true → a.blockRoute = true)
    (hs : m.goOn a = some m') : m'.Holding := by
  have hstage := h.stage
  unfold Machine.goOn at hs
  cases hst : m.stage with
  | idle => simp [hst] at hs
  | startAsks w =>
      simp only [hst, Stage.Over] at hs hstage
      subst hstage
      split at hs
      · cases hs
        exact h.withStage rfl
      · split at hs
        · cases hs
          exact ⟨h.block, h.held, h.scripts, h.launched, rfl, spares_endTunnelScriptContent⟩
        · cases hs
          exact h.withStage trivial
  | startDialog w =>
      simp only [hst, Stage.Over] at hs hstage
      split at hs
      · cases hs
        exact h.withStage ⟨hstage.1, hstage.2, hstage.2⟩
      · cases hs
        exact h.withStage hstage.1
  | startRuns w rest =>
      simp only [hst, Stage.Over] at hs hstage
      rw [Option.ite_none_right_eq_some] at hs
      obtain ⟨-, hs⟩ := hs
      cases hs
      exact h.withStage hstage.1
  | startAsksAgain w =>
      simp only [hst, Stage.Over] at hs hstage
      cases hs
      refine h.withStage ?_
      split
      · trivial
      · exact hstage
  | startWritesUp w =>
      simp only [hst, Stage.Over] at hs hstage
      subst hstage
      split at hs
      · cases hs
        exact ⟨h.block, h.held, h.scripts, fun _ => spares_of_asked spares_killSwitchUpScript _,
          rfl, spares_killSwitchUpScript⟩
      · cases hs
        exact h.withStage trivial
  | startWritesDown w =>
      simp only [hst, Stage.Over] at hs hstage
      split at hs
      · cases hs
        exact ⟨h.block, h.held, h.scripts, h.launched, hstage⟩
      · cases hs
        exact h.withStage trivial
  | startWritesConfig w =>
      simp only [hst, Stage.Over] at hs hstage
      cases hs
      refine h.withStage ?_
      split
      · exact hstage
      · trivial
  | startLaunches w =>
      simp only [hst, Stage.Over] at hs hstage
      split at hs
      · cases hs
        exact ⟨h.block, h.held, h.scripts, fun _ => spares_of_asked hstage.2 _, hstage.1⟩
      · cases hs
        exact ⟨h.block, h.held, h.scripts, h.launched, trivial⟩
  | startWaits w =>
      simp only [hst, Stage.Over] at hs hstage
      subst hstage
      split at hs
      · rename_i hup
        cases hs
        exact h.connected (ha hst hup)
      · cases hs
        exact h.stop _
  | stopAsks | stopDialog | stopRuns rest | stopEnds =>
      rw [hst] at hstage
      exact absurd hstage id

/-- What the start has run as root only ends the tunnel. -/
theorem rootLine (h : m.Holding) {ok : Bool} (hs : m.rootLine ok = some m') : m'.Holding := by
  have hstage := h.stage
  unfold Machine.rootLine at hs
  split at hs
  · rename_i w c rest hst
    rw [hst] at hstage
    obtain ⟨hw, hdown, hrest⟩ := hstage
    cases hs
    obtain ⟨hm, -⟩ := @exec m h false ok c rest (spares_of_asked hrest _)
      fun _ => spares_of_asked hdown _
    have hleft : spares true (m.exec false ok c rest).2 = true := by
      rcases m.exec_rest false ok c rest with he | he
      · rw [he]
        exact spares_tail hrest
      · rw [he]
        rfl
    refine hm.withStage ⟨hw, ?_, hleft⟩
    rw [(m.exec_files false ok c rest).2.2]
    exact hdown
  · rename_i c rest hst
    rw [hst] at hstage
    exact absurd hstage id
  · cases hs

/-- A line of a script of hev's. -/
theorem hevLine (h : m.Holding) {i : Nat} {ok : Bool} (hs : m.hevLine i ok = some m') :
    m'.Holding := by
  unfold Machine.hevLine at hs
  split at hs
  · rename_i c rest hi
    cases hs
    obtain ⟨hm, hleft⟩ := @exec m h true ok c rest (h.scripts _ (List.mem_of_getElem? hi))
      fun hfalse => by cases hfalse
    refine ⟨hm.block, hm.held, fun s hs => ?_, hm.launched, hm.stage⟩
    rcases List.mem_or_eq_of_mem_set hs with hs | rfl
    · exact hm.scripts s hs
    · rw [(m.exec_files true ok c rest).1]
      exact hleft
  · cases hs

end Machine.Holding

/-- The steps a hold is to outlast: everything but what ends it by saying so. A block is looked for
once, when the app starts. -/
def Outlasted : Event → Prop
  | .endHold | .findLeftoverBlock _ => False
  | .holdAfterTunDeath wanted _ => wanted = true
  | _ => True

/-- The step spares the hold. A SIGINT that starts hev's pre-down finds a script there that takes
nothing of the block away; a tunnel's death is reported where the tunnel was started with the
switch; and when the app asks whether the block stands, it is told. -/
def Spared (m : Machine) : Event → Prop
  | .sigint => m.kernel.tun = true → m.stopping = false → spares m.stopAsked m.downScript = true
  | .holdAfterTunDeath _ a =>
      m.startedWithKillSwitch = true ∧ a.rule = true ∧ a.blockRoute = true
  | .goOn a => m.stage = .startWaits true → m.comesUp a = true → a.blockRoute = true
  | _ => True

instance (e : Event) : Decidable (Outlasted e) := by
  cases e <;> unfold Outlasted <;> infer_instance

instance (m : Machine) (e : Event) : Decidable (Spared m e) := by
  cases e <;> unfold Spared <;> infer_instance

/-- No call is under way, and neither a script of hev's nor the post-up of a hev that was launched
is about to take the block down. -/
structure Machine.Calm (m : Machine) : Prop where
  stage : m.stage = .idle
  scripts : ∀ s ∈ m.hevScripts, spares m.stopAsked s = true
  launched : m.launched = true → spares m.stopAsked m.upScript = true

/-- **One step keeps the hold.** -/
theorem Machine.Holding.step {m m' : Machine} {e : Event} (h : m.Holding) (ho : Outlasted e)
    (hc : Spared m e) (hs : step m e = some m') : m'.Holding := by
  cases e with
  | start killSwitch cleared =>
      simp only [Linux.step, Option.ite_none_right_eq_some, Option.some.injEq] at hs
      obtain ⟨-, rfl⟩ := hs
      exact h.start _ _
  | stop wrote =>
      simp only [Linux.step, Option.ite_none_right_eq_some, Option.some.injEq] at hs
      obtain ⟨-, rfl⟩ := hs
      exact h.stop _
  | endHold | findLeftoverBlock a => exact absurd ho id
  | holdAfterTunDeath wanted a =>
      simp only [Linux.step, Option.ite_none_right_eq_some, Option.some.injEq] at hs
      obtain ⟨-, rfl⟩ := hs
      obtain ⟨hswitch, hrule, hroute⟩ := hc
      have hb := h.block
      simp only [Outlasted, Kernel.block, Bool.and_eq_true] at ho hb
      refine ⟨h.block, ?_, h.scripts, h.launched, h.stage⟩
      simp [Machine.blockStands, Machine.routeRuleExists, Machine.killSwitchRouteExists, ho,
        hswitch, hrule, hroute, hb]
  | goOn a => exact h.goOn hc hs
  | rootLine ok => exact h.rootLine hs
  | hevLine i ok => exact h.hevLine hs
  | hevCut i =>
      cases hs
      exact ⟨h.block, h.held, fun s hs => h.scripts s (List.mem_of_mem_eraseIdx hs), h.launched,
        h.stage⟩
  | hevUp =>
      simp only [Linux.step, Option.ite_none_right_eq_some, Option.some.injEq,
        Bool.and_eq_true] at hs
      obtain ⟨⟨hl, -⟩, rfl⟩ := hs
      refine ⟨h.block, h.held, fun s hs => ?_, (absurd · Bool.false_ne_true), h.stage⟩
      rcases List.mem_append.mp hs with hs | hs
      · exact h.scripts s hs
      · rw [List.mem_singleton.mp hs]
        exact h.launched hl
  | hevLost =>
      cases hs
      exact ⟨h.block, h.held, h.scripts, (absurd · Bool.false_ne_true), h.stage⟩
  | sigint =>
      cases hs
      exact h.interrupted hc
  | hevGone =>
      cases hs
      exact h.withoutHev

/-- **While the kill switch holds, the block stands**, after every line of every script: from a
held block with no removal on its way, over every schedule whose steps spare the hold. -/
theorem held_block_outlasts {m m' : Machine} {events : List Event} (hheld : m.held = true)
    (hblock : m.kernel.block = true) (hcalm : m.Calm)
    (hsteps : AllSteps step (fun m e => Outlasted e ∧ Spared m e) m events)
    (hrun : run step m events = some m') : m'.kernel.block = true ∧ m'.held = true := by
  have h0 : m.Holding :=
    ⟨hblock, hheld, hcalm.scripts, hcalm.launched, by rw [hcalm.stage]; trivial⟩
  have h := run_inv
      (fun s e s' hs hc hstep => Machine.Holding.step hs hc.1 hc.2 hstep) h0 hsteps hrun
  exact ⟨h.block, h.held⟩

/-- A session with the switch that is stopped with the cleanup's dialog closed: the tunnel could
not be ended, and the block is held. -/
def refusedStop : List Event :=
  [.start true true, .goOn {}, .goOn {}, .goOn {}, .goOn {}, .goOn {}, .hevUp] ++
    List.replicate 9 (.hevLine 0 true) ++
    [.goOn {}, .stop true, .goOn {}, .goOn { granted := false }, .goOn {}]

/-- What it leaves: hev is still there, and its pre-down file is the cleanup. -/
def leftHeld : Machine :=
  { kernel :=
      { rootRule := true, tunRule := true, tunRoute := true, blockRoute := true, dummy := true,
        tun := true, rpFilterState := true }
    upScript := killSwitchUpScript
    downScript := cleanupScript true true true true
    held := true
    ownTunnel := true
    enginesNaming := true
    hevScripts := [[]] }

/-- The tunnel is started again with the setting off: the one from before is ended, which its own
pre-down survives, and the new one's scripts run over the block. -/
def reconnect : List Event :=
  [.start false true, .goOn {}, .goOn {}, .rootLine true, .hevLine 1 true, .hevLine 1 true,
    .rootLine true, .goOn {}, .goOn {}, .goOn {}, .goOn {}, .goOn {}, .goOn {}, .hevUp] ++
    List.replicate 9 (.hevLine 2 true) ++ [.goOn {}, .sigint, .hevLine 3 true, .hevGone]

theorem held_block_outlasts_reconnect :
    ∃ m, run step leftHeld reconnect = some m ∧ m.kernel.block = true ∧ m.held = true := by
  have hsome : (run step leftHeld reconnect).isSome = true := by decide
  obtain ⟨m, hm⟩ := Option.isSome_iff_exists.mp hsome
  exact ⟨m, hm, held_block_outlasts (by decide) (by decide) ⟨by decide, by decide, by decide⟩
    (by decide) hm⟩

/-- A refused cleanup leaves its own text where hev's pre-down is. A Ctrl-C in the terminal the app
was started from then reaches hev, and the held block is taken down. -/
theorem refused_cleanup_opens_hold :
    run step { enginesNaming := true } refusedStop = some leftHeld ∧ leftHeld.held = true ∧
      leftHeld.kernel.block = true ∧
      ∃ m, run step leftHeld (.sigint :: List.replicate 5 (.hevLine 1 true)) = some m ∧
        m.held = true ∧ m.kernel.block = false := by
  refine ⟨by decide, rfl, rfl, ?_⟩
  have hopen : (run step leftHeld (.sigint :: List.replicate 5 (.hevLine 1 true))).any
      (fun m => m.held && !m.kernel.block) = true := by decide
  obtain ⟨m, hm, hopen⟩ := (Option.any_eq_true _ _).mp hopen
  simp only [Bool.and_eq_true, Bool.not_eq_true'] at hopen
  exact ⟨m, hm, hopen⟩

end Ghostlane.Desktop.Linux
