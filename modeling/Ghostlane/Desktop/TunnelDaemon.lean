import Ghostlane.Lib.Runs
import Ghostlane.Lib.Text

/-!
# Ghostlane.Desktop.TunnelDaemon

The Mac's root helper (`desktopApp/tunneldaemon`): the tunnel's process, and the kill
switch's block. The block is a set of rules in an anchor of the packet filter, the
kernel's and not a process's, so it outlives the tunnel and the helper both; the helper
loads it before a tunnel starts behind it and takes it away when it is told to.

Everything outside the helper is an answer it gets: whether a `pfctl` call did what it
was for (`Answers`), whether a child came up, stayed up for a second, whether the
system took the tunnel as its resolver. The rules are kept as the lines that are
loaded; what a rule lets out is the kernel's.

Left out: who may ask (`PeerAuthority`), where the cores are run from, the system's
resolver, log tails, process numbers and the texts of errors.
-/

namespace Ghostlane.Desktop

open Ghostlane.Lib

/-! ### The block -/

/-- `HoldRequest`: the tunnel's interface, and the addresses let out beside it. -/
structure HoldRequest where
  interface : Text
  passes : List Text
  deriving DecidableEq, Repr

namespace TrafficHold

/-- `lets`: one rule for connections opened under the block, one for those open before it. -/
def lets (whom : Text) (family protocols : Option Text) : List Text :=
  let ofFamily := (family.map (' ' :: ·)).getD []
  let ofProtocols := (protocols.map (txt " proto " ++ ·)).getD []
  [txt "pass out quick" ++ ofFamily ++ ofProtocols ++ txt " from any to " ++ whom,
    txt "pass out quick" ++ ofFamily ++ txt " proto tcp from any to " ++ whom ++
      txt " flags any no state"]

/-- A list of addresses as a rule writes it. -/
def braced (addresses : List Text) : Text :=
  txt "\x7b " ++ List.intercalate (txt ", ") addresses ++ txt " \x7d"

/-- `rules(for:)`, line by line. -/
def rules (request : HoldRequest) : List Text :=
  let v4 := request.passes.filter fun address => !address.contains ':'
  let v6 := request.passes.filter fun address => address.contains ':'
  [txt "pass out quick on lo0 all flags any" ++ txt " no state",
    txt "pass quick on " ++ request.interface ++ txt " all flags any no state"] ++
  lets (txt "any group 7302243") none (some (braced [txt "tcp", txt "udp"])) ++
  [txt "pass out quick inet proto udp" ++ txt " from any port 68 to any port 67",
    txt "pass out quick inet6 proto udp" ++ txt " from any port 546 to any port 547"] ++
  (if v4.isEmpty then [] else lets (braced v4) (some (txt "inet")) none) ++
  (if v6.isEmpty then [] else lets (braced v6) (some (txt "inet6")) none) ++
  [txt "block return out quick proto " ++ braced [txt "tcp", txt "udp"] ++
    txt " from any to any port 53"] ++
  lets (braced [txt "10.0.0.0/8", txt "172.16.0.0/12", txt "192.168.0.0/16", txt "169.254.0.0/16",
    txt "224.0.0.0/4", txt "255.255.255.255"]) (some (txt "inet")) none ++
  lets (braced [txt "fe80::/10", txt "fc00::/7", txt "ff02::/16"]) (some (txt "inet6")) none ++
  [txt "block return out quick all"]

end TrafficHold

/-- A rule that blocks. -/
def blockRule (line : Text) : Bool := (txt "block").isPrefixOf line

/-- What the world answers a request's work with. -/
structure Answers where
  /-- `pfctl -E` hands back a token. -/
  enables : Bool := true
  /-- `pfctl -f -` takes the rules. -/
  loads : Bool := true
  /-- `pfctl -s info` says that pf is enabled. -/
  saysEnabled : Bool := true
  /-- `pfctl -s rules` says that the main rules hand over to the anchor. -/
  saysHandsOver : Bool := true
  /-- `pfctl -a -s rules` is answered after the load. -/
  lists : Bool := true
  /-- `pfctl -F all` empties the anchor. -/
  flushes : Bool := true
  /-- `pfctl -X` gives the reference back. -/
  disables : Bool := true
  /-- The tunnel's child is launched. -/
  childStarts : Bool := true
  /-- It runs a second later. -/
  childStays : Bool := true
  /-- And still when the reply is written. -/
  childLives : Bool := true
  /-- The system takes the tunnel as its resolver. -/
  takesNames : Bool := true
  /-- A line's program is launched and stays. -/
  lineStarts : Bool := true
  /-- A line that ran before a refused one still runs. -/
  lineKept : Bool := true
  /-- `pfctl -a -s rules` is answered for the reply. -/
  listsForReply : Bool := true
  /-- The reply can be encoded. -/
  encodes : Bool := true
  deriving DecidableEq, Repr

/-- pf as the helper uses it, and what the helper keeps of it (`TrafficHold`). -/
structure Hold where
  /-- The rules in the anchor. -/
  anchor : List Text := []
  /-- How often pf is switched on. -/
  references : Nat := 0
  /-- The helper has a token for one of the references. -/
  token : Bool := false
  /-- Whether the block stands, as far as the helper knows. -/
  stands : Bool := false
  deriving DecidableEq, Repr

namespace Hold

/-- The anchor has block rules. -/
def blocks (h : Hold) : Bool := h.anchor.any blockRule

def release (h : Hold) (a : Answers) : Hold where
  anchor := if a.flushes then [] else h.anchor
  references := if h.token && a.disables then h.references - 1 else h.references
  token := false
  stands := false

/-- `look`: what pf lists now. -/
def look (h : Hold) (listed : Bool) : Hold := { h with stands := listed && h.blocks }

/-- `pfctl -E`, unless a token is there. -/
def enable (h : Hold) (a : Answers) : Hold :=
  if !h.token && a.enables then { h with token := true, references := h.references + 1 } else h

/-- `arm`, and whether it did not throw. A load that pf refuses leaves the anchor as it was; every
failure takes away whatever block there is. -/
def arm (h : Hold) (request : HoldRequest) (a : Answers) : Hold × Bool :=
  let h := h.enable a
  if !a.loads then (h.release a, false)
  else
    let h := { h with anchor := TrafficHold.rules request }
    if !a.saysEnabled then (h.release a, false)
    else if !a.saysHandsOver then (h.release a, false)
    else if !(a.lists && h.blocks) then (h.release a, false)
    else ({ h with stands := true }, true)

end Hold

/-! ### Requests -/

/-- A request as the helper reads it. -/
inductive Request where
  /-- `config`: there is one. `names`: the address to ask for names, if it is asked for, is one.
  `hold`: the block to start behind, if it is asked for, and whether it can be read. -/
  | start (config : Bool) (names : Option Bool) (hold : Option (Option HoldRequest))
  | stop (keepHold : Bool)
  | line
  | lineStop
  | release
  | status
  /-- A verb it does not know, or no request at all. -/
  | other
  deriving DecidableEq, Repr

/-- The fields of a reply that the app reads. -/
structure Reply where
  ok : Bool
  /-- `state`: running or idle, where the reply says it. -/
  running : Option Bool := none
  protocol : Option Nat := none
  hold : Option Bool := none
  restarting : Bool := false
  /-- A line's program runs. -/
  line : Bool := false
  deriving DecidableEq, Repr

structure Daemon where
  hold : Hold := {}
  childRuns : Bool := false
  lineRuns : Bool := false
  replacedOnDisk : Bool := false
  quitAfterReply : Bool := false
  deriving DecidableEq, Repr

namespace Daemon

def protocolVersion : Nat := 4

/-- `stopTunnel`. -/
def stopTunnel (d : Daemon) : Daemon := { d with childRuns := false }

def releaseHold (d : Daemon) (a : Answers) : Daemon := { d with hold := d.hold.release a }

/-- `reply`: with a tunnel up what this process loaded, with none what pf lists. -/
def reply (d : Daemon) (a : Answers) (r : Reply) : Daemon × Reply :=
  let d := if d.childRuns then d else { d with hold := d.hold.look a.listsForReply }
  (d, if a.encodes then
      { r with protocol := some protocolVersion, hold := some d.hold.stands, line := d.lineRuns }
    else { ok := false })

def failure (d : Daemon) (a : Answers) : Daemon × Reply := d.reply a { ok := false }

def status (d : Daemon) (a : Answers) : Daemon × Reply :=
  d.reply a { ok := true, running := some d.childRuns }

/-- What `start` does once its block is in place, or none was asked for. -/
def startChild (d : Daemon) (a : Answers) (names : Option Bool) : Daemon × Reply :=
  if !a.childStarts || !a.childStays then d.failure a
  else if names.isSome && !a.takesNames then d.failure a
  else { d with childRuns := a.childLives }.reply a { ok := true, running := some true }

def start (d : Daemon) (a : Answers) (config : Bool) (names : Option Bool)
    (hold : Option (Option HoldRequest)) : Daemon × Reply :=
  if !config || names == some false then d.failure a
  else match hold with
    | some none => d.failure a
    | some (some wanted) =>
        let d := d.stopTunnel
        let armed := d.hold.arm wanted a
        let d := { d with hold := armed.1 }
        if armed.2 then d.startChild a names else d.failure a
    | none =>
        let d := d.stopTunnel
        let d := if d.hold.stands then d.releaseHold a else d
        d.startChild a names

/-- A verb that changes a child's state finds that the helper was replaced. -/
def stepsAside (r : Request) : Bool :=
  match r with
  | .start .. | .stop _ | .line => true
  | _ => false

/-- `handle`. -/
def handle (d : Daemon) (r : Request) (a : Answers) : Daemon × Reply :=
  if d.replacedOnDisk && stepsAside r then
    let d := { d.stopTunnel with lineRuns := false }
    let d := match r with
      | .stop false => d.releaseHold a
      | _ => d
    { d with quitAfterReply := true }.reply a { ok := false, restarting := true }
  else match r with
    | .start config names hold => d.start a config names hold
    | .stop keepHold =>
        let d := d.stopTunnel
        let d := if keepHold then d else d.releaseHold a
        d.reply a { ok := true, running := some false }
    | .line =>
        if a.lineStarts then
          { d with lineRuns := true }.reply a { ok := true, running := some d.childRuns }
        else { d with lineRuns := d.lineRuns && a.lineKept }.failure a
    | .lineStop => { d with lineRuns := false }.status a
    | .release => (d.releaseHold a).status a
    | .status => d.status a
    | .other => d.failure a

end Daemon

/-! ### What happens to the helper -/

inductive DaemonEvent where
  | request (r : Request) (a : Answers)
  | tunnelDied
  /-- An update of the app replaces the helper's file. -/
  | replaced
  /-- The process is gone, and launchd starts the one on disk. -/
  | restarted (a : Answers)
  /-- `shutDown`: launchd's SIGTERM. -/
  | shutDown (a : Answers)
  deriving DecidableEq, Repr

/-- One event; none where it cannot happen. -/
def Daemon.step (d : Daemon) : DaemonEvent → Option Daemon
  | .request r a => if d.quitAfterReply then none else some (d.handle r a).1
  | .tunnelDied => some { d with childRuns := false }
  | .replaced => some { d with replacedOnDisk := true }
  | .restarted a =>
      some { hold := { d.hold with token := false }.look a.lists }
  | .shutDown a =>
      some { d.stopTunnel.releaseHold a with lineRuns := false, quitAfterReply := true }

/-- A request that asks for the block to go, or for a tunnel without one. -/
def Request.opens : Request → Bool
  | .start _ _ none => true
  | .stop keepHold => !keepHold
  | .release => true
  | _ => false

/-- The event is none that ends the block by intent. -/
def DaemonEvent.holds : DaemonEvent → Bool
  | .request r _ => !r.opens
  | .shutDown _ => false
  | _ => true

/-- pf takes the rules of a start that asks for a block, and the three looks that follow find
them in force. -/
def DaemonEvent.arms : DaemonEvent → Bool
  | .request (.start _ _ (some (some _))) a => a.loads && a.saysEnabled && a.saysHandsOver &&
      a.lists
  | _ => true

/-! ### The block stands -/

theorem TrafficHold.rules_block (request : HoldRequest) :
    (TrafficHold.rules request).any blockRule = true := by
  rw [TrafficHold.rules, List.any_append, Bool.or_eq_true]
  exact .inr (by decide)

namespace Hold

variable {h : Hold} {a : Answers}

@[simp] theorem look_blocks (h : Hold) (listed : Bool) : (h.look listed).blocks = h.blocks := rfl

@[simp] theorem enable_blocks (h : Hold) (a : Answers) : (h.enable a).blocks = h.blocks := by
  rw [enable]
  split <;> rfl

/-- An `arm` whose calls all succeed leaves a block, whatever stood before. -/
theorem arm_blocks (h : Hold) (request : HoldRequest)
    (ha : (a.loads && a.saysEnabled && a.saysHandsOver && a.lists) = true) :
    (h.arm request a).1.blocks = true := by
  simp only [Bool.and_eq_true] at ha
  obtain ⟨⟨⟨hloads, henabled⟩, hover⟩, hlists⟩ := ha
  have hstand : ({ h.enable a with anchor := TrafficHold.rules request } : Hold).blocks = true :=
    TrafficHold.rules_block request
  simp only [arm, hloads, henabled, hover, hlists, hstand, Bool.not_true, Bool.false_eq_true,
    if_false, Bool.true_and]
  exact hstand

end Hold

namespace Daemon

variable {d d' : Daemon} {a : Answers}

@[simp] theorem reply_blocks (d : Daemon) (a : Answers) (r : Reply) :
    (d.reply a r).1.hold.blocks = d.hold.blocks := by
  simp only [reply]
  split <;> rfl

@[simp] theorem failure_blocks (d : Daemon) (a : Answers) :
    (d.failure a).1.hold.blocks = d.hold.blocks := reply_blocks d a _

@[simp] theorem status_blocks (d : Daemon) (a : Answers) :
    (d.status a).1.hold.blocks = d.hold.blocks := reply_blocks d a _

@[simp] theorem startChild_blocks (d : Daemon) (a : Answers) (names : Option Bool) :
    (d.startChild a names).1.hold.blocks = d.hold.blocks := by
  simp only [startChild]
  split
  · exact failure_blocks d a
  · split
    · exact failure_blocks d a
    · exact reply_blocks _ a _

/-- A reply that can be encoded says whether the block stands. -/
theorem reply_hold_isSome (d : Daemon) (a : Answers) (r : Reply) :
    (d.reply a r).2.hold.isSome = a.encodes := by
  simp only [reply]
  cases a.encodes <;> rfl

theorem handle_stop_hold_isSome (d : Daemon) (a : Answers) (keepHold : Bool) :
    (d.handle (.stop keepHold) a).2.hold.isSome = a.encodes := by
  simp only [handle]
  split <;> exact reply_hold_isSome _ a _

/-- A stop that succeeds says the state. -/
theorem handle_stop_running (d : Daemon) (a : Answers) (keepHold : Bool)
    (hok : (d.handle (.stop keepHold) a).2.ok = true) :
    (d.handle (.stop keepHold) a).2.running.isSome = true := by
  simp only [handle, reply] at hok ⊢
  split
  · rename_i hreplaced
    rw [if_pos hreplaced] at hok
    cases hencodes : a.encodes <;> simp [hencodes] at hok
  · rename_i hreplaced
    rw [if_neg hreplaced] at hok
    cases hencodes : a.encodes with
    | true => simp
    | false => simp [hencodes] at hok

/-- A start behind a block leaves one, if it stood or pf took the new one. -/
theorem start_blocks (hblocks : d.hold.blocks = true) (config : Bool) (names : Option Bool)
    {hold : Option HoldRequest}
    (ha : hold.isSome → (a.loads && a.saysEnabled && a.saysHandsOver && a.lists) = true) :
    (d.start a config names (some hold)).1.hold.blocks = true := by
  simp only [start]
  split
  · simpa using hblocks
  · cases hold with
    | none => simpa using hblocks
    | some wanted =>
        have harm := d.stopTunnel.hold.arm_blocks wanted (ha rfl)
        simp only
        split
        · simpa using harm
        · simpa using harm

/-- **One request.** -/
theorem handle_blocks (hblocks : d.hold.blocks = true) {r : Request} (hr : r.opens = false)
    (ha : (DaemonEvent.request r a).arms = true) : (d.handle r a).1.hold.blocks = true := by
  simp only [handle]
  split
  · rw [reply_blocks]
    cases r with
    | stop keepHold =>
        cases keepHold with
        | true => exact hblocks
        | false => cases hr
    | start | line | lineStop | release | status | other => exact hblocks
  · cases r with
    | start config names hold =>
        cases hold with
        | none => cases hr
        | some hold =>
            refine start_blocks hblocks config names ?_
            intro hsome
            obtain ⟨wanted, rfl⟩ := Option.isSome_iff_exists.mp hsome
            exact ha
    | stop keepHold =>
        cases keepHold with
        | true => simpa [stopTunnel] using hblocks
        | false => cases hr
    | line =>
        simp only
        split
        · simpa using hblocks
        · simpa using hblocks
    | lineStop => simpa using hblocks
    | release => cases hr
    | status => simpa using hblocks
    | other => simpa using hblocks

/-- **One event.** -/
theorem step_blocks (e : DaemonEvent) (hblocks : d.hold.blocks = true) (he : e.holds = true)
    (ha : e.arms = true) (hs : d.step e = some d') : d'.hold.blocks = true := by
  cases e with
  | request r a =>
      simp only [step] at hs
      split at hs
      · cases hs
      · obtain rfl := Option.some.inj hs
        exact handle_blocks hblocks (by simpa [DaemonEvent.holds] using he) ha
  | tunnelDied | replaced | restarted =>
      obtain rfl := Option.some.inj hs
      exact hblocks
  | shutDown => cases he

/-- **Whole runs.** A block that stands stands after every event of a run that has none that ends it
by intent, and whose starts behind a block find pf taking the rules. -/
theorem run_blocks {es : List DaemonEvent} (hblocks : d.hold.blocks = true)
    (hC : AllSteps step (fun _ e => e.holds = true ∧ e.arms = true) d es)
    (hrun : run step d es = some d') : d'.hold.blocks = true :=
  run_inv (fun _ e _ hb hc hs => step_blocks e hb hc.1 hc.2 hs) hblocks hC hrun

end Daemon

end Ghostlane.Desktop
