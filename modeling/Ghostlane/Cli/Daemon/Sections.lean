import Ghostlane.Cli.Daemon.Requests

/-!
# Ghostlane.Cli.Daemon.Sections

The sections under `connectMu` (`internal/daemon/connect.go`: `startConnect`,
`stopAll`, `startStored`, `afterRefresh`; `daemon.go`: `Run`) and `connect`,
which stores a selection under `mu` before it asks for one of them.

Every section but `afterRefresh`'s and `startStored`'s early returns begins with
`stopConnectLocked`: it cancels the loop and waits for it to end. That wait is
where a section is cut in two, `lock` and `unlock`; the loop moves in between,
no other section does.
-/

namespace Ghostlane.Cli

open Ghostlane.Lib

/-- A control request to connect. -/
structure Request where
  selector : Text
  mode : Text := []
  subscription : Text := []
  killSwitch : Bool := false
  deriving DecidableEq, Repr

/-- What `Routes` answers during one section. -/
structure RoutesAnswers where
  install : Answer Bool := .ok
  /-- `GlobalAddresses`. -/
  addresses : Option (List Addr) := some []
  sync : Answer (List Addr) := .ok
  /-- `WatchAddresses` succeeds; a failure is logged and the switch stands unwatched. -/
  watch : Bool := true
  clear : Answer (List Addr) := .ok
  remove : Answer Bool := .ok
  deriving DecidableEq, Repr

/-- Every call succeeds. -/
def RoutesAnswers.allOk (a : RoutesAnswers) : Bool :=
  a.install.isOk && a.addresses.isSome && a.sync.isOk && a.clear.isOk && a.remove.isOk

inductive SectionEvent
  /-- `connect` checks its request; `listenIP` says whether the proxy's address is an IP. -/
  | connect (i : Nat) (req : Request) (listenIP : Bool) (lists : Lists)
  /-- `connect` stores the selection and clones the config. -/
  | storeSelection (i : Nat)
  /-- A request takes `connectMu` and cancels the loop. -/
  | lock (i : Nat)
  /-- The wait of whichever section holds `connectMu` is over; until the rest of
  it no selection runs. -/
  | waited
  /-- The rest of a request's section. -/
  | unlock (i : Nat) (a : RoutesAnswers)
  /-- A refresh takes `connectMu` and decides. -/
  | afterRefresh (i : Nat) (lists : Lists)
  | startStored
  | runEnds
  /-- `Run` enters `stopAll(false)`. -/
  | lockRun
  | unlockRun (a : RoutesAnswers)

def modeOf (mode : Text) : Option Mode :=
  if mode = [] ∨ mode = txt "proxy" then some .proxy
  else if mode = txt "tun" then some .tun
  else none

namespace Daemon

/-- `stopConnectLocked`, up to its wait. -/
def cancelLoop (s : Daemon) : Daemon :=
  { s with loop := s.loop.map fun l => { l with cancelled := true } }

/-- `installKillSwitch`, and whether it succeeded. -/
def installKillSwitch (s : Daemon) (a : RoutesAnswers) : Daemon × Bool :=
  if s.ksOn then (s, true)
  else
    let k := s.kernel.installKillSwitch a.install
    if !a.install.isOk then ({ s with kernel := k }, false)
    else match a.addresses with
      | none => ({ s with kernel := k.removeKillSwitch a.remove }, false)
      | some addrs =>
          let k := k.sync addrs a.sync
          if !a.sync.isOk then ({ s with kernel := k.removeKillSwitch a.remove }, false)
          else ({ s with kernel := k, ksOn := true, ksWatched := a.watch }, true)

/-- `removeKillSwitch`: the watcher is stopped before the rules go. -/
def removeKillSwitch (s : Daemon) (a : RoutesAnswers) : Daemon :=
  if s.ksOn then
    { s with ksOn := false, ksWatched := false,
             kernel := (s.kernel.clear a.clear).removeKillSwitch a.remove }
  else s

/-- A new loop for `sel`; it runs under `runCtx`. -/
def startLoop (s : Daemon) (sel : Selection) : Daemon :=
  { s with sel := some sel, loop := some { sel } }

/-- `startConnectLocked` once the old loop has ended. With a switch that cannot
be installed the selection is kept and no loop started. -/
def startConnectLocked (s : Daemon) (sel : Selection) (a : RoutesAnswers) : Daemon :=
  let s := { s with sel := none }
  if sel.wantsSwitch then
    match s.installKillSwitch a with
    | (s, true) => s.startLoop sel
    | (s, false) => { s with sel := some sel }
  else (s.removeKillSwitch a).startLoop sel

/-- `stopAll` once the loop has ended. -/
def stopAll (s : Daemon) (forgetSelection : Bool) (a : RoutesAnswers) : Daemon :=
  let s := { s with sel := none }.removeKillSwitch a
  if forgetSelection then { s with cfg := { s.cfg with selection := none } } else s

/-! ### What starting and stopping do -/

/-- The outcomes of `startConnectLocked`. -/
inductive Starts (s : Daemon) (sel : Selection) (a : RoutesAnswers) : Daemon → Prop
  | keepsSwitch (hsw : sel.wantsSwitch = true) (hon : s.ksOn = true) :
      Starts s sel a (s.startLoop sel)
  | installs {addrs} (hsw : sel.wantsSwitch = true) (hoff : s.ksOn = false)
      (hi : a.install.isOk = true) (ha : a.addresses = some addrs) (hs : a.sync.isOk = true) :
      Starts s sel a ({ s with
        kernel := (s.kernel.installKillSwitch a.install).sync addrs a.sync,
        ksOn := true, ksWatched := a.watch }.startLoop sel)
  | fails (kernel : Kernel) (hsw : sel.wantsSwitch = true) (hoff : s.ksOn = false)
      (hno : a.allOk = false) : Starts s sel a { s with kernel, sel := some sel }
  | plain (hsw : sel.wantsSwitch = false) (hoff : s.ksOn = false) :
      Starts s sel a (s.startLoop sel)
  | removes (hsw : sel.wantsSwitch = false) (hon : s.ksOn = true) :
      Starts s sel a ({ s with
        kernel := (s.kernel.clear a.clear).removeKillSwitch a.remove,
        ksOn := false, ksWatched := false }.startLoop sel)

theorem startConnectLocked_starts (s : Daemon) (sel : Selection) (a : RoutesAnswers) :
    Starts s sel a (s.startConnectLocked sel a) := by
  obtain ⟨cfg, file, lastGood, sel₀, loop, ksOn, ksWatched, kernel, runDone, connectMu, main,
    flights, crashed⟩ := s
  unfold startConnectLocked installKillSwitch removeKillSwitch
  dsimp only
  cases hsw : sel.wantsSwitch with
  | false =>
      cases ksOn with
      | false => exact .plain hsw rfl
      | true => exact .removes hsw rfl
  | true =>
      cases ksOn with
      | true => exact .keepsSwitch hsw rfl
      | false =>
          cases hi : a.install.isOk with
          | false =>
              have hno : a.allOk = false := by simp [RoutesAnswers.allOk, hi]
              exact .fails _ hsw rfl hno
          | true =>
              cases ha : a.addresses with
              | none =>
                  have hno : a.allOk = false := by simp [RoutesAnswers.allOk, ha]
                  exact .fails _ hsw rfl hno
              | some addrs =>
                  cases hs : a.sync.isOk with
                  | false =>
                      have hno : a.allOk = false := by simp [RoutesAnswers.allOk, hs]
                      exact .fails _ hsw rfl hno
                  | true => exact .installs hsw rfl hi ha hs

/-- A start touches what runs, the switch and its rules only. -/
theorem startConnectLocked_eq (s : Daemon) (sel : Selection) (a : RoutesAnswers) :
    ∃ loop ksOn ksWatched kernel, s.startConnectLocked sel a =
      { s with sel := some sel, loop, ksOn, ksWatched, kernel } := by
  have h := startConnectLocked_starts s sel a
  generalize s.startConnectLocked sel a = s' at h ⊢
  cases h <;> exact ⟨_, _, _, _, rfl⟩

/-- A start whose calls to `Routes` succeed starts its loop. -/
theorem loop_of_starts {s s' : Daemon} {sel : Selection} {a : RoutesAnswers}
    (hok : a.allOk = true) (h : Starts s sel a s') : s'.loop.isSome = true := by
  cases h with
  | fails _ _ _ hno =>
      rw [hok] at hno
      cases hno
  | _ => rfl

/-- The outcomes of `stopAll`, before the selection is forgotten. -/
inductive Stops (s : Daemon) (a : RoutesAnswers) : Daemon → Prop
  | off (hoff : s.ksOn = false) : Stops s a { s with sel := none }
  | removes (hon : s.ksOn = true) :
      Stops s a { s with
        sel := none, kernel := (s.kernel.clear a.clear).removeKillSwitch a.remove,
        ksOn := false, ksWatched := false }

theorem removeKillSwitch_stops (s : Daemon) (a : RoutesAnswers) :
    Stops s a ({ s with sel := none }.removeKillSwitch a) := by
  unfold removeKillSwitch
  dsimp only
  split
  · exact .removes ‹_›
  · exact .off (Bool.eq_false_iff.mpr ‹_›)

/-- `stopAll` touches the selections, the switch and its rules only. -/
theorem stopAll_eq (s : Daemon) (forget : Bool) (a : RoutesAnswers) :
    ∃ cfg ksOn ksWatched kernel, s.stopAll forget a =
      { s with cfg, sel := none, ksOn, ksWatched, kernel } := by
  unfold stopAll removeKillSwitch
  dsimp only
  split <;> split <;> exact ⟨_, _, _, _, rfl⟩

/-- A stop that forgets nothing leaves the config alone. -/
theorem stopAll_false_eq (s : Daemon) (a : RoutesAnswers) :
    ∃ ksOn ksWatched kernel, s.stopAll false a =
      { s with sel := none, ksOn, ksWatched, kernel } := by
  have h := removeKillSwitch_stops s a
  rw [show s.stopAll false a = { s with sel := none }.removeKillSwitch a from rfl]
  generalize { s with sel := none }.removeKillSwitch a = s' at h ⊢
  cases h <;> exact ⟨_, _, _, rfl⟩

theorem stopAll_true_eq (s : Daemon) (a : RoutesAnswers) :
    ∃ ksOn ksWatched kernel, s.stopAll true a =
      { s with cfg := { s.cfg with selection := none }, sel := none, ksOn, ksWatched, kernel } := by
  obtain ⟨ksOn, ksWatched, kernel, h⟩ := stopAll_false_eq s a
  refine ⟨ksOn, ksWatched, kernel, ?_⟩
  rw [show s.stopAll true a = { s.stopAll false a with
    cfg := { (s.stopAll false a).cfg with selection := none } } from rfl, h]

@[simp] theorem stopAll_main (s : Daemon) (forget : Bool) (a : RoutesAnswers) :
    (s.stopAll forget a).main = s.main := by
  obtain ⟨_, _, _, _, h⟩ := stopAll_eq s forget a
  rw [h]

@[simp] theorem stopAll_loop (s : Daemon) (forget : Bool) (a : RoutesAnswers) :
    (s.stopAll forget a).loop = s.loop := by
  obtain ⟨_, _, _, _, h⟩ := stopAll_eq s forget a
  rw [h]

@[simp] theorem stopAll_sel (s : Daemon) (forget : Bool) (a : RoutesAnswers) :
    (s.stopAll forget a).sel = none := by
  obtain ⟨_, _, _, _, h⟩ := stopAll_eq s forget a
  rw [h]

section Connect

variable [External]

/-- The checks of `connect`; the selection it goes on with. -/
def connectCheck (s : Daemon) (req : Request) (listenIP : Bool) (lists : Lists) :
    Option Selection :=
  match modeOf req.mode with
  | none => none
  | some mode =>
      if s.cfg.subscriptions = [] then none
      else if mode = .proxy ∧ listenIP = false then none
      else if req.killSwitch = true ∧ mode ≠ .tun then none
      else match allEntries s.cfg.subscriptions lists req.subscription with
        | none => none
        | some all =>
            match select (flatten all) req.selector with
            | .error _ => none
            | .ok _ => some { subscription := req.subscription, selector := req.selector, mode,
                              killSwitch := req.killSwitch }

/-- What `afterRefresh` starts: the stored selection when no loop runs, or when
the text of the line that is up has changed. -/
def refreshStarts (s : Daemon) (lists : Lists) : Option Selection :=
  match s.cfg.selection with
  | none => none
  | some stored =>
      if s.loop.isNone then some stored
      else match s.cur with
        | none => none
        | some line =>
            match allEntries s.cfg.subscriptions lists stored.subscription with
            | none => none
            | some all =>
                match all.find? (·.entry.id == line.entry.id) with
                | some x => if x.entry.raw = line.entry.raw then none else some stored
                | none => none

/-- What `startStored` starts: the stored selection, unless a request's loop runs. -/
def storedStarts (s : Daemon) : Option Selection :=
  if s.loop.isSome then none else s.cfg.selection

/-- One section under `connectMu`, or one of `connect`'s before it. -/
def sectionStep (s : Daemon) : SectionEvent → Option Daemon
  | .connect i req listenIP lists =>
      match s.flights i with
      | .idle =>
          match s.connectCheck req listenIP lists with
          | some sel => some (s.set i (.storing sel))
          | none => some s
      | _ => none
  | .storeSelection i =>
      match s.flights i with
      | .storing sel =>
          let cfg := { s.cfg with selection := some sel }
          some ({ s with cfg }.set i (.saving cfg (.connect sel)))
      | _ => none
  | .lock i =>
      if s.connectMu then none
      else match s.flights i with
        | .start sel => some ({ s.cancelLoop with connectMu := true }.set i (.starting sel))
        | .stop => some ({ s.cancelLoop with connectMu := true }.set i .stopping)
        | _ => none
  | .waited =>
      if s.connectMu && s.loop.isNone then some { s with sel := none } else none
  | .unlock i a =>
      if s.loop.isSome then none
      else match s.flights i with
        | .starting sel => some ({ s.startConnectLocked sel a with connectMu := false }.set i .idle)
        | .stopping => some ({ s.stopAll true a with connectMu := false }.set i .cloning)
        | _ => none
  | .afterRefresh i lists =>
      if s.connectMu then none
      else match s.flights i with
        | .refreshing [] 0 =>
            match s.refreshStarts lists with
            | some sel => some ({ s.cancelLoop with connectMu := true }.set i (.starting sel))
            | none => some (s.set i .idle)
        | _ => none
  | .startStored =>
      if s.connectMu then none
      else match s.main with
        | .booting =>
            match s.storedStarts with
            | some sel => some { s with main := .startingStored sel, connectMu := true }
            | none => some { s with main := .serving }
        | _ => none
  | .runEnds => some { s with runDone := true }
  | .lockRun =>
      if s.connectMu || !s.runDone then none
      else match s.main with
        | .serving => some { s.cancelLoop with main := .stopping, connectMu := true }
        | _ => none
  | .unlockRun a =>
      if s.loop.isSome then none
      else match s.main with
        | .startingStored sel =>
            some { s.startConnectLocked sel a with main := .serving, connectMu := false }
        | .stopping => some { s.stopAll false a with main := .returned, connectMu := false }
        | _ => none

end Connect

end Daemon

end Ghostlane.Cli
