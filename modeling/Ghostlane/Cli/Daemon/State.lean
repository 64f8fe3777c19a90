import Mathlib.Logic.Function.Basic
import Ghostlane.Cli.Resolve

/-!
# Ghostlane.Cli.Daemon.State

The state of `ghostlane run` (`internal/daemon/daemon.go`) as its goroutines
share it: the config in memory and on disk, the running selection, the connect
loop, the kill switch, the kernel's policy rules, the locks, and every control
request in flight with the point it has reached.

Time and the texts of `status` (state, last error, the pending line) are left
out: no section below reads them.

The events that move this state are in `Requests`, `Sections` and `Loop`; each
is one section under `mu`, `saveMu` or `connectMu`, or one call to the outside,
and carries what the outside answers. `connectMu` sections are cut at the one
place they wait, for the old loop to end.
-/

namespace Ghostlane.Cli

open Ghostlane.Lib

/-! ### The kernel behind `Routes` -/

/-- An address of the host. -/
structure Addr where
  is6 : Bool
  bits : Nat
  deriving DecidableEq, Repr

/-- The calls that edit rules. -/
inductive RoutesCall
  | installKillSwitch
  | removeKillSwitch
  | sync (addrs : List Addr)
  | clear
  deriving DecidableEq, Repr

/-- A call succeeds, or fails and leaves the rules it edits in some state. -/
inductive Answer (α : Type)
  | ok
  | failed (left : α)
  deriving DecidableEq, Repr

namespace Answer

variable {α : Type}

def isOk : Answer α → Bool
  | ok => true
  | failed _ => false

/-- What the call leaves behind when `done` is what it was for. -/
def leaves (done : α) : Answer α → α
  | ok => done
  | failed left => left

@[simp] theorem leaves_of_isOk {a : Answer α} (h : a.isOk = true) (done : α) :
    a.leaves done = done := by
  cases a with
  | ok => rfl
  | failed _ => cases h

end Answer

/-- The rules of the daemon in the kernel, and the calls that put them there. -/
structure Kernel where
  killSwitch : Bool := false
  ownRules : List Addr := []
  calls : List RoutesCall := []
  deriving DecidableEq, Repr

namespace Kernel

def installKillSwitch (k : Kernel) (a : Answer Bool) : Kernel :=
  { k with killSwitch := a.leaves true, calls := k.calls ++ [.installKillSwitch] }

def removeKillSwitch (k : Kernel) (a : Answer Bool) : Kernel :=
  { k with killSwitch := a.leaves false, calls := k.calls ++ [.removeKillSwitch] }

def sync (k : Kernel) (addrs : List Addr) (a : Answer (List Addr)) : Kernel :=
  { k with ownRules := a.leaves addrs, calls := k.calls ++ [.sync addrs] }

def clear (k : Kernel) (a : Answer (List Addr)) : Kernel :=
  { k with ownRules := a.leaves [], calls := k.calls ++ [.clear] }

/-- `Clear` by a line, which only a line with own-address rules of its own calls. -/
def clearIf (own : Bool) (k : Kernel) (a : Answer (List Addr)) : Kernel :=
  if own then k.clear a else k

@[simp] theorem installKillSwitch_ownRules (k : Kernel) (a : Answer Bool) :
    (k.installKillSwitch a).ownRules = k.ownRules := rfl
@[simp] theorem removeKillSwitch_ownRules (k : Kernel) (a : Answer Bool) :
    (k.removeKillSwitch a).ownRules = k.ownRules := rfl
@[simp] theorem sync_killSwitch (k : Kernel) (addrs : List Addr) (a : Answer (List Addr)) :
    (k.sync addrs a).killSwitch = k.killSwitch := rfl
@[simp] theorem clear_killSwitch (k : Kernel) (a : Answer (List Addr)) :
    (k.clear a).killSwitch = k.killSwitch := rfl
@[simp] theorem clearIf_false (k : Kernel) (a : Answer (List Addr)) : clearIf false k a = k := rfl
@[simp] theorem clearIf_true (k : Kernel) (a : Answer (List Addr)) : clearIf true k a = k.clear a :=
  rfl

@[simp] theorem clearIf_killSwitch (own : Bool) (k : Kernel) (a : Answer (List Addr)) :
    (clearIf own k a).killSwitch = k.killSwitch := by
  cases own <;> rfl

end Kernel

/-! ### The connect loop -/

/-- A line that is up. -/
structure Live where
  entry : Entry
  mode : Mode
  /-- This line put the own-address rules in, not the kill switch. -/
  ownRules : Bool
  deriving DecidableEq, Repr

/-- How far `bringUp` has come with a candidate; `own` is the flag it read. -/
inductive Stage
  /-- The engine and its confirmation, or the pre-flight. -/
  | proving
  /-- The own-address rules are to go in. -/
  | ruling
  /-- The probe inbound is to be picked. -/
  | probing (own : Bool)
  /-- The front is to be started. -/
  | fronting (own : Bool)
  /-- The line is to be confirmed through the front. -/
  | confirming (own : Bool)
  deriving DecidableEq, Repr

/-- Does the stage hold own-address rules its own failure has to clear? -/
def Stage.holdsRules : Stage → Bool
  | proving | ruling => false
  | probing own | fronting own | confirming own => own

/-- Where `connectLoop` stands. -/
inductive Phase
  /-- Before its context check: a new round, or the end of a pause. -/
  | head
  /-- `resolve` remembered a line; the clone of the config is to be saved. -/
  | remembering (clone : Config) (cands : Except ResolveError (List Entry))
  /-- Candidates of this round still to try. -/
  | trying (rest : List Entry) (anyUp : Bool)
  | bringing (stage : Stage) (cand : Entry) (rest : List Entry) (anyUp : Bool)
  /-- A line is up and supervised; `watch` says whether `WatchAddresses` succeeded
  for it. -/
  | up (line : Live) (watch : Bool) (rest : List Entry)
  deriving DecidableEq

/-- Does the loop stand where own-address rules of a line may be in the kernel? -/
def Phase.holdsRules : Phase → Bool
  | bringing stage _ _ _ => stage.holdsRules
  | up line _ _ => line.ownRules
  | _ => false

/-- A line watches the addresses for rules of its own only. -/
def Phase.watches : Phase → Bool
  | up line watch _ => line.ownRules && watch
  | _ => false

theorem Phase.holdsRules_of_watches {p : Phase} (h : p.watches = true) : p.holdsRules = true := by
  cases p with
  | up line watch rest =>
      simp only [watches, Bool.and_eq_true] at h
      exact h.1
  | _ => cases h

def Phase.ruling : Phase → Bool
  | bringing .ruling .. => true
  | _ => false

/-- The clone `remember` is saving. -/
def Phase.clone : Phase → Option Config
  | remembering clone _ => some clone
  | _ => none

structure Loop where
  sel : Selection
  phase : Phase := .head
  cancelled : Bool := false
  round : Nat := 0
  lastTried : Text := []

/-! ### Requests in flight -/

/-- What a host says beside its list. -/
structure Headers where
  title : Text := []
  intervalHours : Int := 24
  deriving DecidableEq, Repr

/-- Who called `fetchInto`. -/
inductive Caller
  | add
  /-- A goroutine of the refresh in flight `parent`. -/
  | refresh (parent : Nat)
  /-- `allEntries`, for a list without a cache. -/
  | reader
  deriving DecidableEq, Repr

/-- What follows a save. -/
inductive After
  | reply
  | connect (sel : Selection)
  | fetchInto (caller : Caller)
  deriving DecidableEq, Repr

/-- The point a control request, or a goroutine of one, has reached. -/
inductive Flight
  | idle
  /-- `connect` passed its checks; the selection is to be stored. -/
  | storing (sel : Selection)
  /-- `connect` stored and saved it; `startConnect` is to come. -/
  | start (sel : Selection)
  /-- A start section holding `connectMu`, waiting for the old loop. -/
  | starting (sel : Selection)
  /-- `stopAll(true)` is to come. -/
  | stop
  /-- `stopAll(true)` holding `connectMu`, waiting for the loop. -/
  | stopping
  /-- The config is to be cloned for saving. -/
  | cloning
  /-- The clone is to be written to the file. -/
  | saving (clone : Config) (after : After)
  | fetching (url : Text) (caller : Caller)
  /-- The list is cached; its title and interval are to be noted. -/
  | fetched (url : Text) (headers : Headers) (caller : Caller)
  /-- The fetch of an `add` failed; its subscription is to be taken back. -/
  | rollingBack (url : Text)
  /-- A refresh with lists still to ask and goroutines it waits for. -/
  | refreshing (due : List Text) (running : Nat)
  deriving DecidableEq, Repr

/-- A request or a refresh, or a goroutine of one. -/
def Flight.isRequest : Flight → Bool
  | idle => false
  | fetching _ .reader | fetched _ _ .reader | saving _ (.fetchInto .reader) => false
  | _ => true

/-- A flight whose next move is a section of its own, not a request's. -/
def Flight.atSection : Flight → Bool
  | storing _ | start _ | starting _ | stop | stopping => true
  | _ => false

/-- A flight other flights move, too: a refresh by its goroutines, and an idle
one, which may become a goroutine. -/
def Flight.isShared : Flight → Bool
  | idle | refreshing .. => true
  | _ => false

/-- Where `Run` stands. -/
inductive Main
  | booting
  /-- `startStored` holding `connectMu`. -/
  | startingStored (sel : Selection)
  | serving
  /-- `stopAll(false)` holding `connectMu`. -/
  | stopping
  | returned
  deriving DecidableEq, Repr

/-! ### The daemon -/

structure Daemon where
  cfg : Config
  /-- What the config file holds, as `store.Load` reads it. -/
  file : Config
  lastGood : Text → Text := fun _ => []
  sel : Option Selection := none
  loop : Option Loop := none
  ksOn : Bool := false
  /-- The switch's address watcher runs. -/
  ksWatched : Bool := false
  kernel : Kernel := {}
  /-- `runCtx` has ended. -/
  runDone : Bool := false
  /-- `connectMu` is held. -/
  connectMu : Bool := false
  main : Main := .booting
  flights : Nat → Flight := fun _ => .idle
  /-- A goroutine panicked: the process is gone. -/
  crashed : Bool := false

namespace Daemon

/-- The daemon `Run` makes of its config file, after `CleanupStale`. -/
def init (cfg : Config) : Daemon := { cfg, file := cfg }

def set (s : Daemon) (i : Nat) (f : Flight) : Daemon :=
  { s with flights := Function.update s.flights i f }

@[simp] theorem set_cfg (s : Daemon) (i : Nat) (f : Flight) : (s.set i f).cfg = s.cfg := rfl
@[simp] theorem set_file (s : Daemon) (i : Nat) (f : Flight) : (s.set i f).file = s.file := rfl
@[simp] theorem set_sel (s : Daemon) (i : Nat) (f : Flight) : (s.set i f).sel = s.sel := rfl
@[simp] theorem set_loop (s : Daemon) (i : Nat) (f : Flight) : (s.set i f).loop = s.loop := rfl
@[simp] theorem set_ksOn (s : Daemon) (i : Nat) (f : Flight) : (s.set i f).ksOn = s.ksOn := rfl
@[simp] theorem set_kernel (s : Daemon) (i : Nat) (f : Flight) : (s.set i f).kernel = s.kernel :=
  rfl
@[simp] theorem set_runDone (s : Daemon) (i : Nat) (f : Flight) :
    (s.set i f).runDone = s.runDone := rfl
@[simp] theorem set_connectMu (s : Daemon) (i : Nat) (f : Flight) :
    (s.set i f).connectMu = s.connectMu := rfl
@[simp] theorem set_main (s : Daemon) (i : Nat) (f : Flight) : (s.set i f).main = s.main := rfl
@[simp] theorem set_crashed (s : Daemon) (i : Nat) (f : Flight) :
    (s.set i f).crashed = s.crashed := rfl

@[simp] theorem set_flights_self (s : Daemon) (i : Nat) (f : Flight) :
    (s.set i f).flights i = f := Function.update_self ..

theorem set_flights_of_ne (s : Daemon) {i j : Nat} (h : j ≠ i) (f : Flight) :
    (s.set i f).flights j = s.flights j := Function.update_of_ne h ..

/-- The line that is up, `d.cur`. -/
def cur (s : Daemon) : Option Live :=
  match s.loop with
  | some { phase := .up line .., .. } => some line
  | _ => none

/-- What `remember` has still to save. -/
def remembering (s : Daemon) : Option Config := s.loop.bind fun l => l.phase.clone

/-- Does the loop stand where own-address rules of its line may be in the kernel? -/
def holdsRules (s : Daemon) : Bool := s.loop.any fun l => l.phase.holdsRules

/-- Is the loop about to put own-address rules in? -/
def ruling (s : Daemon) : Bool := s.loop.any fun l => l.phase.ruling

/-- No control request and no refresh is in flight; `allEntries` may be fetching
for the loop. -/
def Quiet (s : Daemon) : Prop := ∀ i, (s.flights i).isRequest = false

end Daemon

end Ghostlane.Cli
