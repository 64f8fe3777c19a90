import Ghostlane.Cli.Daemon.State

/-!
# Ghostlane.Cli.Daemon.Requests

The control requests that edit the config (`internal/daemon/handlers.go`: `add`,
`addInline`, `remove`, `disconnect`) and the fetches (`connect.go`: `fetchInto`,
`refresh`). Each edits the config under `mu`, clones it under `mu` — in the same
section or a later one — and saves the clone under `saveMu` later still. Between
any two of these sections every other request may move.
-/

namespace Ghostlane.Cli

open Ghostlane.Lib

/-- What marks a subscription that is its own body. -/
def inlinePrefix : Text := txt "inline:"

def isInline (url : Text) : Bool := hasPrefix url inlinePrefix && url != inlinePrefix

inductive RequestEvent
  /-- `add` of a list: the check for a duplicate and the append, one section. -/
  | add (i : Nat) (url : Text) (now : Nat)
  /-- `addInline`: check, append and clone, one section. -/
  | addInline (i : Nat) (text title : Text) (now : Nat)
  | remove (i : Nat) (needle : Text)
  | disconnect (i : Nat)
  /-- `refresh` with the lists that are due. -/
  | refresh (i : Nat) (due : List Text)
  /-- The refresh in flight `i` starts its next fetch as goroutine `j`. -/
  | spawnFetch (i j : Nat)
  /-- `allEntries` fetches a list that has no cache. -/
  | readList (i : Nat) (url : Text)
  /-- `Fetch` and `saveCache` come back; `none` when either failed. A refusal is
  an answer like any other. -/
  | fetchAnswer (i : Nat) (answer : Option Headers)
  /-- `fetchInto` notes title and interval, and clones. -/
  | noteTitle (i : Nat)
  /-- A failed `add` takes its subscription back. -/
  | rollBack (i : Nat)
  | clone (i : Nat)
  | save (i : Nat) (ok : Bool)

/-- The flight that moves. -/
def RequestEvent.who : RequestEvent → Nat
  | add i .. | addInline i .. | remove i _ | disconnect i | refresh i _ | spawnFetch i _
  | readList i _ | fetchAnswer i _ | noteTitle i | rollBack i | clone i | save i _ => i

namespace Config

def append (c : Config) (s : Subscription) : Config :=
  { c with subscriptions := c.subscriptions ++ [s] }

def holds (c : Config) (url : Text) : Bool := c.subscriptions.any (·.url == url)

/-- `fetchInto`: the title and interval of the list at `url`. -/
def noteTitle (c : Config) (url : Text) (h : Headers) : Config :=
  { c with subscriptions := c.subscriptions.map fun s =>
      if s.url = url then { s with title := h.title, intervalHours := h.intervalHours } else s }

/-- `add`, after a failed fetch: the last subscription is cut off. -/
def dropLast (c : Config) : Config :=
  { c with subscriptions := c.subscriptions.dropLast }

@[simp] theorem append_selection (c : Config) (s : Subscription) :
    (c.append s).selection = c.selection := rfl
@[simp] theorem noteTitle_selection (c : Config) (url : Text) (h : Headers) :
    (c.noteTitle url h).selection = c.selection := rfl
@[simp] theorem dropLast_selection (c : Config) : c.dropLast.selection = c.selection := rfl

end Config

section Remove

variable [External]

/-- Does `remove needle` take this subscription? -/
def removes (needle : Text) (s : Subscription) : Bool :=
  matchesSub s.url needle || s.title == needle

def Config.without (c : Config) (needle : Text) : Config :=
  { c with subscriptions := c.subscriptions.filter fun s => !removes needle s }

/-- `remove` decides to drop the running selection when its scope is, to the
letter, the address of a list it takes. -/
def dropsSelection (c : Config) (sel : Option Selection) (needle : Text) : Bool :=
  match sel with
  | some sel => c.subscriptions.any fun s => removes needle s && sel.subscription == s.url
  | none => false

@[simp] theorem Config.without_selection (c : Config) (needle : Text) :
    (c.without needle).selection = c.selection := rfl

end Remove

namespace Daemon

/-- `wg.Done()` of a fetch goroutine of the refresh in flight `parent`. -/
def childDone (s : Daemon) (parent : Nat) : Daemon :=
  match s.flights parent with
  | .refreshing due (n + 1) => s.set parent (.refreshing due n)
  | _ => s

/-- `fetchInto` returns its cache. -/
def fetchReturns (s : Daemon) (i : Nat) : Caller → Daemon
  | .add => s.set i .cloning
  | .refresh parent => (s.set i .idle).childDone parent
  | .reader => s.set i .idle

/-- `fetchInto` returns an error. -/
def fetchFails (s : Daemon) (i : Nat) (url : Text) : Caller → Daemon
  | .add => s.set i (.rollingBack url)
  | .refresh parent => (s.set i .idle).childDone parent
  | .reader => s.set i .idle

/-- `saveConfig` returns. `fetchInto` logs a failure and goes on; a request
answers with it. -/
def saved (s : Daemon) (i : Nat) (ok : Bool) : After → Daemon
  | .reply => s.set i .idle
  | .connect sel => s.set i (if ok then .start sel else .idle)
  | .fetchInto caller => s.fetchReturns i caller

/-- `store.Save` of a clone. -/
def write (s : Daemon) (clone : Config) (ok : Bool) : Daemon :=
  { s with file := if ok then clone else s.file }

variable [External]

/-- One section of a request that edits the config. -/
def requestStep (s : Daemon) : RequestEvent → Option Daemon
  | .add i url now =>
      match s.flights i with
      | .idle =>
          if !hasPrefix url (txt "https://") || s.cfg.holds url then some s
          else some ({ s with cfg := s.cfg.append { url, addedAt := now } }.set i
            (.fetching url .add))
      | _ => none
  | .addInline i text title now =>
      match s.flights i with
      | .idle =>
          if s.cfg.holds (inlinePrefix ++ text) then some s
          else
            let cfg := s.cfg.append { url := inlinePrefix ++ text, title, addedAt := now }
            some ({ s with cfg }.set i (.saving cfg .reply))
      | _ => none
  | .remove i needle =>
      match s.flights i with
      | .idle =>
          if s.cfg.subscriptions.any (removes needle) then
            some ({ s with cfg := s.cfg.without needle }.set i
              (if dropsSelection s.cfg s.sel needle then .stop else .cloning))
          else some s
      | _ => none
  | .disconnect i =>
      match s.flights i with
      | .idle => some (s.set i .stop)
      | _ => none
  | .refresh i due =>
      match s.flights i with
      | .idle =>
          if due.all fun url => s.cfg.holds url && !isInline url then
            some (s.set i (.refreshing due 0))
          else none
      | _ => none
  | .spawnFetch i j =>
      match s.flights i, s.flights j with
      | .refreshing (url :: due) n, .idle =>
          some ((s.set i (.refreshing due (n + 1))).set j (.fetching url (.refresh i)))
      | _, _ => none
  | .readList i url =>
      match s.flights i with
      | .idle => if s.cfg.holds url then some (s.set i (.fetching url .reader)) else none
      | _ => none
  | .fetchAnswer i answer =>
      match s.flights i with
      | .fetching url caller =>
          match answer with
          | some h => some (s.set i (.fetched url h caller))
          | none => some (s.fetchFails i url caller)
      | _ => none
  | .noteTitle i =>
      match s.flights i with
      | .fetched url h caller =>
          let cfg := s.cfg.noteTitle url h
          some ({ s with cfg }.set i (.saving cfg (.fetchInto caller)))
      | _ => none
  | .rollBack i =>
      match s.flights i with
      | .rollingBack _ =>
          -- the slice expression ends before the first element of an empty list
          if s.cfg.subscriptions = [] then some { s with crashed := true }
          else some ({ s with cfg := s.cfg.dropLast }.set i .idle)
      | _ => none
  | .clone i =>
      match s.flights i with
      | .cloning => some (s.set i (.saving s.cfg .reply))
      | _ => none
  | .save i ok =>
      match s.flights i with
      | .saving clone after => some ((s.write clone ok).saved i ok after)
      | _ => none

end Daemon

end Ghostlane.Cli
