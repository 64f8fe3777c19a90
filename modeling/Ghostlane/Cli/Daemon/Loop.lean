import Ghostlane.Cli.Daemon.State

/-!
# Ghostlane.Cli.Daemon.Loop

The connect loop (`internal/daemon/connect.go`: `connectLoop`, `bringUp`,
`supervise`, `tearDown`): one goroutine that goes round the candidates of its
selection until its context ends. Every point at which `bringUp` can fail is a
stage of its own, because the failure decides by the flag read in the middle
whether the own-address rules are its to clear.
-/

namespace Ghostlane.Cli

open Ghostlane.Lib

inductive LoopEvent
  | readLists (lists : Lists)
  /-- `remember`'s save returns. -/
  | saved (ok : Bool)
  /-- The next candidate, or the end of the round. -/
  | next
  /-- The engine and its confirmation, or the pre-flight, are done. -/
  | proved (ok : Bool)
  /-- `syncOwnRules`, for a line that rides with its own rules. -/
  | ruled (addresses : Option (List Addr)) (sync : Answer (List Addr))
  | probed (ok : Bool) (clear : Answer (List Addr))
  | fronted (ok : Bool) (clear : Answer (List Addr))
  | confirmed (ok : Bool) (clear : Answer (List Addr)) (watch : Bool)
  /-- `supervise` returns, `tearDown` follows. -/
  | exited (clear : Answer (List Addr))

/-- Every `Routes` call of the event succeeds. -/
def LoopEvent.routesOk : LoopEvent → Bool
  | ruled addresses sync => addresses.isSome && sync.isOk
  | probed _ clear | fronted _ clear | confirmed _ clear _ | exited clear => clear.isOk
  | _ => true

/-- The next round starts after the line the last one ended on. -/
def rotateAfter (cands : List Entry) (lastID : Text) : List Entry :=
  match cands.findIdx? (·.id == lastID) with
  | some i => cands.drop (i + 1) ++ cands.take (i + 1)
  | none => cands

/-- The first round starts with the line that worked last. -/
def orderCandidates (lastGood : Text) (cands : List Entry) : List Entry :=
  match (cands.drop 1).findIdx? (·.id == lastGood) with
  | some i => (cands.drop (i + 1)).take 1 ++ cands.take (i + 1) ++ cands.drop (i + 2)
  | none => cands

def lastGoodKey (sel : Selection) : Text := sel.subscription ++ '|' :: sel.selector

/-- `remember` in the stored selection, when that is still this one. -/
def Config.rememberLine (c : Config) (sel : Selection) : Config :=
  match c.selection with
  | some stored =>
      if stored.selector = sel.selector ∧ stored.subscription = sel.subscription then
        { c with
          selection := some { stored with entryID := sel.entryID, entrySub := sel.entrySub } }
      else c
  | none => c

/-- Remembering changes nothing a person asked for. -/
theorem Config.rememberLine_asked (c : Config) (sel : Selection) :
    (c.rememberLine sel).selection.map Selection.asked = c.selection.map Selection.asked := by
  unfold Config.rememberLine
  split
  · rename_i stored hstored
    split
    · rw [hstored]
      rfl
    · rfl
  · rfl

@[simp] theorem Config.rememberLine_subscriptions (c : Config) (sel : Selection) :
    (c.rememberLine sel).subscriptions = c.subscriptions := by
  unfold Config.rememberLine
  split
  · split <;> rfl
  · rfl

namespace Daemon

/-- The loop goes on from `phase`. -/
def goOn (s : Daemon) (l : Loop) (phase : Phase) : Daemon :=
  { s with loop := some { l with phase } }

/-- The loop's goroutine returns. -/
def loopEnds (s : Daemon) : Daemon := { s with loop := none }

/-- Its context has ended. -/
def cancelledIn (s : Daemon) (l : Loop) : Bool := l.cancelled || s.runDone

/-- From resolved candidates to the order they are tried in. -/
def startRound (s : Daemon) (l : Loop) (cands : Except ResolveError (List Entry)) : Daemon :=
  match cands with
  | .error _ => s.loopEnds
  | .ok cands =>
      match cands.filter Entry.connectable with
      | [] => s.loopEnds
      | cands =>
          let ordered :=
            if l.round = 0 then orderCandidates (s.lastGood (lastGoodKey l.sel)) cands
            else rotateAfter cands l.lastTried
          s.goOn { l with round := l.round + 1 } (.trying ordered false)

/-- `markUp`: the line is the last good one, and up. -/
def markUp (s : Daemon) (l : Loop) (line : Live) (watch : Bool) (rest : List Entry) : Daemon :=
  { s with lastGood := Function.update s.lastGood (lastGoodKey l.sel) line.entry.id }.goOn l
    (.up line watch rest)

/-- A line's own-address rules go, when it has any. -/
def clearRules (s : Daemon) (own : Bool) (a : Answer (List Addr)) : Daemon :=
  { s with kernel := s.kernel.clearIf own a }

variable [External]

/-- The head of a round: the context, the lists, `resolve`. -/
def beginRound (s : Daemon) (l : Loop) (lists : Lists) : Daemon :=
  if s.cancelledIn l then s.loopEnds
  else match allEntries s.cfg.subscriptions lists l.sel.subscription with
    | none => s
    | some all =>
        let r := resolve s.cfg.subscriptions lists all l.sel
        if r.remembered then
          let cfg := s.cfg.rememberLine r.sel
          { s with cfg }.goOn { l with sel := r.sel } (.remembering cfg r.cands)
        else s.startRound { l with sel := r.sel } r.cands

/-- One step of the connect loop. -/
def loopStep (s : Daemon) (e : LoopEvent) : Option Daemon :=
  match s.loop with
  | none => none
  | some l =>
      match l.phase, e with
      | .head, .readLists lists => some (s.beginRound l lists)
      | .remembering clone cands, .saved ok =>
          some ({ s with file := if ok then clone else s.file }.startRound l cands)
      | .trying [] _, .next => some (s.goOn l .head)
      | .trying (c :: rest) anyUp, .next =>
          if s.cancelledIn l then some s.loopEnds
          else some (s.goOn { l with lastTried := c.id } (.bringing .proving c rest anyUp))
      | .bringing .proving c rest anyUp, .proved ok =>
          if !ok then some (s.goOn l (.trying rest anyUp))
          -- the own-address rules ride the line unless the kill switch holds them
          else if l.sel.mode = .tun ∧ s.ksOn = false then
            some (s.goOn l (.bringing .ruling c rest anyUp))
          else some (s.goOn l (.bringing (.probing false) c rest anyUp))
      | .bringing .ruling c rest anyUp, .ruled addresses a =>
          match addresses with
          | none => some (s.goOn l (.trying rest anyUp))
          | some addrs =>
              let s := { s with kernel := s.kernel.sync addrs a }
              if a.isOk then some (s.goOn l (.bringing (.probing true) c rest anyUp))
              else some (s.goOn l (.trying rest anyUp))
      | .bringing (.probing own) c rest anyUp, .probed ok a =>
          if ok then some (s.goOn l (.bringing (.fronting own) c rest anyUp))
          else some ((s.clearRules own a).goOn l (.trying rest anyUp))
      | .bringing (.fronting own) c rest anyUp, .fronted ok a =>
          if ok then some (s.goOn l (.bringing (.confirming own) c rest anyUp))
          else some ((s.clearRules own a).goOn l (.trying rest anyUp))
      | .bringing (.confirming own) c rest anyUp, .confirmed ok a watch =>
          if ok then some (s.markUp l ⟨c, l.sel.mode, own⟩ watch rest)
          else some ((s.clearRules own a).goOn l (.trying rest anyUp))
      | .up line _ rest, .exited a =>
          let s := s.clearRules line.ownRules a
          if s.cancelledIn l then some s.loopEnds else some (s.goOn l (.trying rest true))
      | _, _ => none

end Daemon

end Ghostlane.Cli
