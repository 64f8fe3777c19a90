import Ghostlane.Desktop.TunnelDaemon

/-!
# Ghostlane.Desktop.MacTun

The app's side of the Mac's kill switch (`MacOsTunController`, `TunnelDaemonClient`,
`TunnelDaemonProtocol.parseReply`). The helper holds the block, and the app decides
whether it is being kept (`held`); each knows of the other by one request and one reply
at a time, and either may be lost.

A call of the controller is a function of what becomes of its requests (`Exchange`, one
for each request it sends) and leaves a transcript: what was asked, and what of the
helper's replies could be read. Between two requests anything may happen to the helper.

Left out: the tunnel's config and its interface's name, rule files beyond whether there
are any, waiting, and what is logged.
-/

namespace Ghostlane.Desktop

open Ghostlane.Lib

/-! ### Replies -/

/-- `DaemonReply`. -/
inductive DaemonReply where
  | ok (running : Bool) (protocol : Nat) (holds line : Bool)
  | failure (restarting holds : Bool)
  deriving DecidableEq, Repr

def DaemonReply.holds : DaemonReply → Bool
  | .ok _ _ holds _ => holds
  | .failure _ holds => holds

def DaemonReply.restarting : DaemonReply → Bool
  | .ok .. => false
  | .failure restarting _ => restarting

/-- `send` and `parseReply`: a request that did not get there, and a reply that was lost or cannot
be read, are a failure that says nothing of a block, which reads as none. -/
def parseReply : Option Reply → DaemonReply
  | none => .failure false false
  | some r =>
      if !r.ok then .failure r.restarting (r.hold.getD false)
      else match r.running with
        | none => .failure false false
        | some running => .ok running (r.protocol.getD 1) (r.hold.getD false) r.line

/-! ### Exchanges -/

/-- What becomes of one request. -/
structure Exchange where
  /-- What happens to the helper before the request is sent. -/
  before : List DaemonEvent := []
  /-- It reaches the helper, if the helper runs. -/
  delivered : Bool := true
  answers : Answers := {}
  /-- The reply is read. -/
  read : Bool := true
  deriving DecidableEq, Repr

/-- A conversation: the helper, what becomes of the requests still to be sent, and what was asked
and read so far. -/
structure Talk where
  daemon : Daemon
  script : List Exchange
  transcript : List (Request × Option Reply) := []
  deriving DecidableEq, Repr

/-- What happens to the helper by itself; what cannot happen does not. -/
def Daemon.meanwhile (d : Daemon) (events : List DaemonEvent) : Daemon :=
  events.foldl (fun d e => (d.step e).getD d) d

/-- One request over the socket. -/
def Daemon.exchange (d : Daemon) (r : Request) (x : Exchange) : Daemon × Option Reply :=
  let d := d.meanwhile x.before
  if x.delivered && !d.quitAfterReply then
    let handled := d.handle r x.answers
    (handled.1, if x.read then some handled.2 else none)
  else (d, none)

/-- A request for which the script says nothing does not get there. -/
def Talk.nextExchange (t : Talk) : Exchange := t.script.headD { delivered := false }

/-- The conversation after a request. -/
def Talk.after (t : Talk) (r : Request) : Talk :=
  let exchanged := t.daemon.exchange r t.nextExchange
  { daemon := exchanged.1
    script := t.script.tail
    transcript := t.transcript ++ [(r, exchanged.2)] }

/-- What the app makes of the answer. -/
def Talk.answer (t : Talk) (r : Request) : DaemonReply :=
  parseReply (t.daemon.exchange r t.nextExchange).2

/-! ### The controller -/

/-- The flags of `MacOsTunController`. -/
structure Controller where
  tunUp : Bool := false
  armed : Bool := false
  held : Bool := false
  blockStands : Bool := false
  runsLines : Bool := false
  canHold : Bool := false
  answersNames : Bool := false
  deriving DecidableEq, Repr

/-- What a `start` is called with, as far as it decides what is asked. -/
structure StartCall where
  /-- Routing rules, and no interface to bind direct traffic to. -/
  cannotBind : Bool := false
  /-- There are rule files. -/
  ruleFiles : Bool := false
  /-- The server's name gives no address. -/
  unresolved : Bool := false
  interface : Text := []
  addresses : List Text := []
  killSwitch : Bool
  deriving DecidableEq, Repr

namespace Controller

def protocolFiles : Nat := 2
def protocolHold : Nat := 3
def protocolLine : Nat := 4
def restartAttempts : Nat := 10

/-- `requireHelperFor`: whether it does not throw. -/
def helperSuffices (helper : Option Nat) (wantsFiles wantsHold : Bool) : Bool :=
  match helper with
  | none => true
  | some protocol =>
      !(wantsFiles && protocol < protocolFiles) && !(wantsHold && protocol < protocolHold)

/-- `(client.status() as? Ok)?.protocol`. -/
def spoken : DaemonReply → Option Nat
  | .ok _ protocol _ _ => some protocol
  | .failure .. => none

/-- `awaitDaemon`: status until one is answered. -/
def awaitDaemon : Nat → Talk → Talk × Option Nat
  | 0, t => (t, none)
  | attempts + 1, t =>
      match spoken (t.answer .status) with
      | some protocol => (t.after .status, some protocol)
      | none => awaitDaemon attempts (t.after .status)

/-- The start request of the local function `ask`. -/
def startRequest (call : StartCall) (protocol : Nat) : Request :=
  .start true (if protocolHold ≤ protocol then some true else none)
    (if call.killSwitch then some (some ⟨call.interface, call.addresses⟩) else none)

/-- What the local function `ask` leaves of the controller. -/
def asking (c : Controller) (protocol : Nat) : Controller :=
  { c with answersNames := protocolHold ≤ protocol }

/-- What `start` does with the reply it ends with; whether it did not throw. -/
def startEnds (c : Controller) (t : Talk) (call : StartCall) (reply : DaemonReply) :
    Controller × Talk × Bool :=
  match reply with
  | .ok _ _ holds _ =>
      if call.killSwitch && !holds then
        -- came up with no kill switch behind it: stopped again
        let stopped := t.answer (.stop false)
        ({ c with blockStands := match stopped with
            | .ok _ _ holds _ => holds
            | .failure .. => false }, t.after (.stop false), false)
      else ({ c with tunUp := true, armed := holds, blockStands := holds }, t, true)
  | .failure _ holds => ({ c with blockStands := holds }, t, false)

/-- `start` from its first request for a tunnel on. A helper that steps aside for the one on disk is
waited for, and that one is asked. -/
def startAsks (c : Controller) (t : Talk) (call : StartCall) (protocol : Nat) :
    Controller × Talk × Bool :=
  let first := t.answer (startRequest call protocol)
  let t := t.after (startRequest call protocol)
  let c := c.asking protocol
  if first.restarting then
    let waited := awaitDaemon restartAttempts t
    match waited.2 with
    | none => c.startEnds waited.1 call first
    | some protocol =>
        if !helperSuffices (some protocol) call.ruleFiles call.killSwitch then (c, waited.1, false)
        else (c.asking protocol).startEnds (waited.1.after (startRequest call protocol)) call
          (waited.1.answer (startRequest call protocol))
  else c.startEnds t call first

def start (c : Controller) (t : Talk) (call : StartCall) : Controller × Talk × Bool :=
  if call.cannotBind then (c, t, false)
  else
    let helper := spoken (t.answer .status)
    let t := t.after .status
    if !helperSuffices helper call.ruleFiles call.killSwitch then (c, t, false)
    else if call.unresolved then (c, t, false)
    else c.startAsks t call (helper.getD 1)

def stop (c : Controller) (t : Talk) : Controller × Talk :=
  let request := Request.stop c.held
  let blockStands := (t.answer request).holds
  ({ c with
      tunUp := false, armed := false, blockStands := blockStands,
      -- held, and no block is there: nothing is held then
      held := c.held && blockStands },
    t.after request)

def holdAfterSessionEnd (c : Controller) (wanted : Bool) : Controller :=
  { c with held := wanted && c.armed }

def endHold (c : Controller) : Controller := { c with held := false }

def release (c : Controller) (t : Talk) : Controller × Talk :=
  ({ c with held := false, armed := false, blockStands := (t.answer .release).holds },
    t.after .release)

def findLeftover (c : Controller) (t : Talk) : Controller × Talk :=
  match t.answer .status with
  | .failure .. => (c, t.after .status)
  | .ok _ _ holds line =>
      let t := t.after .status
      ({ c with blockStands := holds, held := c.held || holds },
        if line then t.after .lineStop else t)

/-- `helperNow`, less the record it returns. -/
def helperNow (c : Controller) (t : Talk) : Controller × Talk :=
  match t.answer .status with
  | .failure .. => (c, t.after .status)
  | .ok running protocol holds _ =>
      let knows := fun (protocol : Nat) (holds : Bool) =>
        { c with
          blockStands := holds
          canHold := protocolHold ≤ protocol
          runsLines := protocolLine ≤ protocol }
      let t := t.after .status
      if protocol < protocolLine && !running then
        match t.answer (.stop true) with
        | .failure true _ =>
            let t := (awaitDaemon restartAttempts (t.after (.stop true))).1
            match t.answer .status with
            | .failure .. => (c, t.after .status)
            | .ok _ protocol holds _ => (knows protocol holds, t.after .status)
        | _ => (knows protocol holds, t.after (.stop true))
      else (knows protocol holds, t)

/-! ### What the app asks for -/

/-- Nothing that was asked for ends a block, or starts a tunnel without one. -/
def Quiet (t : Talk) : Prop := ∀ q ∈ t.transcript, q.1.opens = false

/-- A start was answered with a tunnel that is up and no block behind it. -/
def upWithoutBlock (q : Request × Option Reply) : Bool :=
  match q.1, parseReply q.2 with
  | .start .., .ok _ _ false _ => true
  | _, _ => false

/-- Every start that was answered with a tunnel was answered with a block behind it. -/
def Behind (t : Talk) : Prop := ∀ q ∈ t.transcript, upWithoutBlock q = false

section Asked

variable {t : Talk}

theorem quiet_after (h : Quiet t) {r : Request} (hr : r.opens = false) : Quiet (t.after r) := by
  intro q hq
  rcases List.mem_append.mp hq with hq | hq
  · exact h q hq
  · rw [List.mem_singleton.mp hq]
    exact hr

theorem quiet_awaitDaemon (attempts : Nat) (h : Quiet t) : Quiet (awaitDaemon attempts t).1 := by
  induction attempts generalizing t with
  | zero => exact h
  | succ attempts ih =>
      simp only [awaitDaemon]
      split
      · exact quiet_after h rfl
      · exact ih (quiet_after h rfl)

/-- What was asked and read stays in the transcript. -/
theorem behind_of_after {r : Request} (h : Behind (t.after r)) : Behind t :=
  fun q hq => h q (List.mem_append_left _ hq)

/-- The end of a start sends nothing that opens, when the reply it ends with is in the
transcript. -/
theorem quiet_startEnds (c : Controller) (hquiet : Quiet t) (call : StartCall) {reply : DaemonReply}
    (hreply : ∀ running protocol line, reply ≠ .ok running protocol false line) :
    Quiet (c.startEnds t call reply).2.1 := by
  cases reply with
  | ok running protocol holds line =>
      cases holds with
      | true => simpa [startEnds] using hquiet
      | false => exact absurd rfl (hreply running protocol line)
  | failure restarting holds => exact hquiet

theorem startRequest_opens {call : StartCall} (hswitch : call.killSwitch = true) (protocol : Nat) :
    (startRequest call protocol).opens = false := by
  simp [startRequest, hswitch, Request.opens]

/-- The last answer of a conversation that is behind a block is one. -/
theorem behind_answer {r : Request} (hr : ∃ config names hold, r = .start config names hold)
    (h : Behind (t.after r)) (running : Bool) (protocol : Nat) (line : Bool) :
    t.answer r ≠ .ok running protocol false line := by
  obtain ⟨config, names, hold, rfl⟩ := hr
  intro heq
  have hlast := h (_, (t.daemon.exchange _ t.nextExchange).2)
    (List.mem_append_right _ (List.mem_singleton_self _))
  rw [Talk.answer] at heq
  simp only [upWithoutBlock, heq] at hlast
  cases hlast

theorem behind_of_startEnds {c : Controller} {call : StartCall} {reply : DaemonReply}
    (h : Behind (c.startEnds t call reply).2.1) : Behind t := by
  cases reply with
  | ok running protocol holds line =>
      simp only [startEnds] at h
      split at h
      · exact behind_of_after h
      · exact h
  | failure restarting holds => exact h

theorem quiet_startAsks (c : Controller) (hquiet : Quiet t) {call : StartCall}
    (hswitch : call.killSwitch = true) (protocol : Nat)
    (hbehind : Behind (c.startAsks t call protocol).2.1) :
    Quiet (c.startAsks t call protocol).2.1 := by
  have hasked : ∀ {u : Talk} (protocol : Nat), Quiet u →
      Quiet (u.after (startRequest call protocol)) :=
    fun protocol hu => quiet_after hu (startRequest_opens hswitch protocol)
  have hends : ∀ {u : Talk} (c : Controller) (protocol : Nat), Quiet u →
      Behind (c.startEnds (u.after (startRequest call protocol)) call
        (u.answer (startRequest call protocol))).2.1 →
      Quiet (c.startEnds (u.after (startRequest call protocol)) call
        (u.answer (startRequest call protocol))).2.1 := by
    intro u c protocol hu hb
    exact quiet_startEnds c (hasked protocol hu) call
      (behind_answer ⟨_, _, _, rfl⟩ (behind_of_startEnds hb))
  simp only [startAsks] at hbehind ⊢
  split
  · rename_i hrestarting
    rw [if_pos hrestarting] at hbehind
    have hwaited := quiet_awaitDaemon restartAttempts (hasked protocol hquiet)
    split
    · -- a helper that steps aside has said nothing of a tunnel
      refine quiet_startEnds _ hwaited call ?_
      intro running protocol' line heq
      rw [heq] at hrestarting
      cases hrestarting
    · rename_i protocol' hspoken
      simp only [hspoken] at hbehind
      split
      · exact hwaited
      · rename_i hsuffices
        rw [if_neg hsuffices] at hbehind
        exact hends _ protocol' hwaited hbehind
  · rename_i hrestarting
    rw [if_neg hrestarting] at hbehind
    exact hends _ protocol hquiet hbehind

/-- **A start under the switch asks for nothing that opens**, unless it is answered with a tunnel
that has no block behind it. -/
theorem quiet_start (c : Controller) (hquiet : Quiet t) {call : StartCall}
    (hswitch : call.killSwitch = true) (hbehind : Behind (c.start t call).2.1) :
    Quiet (c.start t call).2.1 := by
  have hstatus : Quiet (t.after .status) := quiet_after hquiet rfl
  simp only [start] at hbehind ⊢
  split
  · exact hquiet
  · rename_i hbind
    rw [if_neg hbind] at hbehind
    split
    · exact hstatus
    · rename_i hsuffices
      rw [if_neg hsuffices] at hbehind
      split
      · exact hstatus
      · rename_i hresolved
        rw [if_neg hresolved] at hbehind
        exact quiet_startAsks c hstatus hswitch _ hbehind

theorem quiet_stop {c : Controller} (hheld : c.held = true) (hquiet : Quiet t) :
    Quiet (c.stop t).2 :=
  quiet_after hquiet (by rw [hheld]; rfl)

end Asked

end Controller

/-- **A held block stands.** At the helper, a block that stands stands after every event of a run
that has no release, no stop without keep, no start without a hold and no `shutDown`, if pf takes
the rules of every start behind a block and the three looks after the load find them in force. At
the app, while the block is held no `stop` asks for any of these, and no `start` that is asked for
the switch and is not answered with a tunnel without a block. -/
theorem held_block_stands (d : Daemon) (c : Controller) :
    (∀ (d' : Daemon) (es : List DaemonEvent), d.hold.blocks = true →
        AllSteps Daemon.step (fun _ e => e.holds = true ∧ e.arms = true) d es →
        run Daemon.step d es = some d' → d'.hold.blocks = true) ∧
      ∀ script : List Exchange, c.held = true →
        Controller.Quiet (c.stop { daemon := d, script := script }).2 ∧
          ∀ call : StartCall, call.killSwitch = true →
            Controller.Behind (c.start { daemon := d, script := script } call).2.1 →
            Controller.Quiet (c.start { daemon := d, script := script } call).2.1 := by
  refine ⟨fun d' es hblocks hC hrun => Daemon.run_blocks hblocks hC hrun, ?_⟩
  intro script hheld
  have hfresh : Controller.Quiet { daemon := d, script := script } := by
    intro q hq
    cases hq
  exact ⟨Controller.quiet_stop hheld hfresh, fun call hswitch hbehind =>
    Controller.quiet_start c hfresh hswitch hbehind⟩

/-- A Mac whose tunnel died behind its block. -/
def heldDaemon : Daemon :=
  { hold := { anchor := [txt "block return out quick all"], stands := true } }

def utun9 : HoldRequest := ⟨txt "utun9", []⟩

/-- A start behind the block fails at its first second, the helper is replaced and restarted, and
the next start comes up. -/
def reconnects : List DaemonEvent :=
  [.request (.start true (some true) (some (some utun9))) { childStays := false },
    .replaced, .request (.stop true) {}, .restarted {},
    .request (.start true (some true) (some (some utun9))) {}, .tunnelDied]

/-- The start that brings the tunnel back behind its block. -/
def startAgain : StartCall := { interface := txt "utun9", killSwitch := true }

theorem held_block_stands_reconnects :
    let app : Controller := { held := true }
    let stopped := app.stop { daemon := heldDaemon, script := [{}] }
    let started := app.start { daemon := heldDaemon, script := [{}, {}] } startAgain
    (∃ d, run Daemon.step heldDaemon reconnects = some d ∧ d.hold.blocks = true) ∧
      Controller.Quiet stopped.2 ∧ Controller.Quiet started.2.1 ∧
      started.2.1.transcript.length = 2 ∧ started.1.armed = true ∧ started.2.2 = true := by
  intro app stopped started
  obtain ⟨hhelper, hasked⟩ := held_block_stands heldDaemon app
  -- the tunnel is up at the end of the start, and the reply says that a block is behind it
  have hbehind : Controller.Behind started.2.1 := by
    unfold Controller.Behind
    decide
  exact ⟨⟨_, rfl, hhelper _ reconnects (by decide) (by decide) rfl⟩, (hasked [{}] rfl).1,
    (hasked [{}, {}] rfl).2 startAgain rfl hbehind, by decide, by decide, by decide⟩

/-- A reconnect whose rules pf refuses takes away the block that stood. -/
theorem refused_rearm_opens :
    heldDaemon.hold.blocks = true ∧
      (DaemonEvent.request (.start true (some true) (some (some utun9))) { loads := false }).holds =
        true ∧
      ∃ d, heldDaemon.step
        (.request (.start true (some true) (some (some utun9))) { loads := false }) =
        some d ∧ d.hold.blocks = false :=
  ⟨by decide, rfl, _, rfl, by decide⟩

/-! ### The app and its helper -/

/-- The Mac: the helper and the app's controller. -/
structure Mac where
  daemon : Daemon := {}
  app : Controller := {}
  deriving DecidableEq, Repr

inductive MacEvent where
  | daemon (e : DaemonEvent)
  | start (call : StartCall) (script : List Exchange)
  | stop (script : List Exchange)
  | helperNow (script : List Exchange)
  | findLeftover (script : List Exchange)
  | release (script : List Exchange)
  | endHold
  | holdAfterSessionEnd (wanted : Bool)
  deriving DecidableEq, Repr

namespace Mac

def talk (s : Mac) (script : List Exchange) : Talk := { daemon := s.daemon, script := script }

/-- A call's outcome: the controller, and its conversation with the helper. -/
def called (s : Mac) : MacEvent → Controller × Talk
  | .daemon _ => (s.app, s.talk [])
  | .start call script =>
      let started := s.app.start (s.talk script) call
      (started.1, started.2.1)
  | .stop script => s.app.stop (s.talk script)
  | .helperNow script => s.app.helperNow (s.talk script)
  | .findLeftover script => s.app.findLeftover (s.talk script)
  | .release script => s.app.release (s.talk script)
  | .endHold => (s.app.endHold, s.talk [])
  | .holdAfterSessionEnd wanted => (s.app.holdAfterSessionEnd wanted, s.talk [])

def step (s : Mac) (e : MacEvent) : Option Mac :=
  match e with
  | .daemon e => (s.daemon.step e).map fun d => { s with daemon := d }
  | e => some { daemon := (s.called e).2.daemon, app := (s.called e).1 }

/-- The calls that end a hold. -/
def endsHold : MacEvent → Bool
  | .release _ | .endHold | .holdAfterSessionEnd _ => true
  | _ => false

/-- The helper itself said that there is no block. -/
def saidGone (q : Request × Option Reply) : Bool := q.2.any fun r => r.hold == some false

/-- The app holds a block, and it stands. -/
def Holds (s : Mac) : Prop := s.app.held = true ∧ s.daemon.hold.blocks = true

/-- The hold of a block that stands ends, if it ends, by a call that ends it or by the helper's own
word. -/
def DisownsNothing (s : Mac) (e : MacEvent) : Prop :=
  s.Holds → ∀ s', s.step e = some s' → s'.app.held = false →
    endsHold e = true ∨ ∃ q ∈ (s.called e).2.transcript, saidGone q = true

/-- The one request of a stop gets to the helper, and its reply is written and read. -/
def stopAnswered (s : Mac) (script : List Exchange) : Bool :=
  let x := (s.talk script).nextExchange
  x.delivered && !(s.daemon.meanwhile x.before).quitAfterReply && x.answers.encodes && x.read

/-- A stop under a hold is answered. -/
def Answered (s : Mac) : MacEvent → Prop
  | .stop script => s.Holds → s.stopAnswered script = true
  | _ => True

/-! ### What changes the hold -/

theorem startEnds_held (c : Controller) (t : Talk) (call : StartCall) (reply : DaemonReply) :
    (c.startEnds t call reply).1.held = c.held := by
  cases reply with
  | ok running protocol holds line =>
      simp only [Controller.startEnds]
      split <;> rfl
  | failure restarting holds => rfl

theorem start_held (c : Controller) (t : Talk) (call : StartCall) :
    (c.start t call).1.held = c.held := by
  have hasks : ∀ protocol, (c.startAsks (t.after .status) call protocol).1.held = c.held := by
    intro protocol
    simp only [Controller.startAsks]
    split
    · split
      · exact startEnds_held _ _ _ _
      · split
        · rfl
        · exact startEnds_held _ _ _ _
    · exact startEnds_held _ _ _ _
  simp only [Controller.start]
  split
  · rfl
  · split
    · rfl
    · split
      · rfl
      · exact hasks _

theorem helperNow_held (c : Controller) (t : Talk) : (c.helperNow t).1.held = c.held := by
  simp only [Controller.helperNow]
  split
  · rfl
  · split
    · split
      · split <;> rfl
      · rfl
    · rfl

theorem findLeftover_held (c : Controller) (t : Talk) (h : c.held = true) :
    (c.findLeftover t).1.held = true := by
  simp only [Controller.findLeftover]
  split
  · exact h
  · simp [h]

/-- What a stop reads of the block: the helper's word where the reply came, and none where it did
not. -/
theorem stop_reads (s : Mac) (script : List Exchange) (keepHold : Bool) :
    ((s.daemon.exchange (.stop keepHold) (s.talk script).nextExchange).2.bind (·.hold)).isSome =
      s.stopAnswered script := by
  simp only [stopAnswered, Daemon.exchange]
  cases hd : (s.talk script).nextExchange.delivered with
  | false => simp
  | true =>
      cases hq : (s.daemon.meanwhile (s.talk script).nextExchange.before).quitAfterReply with
      | true => simp
      | false =>
          cases hr : (s.talk script).nextExchange.read with
          | false => simp
          | true => simp [Daemon.handle_stop_hold_isSome]

/-- A block that a reply does not speak of is read as none. -/
theorem parseReply_holds_of_silent {raw : Option Reply} (h : raw.bind (·.hold) = none) :
    (parseReply raw).holds = false := by
  cases raw with
  | none => rfl
  | some r =>
      have hsilent : r.hold = none := h
      simp only [parseReply, hsilent]
      split
      · rfl
      · split <;> rfl

theorem saidGone_iff {r : Request} {raw : Option Reply} :
    saidGone (r, raw) = true ↔ raw.bind (·.hold) = some false := by
  cases raw with
  | none => simp [saidGone]
  | some r => simp [saidGone]

/-- The helper's word on a stop is what the app reads. -/
theorem stop_holds_eq (s : Mac) (script : List Exchange) (keepHold b : Bool)
    (hb : (s.daemon.exchange (.stop keepHold) (s.talk script).nextExchange).2.bind (·.hold) =
      some b) :
    ((s.talk script).answer (.stop keepHold)).holds = b := by
  rw [Talk.answer, show (s.talk script).daemon = s.daemon from rfl]
  simp only [Daemon.exchange] at hb ⊢
  split at hb
  · rename_i hdelivered
    rw [if_pos hdelivered]
    cases hread : (s.talk script).nextExchange.read with
    | false => simp [hread] at hb
    | true =>
        simp only [hread, if_true, Option.bind_some] at hb ⊢
        have hstate :=
          Daemon.handle_stop_running (s.daemon.meanwhile (s.talk script).nextExchange.before)
          (s.talk script).nextExchange.answers keepHold
        simp only [parseReply, hb, Option.getD_some]
        split
        · rfl
        · rename_i hok
          obtain ⟨running, hrunning⟩ := Option.isSome_iff_exists.mp (hstate (by simpa using hok))
          rw [hrunning]
          rfl
  · cases hb

/-- **The hold at one event.** It ends without a call that ends it, and without the helper's word,
exactly where a stop under it is not answered. -/
theorem disownsNothing_iff (s : Mac) (e : MacEvent) : s.DisownsNothing e ↔ s.Answered e := by
  have hkept : ∀ {e : MacEvent}, (∀ s', s.step e = some s' → s.app.held = true →
      s'.app.held = true) →
      s.DisownsNothing e := by
    intro e hstep hholds s' hs hlost
    rw [hstep s' hs hholds.1] at hlost
    cases hlost
  cases e with
  | daemon e =>
      refine iff_of_true (hkept ?_) trivial
      intro s' hs hheld
      obtain ⟨d, _, rfl⟩ := Option.map_eq_some_iff.mp hs
      exact hheld
  | start call script =>
      refine iff_of_true (hkept ?_) trivial
      intro s' hs hheld
      obtain rfl := Option.some.inj hs
      exact (start_held s.app _ call).trans hheld
  | helperNow script =>
      refine iff_of_true (hkept ?_) trivial
      intro s' hs hheld
      obtain rfl := Option.some.inj hs
      exact (helperNow_held s.app _).trans hheld
  | findLeftover script =>
      refine iff_of_true (hkept ?_) trivial
      intro s' hs hheld
      obtain rfl := Option.some.inj hs
      exact findLeftover_held s.app _ hheld
  | release | endHold | holdAfterSessionEnd =>
      exact iff_of_true (fun _ _ _ _ => .inl rfl) trivial
  | stop script =>
      have hword := stop_reads s script
      constructor
      · intro hdisowns hstands
        by_contra hunanswered
        rw [Bool.not_eq_true] at hunanswered
        -- nothing was read, which reads as no block
        have hsilent : (s.daemon.exchange (.stop s.app.held) (s.talk script).nextExchange).2.bind
            (·.hold) = none := by
          rw [← Option.isNone_iff_eq_none, ← Option.not_isSome, hword, hunanswered]
          rfl
        have hnone : ((s.talk script).answer (.stop s.app.held)).holds = false :=
          parseReply_holds_of_silent hsilent
        rcases hdisowns hstands _ rfl
          (by simp only [called, Controller.stop, hnone, Bool.and_false])
          with hends | ⟨q, hq, hgone⟩
        · cases hends
        · obtain rfl := List.mem_singleton.mp hq
          rw [saidGone_iff] at hgone
          exact absurd (hsilent.symm.trans hgone) (by simp)
      · intro hanswered hstands s' hs hlost
        obtain rfl := Option.some.inj hs
        have hheld := hstands.1
        have hsome := hword s.app.held
        rw [hanswered hstands] at hsome
        obtain ⟨b, hb⟩ := Option.isSome_iff_exists.mp hsome
        have hholds := stop_holds_eq s script s.app.held b hb
        simp only [called, Controller.stop, hheld, Bool.true_and] at hlost
        rw [hheld] at hholds
        rw [hholds] at hlost
        refine .inr ⟨_, List.mem_singleton_self _, saidGone_iff.mpr ?_⟩
        rw [← hlost]
        exact hb

/-- **The app disowns no block that stands.** Along every run of calls and events, the hold of a
block that stands ends only by a call that ends it or by the helper's own word, exactly when every
stop under such a hold is answered: its request gets to the helper, and the reply is written and
read. -/
theorem disowns_nothing_iff (s : Mac) (es : List MacEvent) :
    AllSteps step DisownsNothing s es ↔ AllSteps step Answered s es :=
  ⟨AllSteps.imp fun s e => (disownsNothing_iff s e).mp,
    AllSteps.imp fun s e => (disownsNothing_iff s e).mpr⟩

/-- A Mac whose block is held, and whose helper still runs. -/
def heldMac : Mac := { daemon := heldDaemon, app := { held := true, blockStands := true } }

/-- A stop whose request does not get to the helper: the block stands, and the app holds nothing. -/
theorem lost_stop_disowns :
    heldMac.daemon.hold.blocks = true ∧ heldMac.app.held = true ∧
      (∃ s, heldMac.step (.stop []) = some s ∧ s.daemon.hold.blocks = true ∧ s.app.held = false) ∧
      ¬ AllSteps step DisownsNothing heldMac [.stop []] := by
  refine ⟨by decide, rfl, ⟨_, rfl, by decide, by decide⟩, ?_⟩
  intro h
  rcases h.1 ⟨rfl, by decide⟩ _ rfl (by decide) with hends | ⟨q, hq, hgone⟩
  · cases hends
  · obtain rfl := List.mem_singleton.mp hq
    revert hgone
    decide

end Mac

end Ghostlane.Desktop
