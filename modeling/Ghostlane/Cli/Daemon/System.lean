import Ghostlane.Lib.Runs
import Ghostlane.Cli.Daemon.Sections
import Ghostlane.Cli.Daemon.Loop

/-!
# Ghostlane.Cli.Daemon.System

The daemon as one stepping system: a schedule is a list of events, a run is
`Lib.run step`. What a step can do is said once for each kind of event, with its
guards, so that an invariant never unfolds a step function:

* `requestStep_move` and `sectionStep_move` list the outcomes of an event;
* `loopStep_move` sorts the many stages of the connect loop by what they do to
  the own-address rules (`RulesMove`) and to the config (`ConfigMove`), and says
  what all of them leave alone.
-/

namespace Ghostlane.Cli

open Ghostlane.Lib

inductive Event
  | request (e : RequestEvent)
  | section_ (e : SectionEvent)
  | loop (e : LoopEvent)
  /-- An address of the host changed: a running watcher syncs the rules. -/
  | addressChange (addresses : Option (List Addr)) (sync : Answer (List Addr))

/-- The flight that moves. -/
def Event.flight : Event → Option Nat
  | request e => some e.who
  | section_ (.connect i ..) | section_ (.storeSelection i) | section_ (.lock i)
  | section_ (.unlock i _) | section_ (.afterRefresh i _) => some i
  | _ => none

/-- A move of a request or of `Run`, not of the loop or an address watcher. -/
def Event.ofRequests : Event → Bool
  | request _ | section_ _ => true
  | loop _ | addressChange .. => false

/-- Every `Routes` call of the event succeeds. -/
def Event.routesOk : Event → Bool
  | section_ (.unlock _ a) | section_ (.unlockRun a) => a.allOk
  | loop e => e.routesOk
  | addressChange addresses a => addresses.isSome && a.isOk
  | _ => true

namespace Daemon

/-- An address watcher runs: the switch's, or that of the line that is up. -/
def watching (s : Daemon) : Bool :=
  (s.ksOn && s.ksWatched) || s.loop.any fun l => l.phase.watches

/-- The callback of a running watcher; an error is logged. -/
def addressStep (s : Daemon) (addresses : Option (List Addr)) (a : Answer (List Addr)) :
    Option Daemon :=
  if s.watching then
    match addresses with
    | some addrs => some { s with kernel := s.kernel.sync addrs a }
    | none => some s
  else none

variable [External]

/-- One step of the daemon; none once the process is gone. -/
def step (s : Daemon) (e : Event) : Option Daemon :=
  if s.crashed then none
  else match e with
    | .request e => s.requestStep e
    | .section_ e => s.sectionStep e
    | .loop e => s.loopStep e
    | .addressChange addresses a => s.addressStep addresses a

/-! ### What a request does -/

/-- The outcomes of one section of a request. -/
inductive RequestMove (s : Daemon) : RequestEvent → Daemon → Prop
  | addRefused {i url now} (hi : s.flights i = .idle)
      (hheld : (!hasPrefix url (txt "https://") || s.cfg.holds url) = true) :
      RequestMove s (.add i url now) s
  | added {i url now} (hi : s.flights i = .idle)
      (hheld : (!hasPrefix url (txt "https://") || s.cfg.holds url) = false) :
      RequestMove s (.add i url now)
        ({ s with cfg := s.cfg.append { url, addedAt := now } }.set i (.fetching url .add))
  | inlineHeld {i text title now} (hi : s.flights i = .idle)
      (hheld : s.cfg.holds (inlinePrefix ++ text) = true) :
      RequestMove s (.addInline i text title now) s
  | inlineAdded {i text title now cfg} (hi : s.flights i = .idle)
      (hheld : s.cfg.holds (inlinePrefix ++ text) = false)
      (hcfg : cfg = s.cfg.append { url := inlinePrefix ++ text, title, addedAt := now }) :
      RequestMove s (.addInline i text title now) ({ s with cfg }.set i (.saving cfg .reply))
  | removesNone {i needle} (hi : s.flights i = .idle)
      (hany : s.cfg.subscriptions.any (removes needle) = false) :
      RequestMove s (.remove i needle) s
  | removed {i needle f} (hi : s.flights i = .idle)
      (hany : s.cfg.subscriptions.any (removes needle) = true)
      (hf : f = if dropsSelection s.cfg s.sel needle then .stop else .cloning) :
      RequestMove s (.remove i needle) ({ s with cfg := s.cfg.without needle }.set i f)
  | disconnects {i} (hi : s.flights i = .idle) : RequestMove s (.disconnect i) (s.set i .stop)
  | refreshes {i due} (hi : s.flights i = .idle) :
      RequestMove s (.refresh i due) (s.set i (.refreshing due 0))
  | spawns {i j url due n} (hi : s.flights i = .refreshing (url :: due) n)
      (hj : s.flights j = .idle) :
      RequestMove s (.spawnFetch i j)
        ((s.set i (.refreshing due (n + 1))).set j (.fetching url (.refresh i)))
  | reads {i url} (hi : s.flights i = .idle) :
      RequestMove s (.readList i url) (s.set i (.fetching url .reader))
  | answered {i url h caller} (hi : s.flights i = .fetching url caller) :
      RequestMove s (.fetchAnswer i (some h)) (s.set i (.fetched url h caller))
  | fails {i url caller} (hi : s.flights i = .fetching url caller) :
      RequestMove s (.fetchAnswer i none) (s.fetchFails i url caller)
  | noted {i url h caller cfg} (hi : s.flights i = .fetched url h caller)
      (hcfg : cfg = s.cfg.noteTitle url h) :
      RequestMove s (.noteTitle i) ({ s with cfg }.set i (.saving cfg (.fetchInto caller)))
  | panics {i url} (hi : s.flights i = .rollingBack url) (hnil : s.cfg.subscriptions = []) :
      RequestMove s (.rollBack i) { s with crashed := true }
  | rolledBack {i url} (hi : s.flights i = .rollingBack url) (hne : s.cfg.subscriptions ≠ []) :
      RequestMove s (.rollBack i) ({ s with cfg := s.cfg.dropLast }.set i .idle)
  | cloned {i} (hi : s.flights i = .cloning) :
      RequestMove s (.clone i) (s.set i (.saving s.cfg .reply))
  | saved {i ok clone after} (hi : s.flights i = .saving clone after) :
      RequestMove s (.save i ok) ((s.write clone ok).saved i ok after)

theorem requestStep_move {s s' : Daemon} {e : RequestEvent} (h : s.requestStep e = some s') :
    RequestMove s e s' := by
  cases e with
  | add i url now =>
      simp only [requestStep] at h
      split at h
      · rename_i hi
        split at h <;> cases h
        · exact .addRefused hi ‹_›
        · exact .added hi (Bool.eq_false_iff.mpr ‹_›)
      · cases h
  | addInline i text title now =>
      simp only [requestStep] at h
      split at h
      · rename_i hi
        split at h <;> cases h
        · exact .inlineHeld hi ‹_›
        · exact .inlineAdded hi (Bool.eq_false_iff.mpr ‹_›) rfl
      · cases h
  | remove i needle =>
      simp only [requestStep] at h
      split at h
      · rename_i hi
        split at h <;> cases h
        · exact .removed hi ‹_› rfl
        · exact .removesNone hi (Bool.eq_false_iff.mpr ‹_›)
      · cases h
  | disconnect i =>
      simp only [requestStep] at h
      split at h <;> cases h
      exact .disconnects ‹_›
  | refresh i due =>
      simp only [requestStep] at h
      split at h
      · rename_i hi
        split at h <;> cases h
        exact .refreshes hi
      · cases h
  | spawnFetch i j =>
      simp only [requestStep] at h
      split at h <;> cases h
      exact .spawns ‹_› ‹_›
  | readList i url =>
      simp only [requestStep] at h
      split at h
      · rename_i hi
        split at h <;> cases h
        exact .reads hi
      · cases h
  | fetchAnswer i answer =>
      simp only [requestStep] at h
      split at h
      · rename_i hi
        split at h <;> cases h
        · exact .answered hi
        · exact .fails hi
      · cases h
  | noteTitle i =>
      simp only [requestStep] at h
      split at h <;> cases h
      exact .noted ‹_› rfl
  | rollBack i =>
      simp only [requestStep] at h
      split at h
      · rename_i hi
        split at h <;> cases h
        · exact .panics hi ‹_›
        · exact .rolledBack hi ‹_›
      · cases h
  | clone i =>
      simp only [requestStep] at h
      split at h <;> cases h
      exact .cloned ‹_›
  | save i ok =>
      simp only [requestStep] at h
      split at h <;> cases h
      exact .saved ‹_›

/-- A request moves flights, subscriptions and the file, nothing else. -/
structure RequestFrame (s s' : Daemon) : Prop where
  selection : s'.cfg.selection = s.cfg.selection
  lastGood : s'.lastGood = s.lastGood
  sel : s'.sel = s.sel
  loop : s'.loop = s.loop
  ksOn : s'.ksOn = s.ksOn
  kernel : s'.kernel = s.kernel
  runDone : s'.runDone = s.runDone
  connectMu : s'.connectMu = s.connectMu
  main : s'.main = s.main

omit [External] in
theorem RequestFrame.refl (s : Daemon) : RequestFrame s s :=
  ⟨rfl, rfl, rfl, rfl, rfl, rfl, rfl, rfl, rfl⟩

omit [External] in
theorem RequestFrame.set {s s' : Daemon} (h : RequestFrame s s') (i : Nat) (f : Flight) :
    RequestFrame s (s'.set i f) :=
  ⟨h.selection, h.lastGood, h.sel, h.loop, h.ksOn, h.kernel, h.runDone, h.connectMu, h.main⟩

omit [External] in
theorem RequestFrame.childDone {s s' : Daemon} (h : RequestFrame s s') (parent : Nat) :
    RequestFrame s (s'.childDone parent) := by
  unfold Daemon.childDone
  split
  · exact h.set _ _
  · exact h

omit [External] in
theorem RequestFrame.fetchReturns {s s' : Daemon} (h : RequestFrame s s') (i : Nat)
    (caller : Caller) : RequestFrame s (s'.fetchReturns i caller) := by
  cases caller with
  | add => exact h.set _ _
  | refresh parent => exact (h.set _ _).childDone _
  | reader => exact h.set _ _

omit [External] in
theorem RequestFrame.fetchFails {s s' : Daemon} (h : RequestFrame s s') (i : Nat) (url : Text)
    (caller : Caller) : RequestFrame s (s'.fetchFails i url caller) := by
  cases caller with
  | add => exact h.set _ _
  | refresh parent => exact (h.set _ _).childDone _
  | reader => exact h.set _ _

omit [External] in
theorem RequestFrame.saved {s s' : Daemon} (h : RequestFrame s s') (i : Nat) (ok : Bool)
    (after : After) : RequestFrame s (s'.saved i ok after) := by
  cases after with
  | reply => exact h.set _ _
  | connect sel => exact h.set _ _
  | fetchInto caller => exact h.fetchReturns _ _

theorem RequestMove.frame {s s' : Daemon} {e : RequestEvent} (h : RequestMove s e s') :
    RequestFrame s s' := by
  cases h with
  | addRefused | inlineHeld | removesNone => exact .refl s
  | added | inlineAdded | removed | noted | panics | rolledBack =>
      first
      | exact ⟨rfl, rfl, rfl, rfl, rfl, rfl, rfl, rfl, rfl⟩
      | subst_vars; exact ⟨rfl, rfl, rfl, rfl, rfl, rfl, rfl, rfl, rfl⟩
  | disconnects | refreshes | reads | answered | cloned => exact (RequestFrame.refl s).set _ _
  | spawns => exact ((RequestFrame.refl s).set _ _).set _ _
  | fails => exact (RequestFrame.refl s).fetchFails _ _ _
  | @saved i ok clone after =>
      have hwrite : RequestFrame s (s.write clone ok) :=
        ⟨rfl, rfl, rfl, rfl, rfl, rfl, rfl, rfl, rfl⟩
      exact hwrite.saved _ _ _

omit [External] in
@[simp] theorem childDone_cfg (s : Daemon) (parent : Nat) : (s.childDone parent).cfg = s.cfg := by
  unfold childDone
  split <;> rfl

omit [External] in
@[simp] theorem childDone_file (s : Daemon) (parent : Nat) :
    (s.childDone parent).file = s.file := by
  unfold childDone
  split <;> rfl

omit [External] in
@[simp] theorem fetchReturns_cfg (s : Daemon) (i : Nat) (caller : Caller) :
    (s.fetchReturns i caller).cfg = s.cfg := by
  cases caller <;> simp [fetchReturns]

omit [External] in
@[simp] theorem fetchReturns_file (s : Daemon) (i : Nat) (caller : Caller) :
    (s.fetchReturns i caller).file = s.file := by
  cases caller <;> simp [fetchReturns]

omit [External] in
@[simp] theorem fetchFails_cfg (s : Daemon) (i : Nat) (url : Text) (caller : Caller) :
    (s.fetchFails i url caller).cfg = s.cfg := by
  cases caller <;> simp [fetchFails]

omit [External] in
@[simp] theorem fetchFails_file (s : Daemon) (i : Nat) (url : Text) (caller : Caller) :
    (s.fetchFails i url caller).file = s.file := by
  cases caller <;> simp [fetchFails]

omit [External] in
@[simp] theorem saved_cfg (s : Daemon) (i : Nat) (ok : Bool) (after : After) :
    (s.saved i ok after).cfg = s.cfg := by
  cases after <;> simp [saved]

omit [External] in
@[simp] theorem saved_file (s : Daemon) (i : Nat) (ok : Bool) (after : After) :
    (s.saved i ok after).file = s.file := by
  cases after <;> simp [saved]

omit [External] in
theorem childDone_flights (s : Daemon) (parent j : Nat) (hj : (s.flights j).isShared = false) :
    (s.childDone parent).flights j = s.flights j := by
  unfold childDone
  split
  · rename_i hp
    refine set_flights_of_ne s ?_ _
    rintro rfl
    rw [hp] at hj
    cases hj
  · rfl

omit [External] in
theorem fetchReturns_flights (s : Daemon) {i j : Nat} (hne : j ≠ i) (caller : Caller)
    (hj : (s.flights j).isShared = false) :
    (s.fetchReturns i caller).flights j = s.flights j := by
  have hset : ∀ f, (s.set i f).flights j = s.flights j := set_flights_of_ne s hne
  cases caller with
  | add => exact hset _
  | refresh parent => exact (childDone_flights _ _ _ (by rw [hset]; exact hj)).trans (hset _)
  | reader => exact hset _

omit [External] in
theorem fetchFails_flights (s : Daemon) {i j : Nat} (hne : j ≠ i) (url : Text) (caller : Caller)
    (hj : (s.flights j).isShared = false) :
    (s.fetchFails i url caller).flights j = s.flights j := by
  have hset : ∀ f, (s.set i f).flights j = s.flights j := set_flights_of_ne s hne
  cases caller with
  | add => exact hset _
  | refresh parent => exact (childDone_flights _ _ _ (by rw [hset]; exact hj)).trans (hset _)
  | reader => exact hset _

omit [External] in
theorem saved_flights (s : Daemon) {i j : Nat} (hne : j ≠ i) (ok : Bool) (after : After)
    (hj : (s.flights j).isShared = false) : (s.saved i ok after).flights j = s.flights j := by
  cases after with
  | reply => exact set_flights_of_ne s hne _
  | connect sel => exact set_flights_of_ne s hne _
  | fetchInto caller => exact fetchReturns_flights s hne caller hj

/-- A request moves its own flight and shared ones. -/
theorem RequestMove.flights {s s' : Daemon} {e : RequestEvent} (h : RequestMove s e s') {j : Nat}
    (hne : j ≠ e.who) (hj : (s.flights j).isShared = false) : s'.flights j = s.flights j := by
  cases h with
  | addRefused | inlineHeld | removesNone | panics => rfl
  | added | inlineAdded | removed | disconnects | refreshes | reads | answered | noted | rolledBack
  | cloned => exact set_flights_of_ne _ hne _
  | spawns _ hidle =>
      refine (set_flights_of_ne _ ?_ _).trans (set_flights_of_ne _ hne _)
      rintro rfl
      rw [hidle] at hj
      cases hj
  | fails => exact fetchFails_flights s hne _ _ hj
  | @saved i ok clone after => exact saved_flights (s.write clone ok) hne ok after hj

/-- No request moves a flight that waits for a section. -/
theorem RequestMove.atSection {s s' : Daemon} {e : RequestEvent} (h : RequestMove s e s') {j : Nat}
    (hj : (s.flights j).atSection = true) : s'.flights j = s.flights j := by
  have hshared : (s.flights j).isShared = false := by
    cases hf : s.flights j <;> simp_all [Flight.atSection, Flight.isShared]
  refine h.flights (fun hwho => ?_) hshared
  subst hwho
  cases h <;> simp_all [Flight.atSection, RequestEvent.who]

/-! ### What a section does -/

/-- The outcomes of a section under `connectMu`, and of those of `connect` before it. -/
inductive SectionMove (s : Daemon) : SectionEvent → Daemon → Prop
  | refused {i req listenIP lists} (hi : s.flights i = .idle) :
      SectionMove s (.connect i req listenIP lists) s
  | checked {i req listenIP lists sel} (hi : s.flights i = .idle)
      (hsel : s.connectCheck req listenIP lists = some sel) :
      SectionMove s (.connect i req listenIP lists) (s.set i (.storing sel))
  | stores {i sel cfg} (hi : s.flights i = .storing sel)
      (hcfg : cfg = { s.cfg with selection := some sel }) :
      SectionMove s (.storeSelection i) ({ s with cfg }.set i (.saving cfg (.connect sel)))
  | locksStart {i sel} (hmu : s.connectMu = false) (hi : s.flights i = .start sel) :
      SectionMove s (.lock i) ({ s.cancelLoop with connectMu := true }.set i (.starting sel))
  | locksStop {i} (hmu : s.connectMu = false) (hi : s.flights i = .stop) :
      SectionMove s (.lock i) ({ s.cancelLoop with connectMu := true }.set i .stopping)
  | waited (hmu : s.connectMu = true) (hloop : s.loop = none) :
      SectionMove s .waited { s with sel := none }
  | starts {i a sel} (hloop : s.loop = none) (hi : s.flights i = .starting sel) :
      SectionMove s (.unlock i a)
        ({ s.startConnectLocked sel a with connectMu := false }.set i .idle)
  | stops {i a} (hloop : s.loop = none) (hi : s.flights i = .stopping) :
      SectionMove s (.unlock i a) ({ s.stopAll true a with connectMu := false }.set i .cloning)
  | refreshStarts {i lists sel} (hmu : s.connectMu = false) (hi : s.flights i = .refreshing [] 0)
      (hsel : s.refreshStarts lists = some sel) :
      SectionMove s (.afterRefresh i lists)
        ({ s.cancelLoop with connectMu := true }.set i (.starting sel))
  | refreshLeaves {i lists} (hmu : s.connectMu = false) (hi : s.flights i = .refreshing [] 0) :
      SectionMove s (.afterRefresh i lists) (s.set i .idle)
  | storedStarts {sel} (hmu : s.connectMu = false) (hmain : s.main = .booting)
      (hsel : s.storedStarts = some sel) :
      SectionMove s .startStored { s with main := .startingStored sel, connectMu := true }
  | storedLeaves (hmu : s.connectMu = false) (hmain : s.main = .booting)
      (hsel : s.storedStarts = none) : SectionMove s .startStored { s with main := .serving }
  | runEnds : SectionMove s .runEnds { s with runDone := true }
  | locksRun (hmu : s.connectMu = false) (hdone : s.runDone = true) (hmain : s.main = .serving) :
      SectionMove s .lockRun { s.cancelLoop with main := .stopping, connectMu := true }
  | serves {a sel} (hloop : s.loop = none) (hmain : s.main = .startingStored sel) :
      SectionMove s (.unlockRun a)
        { s.startConnectLocked sel a with main := .serving, connectMu := false }
  | returns {a} (hloop : s.loop = none) (hmain : s.main = .stopping) :
      SectionMove s (.unlockRun a) { s.stopAll false a with main := .returned, connectMu := false }

theorem sectionStep_move {s s' : Daemon} {e : SectionEvent} (h : s.sectionStep e = some s') :
    SectionMove s e s' := by
  cases e with
  | connect i req listenIP lists =>
      simp only [sectionStep] at h
      split at h
      · rename_i hi
        split at h <;> cases h
        · exact .checked hi ‹_›
        · exact .refused hi
      · cases h
  | storeSelection i =>
      simp only [sectionStep] at h
      split at h <;> cases h
      exact .stores ‹_› rfl
  | lock i =>
      simp only [sectionStep] at h
      split at h
      · cases h
      · rename_i hmu
        split at h <;> cases h
        · exact .locksStart (Bool.eq_false_iff.mpr hmu) ‹_›
        · exact .locksStop (Bool.eq_false_iff.mpr hmu) ‹_›
  | waited =>
      simp only [sectionStep] at h
      split at h <;> cases h
      rename_i hw
      rw [Bool.and_eq_true, Option.isNone_iff_eq_none] at hw
      exact .waited hw.1 hw.2
  | unlock i a =>
      simp only [sectionStep] at h
      split at h
      · cases h
      · rename_i hloop
        rw [Option.not_isSome_iff_eq_none] at hloop
        split at h <;> cases h
        · exact .starts hloop ‹_›
        · exact .stops hloop ‹_›
  | afterRefresh i lists =>
      simp only [sectionStep] at h
      split at h
      · cases h
      · rename_i hmu
        split at h
        · rename_i hi
          split at h <;> cases h
          · exact .refreshStarts (Bool.eq_false_iff.mpr hmu) hi ‹_›
          · exact .refreshLeaves (Bool.eq_false_iff.mpr hmu) hi
        · cases h
  | startStored =>
      simp only [sectionStep] at h
      split at h
      · cases h
      · rename_i hmu
        split at h
        · rename_i hmain
          split at h <;> cases h
          · exact .storedStarts (Bool.eq_false_iff.mpr hmu) hmain ‹_›
          · exact .storedLeaves (Bool.eq_false_iff.mpr hmu) hmain ‹_›
        · cases h
  | runEnds =>
      cases h
      exact .runEnds
  | lockRun =>
      simp only [sectionStep] at h
      split at h
      · cases h
      · rename_i hmu
        simp only [Bool.or_eq_true, Bool.not_eq_true', not_or, Bool.not_eq_true,
          Bool.not_eq_false] at hmu
        split at h <;> cases h
        exact .locksRun hmu.1 hmu.2 ‹_›
  | unlockRun a =>
      simp only [sectionStep] at h
      split at h
      · cases h
      · rename_i hloop
        rw [Option.not_isSome_iff_eq_none] at hloop
        split at h <;> cases h
        · exact .serves hloop ‹_›
        · exact .returns hloop ‹_›

/-! ### What the loop does -/

/-- What a loop event does to the own-address rules. -/
inductive RulesMove (s : Daemon) (e : LoopEvent) (s' : Daemon) : Prop
  | keeps (hkernel : s'.kernel = s.kernel) (hholds : s'.holdsRules = s.holdsRules)
      (hruling : s'.ruling = true → s.ksOn = false)
  | syncs (addrs : List Addr) (a : Answer (List Addr)) (hok : e.routesOk = true → a.isOk = true)
      (hruling : s.ruling = true) (hkernel : s'.kernel = s.kernel.sync addrs a)
      (hholds : s'.holdsRules = a.isOk)
      (hruling' : s'.ruling = false)
  | clears (a : Answer (List Addr)) (hok : e.routesOk = true → a.isOk = true)
      (hkernel : s'.kernel = s.kernel.clearIf s.holdsRules a)
      (hholds : s'.holdsRules = false) (hruling' : s'.ruling = false)

/-- What a loop event does to the config and its file. -/
inductive ConfigMove (s : Daemon) : LoopEvent → Daemon → Prop
  | keeps {e s'} (hcfg : s'.cfg = s.cfg) (hfile : s'.file = s.file)
      (hr : s.remembering = none) (hr' : s'.remembering = none) : ConfigMove s e s'
  | remembers {e s'} (sel : Selection) (hcfg : s'.cfg = s.cfg.rememberLine sel)
      (hfile : s'.file = s.file) (hr : s.remembering = none)
      (hr' : s'.remembering = some s'.cfg) : ConfigMove s e s'
  | saves {ok clone s'} (hr : s.remembering = some clone) (hcfg : s'.cfg = s.cfg)
      (hfile : s'.file = if ok then clone else s.file) (hr' : s'.remembering = none) :
      ConfigMove s (.saved ok) s'

/-- The loop moves itself, own-address rules and what `remember` writes, nothing else. -/
structure LoopFrame (s s' : Daemon) : Prop where
  sel : s'.sel = s.sel
  ksOn : s'.ksOn = s.ksOn
  ksWatched : s'.ksWatched = s.ksWatched
  killSwitch : s'.kernel.killSwitch = s.kernel.killSwitch
  runDone : s'.runDone = s.runDone
  connectMu : s'.connectMu = s.connectMu
  main : s'.main = s.main
  flights : s'.flights = s.flights
  crashed : s'.crashed = s.crashed

/-- One step of the loop that stands at `l`. -/
structure LoopMove (s : Daemon) (l : Loop) (e : LoopEvent) (s' : Daemon) : Prop where
  frame : LoopFrame s s'
  rules : RulesMove s e s'
  config : ConfigMove s e s'
  /-- A loop whose run has ended goes no further than the head of its round. -/
  headEnds : l.phase = .head → s.runDone = true → s'.loop = none

omit [External] in
theorem LoopFrame.refl (s : Daemon) : LoopFrame s s :=
  ⟨rfl, rfl, rfl, rfl, rfl, rfl, rfl, rfl, rfl⟩

omit [External] in
theorem LoopFrame.goOn {s s' : Daemon} (h : LoopFrame s s') (l : Loop) (phase : Phase) :
    LoopFrame s (s'.goOn l phase) :=
  ⟨h.sel, h.ksOn, h.ksWatched, h.killSwitch, h.runDone, h.connectMu, h.main, h.flights, h.crashed⟩

omit [External] in
theorem LoopFrame.loopEnds {s s' : Daemon} (h : LoopFrame s s') : LoopFrame s s'.loopEnds :=
  ⟨h.sel, h.ksOn, h.ksWatched, h.killSwitch, h.runDone, h.connectMu, h.main, h.flights, h.crashed⟩

omit [External] in
theorem LoopFrame.startRound {s s' : Daemon} (h : LoopFrame s s') (l : Loop)
    (cands : Except ResolveError (List Entry)) : LoopFrame s (s'.startRound l cands) := by
  unfold Daemon.startRound
  split
  · exact h.loopEnds
  · split
    · exact h.loopEnds
    · exact h.goOn _ _

omit [External] in
theorem LoopFrame.clearRules (s : Daemon) (own : Bool) (a : Answer (List Addr)) :
    LoopFrame s (s.clearRules own a) :=
  ⟨rfl, rfl, rfl, Kernel.clearIf_killSwitch own s.kernel a, rfl, rfl, rfl, rfl, rfl⟩

/-- A round starts with no rules, and nothing to save. -/
structure Fresh (s s' : Daemon) : Prop where
  cfg : s'.cfg = s.cfg
  file : s'.file = s.file
  kernel : s'.kernel = s.kernel
  holdsRules : s'.holdsRules = false
  ruling : s'.ruling = false
  remembering : s'.remembering = none

omit [External] in
theorem fresh_startRound (s : Daemon) (l : Loop) (cands : Except ResolveError (List Entry)) :
    Fresh s (s.startRound l cands) := by
  unfold Daemon.startRound
  split
  · exact ⟨rfl, rfl, rfl, rfl, rfl, rfl⟩
  · split <;> exact ⟨rfl, rfl, rfl, rfl, rfl, rfl⟩

omit [External] in
/-- The loop goes on to a phase that holds the rules the last one held. -/
theorem goOn_move {s : Daemon} {l l' : Loop} {e : LoopEvent} {phase : Phase}
    (hl : s.loop = some l) (hhead : l.phase ≠ .head) (hr : l.phase.clone = none)
    (hr' : phase.clone = none) (hholds : phase.holdsRules = l.phase.holdsRules)
    (hruling : phase.ruling = true → s.ksOn = false) :
    LoopMove s l e (s.goOn l' phase) where
  frame := (LoopFrame.refl s).goOn _ _
  rules := .keeps rfl (by simp only [Daemon.holdsRules, Daemon.goOn, hl, Option.any_some, hholds])
    hruling
  config := .keeps rfl rfl (by simp only [Daemon.remembering, hl, Option.bind_some, hr]) hr'
  headEnds h := absurd h hhead

omit [External] in
/-- A candidate is given up: the rules it holds are cleared. -/
theorem clearRules_move {s s' : Daemon} {l : Loop} {e : LoopEvent} {own : Bool}
    {a : Answer (List Addr)} (hl : s.loop = some l) (hhead : l.phase ≠ .head)
    (hr : l.phase.clone = none) (hown : l.phase.holdsRules = own)
    (hok : e.routesOk = true → a.isOk = true)
    (hs' : s' = (s.clearRules own a).loopEnds ∨
      ∃ rest anyUp, s' = (s.clearRules own a).goOn l (.trying rest anyUp)) :
    LoopMove s l e s' := by
  have hr : s.remembering = none := by simp only [Daemon.remembering, hl, Option.bind_some, hr]
  have hk : s.kernel.clearIf own a = s.kernel.clearIf s.holdsRules a := by
    simp only [Daemon.holdsRules, hl, Option.any_some, hown]
  obtain rfl | ⟨rest, anyUp, rfl⟩ := hs'
  · exact ⟨(LoopFrame.clearRules s own a).loopEnds, .clears a hok hk rfl rfl, .keeps rfl rfl hr rfl,
      fun h => absurd h hhead⟩
  · exact ⟨(LoopFrame.clearRules s own a).goOn _ _, .clears a hok hk rfl rfl, .keeps rfl rfl hr rfl,
      fun h => absurd h hhead⟩

theorem beginRound_move {s : Daemon} {l : Loop} {lists : Lists} {e : LoopEvent}
    (hl : s.loop = some l) (hphase : l.phase = .head) :
    LoopMove s l e (s.beginRound l lists) := by
  have hr : s.remembering = none := by
    simp only [Daemon.remembering, hl, Option.bind_some, hphase, Phase.clone]
  have hfree : s.holdsRules = false := by
    simp only [Daemon.holdsRules, hl, Option.any_some, hphase, Phase.holdsRules]
  unfold beginRound
  split
  · exact ⟨(LoopFrame.refl s).loopEnds, .keeps rfl hfree.symm (by simp [Daemon.ruling, loopEnds]),
      .keeps rfl rfl hr rfl, fun _ _ => rfl⟩
  · rename_i hctx
    have hlive : s.runDone = false := by
      simp only [Daemon.cancelledIn, Bool.or_eq_true, not_or, Bool.not_eq_true] at hctx
      exact hctx.2
    have hends : ∀ s'' : Daemon, l.phase = .head → s.runDone = true → s''.loop = none :=
      fun _ _ hdone => absurd hdone (by simp [hlive])
    split
    · exact ⟨.refl s, .keeps rfl rfl (by simp [Daemon.ruling, hl, hphase, Phase.ruling]),
        .keeps rfl rfl hr hr, hends _⟩
    · dsimp only
      split
      · exact ⟨⟨rfl, rfl, rfl, rfl, rfl, rfl, rfl, rfl, rfl⟩,
          .keeps rfl hfree.symm (by simp [Daemon.ruling, goOn, Phase.ruling]),
          .remembers _ rfl rfl hr rfl, hends _⟩
      · rename_i all _ _
        have hfresh := fresh_startRound s
          { l with sel := (resolve s.cfg.subscriptions lists all l.sel).sel }
          (resolve s.cfg.subscriptions lists all l.sel).cands
        exact ⟨(LoopFrame.refl s).startRound _ _,
          .keeps hfresh.kernel (hfresh.holdsRules.trans hfree.symm) (by simp [hfresh.ruling]),
          .keeps hfresh.cfg hfresh.file hr hfresh.remembering, hends _⟩

omit [External] in
theorem saved_move {s : Daemon} {l : Loop} {clone : Config}
    {cands : Except ResolveError (List Entry)} {ok : Bool} (hl : s.loop = some l)
    (hphase : l.phase = .remembering clone cands) :
    LoopMove s l (.saved ok)
      ({ s with file := if ok then clone else s.file }.startRound l cands) := by
  have hfresh := fresh_startRound { s with file := if ok then clone else s.file } l cands
  have hwrite : LoopFrame s { s with file := if ok then clone else s.file } :=
    ⟨rfl, rfl, rfl, rfl, rfl, rfl, rfl, rfl, rfl⟩
  have hfree : s.holdsRules = false := by
    simp only [Daemon.holdsRules, hl, Option.any_some, hphase, Phase.holdsRules]
  exact ⟨hwrite.startRound _ _,
    .keeps hfresh.kernel (hfresh.holdsRules.trans hfree.symm) (by simp [hfresh.ruling]),
    .saves (by simp only [Daemon.remembering, hl, Option.bind_some, hphase, Phase.clone])
      hfresh.cfg hfresh.file hfresh.remembering,
    fun hh => by rw [hphase] at hh; cases hh⟩

theorem loopStep_move {s s' : Daemon} {e : LoopEvent} (h : s.loopStep e = some s') :
    ∃ l, s.loop = some l ∧ LoopMove s l e s' := by
  unfold loopStep at h
  split at h
  · cases h
  · rename_i l hl
    refine ⟨l, hl, ?_⟩
    split at h
    · rename_i hphase
      cases h
      exact beginRound_move hl hphase
    · rename_i hphase
      cases h
      exact saved_move hl hphase
    · rename_i hphase
      cases h
      exact goOn_move hl (by simp [hphase]) (by rw [hphase]; rfl) rfl (by rw [hphase]; rfl)
        (by simp [Phase.ruling])
    · rename_i hphase
      split at h <;> cases h
      · exact ⟨(LoopFrame.refl s).loopEnds,
          .keeps rfl (by simp [Daemon.holdsRules, hl, hphase, Phase.holdsRules, loopEnds])
            (by simp [Daemon.ruling, loopEnds]),
          .keeps rfl rfl (by simp [Daemon.remembering, hl, hphase, Phase.clone]) rfl,
          fun hh => by rw [hphase] at hh; cases hh⟩
      · exact goOn_move hl (by simp [hphase]) (by rw [hphase]; rfl) rfl (by rw [hphase]; rfl)
          (by simp [Phase.ruling])
    · rename_i hphase
      split at h
      · cases h
        exact goOn_move hl (by simp [hphase]) (by rw [hphase]; rfl) rfl (by rw [hphase]; rfl)
          (by simp [Phase.ruling])
      · split at h <;> cases h
        · rename_i hfree
          exact goOn_move hl (by simp [hphase]) (by rw [hphase]; rfl) rfl (by rw [hphase]; rfl)
            (fun _ => hfree.2)
        · exact goOn_move hl (by simp [hphase]) (by rw [hphase]; rfl) rfl (by rw [hphase]; rfl)
            (by simp [Phase.ruling])
    · rename_i hphase
      split at h
      · cases h
        exact goOn_move hl (by simp [hphase]) (by rw [hphase]; rfl) rfl (by rw [hphase]; rfl)
          (by simp [Phase.ruling])
      · rename_i addrs
        have hruling : s.ruling = true := by simp [Daemon.ruling, hl, hphase, Phase.ruling]
        have hr : s.remembering = none := by simp [Daemon.remembering, hl, hphase, Phase.clone]
        have hhead : ∀ s'' : Daemon, l.phase = .head → s.runDone = true → s''.loop = none :=
          fun _ hh => by rw [hphase] at hh; cases hh
        dsimp only at h
        split at h <;> cases h
        · rename_i hok
          exact ⟨⟨rfl, rfl, rfl, rfl, rfl, rfl, rfl, rfl, rfl⟩,
            .syncs addrs _ id hruling rfl (by rw [hok]; rfl) rfl, .keeps rfl rfl hr rfl, hhead _⟩
        · rename_i hok
          exact ⟨⟨rfl, rfl, rfl, rfl, rfl, rfl, rfl, rfl, rfl⟩,
            .syncs addrs _ id hruling rfl (by rw [Bool.eq_false_iff.mpr hok]; rfl) rfl,
            .keeps rfl rfl hr rfl, hhead _⟩
    · rename_i hphase
      split at h <;> cases h
      · exact goOn_move hl (by simp [hphase]) (by rw [hphase]; rfl) rfl (by rw [hphase]; rfl)
          (by simp [Phase.ruling])
      · exact clearRules_move hl (by simp [hphase]) (by rw [hphase]; rfl) (by rw [hphase]; rfl)
          id (.inr ⟨_, _, rfl⟩)
    · rename_i hphase
      split at h <;> cases h
      · exact goOn_move hl (by simp [hphase]) (by rw [hphase]; rfl) rfl (by rw [hphase]; rfl)
          (by simp [Phase.ruling])
      · exact clearRules_move hl (by simp [hphase]) (by rw [hphase]; rfl) (by rw [hphase]; rfl)
          id (.inr ⟨_, _, rfl⟩)
    · rename_i hphase
      split at h <;> cases h
      · exact ⟨⟨rfl, rfl, rfl, rfl, rfl, rfl, rfl, rfl, rfl⟩,
          .keeps rfl (by simp [Daemon.holdsRules, hl, hphase, Phase.holdsRules, Stage.holdsRules,
            markUp, goOn]) (by simp [Daemon.ruling, markUp, goOn, Phase.ruling]),
          .keeps rfl rfl (by simp [Daemon.remembering, hl, hphase, Phase.clone]) rfl,
          fun hh => by rw [hphase] at hh; cases hh⟩
      · exact clearRules_move hl (by simp [hphase]) (by rw [hphase]; rfl) (by rw [hphase]; rfl)
          id (.inr ⟨_, _, rfl⟩)
    · rename_i hphase
      dsimp only at h
      split at h <;> cases h
      · exact clearRules_move hl (by simp [hphase]) (by rw [hphase]; rfl) (by rw [hphase]; rfl)
          id (.inl rfl)
      · exact clearRules_move hl (by simp [hphase]) (by rw [hphase]; rfl) (by rw [hphase]; rfl)
          id (.inr ⟨_, _, rfl⟩)
    · cases h

/-! ### What a step does -/

inductive Move (s : Daemon) : Event → Daemon → Prop
  | request {e s'} (h : RequestMove s e s') : Move s (.request e) s'
  | section_ {e s'} (h : SectionMove s e s') : Move s (.section_ e) s'
  | loop {e s' l} (hl : s.loop = some l) (h : LoopMove s l e s') : Move s (.loop e) s'
  | syncs {addrs a} (hw : s.watching = true) :
      Move s (.addressChange (some addrs) a) { s with kernel := s.kernel.sync addrs a }
  | unread {a} (hw : s.watching = true) : Move s (.addressChange none a) s

theorem step_move {s s' : Daemon} {e : Event} (h : s.step e = some s') : Move s e s' := by
  unfold step at h
  split at h
  · cases h
  · split at h
    · exact .request (requestStep_move h)
    · exact .section_ (sectionStep_move h)
    · obtain ⟨l, hl, hmove⟩ := loopStep_move h
      exact .loop hl hmove
    · unfold addressStep at h
      split at h
      · split at h <;> cases h
        · exact .syncs ‹_›
        · exact .unread ‹_›
      · cases h

end Daemon

end Ghostlane.Cli
