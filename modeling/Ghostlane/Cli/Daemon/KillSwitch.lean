import Ghostlane.Cli.ResolveSound
import Ghostlane.Cli.Daemon.System

/-!
# Ghostlane.Cli.Daemon.KillSwitch

Who holds the rules in the kernel, over whole runs.

* **The switch never opens between lines.** From the start of a selection with
  the kill switch, until a stop or a selection without it, no step calls `Clear`
  or `RemoveKillSwitch` (`kill_switch_never_opens`). The invariant is that no
  line owns rules while the switch is on (`Closed`): `bringUp` reads `ksOn` once,
  in the middle, and every way out of it decides by what it read.
* **A clean stop gives the box back**, as long as no section started before the
  stop finishes by starting a selection with the switch after it
  (`clean_stop_gives_back`). Nothing in the source keeps it from doing so: the
  stored selection survives the stop, and `startConnectLocked` installs the
  switch before it looks at any context (`late_refresh_leaves_switch`).
-/

namespace Ghostlane.Cli.Daemon

open Ghostlane.Lib

/-! ### Which sections start and stop -/

/-- The selection the event starts. -/
def startsSelection (s : Daemon) : Event → Option Selection
  | .section_ (.unlock i _) =>
      match s.flights i with
      | .starting sel => some sel
      | _ => none
  | .section_ (.unlockRun _) =>
      match s.main with
      | .startingStored sel => some sel
      | _ => none
  | _ => none

/-- Does the event finish a `stopAll`? -/
def stopsAll (s : Daemon) : Event → Bool
  | .section_ (.unlock i _) => s.flights i == .stopping
  | .section_ (.unlockRun _) => s.main == .stopping
  | _ => false

theorem startsSelection_unlock {s : Daemon} {i : Nat} {a : RoutesAnswers} {sel : Selection}
    (h : s.flights i = .starting sel) : s.startsSelection (.section_ (.unlock i a)) = some sel := by
  simp only [startsSelection, h]

theorem startsSelection_unlockRun {s : Daemon} {a : RoutesAnswers} {sel : Selection}
    (h : s.main = .startingStored sel) :
    s.startsSelection (.section_ (.unlockRun a)) = some sel := by
  simp only [startsSelection, h]

/-! ### The loop's hold on the rules depends on the loop alone -/

theorem holdsRules_congr {s s' : Daemon} (h : s'.loop = s.loop) : s'.holdsRules = s.holdsRules := by
  unfold holdsRules
  rw [h]

theorem ruling_congr {s s' : Daemon} (h : s'.loop = s.loop) : s'.ruling = s.ruling := by
  unfold ruling
  rw [h]

@[simp] theorem holdsRules_cancelLoop (s : Daemon) : s.cancelLoop.holdsRules = s.holdsRules := by
  cases hl : s.loop <;> simp [holdsRules, cancelLoop, hl]

@[simp] theorem ruling_cancelLoop (s : Daemon) : s.cancelLoop.ruling = s.ruling := by
  cases hl : s.loop <;> simp [ruling, cancelLoop, hl]

theorem holdsRules_of_noLoop {s : Daemon} (h : s.loop = none) : s.holdsRules = false := by
  simp [holdsRules, h]

/-- The line that is up holds rules when it owns some. -/
theorem ownRules_of_cur {s : Daemon} {line : Live} (h : s.cur = some line) :
    s.holdsRules = line.ownRules := by
  unfold cur at h
  split at h
  · rename_i hl
    cases h
    simp [holdsRules, hl, Phase.holdsRules]
  · cases h

theorem holdsRules_of_watching {s : Daemon} (h : s.watching = true) (hoff : s.ksOn = false) :
    s.holdsRules = true := by
  unfold watching at h
  rw [hoff, Bool.false_and, Bool.false_or] at h
  cases hl : s.loop with
  | none => simp [hl] at h
  | some l =>
      rw [hl, Option.any_some] at h
      simp only [holdsRules, hl, Option.any_some]
      exact Phase.holdsRules_of_watches h

/-! ### A config that asks for the switch -/

/-- One list, and a stored selection with the kill switch. -/
def guarded : Config where
  subscriptions := [{ url := txt "https://a.example/l", addedAt := 0 }]
  selection := some { subscription := [], selector := txt "1", mode := .tun, killSwitch := true }
  proxy := { listen := txt "127.0.0.1", port := 1080 }

/-- The list of `guarded`, with one line. -/
def oneLine : Lists := (twoLists (some [txt "hy2://p@a.example:443#Paris"])).lists

variable [External]

/-! ### While the switch is on its rules are in -/

/-- The daemon knows of a switch only when its rules are in. -/
def SwitchIn (s : Daemon) : Prop := s.ksOn = true → s.kernel.killSwitch = true

omit [External] in
theorem SwitchIn.of_eq {s s' : Daemon} (h : SwitchIn s) (hon : s'.ksOn = s.ksOn)
    (hks : s'.kernel.killSwitch = s.kernel.killSwitch) : SwitchIn s' := by
  intro h'
  rw [hks]
  exact h (hon ▸ h')

omit [External] in
theorem SwitchIn.starts {s s' : Daemon} {sel : Selection} {a : RoutesAnswers} (h : SwitchIn s)
    (hs : Starts s sel a s') : SwitchIn s' := by
  cases hs with
  | keepsSwitch | plain => exact h
  | installs _ _ hi _ _ =>
      intro _
      exact Answer.leaves_of_isOk hi true
  | fails kernel _ hoff _ =>
      intro hon
      rw [show s.ksOn = true from hon] at hoff
      cases hoff
  | removes =>
      intro hon
      cases hon

omit [External] in
theorem SwitchIn.stops {s s' : Daemon} {a : RoutesAnswers} (h : SwitchIn s) (hs : Stops s a s') :
    SwitchIn s' := by
  cases hs with
  | off => exact h
  | removes =>
      intro hon
      cases hon

omit [External] in
theorem SwitchIn.stopAll {s : Daemon} (h : SwitchIn s) (forget : Bool) (a : RoutesAnswers) :
    SwitchIn (s.stopAll forget a) := by
  have hstop := h.stops (removeKillSwitch_stops s a)
  cases forget with
  | false => exact hstop
  | true => exact hstop

theorem SwitchIn.step {s s' : Daemon} {e : Event} (h : SwitchIn s) (hstep : s.step e = some s') :
    SwitchIn s' := by
  cases step_move hstep with
  | request hm => exact h.of_eq hm.frame.ksOn (by rw [hm.frame.kernel])
  | section_ hm =>
      cases hm with
      | @starts i a sel => exact (h.starts (startConnectLocked_starts s sel a) :)
      | @serves a sel => exact (h.starts (startConnectLocked_starts s sel a) :)
      | stops => exact h.stopAll true _
      | returns => exact h.stopAll false _
      | _ => exact h
  | loop hl hm => exact h.of_eq hm.frame.ksOn hm.frame.killSwitch
  | syncs => exact h
  | unread => exact h

theorem switchIn_of_run {cfg : Config} {es : List Event} {s : Daemon}
    (h : run step (init cfg) es = some s) : SwitchIn s := by
  have hinit : SwitchIn (init cfg) := fun hon => nomatch hon
  exact run_inv (fun s e s' hs (_ : True) hstep => hs.step hstep) hinit
    (allSteps_of_forall fun _ _ _ => trivial) h

/-! ### The switch never opens between lines -/

/-- A step that neither stops nor starts a selection without the switch. -/
def KeepsSwitch (s : Daemon) (e : Event) : Prop :=
  s.stopsAll e = false ∧ ∀ sel ∈ s.startsSelection e, sel.wantsSwitch = true

instance (s : Daemon) (e : Event) : Decidable (KeepsSwitch s e) :=
  inferInstanceAs (Decidable (_ ∧ ∀ sel ∈ s.startsSelection e, _))

/-- No call since `before` took rules out. -/
def TakesNothingOut (before after : List RoutesCall) : Prop :=
  ∃ new, after = before ++ new ∧ ∀ c ∈ new, c ≠ .clear ∧ c ≠ .removeKillSwitch

/-- The switch is on, no line owns rules or is about to, and nothing was taken
out since the calls `before`. -/
structure Closed (before : List RoutesCall) (s : Daemon) : Prop where
  on : s.ksOn = true
  rules : s.kernel.killSwitch = true
  holds : s.holdsRules = false
  ruling : s.ruling = false
  calls : TakesNothingOut before s.kernel.calls

omit [External] in
theorem Closed.of_eq {before : List RoutesCall} {s s' : Daemon} (h : Closed before s)
    (hon : s'.ksOn = s.ksOn) (hkernel : s'.kernel = s.kernel)
    (hholds : s'.holdsRules = s.holdsRules) (hruling : s'.ruling = s.ruling) :
    Closed before s' where
  on := hon ▸ h.on
  rules := hkernel ▸ h.rules
  holds := hholds ▸ h.holds
  ruling := hruling ▸ h.ruling
  calls := hkernel ▸ h.calls

omit [External] in
/-- With the switch on, starting a selection that wants it calls nothing. -/
theorem Closed.starts {before : List RoutesCall} {s s' : Daemon} {sel : Selection}
    {a : RoutesAnswers} (h : Closed before s) (hsw : sel.wantsSwitch = true)
    (hs : Starts s sel a s') : Closed before s' := by
  cases hs with
  | keepsSwitch => exact ⟨h.on, h.rules, rfl, rfl, h.calls⟩
  | installs _ hoff => exact absurd h.on (by simp [hoff])
  | fails _ _ hoff => exact absurd h.on (by simp [hoff])
  | plain hplain => exact absurd hsw (by simp [hplain])
  | removes hplain => exact absurd hsw (by simp [hplain])

omit [External] in
theorem Closed.sync {before : List RoutesCall} {s : Daemon} (h : Closed before s)
    (addrs : List Addr) (a : Answer (List Addr)) :
    Closed before { s with kernel := s.kernel.sync addrs a } where
  on := h.on
  rules := h.rules
  holds := h.holds
  ruling := h.ruling
  calls := by
    obtain ⟨new, hnew, hall⟩ := h.calls
    refine ⟨new ++ [.sync addrs], by simp [Kernel.sync, hnew], fun c hc => ?_⟩
    rcases List.mem_append.mp hc with hc | hc
    · exact hall c hc
    · rw [List.mem_singleton.mp hc]
      exact ⟨by simp, by simp⟩

omit [External] in
/-- A loop that holds no rules clears none. -/
theorem Closed.loop {before : List RoutesCall} {s s' : Daemon} {l : Loop} {e : LoopEvent}
    (h : Closed before s) (hm : LoopMove s l e s') : Closed before s' := by
  have hon : s'.ksOn = true := hm.frame.ksOn ▸ h.on
  have hks : s'.kernel.killSwitch = true := hm.frame.killSwitch ▸ h.rules
  cases hm.rules with
  | keeps hkernel hholds hruling =>
      refine ⟨hon, hks, hholds ▸ h.holds, ?_, hkernel ▸ h.calls⟩
      rw [← Bool.not_eq_true]
      intro hr
      exact absurd h.on (by simp [hruling hr])
  | syncs addrs a _ hruling =>
      rw [h.ruling] at hruling
      cases hruling
  | clears a _ hkernel hholds hruling =>
      rw [h.holds, Kernel.clearIf_false] at hkernel
      exact ⟨hon, hks, hholds, hruling, hkernel ▸ h.calls⟩

theorem Closed.step {before : List RoutesCall} {s s' : Daemon} {e : Event} (h : Closed before s)
    (hkeeps : KeepsSwitch s e) (hstep : s.step e = some s') : Closed before s' := by
  cases step_move hstep with
  | request hm =>
      have hloop := hm.frame.loop
      exact h.of_eq hm.frame.ksOn hm.frame.kernel (holdsRules_congr hloop) (ruling_congr hloop)
  | section_ hm =>
      cases hm with
      | @starts i a sel hloop hi =>
          have hsw := hkeeps.2 sel (startsSelection_unlock hi)
          have hs := h.starts hsw (startConnectLocked_starts s sel a)
          exact ⟨hs.on, hs.rules, hs.holds, hs.ruling, hs.calls⟩
      | @serves a sel hloop hmain =>
          have hsw := hkeeps.2 sel (startsSelection_unlockRun hmain)
          have hs := h.starts hsw (startConnectLocked_starts s sel a)
          exact ⟨hs.on, hs.rules, hs.holds, hs.ruling, hs.calls⟩
      | stops hloop hi => exact absurd hkeeps.1 (by simp [stopsAll, hi])
      | returns hloop hmain => exact absurd hkeeps.1 (by simp [stopsAll, hmain])
      | locksStart | locksStop | refreshStarts | locksRun =>
          exact h.of_eq rfl rfl (holdsRules_cancelLoop s) (ruling_cancelLoop s)
      | _ => exact ⟨h.on, h.rules, h.holds, h.ruling, h.calls⟩
  | loop hl hm => exact h.loop hm
  | syncs => exact h.sync _ _
  | unread => exact h

omit [External] in
/-- A start that wants the switch and starts its loop leaves it closed. -/
theorem closed_of_starts {s s' : Daemon} {sel : Selection} {a : RoutesAnswers} (hin : SwitchIn s)
    (hnone : s.loop = none) (hsw : sel.wantsSwitch = true) (hs : Starts s sel a s')
    (hup : s'.loop.isSome = true) : Closed s'.kernel.calls s' := by
  have hcalls : ∀ calls, TakesNothingOut calls calls := fun calls => ⟨[], by simp, by simp⟩
  have hin' := hin.starts hs
  cases hs with
  | keepsSwitch _ hon => exact ⟨hon, hin' hon, rfl, rfl, hcalls _⟩
  | installs => exact ⟨rfl, hin' rfl, rfl, rfl, hcalls _⟩
  | fails => exact absurd hup (by simp [hnone])
  | plain hplain => exact absurd hsw (by simp [hplain])
  | removes hplain => exact absurd hsw (by simp [hplain])

theorem closed_of_start {s s' : Daemon} {e : Event} {sel : Selection} (hin : SwitchIn s)
    (hsel : s.startsSelection e = some sel) (hsw : sel.wantsSwitch = true)
    (hstep : s.step e = some s') (hup : s'.loop.isSome = true) : Closed s'.kernel.calls s' := by
  cases step_move hstep with
  | section_ hm =>
      cases hm with
      | @starts i a sel' hloop hi =>
          obtain rfl : sel' = sel := Option.some.inj ((startsSelection_unlock hi).symm.trans hsel)
          have hs := closed_of_starts hin hloop hsw (startConnectLocked_starts s sel' a) hup
          exact ⟨hs.on, hs.rules, hs.holds, hs.ruling, hs.calls⟩
      | @serves a sel' hloop hmain =>
          obtain rfl : sel' = sel :=
            Option.some.inj ((startsSelection_unlockRun hmain).symm.trans hsel)
          have hs := closed_of_starts hin hloop hsw (startConnectLocked_starts s sel' a) hup
          exact ⟨hs.on, hs.rules, hs.holds, hs.ruling, hs.calls⟩
      | stops hloop hi => simp [startsSelection, hi] at hsel
      | returns hloop hmain => simp [startsSelection, hmain] at hsel
      | _ => cases hsel
  | _ => cases hsel

/-- **The kill switch never opens between lines.** After a selection with the
switch has been started, whatever the lines, the rounds, the refreshes and the
host's addresses do: until a stop, or a selection without the switch, the rules
stay in, no line owns rules of its own, and nothing is taken out. -/
theorem kill_switch_never_opens {cfg : Config} {es₀ es : List Event} {e : Event}
    {s₀ s₁ s₂ : Daemon} {sel : Selection}
    (hreach : run step (init cfg) es₀ = some s₀)
    (hsel : s₀.startsSelection e = some sel)
    (htun : sel.mode = .tun) (hks : sel.killSwitch = true)
    (hstart : s₀.step e = some s₁) (hstarted : s₁.loop.isSome = true)
    (huntil : AllSteps step KeepsSwitch s₁ es) (hrun : run step s₁ es = some s₂) :
    s₂.ksOn = true ∧ s₂.kernel.killSwitch = true ∧
      s₂.holdsRules = false ∧ (∀ line, s₂.cur = some line → line.ownRules = false) ∧
      TakesNothingOut s₁.kernel.calls s₂.kernel.calls := by
  have hsw : sel.wantsSwitch = true := by simp [Selection.wantsSwitch, htun, hks]
  have h₁ := closed_of_start (switchIn_of_run hreach) hsel hsw hstart hstarted
  have h₂ : Closed s₁.kernel.calls s₂ :=
    run_inv (fun s e s' hs hk hstep => hs.step hk hstep) h₁ huntil hrun
  refine ⟨h₂.on, h₂.rules, h₂.holds, fun line hcur => ?_, h₂.calls⟩
  rw [← ownRules_of_cur hcur]
  exact h₂.holds

/-- A line of `guarded` that fails at its front, is tried again and comes up. -/
def failAndRetry : List Event :=
  [.loop (.readLists oneLine), .loop (.saved true), .loop .next, .loop (.proved true),
    .loop (.probed true .ok), .loop (.fronted false .ok), .loop .next,
    .addressChange (some []) .ok, .loop (.readLists oneLine), .loop .next, .loop (.proved true),
    .loop (.probed true .ok), .loop (.fronted true .ok), .loop (.confirmed true .ok true)]

omit [External] in
theorem kill_switch_never_opens_guarded :
    ∃ s₁ s₂, run (@step spelledIDs) (init guarded)
        [.section_ .startStored, .section_ (.unlockRun {})] = some s₁ ∧
      run (@step spelledIDs) s₁ failAndRetry = some s₂ ∧ s₂.cur.isSome = true ∧
      s₂.ksOn = true ∧ s₂.kernel.killSwitch = true := by
  refine ⟨_, _, rfl, rfl, by decide, ?_⟩
  have h := @kill_switch_never_opens spelledIDs guarded [.section_ .startStored] failAndRetry
    (.section_ (.unlockRun {})) _ _ _ _ rfl rfl rfl rfl rfl rfl (by decide) rfl
  exact ⟨h.1, h.2.1⟩

/-! ### A clean stop gives the box back -/

/-- Once `Run` has returned, no section still on its way starts a selection with
the switch. -/
def NoLateSwitch (s : Daemon) (e : Event) : Prop :=
  s.main = .returned → ∀ sel ∈ s.startsSelection e, sel.wantsSwitch = false

instance (s : Daemon) (e : Event) : Decidable (NoLateSwitch s e) :=
  inferInstanceAs (Decidable (_ → ∀ sel ∈ s.startsSelection e, _))

/-- Rules are in only for the switch or for the line that put them in, and for
neither once `Run` has returned. -/
structure Owned (s : Daemon) : Prop where
  off : s.ksOn = false → s.kernel.killSwitch = false
  own : s.ksOn = false → s.holdsRules = false → s.kernel.ownRules = []
  done : s.main = .stopping ∨ s.main = .returned → s.runDone = true
  given : s.main = .returned → s.ksOn = false
  head : s.main = .returned → ∀ l, s.loop = some l → l.phase = .head

omit [External] in
/-- While `Run` serves, only the first two say anything. -/
theorem Owned.of_running {s : Daemon} (hoff : s.ksOn = false → s.kernel.killSwitch = false)
    (hown : s.ksOn = false → s.holdsRules = false → s.kernel.ownRules = [])
    (hstop : s.main ≠ .stopping) (hret : s.main ≠ .returned) : Owned s where
  off := hoff
  own := hown
  done h := by
    rcases h with h | h
    · exact absurd h hstop
    · exact absurd h hret
  given h := absurd h hret
  head h := absurd h hret

omit [External] in
theorem owned_init (cfg : Config) : Owned (init cfg) :=
  .of_running (fun _ => rfl) (fun _ _ => rfl) (by simp [init]) (by simp [init])

omit [External] in
theorem allOk_iff {a : RoutesAnswers} : a.allOk = true ↔
    a.install.isOk = true ∧ a.addresses.isSome = true ∧ a.sync.isOk = true ∧ a.clear.isOk = true ∧
      a.remove.isOk = true := by
  simp only [RoutesAnswers.allOk, Bool.and_eq_true]
  tauto

omit [External] in
/-- Starting a selection: `Run` is still there, or the selection has no switch. -/
theorem Owned.starts {s s' : Daemon} {sel : Selection} {a : RoutesAnswers} (h : Owned s)
    (hnone : s.loop = none) (hok : a.allOk = true)
    (hlate : s.main = .returned → sel.wantsSwitch = false) (hs : Starts s sel a s') :
    Owned s' := by
  obtain ⟨_, _, _, hclear, hremove⟩ := allOk_iff.mp hok
  have hfree := holdsRules_of_noLoop hnone
  have hhead : ∀ l, some ({ sel } : Loop) = some l → l.phase = .head := by
    intro l hl
    cases hl
    rfl
  cases hs with
  | keepsSwitch hsw hon =>
      exact ⟨h.off, fun hoff => absurd hon (by simp [show s.ksOn = false from hoff]), h.done,
        h.given,
        fun _ => hhead⟩
  | installs hsw =>
      have hrun : s.main ≠ .returned := fun hret => absurd hsw (by simp [hlate hret])
      exact ⟨fun hoff => (nomatch hoff), fun hoff => (nomatch hoff), h.done,
        fun hret => absurd hret hrun, fun _ => hhead⟩
  | fails _ _ _ hno =>
      rw [hok] at hno
      cases hno
  | plain _ hoff =>
      exact ⟨h.off, fun _ _ => h.own hoff hfree, h.done, h.given, fun _ => hhead⟩
  | removes =>
      refine ⟨fun _ => ?_, fun _ _ => ?_, h.done, fun _ => rfl, fun _ => hhead⟩
      · exact Answer.leaves_of_isOk hremove false
      · exact Answer.leaves_of_isOk hclear []

omit [External] in
theorem Owned.stops {s s' : Daemon} {a : RoutesAnswers} (h : Owned s) (hok : a.allOk = true)
    (hs : Stops s a s') : Owned s' ∧ s'.ksOn = false := by
  obtain ⟨_, _, _, hclear, hremove⟩ := allOk_iff.mp hok
  cases hs with
  | off hoff => exact ⟨⟨h.off, h.own, h.done, h.given, h.head⟩, hoff⟩
  | removes =>
      refine ⟨⟨fun _ => ?_, fun _ _ => ?_, h.done, fun _ => rfl, h.head⟩, rfl⟩
      · exact Answer.leaves_of_isOk hremove false
      · exact Answer.leaves_of_isOk hclear []

omit [External] in
theorem Owned.stopAll {s : Daemon} {a : RoutesAnswers} (h : Owned s) (hok : a.allOk = true)
    (forget : Bool) : Owned (s.stopAll forget a) ∧ (s.stopAll forget a).ksOn = false := by
  obtain ⟨hstop, hoff⟩ := h.stops hok (removeKillSwitch_stops s a)
  cases forget with
  | false => exact ⟨hstop, hoff⟩
  | true => exact ⟨⟨hstop.off, hstop.own, hstop.done, hstop.given, hstop.head⟩, hoff⟩

omit [External] in
theorem cancelLoop_head {s : Daemon} (h : ∀ l, s.loop = some l → l.phase = .head) :
    ∀ l, s.cancelLoop.loop = some l → l.phase = .head := by
  intro l hl
  obtain ⟨l₀, hl₀, rfl⟩ := Option.map_eq_some_iff.mp hl
  exact h l₀ hl₀

omit [External] in
/-- A section that only cancels the loop and takes `connectMu`. -/
theorem Owned.cancels {s s' : Daemon} (h : Owned s) (hon : s'.ksOn = s.ksOn)
    (hkernel : s'.kernel = s.kernel) (hloop : s'.loop = s.cancelLoop.loop)
    (hdone : s'.main = .stopping ∨ s'.main = .returned → s'.runDone = true)
    (hmain : s'.main = .returned → s.main = .returned) : Owned s' where
  off hoff := hkernel ▸ h.off (hon ▸ hoff)
  own hoff hfree := by
    rw [holdsRules_congr hloop, holdsRules_cancelLoop] at hfree
    exact hkernel ▸ h.own (hon ▸ hoff) hfree
  done := hdone
  given hret := hon ▸ h.given (hmain hret)
  head hret := by
    rw [hloop]
    exact cancelLoop_head (h.head (hmain hret))

omit [External] in
theorem Owned.loop {s s' : Daemon} {l : Loop} {e : LoopEvent} (h : Owned s) (hl : s.loop = some l)
    (hok : e.routesOk = true) (hm : LoopMove s l e s') : Owned s' where
  off hoff := by
    rw [hm.frame.killSwitch]
    exact h.off (hm.frame.ksOn ▸ hoff)
  own hoff hfree := by
    have hoff : s.ksOn = false := hm.frame.ksOn ▸ hoff
    cases hm.rules with
    | keeps hkernel hholds => exact hkernel ▸ h.own hoff (hholds ▸ hfree)
    | syncs addrs a hans _ hkernel hholds =>
        rw [hholds, hans hok] at hfree
        cases hfree
    | clears a hans hkernel _ =>
        rw [hkernel]
        cases hholds : s.holdsRules with
        | true => exact Answer.leaves_of_isOk (hans hok) []
        | false => exact h.own hoff hholds
  done := by
    rw [hm.frame.main, hm.frame.runDone]
    exact h.done
  given hret := by
    rw [hm.frame.ksOn]
    exact h.given (hm.frame.main ▸ hret)
  head hret := by
    have hret : s.main = .returned := hm.frame.main ▸ hret
    rw [hm.headEnds (h.head hret l hl) (h.done (.inr hret))]
    exact fun l hl => nomatch hl

theorem Owned.step {s s' : Daemon} {e : Event} (h : Owned s) (hok : e.routesOk = true)
    (hlate : NoLateSwitch s e) (hstep : s.step e = some s') : Owned s' := by
  cases step_move hstep with
  | request hm =>
      have hf := hm.frame
      refine ⟨?_, ?_, ?_, ?_, ?_⟩
      · rw [hf.ksOn, hf.kernel]
        exact h.off
      · rw [hf.ksOn, hf.kernel, holdsRules_congr hf.loop]
        exact h.own
      · rw [hf.main, hf.runDone]
        exact h.done
      · rw [hf.main, hf.ksOn]
        exact h.given
      · rw [hf.main, hf.loop]
        exact h.head
  | section_ hm =>
      cases hm with
      | @starts i a sel hloop hi =>
          have hs := h.starts hloop hok (fun hret => hlate hret sel (startsSelection_unlock hi))
            (startConnectLocked_starts s sel a)
          exact ⟨hs.off, hs.own, hs.done, hs.given, hs.head⟩
      | @serves a sel hloop hmain =>
          have hs := h.starts hloop hok (fun hret => absurd hret (by simp [hmain]))
            (startConnectLocked_starts s sel a)
          exact .of_running hs.off hs.own (by simp) (by simp)
      | @stops i a hloop hi =>
          have hs := (h.stopAll hok true).1
          exact ⟨hs.off, hs.own, hs.done, hs.given, hs.head⟩
      | @returns a hloop hmain =>
          obtain ⟨hs, hoff⟩ := h.stopAll hok false
          have hnone : (s.stopAll false a).loop = none := by rw [stopAll_loop, hloop]
          refine ⟨hs.off, hs.own, fun _ => ?_, fun _ => hoff, fun _ l hl => ?_⟩
          · exact hs.done (.inl (by rw [stopAll_main, hmain]))
          · rw [show (s.stopAll false a).loop = some l from hl] at hnone
            cases hnone
      | locksStart | locksStop | refreshStarts =>
          exact h.cancels rfl rfl rfl h.done id
      | locksRun hmu hdone hmain =>
          exact h.cancels rfl rfl rfl (fun _ => hdone) (fun hm => nomatch hm)
      | storedStarts hmu hmain =>
          exact .of_running h.off h.own (by simp) (by simp)
      | storedLeaves hmu hmain =>
          exact .of_running h.off h.own (by simp) (by simp)
      | runEnds => exact ⟨h.off, h.own, fun _ => rfl, h.given, h.head⟩
      | _ => exact ⟨h.off, h.own, h.done, h.given, h.head⟩
  | loop hl hm => exact h.loop hl hok hm
  | syncs hw =>
      refine ⟨h.off, fun hoff hfree => ?_, h.done, h.given, h.head⟩
      exact absurd (holdsRules_of_watching hw hoff) (by simp [show s.holdsRules = false from hfree])
  | unread => exact h

/-- When every call to `Routes` succeeds a late start starts its loop. -/
theorem late_start {s s' : Daemon} {e : Event} {sel : Selection} (hret : s.main = .returned)
    (hsel : s.startsSelection e = some sel) (hok : e.routesOk = true)
    (hstep : s.step e = some s') : s'.main = .returned ∧ s'.loop.isSome = true := by
  cases step_move hstep with
  | section_ hm =>
      cases hm with
      | @starts i a sel' hloop hi =>
          have hstarts := startConnectLocked_starts s sel' a
          refine ⟨?_, ?_⟩
          · obtain ⟨_, _, _, _, h⟩ := startConnectLocked_eq s sel' a
            rw [set_main, h]
            exact hret
          · rw [set_loop]
            exact (loop_of_starts hok hstarts :)
      | serves hloop hmain => exact absurd hret (by simp [hmain])
      | stops hloop hi => simp [startsSelection, hi] at hsel
      | returns hloop hmain => exact absurd hret (by simp [hmain])
      | _ => cases hsel
  | _ => cases hsel

/-- **A clean stop gives the box back.** When every call to `Routes` succeeds
and no section starts a selection with the switch after `Run` has returned, then
from its return on the kernel holds nothing of the daemon's. The condition is
needed: a step that breaks it leaves the switch in. -/
theorem clean_stop_gives_back {cfg : Config} {es : List Event} {s : Daemon}
    (hok : ∀ e ∈ es, e.routesOk = true) (hlate : AllSteps step NoLateSwitch (init cfg) es)
    (hrun : run step (init cfg) es = some s) (hret : s.main = .returned) :
    (s.ksOn = false ∧ s.kernel.killSwitch = false ∧ s.kernel.ownRules = []) ∧
      ∀ e s', e.routesOk = true → s.step e = some s' → ¬ NoLateSwitch s e →
        s'.main = .returned ∧ s'.ksOn = true ∧ s'.kernel.killSwitch = true := by
  have hC : AllSteps step (fun s e => e.routesOk = true ∧ NoLateSwitch s e) (init cfg) es :=
    (allSteps_of_forall fun _ e he => hok e he).and hlate
  have hs : Owned s := run_inv (fun s e s' hs hc hstep => hs.step hc.1 hc.2 hstep) (owned_init cfg)
    hC hrun
  have hfree : s.holdsRules = false := by
    cases hl : s.loop with
    | none => exact holdsRules_of_noLoop hl
    | some l => simp [holdsRules, hl, hs.head hret l hl, Phase.holdsRules]
  have hoff := hs.given hret
  refine ⟨⟨hoff, hs.off hoff, hs.own hoff hfree⟩, fun e s' he hstep hbreak => ?_⟩
  simp only [NoLateSwitch, hret, forall_const, not_forall, Bool.not_eq_false] at hbreak
  obtain ⟨sel, hsel, hsw⟩ := hbreak
  obtain ⟨hret', hup⟩ := late_start hret hsel he hstep
  have hclosed := closed_of_start (switchIn_of_run hrun) hsel hsw hstep hup
  exact ⟨hret', hclosed.on, hclosed.rules⟩

/-- Start, run, stop; a connect without the switch that was on its way when `Run`
stopped starts after it, and its loop ends at once. -/
def lateConnect : List Event :=
  [.section_ .startStored, .section_ (.unlockRun {}), .loop (.readLists oneLine),
    .section_ (.connect 0 { selector := txt "1" } true oneLine), .section_ (.storeSelection 0),
    .section_ .runEnds, .loop (.saved true), .loop .next, .section_ .lockRun,
    .section_ (.unlockRun {}), .request (.save 0 true), .section_ (.lock 0),
    .section_ (.unlock 0 {}), .loop (.readLists oneLine)]

omit [External] in
theorem clean_stop_gives_back_guarded :
    ∃ s, run (@step spelledIDs) (init guarded) lateConnect = some s ∧ s.main = .returned ∧
      s.sel.isSome = true ∧ s.ksOn = false ∧ s.kernel.killSwitch = false ∧
      s.kernel.ownRules = [] := by
  refine ⟨_, rfl, rfl, rfl, ?_⟩
  exact (@clean_stop_gives_back spelledIDs guarded lateConnect _ (by decide) (by decide) rfl rfl).1

/-- A refresh that was on its way when `Run` stopped finishes after it: no loop
runs and the selection is still stored, so it is started, switch first. Its loop
ends at once and the switch stays in, with nobody left to remove it. -/
def lateRefresh : List Event :=
  [.section_ .startStored, .section_ (.unlockRun {}), .request (.refresh 0 []), .section_ .runEnds,
    .loop (.readLists oneLine), .section_ .lockRun, .section_ (.unlockRun {}),
    .section_ (.afterRefresh 0 oneLine), .section_ (.unlock 0 {}), .loop (.readLists oneLine)]

omit [External] in
theorem late_refresh_leaves_switch :
    ∃ s, run (@step spelledIDs) (init guarded) lateRefresh = some s ∧
      (∀ e ∈ lateRefresh, e.routesOk = true) ∧ s.main = .returned ∧ s.Quiet ∧ s.loop = none ∧
      s.ksOn = true ∧ s.kernel.killSwitch = true := by
  refine ⟨_, rfl, by decide, rfl, fun i => ?_, rfl, rfl, rfl⟩
  cases i <;> rfl

end Ghostlane.Cli.Daemon
