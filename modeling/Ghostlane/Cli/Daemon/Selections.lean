import Ghostlane.Cli.Daemon.KillSwitch

/-!
# Ghostlane.Cli.Daemon.Selections

The stored selection and the running one. `connect` stores its selection under
`mu`, saves the config, and starts the selection under `connectMu` later still;
`disconnect` forgets both in one section. What ties the two together is a debt:
while they differ, some connect on its way stored what is stored and has still
to start it (`OwedBy`), or a section is under way.

The debt can be lost in two ways, and the source has a place for each: a start
that comes late, after another connect or a disconnect has replaced what it
stored, and a save that fails, after which the connect starts nothing. Runs
without these two (`Uncrossed`) keep the selections together.
-/

namespace Ghostlane.Cli

open Ghostlane.Lib

/-- The selection a connect, or a section, has still to start. -/
def Flight.connects : Flight → Option Selection
  | saving _ (.connect sel) | start sel | starting sel => some sel
  | _ => none

def Flight.holdsConnectMu : Flight → Bool
  | starting _ | stopping => true
  | _ => false

def Main.holdsConnectMu : Main → Bool
  | startingStored _ | stopping => true
  | _ => false

/-- What is no request owes no start and is in no section. -/
theorem Flight.of_isRequest {f : Flight} (h : f.isRequest = false) :
    f.connects = none ∧ f.holdsConnectMu = false := by
  unfold isRequest at h
  split at h <;> simp_all [connects, holdsConnectMu]

namespace Daemon

/-! ### `connectMu` excludes -/

/-- Whoever is inside a section under `connectMu` is there alone. -/
structure Mutex (s : Daemon) : Prop where
  main : s.main.holdsConnectMu = true → s.connectMu = true ∧
    ∀ i, (s.flights i).holdsConnectMu = false
  flight : ∀ i, (s.flights i).holdsConnectMu = true →
    s.connectMu = true ∧ ∀ j, (s.flights j).holdsConnectMu = true → j = i
  held : s.connectMu = true → s.main.holdsConnectMu = true ∨
    ∃ i, (s.flights i).holdsConnectMu = true

theorem Mutex.of_eq {s s' : Daemon} (h : Mutex s)
    (hmain : s'.main.holdsConnectMu = s.main.holdsConnectMu) (hmu : s'.connectMu = s.connectMu)
    (hfl : ∀ i, (s'.flights i).holdsConnectMu = (s.flights i).holdsConnectMu) : Mutex s' where
  main := by
    simp only [hmain, hmu, hfl]
    exact h.main
  flight := by
    simp only [hmu, hfl]
    exact h.flight
  held := by
    simp only [hmain, hmu, hfl]
    exact h.held

/-- Nobody is inside a section while `connectMu` is free. -/
theorem Mutex.free {s : Daemon} (h : Mutex s) (hmu : s.connectMu = false) :
    s.main.holdsConnectMu = false ∧ ∀ i, (s.flights i).holdsConnectMu = false := by
  refine ⟨?_, fun i => ?_⟩
  · rw [← Bool.not_eq_true]
    intro hm
    exact absurd (h.main hm).1 (by simp [hmu])
  · rw [← Bool.not_eq_true]
    intro hi
    exact absurd (h.flight i hi).1 (by simp [hmu])

/-- A flight changes from and to points outside the sections. -/
theorem holdsConnectMu_set {s : Daemon} {i : Nat} {f : Flight}
    (hi : (s.flights i).holdsConnectMu = f.holdsConnectMu) (j : Nat) :
    ((s.set i f).flights j).holdsConnectMu = (s.flights j).holdsConnectMu := by
  by_cases hj : j = i
  · subst hj
    rw [set_flights_self, hi]
  · rw [set_flights_of_ne s hj]

/-- A request enters a section. -/
theorem Mutex.enters {s s' : Daemon} (h : Mutex s) {i : Nat} {f : Flight}
    (hmu : s.connectMu = false) (hf : f.holdsConnectMu = true) (hmu' : s'.connectMu = true)
    (hmain : s'.main = s.main) (hfl : s'.flights = Function.update s.flights i f) : Mutex s' := by
  obtain ⟨hm, hfree⟩ := h.free hmu
  have honly : ∀ j, (s'.flights j).holdsConnectMu = true → j = i := by
    intro j hj
    by_contra hne
    rw [hfl, Function.update_of_ne hne, hfree j] at hj
    cases hj
  refine ⟨fun hm' => ?_, fun j hj => ⟨hmu', fun k hk => ?_⟩, fun _ => .inr ⟨i, ?_⟩⟩
  · rw [hmain, hm] at hm'
    cases hm'
  · rw [honly j hj, honly k hk]
  · rw [hfl, Function.update_self, hf]

/-- A request leaves its section. -/
theorem Mutex.leaves {s s' : Daemon} (h : Mutex s) {i : Nat} {f : Flight}
    (hi : (s.flights i).holdsConnectMu = true) (hf : f.holdsConnectMu = false)
    (hmu' : s'.connectMu = false) (hmain : s'.main = s.main)
    (hfl : s'.flights = Function.update s.flights i f) : Mutex s' := by
  have hout : s.main.holdsConnectMu = false := by
    rw [← Bool.not_eq_true]
    intro hm
    exact absurd hi (by simp [(h.main hm).2 i])
  have hnone : ∀ j, (s'.flights j).holdsConnectMu = false := by
    intro j
    rw [hfl]
    by_cases hj : j = i
    · rw [hj, Function.update_self, hf]
    · rw [Function.update_of_ne hj, ← Bool.not_eq_true]
      exact fun hj' => hj ((h.flight i hi).2 j hj')
  refine ⟨fun hm => ?_, fun j hj => ?_, fun hmu => ?_⟩
  · rw [hmain, hout] at hm
    cases hm
  · rw [hnone j] at hj
    cases hj
  · rw [hmu'] at hmu
    cases hmu

/-- `Run` enters or leaves a section. -/
theorem Mutex.run {s s' : Daemon} (hfree : ∀ i, (s.flights i).holdsConnectMu = false)
    (hmain : s'.main.holdsConnectMu = s'.connectMu) (hfl : s'.flights = s.flights) : Mutex s' := by
  refine ⟨fun hm => ⟨hmain ▸ hm, fun i => hfl ▸ hfree i⟩, fun i hi => ?_, fun hmu => .inl ?_⟩
  · rw [hfl, hfree i] at hi
    cases hi
  · rw [hmain, hmu]

theorem childDone_holdsConnectMu (s : Daemon) (parent j : Nat) :
    ((s.childDone parent).flights j).holdsConnectMu = (s.flights j).holdsConnectMu := by
  unfold childDone
  split
  · rename_i hp
    exact holdsConnectMu_set (by rw [hp]; rfl) j
  · rfl

/-- `fetchInto` returns outside every section. -/
theorem fetchReturns_holdsConnectMu {s : Daemon} {i : Nat}
    (hi : (s.flights i).holdsConnectMu = false) (caller : Caller) (j : Nat) :
    ((s.fetchReturns i caller).flights j).holdsConnectMu = (s.flights j).holdsConnectMu := by
  cases caller with
  | add => exact holdsConnectMu_set hi j
  | refresh parent => exact (childDone_holdsConnectMu _ _ _).trans (holdsConnectMu_set hi j)
  | reader => exact holdsConnectMu_set hi j

theorem fetchFails_holdsConnectMu {s : Daemon} {i : Nat}
    (hi : (s.flights i).holdsConnectMu = false) (url : Text) (caller : Caller) (j : Nat) :
    ((s.fetchFails i url caller).flights j).holdsConnectMu = (s.flights j).holdsConnectMu := by
  cases caller with
  | add => exact holdsConnectMu_set hi j
  | refresh parent => exact (childDone_holdsConnectMu _ _ _).trans (holdsConnectMu_set hi j)
  | reader => exact holdsConnectMu_set hi j

section

variable [External]

/-- No request moves into a section, or out of one. -/
theorem RequestMove.holdsConnectMu {s s' : Daemon} {e : RequestEvent} (h : RequestMove s e s')
    (j : Nat) : (s'.flights j).holdsConnectMu = (s.flights j).holdsConnectMu := by
  cases h with
  | addRefused | inlineHeld | removesNone | panics => rfl
  | removed hi _ hf =>
      refine holdsConnectMu_set (s := { s with cfg := _ }) ?_ j
      rw [hi, hf]
      split <;> rfl
  | added hi | inlineAdded hi | noted hi | rolledBack hi =>
      exact holdsConnectMu_set (s := { s with cfg := _ }) (by rw [hi]; rfl) j
  | disconnects hi | refreshes hi | reads hi | answered hi | cloned hi =>
      exact holdsConnectMu_set (by rw [hi]; rfl) j
  | @spawns i k url due n hi hk =>
      refine (holdsConnectMu_set ?_ j).trans (holdsConnectMu_set (by rw [hi]; rfl) j)
      rw [holdsConnectMu_set (by rw [hi]; rfl), hk]
      rfl
  | fails hi => exact fetchFails_holdsConnectMu (by rw [hi]; rfl) _ _ j
  | @saved i ok clone after hi =>
      have hi' : ((s.write clone ok).flights i).holdsConnectMu = false := by
        rw [show (s.write clone ok).flights i = _ from hi]
        rfl
      cases after with
      | reply => exact holdsConnectMu_set hi' j
      | connect sel =>
          refine holdsConnectMu_set (s := s.write clone ok) (hi'.trans ?_) j
          cases ok <;> rfl
      | fetchInto caller => exact fetchReturns_holdsConnectMu hi' caller j

theorem Mutex.step {s s' : Daemon} {e : Event} (h : Mutex s) (hstep : s.step e = some s') :
    Mutex s' := by
  cases step_move hstep with
  | request hm => exact h.of_eq (by rw [hm.frame.main]) hm.frame.connectMu hm.holdsConnectMu
  | section_ hm =>
      cases hm with
      | refused => exact h
      | checked hi => exact h.of_eq rfl rfl (holdsConnectMu_set (by rw [hi]; rfl))
      | stores hi =>
          exact h.of_eq rfl rfl
            (holdsConnectMu_set (s := { s with cfg := _ }) (by rw [hi]; rfl))
      | locksStart hmu hi => exact h.enters hmu rfl rfl rfl rfl
      | locksStop hmu hi => exact h.enters hmu rfl rfl rfl rfl
      | refreshStarts hmu hi => exact h.enters hmu rfl rfl rfl rfl
      | waited => exact h.of_eq rfl rfl fun _ => rfl
      | @starts i a sel hloop hi =>
          obtain ⟨_, _, _, _, heq⟩ := startConnectLocked_eq s sel a
          exact h.leaves (by rw [hi]; rfl) rfl rfl (by rw [heq]; rfl) (by rw [heq]; rfl)
      | @stops i a hloop hi =>
          obtain ⟨_, _, _, _, heq⟩ := stopAll_eq s true a
          exact h.leaves (by rw [hi]; rfl) rfl rfl (by rw [heq]; rfl) (by rw [heq]; rfl)
      | refreshLeaves hmu hi => exact h.of_eq rfl rfl (holdsConnectMu_set (by rw [hi]; rfl))
      | storedStarts hmu hmain => exact .run (h.free hmu).2 rfl rfl
      | storedLeaves hmu hmain => exact .run (h.free hmu).2 (by rw [hmu]; rfl) rfl
      | runEnds => exact h.of_eq rfl rfl fun _ => rfl
      | locksRun hmu => exact .run (h.free hmu).2 rfl rfl
      | @serves a sel hloop hmain =>
          obtain ⟨_, _, _, _, heq⟩ := startConnectLocked_eq s sel a
          exact .run (h.main (by rw [hmain]; rfl)).2 rfl (by rw [heq])
      | @returns a hloop hmain =>
          obtain ⟨_, _, _, _, heq⟩ := stopAll_eq s false a
          exact .run (h.main (by rw [hmain]; rfl)).2 rfl (by rw [heq])
  | loop hl hm =>
      exact h.of_eq (by rw [hm.frame.main]) hm.frame.connectMu (fun i => by rw [hm.frame.flights])
  | syncs => exact h.of_eq rfl rfl fun _ => rfl
  | unread => exact h

end

/-! ### The debt of a connect -/

/-- What the person asked for, as the config has it. -/
def stored (s : Daemon) : Option (Text × Text × Mode × Bool) := s.cfg.selection.map Selection.asked

/-- What the person asked for, as it runs. -/
def running (s : Daemon) : Option (Text × Text × Mode × Bool) := s.sel.map Selection.asked

/-- The flight has still to start what is stored. -/
def OwedBy (s : Daemon) (i : Nat) : Prop :=
  ∃ sel, (s.flights i).connects = some sel ∧ s.stored = some sel.asked

/-- The selections agree, or a connect will make them, or a section is under way. -/
def Settled (s : Daemon) : Prop :=
  s.stored = s.running ∨ (∃ i, s.OwedBy i) ∨ s.connectMu = true

/-- The steps that lose no debt. A connect whose save failed starts nothing: what
it stored has by then been replaced, runs already, or is another's to start. A
start comes while its selection is the stored one, or that is another's to start. -/
def Uncrossed (s : Daemon) : Event → Prop
  | .request (.save i ok) =>
      ∀ clone sel, s.flights i = .saving clone (.connect sel) → ok = true ∨
        s.stored ≠ some sel.asked ∨ (s.main = .serving ∧ s.stored = s.running) ∨ ∃ j ≠ i, s.OwedBy j
  | .section_ (.unlock i _) =>
      ∀ sel, s.flights i = .starting sel → s.stored = some sel.asked ∨ ∃ j ≠ i, s.OwedBy j
  | _ => True

/-- What holds at each point of `Run`. Until `startStored`, nothing may run yet. -/
def SelectionsAt (s : Daemon) : Main → Prop
  | .booting => s.Settled ∨ (s.sel = none ∧ s.loop = none)
  | .startingStored sel => s.stored = some sel.asked ∨ ∃ i, s.OwedBy i
  | .serving => s.Settled
  | .stopping | .returned => True

structure SelectionsInv (s : Daemon) : Prop where
  mutex : s.Mutex
  selections : s.SelectionsAt s.main

theorem OwedBy.of_eq {s s' : Daemon} {i : Nat} (h : s.OwedBy i) (hstored : s'.stored = s.stored)
    (hfl : (s'.flights i).connects = (s.flights i).connects) : s'.OwedBy i := by
  obtain ⟨sel, hsel, heq⟩ := h
  exact ⟨sel, hfl.trans hsel, hstored.trans heq⟩

/-- A flight that owes nothing, or goes on owing the same, moves. -/
theorem OwedBy.set {s s' : Daemon} {i j : Nat} {f : Flight} (h : s.OwedBy j)
    (hstored : s'.stored = s.stored) (hfl : s'.flights = Function.update s.flights i f)
    (hi : (s.flights i).connects = none ∨ f.connects = (s.flights i).connects) : s'.OwedBy j := by
  refine h.of_eq hstored ?_
  rw [hfl]
  by_cases hj : j = i
  · subst hj
    rw [Function.update_self]
    rcases hi with hi | hi
    · obtain ⟨sel, hsel, -⟩ := h
      rw [hi] at hsel
      cases hsel
    · exact hi
  · rw [Function.update_of_ne hj]

/-- A step that leaves both selections alone and settles no debt. -/
theorem SelectionsAt.of_eq {s s' : Daemon} {m : Main} (h : s.SelectionsAt m)
    (hstored : s'.stored = s.stored) (hsel : s'.sel = s.sel)
    (hloop : s.loop = none → s'.loop = none ∨ s'.connectMu = true)
    (hmu : s.connectMu = true → s'.connectMu = true)
    (howed : (∃ i, s.OwedBy i) → (∃ i, s'.OwedBy i) ∨ (m = .serving ∧ s.stored = s.running)) :
    s'.SelectionsAt m := by
  have hrun : s'.running = s.running := by simp only [running, hsel]
  have hsettled : s.Settled → s'.Settled := by
    rintro (hag | how | hmu')
    · exact .inl (by rw [hstored, hrun, hag])
    · rcases howed how with how | ⟨-, hag⟩
      · exact .inr (.inl how)
      · exact .inl (by rw [hstored, hrun, hag])
    · exact .inr (.inr (hmu hmu'))
  cases m with
  | booting =>
      rcases h with hs | ⟨hs, hl⟩
      · exact .inl (hsettled hs)
      · rcases hloop hl with hloop | hmu'
        · exact .inr ⟨hsel.trans hs, hloop⟩
        · exact .inl (.inr (.inr hmu'))
  | startingStored sel =>
      rcases h with hst | how
      · exact .inl (hstored.trans hst)
      · rcases howed how with how | ⟨hm, -⟩
        · exact .inr how
        · cases hm
  | serving => exact hsettled h
  | stopping => trivial
  | returned => trivial

/-- A started selection is the one that runs; a debt of another stands. -/
theorem settled_of_starts {s s' : Daemon} {sel : Selection} (hsel : s'.sel = some sel)
    (hstored : s'.stored = s.stored) (h : s.stored = some sel.asked ∨ ∃ j, s'.OwedBy j) :
    s'.Settled := by
  rcases h with hag | how
  · exact .inl (by simp only [hstored, hag, running, hsel, Option.map_some])
  · exact .inr (.inl how)

/-- A section that moves the flight `i` and neither selection. -/
theorem SelectionsInv.moves {s s' : Daemon} (h : SelectionsInv s) {i : Nat} {f : Flight}
    (hstored : s'.stored = s.stored) (hsel : s'.sel = s.sel)
    (hloop : s'.loop = s.loop ∨ s'.connectMu = true)
    (hmu : s.connectMu = true → s'.connectMu = true) (hmain : s'.main = s.main)
    (hfl : s'.flights = Function.update s.flights i f)
    (hi : (s.flights i).connects = none ∨ f.connects = (s.flights i).connects) :
    s'.SelectionsAt s'.main := by
  rw [hmain]
  exact h.selections.of_eq hstored hsel (fun hl => hloop.imp_left (·.trans hl)) hmu
    (fun ⟨j, hj⟩ => .inl ⟨j, hj.set hstored hfl hi⟩)

/-- `startStored` finds a loop, or nothing stored. -/
theorem settled_of_storedLeaves {s : Daemon} (h : s.Settled ∨ (s.sel = none ∧ s.loop = none))
    (hnone : s.storedStarts = none) : s.Settled := by
  rcases h with h | ⟨hsel, hloop⟩
  · exact h
  · refine .inl ?_
    simp only [Daemon.storedStarts, hloop, Option.isSome_none, Bool.false_eq_true,
      if_false] at hnone
    simp only [stored, running, hnone, hsel]

variable [External]

theorem RequestMove.owed {s s' : Daemon} {e : RequestEvent} (hm : RequestMove s e s')
    (hC : Uncrossed s (.request e)) (h : ∃ i, s.OwedBy i) :
    (∃ i, s'.OwedBy i) ∨ (s.main = .serving ∧ s.stored = s.running) := by
  have hstored : s'.stored = s.stored := by simp only [stored, hm.frame.selection]
  have hother : ∀ {j}, s.OwedBy j → j ≠ e.who → s'.OwedBy j := by
    rintro j ⟨sel, hsel, heq⟩ hne
    have hshared : (s.flights j).isShared = false := by
      cases hf : s.flights j <;> simp_all [Flight.connects, Flight.isShared]
    exact OwedBy.of_eq ⟨sel, hsel, heq⟩ hstored (by rw [hm.flights hne hshared])
  obtain ⟨j, hj⟩ := h
  by_cases hwho : j = e.who
  · obtain ⟨sel, hsel, heq⟩ := hj
    subst hwho
    cases hm with
    | @saved i ok clone after hi =>
        cases after with
        | connect sel' =>
            obtain rfl : sel' = sel := by
              rw [show s.flights (RequestEvent.save i ok).who = _ from hi] at hsel
              exact Option.some.inj hsel
            rcases hC clone sel' hi with hok | hne | hag | ⟨k, hk, howed⟩
            · refine .inl ⟨i, sel', ?_, heq⟩
              simp only [Daemon.saved, hok, if_true, set_flights_self]
              rfl
            · exact absurd heq hne
            · exact .inr hag
            · exact .inl ⟨k, hother howed hk⟩
        | _ => simp_all [RequestEvent.who, Flight.connects]
    | _ => simp_all [RequestEvent.who, Flight.connects]
  · exact .inl ⟨j, hother hj hwho⟩

theorem SectionMove.selections {s s' : Daemon} {e : SectionEvent} (h : SelectionsInv s)
    (hC : Uncrossed s (.section_ e)) (hm : SectionMove s e s') : s'.SelectionsAt s'.main := by
  have hinv := h.selections
  cases hm with
  | refused => exact hinv
  | checked hi => exact h.moves rfl rfl (.inl rfl) id rfl rfl (.inl (by rw [hi]; rfl))
  | @stores i sel cfg hi hcfg =>
      subst hcfg
      have howed : ∃ j, OwedBy ({ s with cfg := { s.cfg with selection := some sel } }.set i
          (.saving { s.cfg with selection := some sel } (.connect sel))) j :=
        ⟨i, sel, by rw [set_flights_self]; rfl, rfl⟩
      rw [set_main]
      cases hmain : s.main with
      | booting => exact .inl (.inr (.inl howed))
      | startingStored => exact .inr howed
      | serving => exact .inr (.inl howed)
      | stopping => trivial
      | returned => trivial
  | locksStart hmu hi =>
      exact h.moves rfl rfl (.inr rfl) (fun _ => rfl) rfl rfl (.inr (by rw [hi]; rfl))
  | locksStop hmu hi =>
      exact h.moves rfl rfl (.inr rfl) (fun _ => rfl) rfl rfl (.inl (by rw [hi]; rfl))
  | refreshStarts hmu hi =>
      exact h.moves rfl rfl (.inr rfl) (fun _ => rfl) rfl rfl (.inl (by rw [hi]; rfl))
  | refreshLeaves hmu hi =>
      exact h.moves rfl rfl (.inl rfl) id rfl rfl (.inl (by rw [hi]; rfl))
  | waited hmu hloop =>
      cases hmain : s.main with
      | startingStored sel =>
          rw [hmain] at hinv
          exact hinv
      | booting => exact .inl (.inr (.inr hmu))
      | serving => exact .inr (.inr hmu)
      | stopping => trivial
      | returned => trivial
  | @starts i a sel hloop hi =>
      obtain ⟨loop, ksOn, ksWatched, kernel, heq⟩ := startConnectLocked_eq s sel a
      rw [heq]
      have hsettled : Settled ({ s with
          sel := some sel, loop, ksOn, ksWatched, kernel, connectMu := false }.set i .idle) := by
        refine settled_of_starts (s := s) rfl rfl ?_
        rcases hC sel hi with hag | ⟨j, hj, howed⟩
        · exact .inl hag
        · exact .inr ⟨j, howed.of_eq rfl (by rw [set_flights_of_ne _ hj])⟩
      cases hmain : s.main with
      | booting => exact .inl hsettled
      | startingStored =>
          have hout := (h.mutex.main (by rw [hmain]; rfl)).2 i
          rw [hi] at hout
          cases hout
      | serving => exact hsettled
      | stopping => trivial
      | returned => trivial
  | @stops i a hloop hi =>
      have hnone : (s.stopAll true a).stored = (s.stopAll true a).running := by
        rw [running, stopAll_sel]
        rfl
      have hsettled : Settled ({ s.stopAll true a with connectMu := false }.set i .cloning) :=
        .inl hnone
      rw [set_main, show Daemon.main { s.stopAll true a with connectMu := false } = _ from
        stopAll_main s true a]
      cases hmain : s.main with
      | booting => exact .inl hsettled
      | startingStored =>
          have hout := (h.mutex.main (by rw [hmain]; rfl)).2 i
          rw [hi] at hout
          cases hout
      | serving => exact hsettled
      | stopping => trivial
      | returned => trivial
  | @storedStarts sel hmu hmain hsel =>
      refine .inl ?_
      unfold Daemon.storedStarts at hsel
      split at hsel
      · cases hsel
      · simp only [stored, hsel, Option.map_some]
  | storedLeaves hmu hmain hsel =>
      rw [hmain] at hinv
      exact (settled_of_storedLeaves hinv hsel :)
  | runEnds => exact hinv
  | locksRun => trivial
  | @serves a sel hloop hmain =>
      obtain ⟨loop, ksOn, ksWatched, kernel, heq⟩ := startConnectLocked_eq s sel a
      rw [heq]
      rw [hmain] at hinv
      exact settled_of_starts (s := s) rfl rfl hinv
  | returns => trivial

omit [External] in
theorem LoopMove.stored {s s' : Daemon} {l : Loop} {e : LoopEvent} (hm : LoopMove s l e s') :
    s'.stored = s.stored := by
  cases hm.config with
  | keeps hcfg => simp only [Daemon.stored, hcfg]
  | remembers sel hcfg => simp only [Daemon.stored, hcfg, Config.rememberLine_asked]
  | saves _ hcfg => simp only [Daemon.stored, hcfg]

theorem SelectionsInv.step {s s' : Daemon} {e : Event} (h : SelectionsInv s) (hC : Uncrossed s e)
    (hstep : s.step e = some s') : SelectionsInv s' := by
  refine ⟨h.mutex.step hstep, ?_⟩
  cases step_move hstep with
  | request hm =>
      have hf := hm.frame
      rw [hf.main]
      exact h.selections.of_eq (by simp only [stored, hf.selection]) hf.sel
        (fun hl => .inl (hf.loop.trans hl))
        (fun hmu => hf.connectMu.trans hmu) (fun howed => hm.owed hC howed)
  | section_ hm => exact hm.selections h hC
  | @loop e s' l hl hm =>
      have hf := hm.frame
      rw [hf.main]
      refine h.selections.of_eq hm.stored hf.sel (fun hnone => ?_)
        (fun hmu => hf.connectMu.trans hmu)
        (fun ⟨i, hi⟩ => .inl ⟨i, hi.of_eq hm.stored (by rw [hf.flights])⟩)
      rw [hl] at hnone
      cases hnone
  | syncs => exact h.selections
  | unread => exact h.selections

omit [External] in
theorem selectionsInv_init (cfg : Config) : SelectionsInv (init cfg) where
  mutex := ⟨fun h => (nomatch h), fun _ h => (nomatch h), fun h => (nomatch h)⟩
  selections := .inr ⟨rfl, rfl⟩

/-- **The stored selection and the running one agree**, in every state of a
serving daemon with no request in flight, along every run that loses no debt. -/
theorem stored_and_running_agree {cfg : Config} {es : List Event} {s : Daemon}
    (hC : AllSteps step Uncrossed (init cfg) es) (hrun : run step (init cfg) es = some s)
    (hserving : s.main = .serving) (hquiet : s.Quiet) :
    s.cfg.selection.map Selection.asked = s.sel.map Selection.asked := by
  have h : SelectionsInv s := run_inv (fun s e s' hs hc hstep => hs.step hc hstep)
    (selectionsInv_init cfg) hC hrun
  have hsettled := h.selections
  rw [hserving] at hsettled
  rcases hsettled with hag | ⟨i, sel, hi, -⟩ | hmu
  · exact hag
  · rw [(Flight.of_isRequest (hquiet i)).1] at hi
    cases hi
  · rcases h.mutex.held hmu with hmain | ⟨i, hi⟩
    · rw [hserving] at hmain
      cases hmain
    · rw [(Flight.of_isRequest (hquiet i)).2] at hi
      cases hi

/-- One list and nothing selected. -/
def unselected : Config := { guarded with selection := none }

/-- Two connects overlap: both have stored before either starts, and they start in
the order they stored in. -/
def overlappingConnects : List Event :=
  [.section_ .startStored,
    .section_ (.connect 0 { selector := txt "1" } true oneLine),
    .section_ (.connect 1 { selector := txt "Paris" } true oneLine),
    .section_ (.storeSelection 0), .section_ (.storeSelection 1),
    .request (.save 0 true), .request (.save 1 true),
    .section_ (.lock 0), .section_ (.unlock 0 {}),
    .section_ (.lock 1), .loop (.readLists oneLine), .section_ (.unlock 1 {})]

omit [External] in
theorem stored_and_running_agree_connect :
    ∃ s, run (@step spelledIDs) (init unselected) overlappingConnects = some s ∧
      s.sel.map Selection.selector = some (txt "Paris") ∧
      s.cfg.selection.map Selection.asked = s.sel.map Selection.asked := by
  refine ⟨_, rfl, rfl, ?_⟩
  refine @stored_and_running_agree spelledIDs unselected overlappingConnects _ ?_ rfl rfl
    (fun i => ?_)
  · refine allSteps_cons rfl trivial <| allSteps_cons rfl trivial <| allSteps_cons rfl trivial <|
      allSteps_cons rfl trivial <| allSteps_cons rfl trivial <|
      allSteps_cons rfl (fun _ _ _ => .inl rfl) <| allSteps_cons rfl (fun _ _ _ => .inl rfl) <|
      allSteps_cons rfl trivial <| allSteps_cons rfl (fun sel hsel => .inr ?_) <|
      allSteps_cons rfl trivial <| allSteps_cons rfl trivial <|
      allSteps_cons rfl (fun sel hsel => .inl ?_) trivial
    · -- the first starts while the second has still to start what is stored
      exact ⟨1, by decide, _, rfl, rfl⟩
    · cases hsel
      rfl
  · match i with
    | 0 => rfl
    | 1 => rfl
    | i + 2 => rfl

/-- Two connects cross: the second stores after the first and starts before it. -/
def crossedConnects : List Event :=
  [.section_ .startStored,
    .section_ (.connect 0 { selector := txt "1" } true oneLine),
    .section_ (.connect 1 { selector := txt "Paris" } true oneLine),
    .section_ (.storeSelection 0), .section_ (.storeSelection 1),
    .request (.save 0 true), .request (.save 1 true),
    .section_ (.lock 1), .section_ (.unlock 1 {}),
    .section_ (.lock 0), .loop (.readLists oneLine), .section_ (.unlock 0 {})]

omit [External] in
/-- The line of the first runs, and the config says the second. -/
theorem crossed_connects_disagree :
    ∃ s, run (@step spelledIDs) (init unselected) crossedConnects = some s ∧
      s.main = .serving ∧ s.Quiet ∧
      s.cfg.selection.map Selection.selector = some (txt "Paris") ∧
      s.sel.map Selection.selector = some (txt "1") := by
  refine ⟨_, rfl, rfl, fun i => ?_, rfl, rfl⟩
  match i with
  | 0 => rfl
  | 1 => rfl
  | i + 2 => rfl

end Daemon

end Ghostlane.Cli
