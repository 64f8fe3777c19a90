import Ghostlane.Lib.Runs
import Mathlib.Data.List.Nodup

/-!
# Ghostlane.Desktop.VpnManager

Connect and disconnect on the desktop (`DesktopVpnManager`). Each call moves
`generation` and launches a job; the jobs take the mutex one at a time, in no
particular order. A start's job compares its own generation with the current one where
it takes the mutex and again between its parts, so a start that a later call superseded
leaves off. A stop's job compares nothing.

A start is taken to reach its end unless it is superseded, so what can go wrong with a
core, a tunnel or a check is left out, and with it the watchers and the line that is
brought back behind a tun. A session is then known by the request whose line it runs
(`lineGeneration`).
-/

namespace Ghostlane.Desktop

open Ghostlane.Lib

inductive Call where
  | startVpn
  | stopVpn
  deriving DecidableEq, Repr

/-- A launched job that waits for the mutex. A start's job has the generation of its call
(`requestGeneration`); a stop's has none in the program, and carries its call's here so that calls
can be told apart. -/
structure Job where
  call : Call
  generation : Nat
  deriving DecidableEq, Repr

/-- Where a start's job is, between two comparisons. -/
inductive Phase where
  /-- Something runs: a line behind the tun is changed, or the session torn down. -/
  | restarting
  /-- It was torn down. -/
  | tornDown
  /-- Inside `startDesktopMode`. -/
  | starting
  deriving DecidableEq, Repr

structure Manager where
  generation : Nat := 0
  jobs : List Job := []
  /-- The start whose job has the mutex. -/
  holder : Option (Nat × Phase) := none
  /-- The request whose line runs. -/
  session : Option Nat := none
  /-- What was asked for last. -/
  lastCall : Option Call := none
  /-- The latest call whose job has done what it was launched for. -/
  served : Nat := 0
  deriving DecidableEq, Repr

inductive Event where
  | call (c : Call)
  /-- A stop's job takes the mutex. -/
  | stopJob (generation : Nat)
  /-- A start's job takes the mutex; `leftover` says that a status or a process asks for a restart
  where there is no session. -/
  | startJob (generation : Nat) (leftover : Bool)
  /-- `changeLineBehindTun`: the line of the request becomes the session's. -/
  | changeLine
  /-- The request was superseded while that was decided. -/
  | standAside
  /-- The change is a full restart. -/
  | tearDown
  /-- The comparison after the teardown. -/
  | resume
  /-- The last comparison of `startDesktopMode`, and what follows it. -/
  | finish
  deriving DecidableEq, Repr

namespace Manager

/-- One step; none where the event is not enabled. -/
def step (s : Manager) : Event → Option Manager
  | .call c =>
      some { s with
        generation := s.generation + 1
        jobs := s.jobs ++ [⟨c, s.generation + 1⟩]
        lastCall := some c }
  | .stopJob g =>
      if s.holder = none ∧ ⟨.stopVpn, g⟩ ∈ s.jobs then
        -- `stopDesktopMode(finalStatus = true)`, whatever was asked for since
        some { s with
          jobs := s.jobs.erase ⟨.stopVpn, g⟩
          session := none
          served := max s.served g }
      else none
  | .startJob g leftover =>
      if s.holder = none ∧ ⟨.startVpn, g⟩ ∈ s.jobs then
        let taken := { s with jobs := s.jobs.erase ⟨.startVpn, g⟩ }
        if g ≠ s.generation then some taken
        else some { taken with
          holder := some (g, if s.session.isSome || leftover then .restarting else .starting) }
      else none
  | .changeLine =>
      match s.holder with
      | some (g, .restarting) =>
          if g = s.generation ∧ s.session.isSome then
            some { s with holder := none, session := some g, served := max s.served g }
          else none
      | _ => none
  | .standAside =>
      match s.holder with
      | some (g, .restarting) => if g ≠ s.generation then some { s with holder := none } else none
      | _ => none
  | .tearDown =>
      match s.holder with
      | some (g, .restarting) =>
          if g = s.generation then some { s with holder := some (g, .tornDown), session := none }
          else none
      | _ => none
  | .resume =>
      match s.holder with
      | some (g, .tornDown) =>
          some { s with holder := if g ≠ s.generation then none else some (g, .starting) }
      | _ => none
  | .finish =>
      match s.holder with
      | some (g, .starting) =>
          if g = s.generation then
            some { s with holder := none, session := some g, served := max s.served g }
          -- "Desktop start superseded": what was started is stopped again
          else some { s with holder := none, session := none }
      | _ => none

/-- The call whose job moves. -/
def actor (s : Manager) : Event → Option Nat
  | .call _ => none
  | .stopJob g => some g
  | .startJob g _ => some g
  | .changeLine | .standAside | .tearDown | .resume | .finish => s.holder.map (·.1)

/-- The step is no job that takes down, or replaces, or brings up against, what a later call's
job did. -/
def KeepsLater (s : Manager) (e : Event) : Prop :=
  ∀ s' g, s.step e = some s' → s'.session ≠ s.session → s.actor e = some g → s.served ≤ g

/-- Every job has ended. -/
def Idle (s : Manager) : Prop := s.jobs = [] ∧ s.holder = none

/-- A stop's job does not take the mutex under a session that a later call started. -/
def notOvertaken (s : Manager) : Event → Bool
  | .stopJob g => s.session.all (· < g)
  | _ => true

/-! ### The state between two steps -/

/-- What the last call asked for has been done, and nothing holds the mutex. -/
structure Settled (s : Manager) (c : Call) : Prop where
  earlier : ∀ j ∈ s.jobs, j.generation < s.generation
  free : s.holder = none
  outcome : s.session = match c with
    | .startVpn => some s.generation
    | .stopVpn => none

/-- What the last call asked for is waiting, under way or done. -/
inductive Pending (s : Manager) : Prop where
  | none (hcall : s.lastCall = none) (hjobs : s.jobs = []) (hfree : s.holder = none)
      (hsession : s.session = none)
  | waiting (c : Call) (hcall : s.lastCall = some c) (hjob : ⟨c, s.generation⟩ ∈ s.jobs)
  | running (p : Phase) (hcall : s.lastCall = some .startVpn)
      (hholder : s.holder = some (s.generation, p))
  | settled (c : Call) (hcall : s.lastCall = some c) (hdone : Settled s c)

structure Inv (s : Manager) : Prop where
  bounded : ∀ j ∈ s.jobs, j.generation ≤ s.generation
  distinct : (s.jobs.map (·.generation)).Nodup
  served_le : s.served ≤ s.generation
  /-- A session is the work of the latest call whose job did its work. -/
  line : ∀ line, s.session = some line → line = s.served
  held : ∀ g p, s.holder = some (g, p) →
    s.served ≤ g ∧ g ≤ s.generation ∧ ∀ j ∈ s.jobs, j.generation ≠ g
  pending : Pending s

theorem inv_fresh : Inv {} where
  bounded := fun j hj => by cases hj
  distinct := List.nodup_nil
  served_le := Nat.le_refl 0
  line := fun line h => by cases h
  held := fun g p h => by cases h
  pending := .none rfl rfl rfl rfl

section Step

variable {s s' : Manager}

theorem inv_call (h : Inv s) (c : Call) (hs : s.step (.call c) = some s') : Inv s' := by
  obtain rfl := Option.some.inj hs
  have hlt : ∀ j ∈ s.jobs, j.generation < s.generation + 1 := fun j hj => by
    have := h.bounded j hj
    omega
  refine ⟨?_, ?_, ?_, h.line, ?_, ?_⟩
  · intro j hj
    rcases List.mem_append.mp hj with hj | hj
    · exact Nat.le_of_lt (hlt j hj)
    · obtain rfl := List.mem_singleton.mp hj
      exact Nat.le_refl _
  · rw [List.map_append, List.nodup_append]
    refine ⟨h.distinct, List.nodup_singleton _, ?_⟩
    intro g hg g' hg' heq
    obtain ⟨j, hj, rfl⟩ := List.mem_map.mp hg
    have hj' := hlt j hj
    simp only [List.map_cons, List.map_nil, List.mem_singleton] at hg'
    omega
  · exact Nat.le_succ_of_le h.served_le
  · intro g p hp
    obtain ⟨hserved, hle, hjobs⟩ := h.held g p hp
    refine ⟨hserved, Nat.le_succ_of_le hle, ?_⟩
    intro j hj
    rcases List.mem_append.mp hj with hj | hj
    · exact hjobs j hj
    · rw [List.mem_singleton.mp hj]
      show s.generation + 1 ≠ g
      omega
  · exact .waiting c rfl (List.mem_append_right _ (List.mem_singleton_self _))

/-- Among jobs of distinct calls, one is left out by taking it. -/
theorem ne_of_mem_erase (h : Inv s) {j k : Job} (hj : j ∈ s.jobs) (hk : k ∈ s.jobs.erase j) :
    k.generation ≠ j.generation := by
  intro heq
  have hsame := List.inj_on_of_nodup_map h.distinct (List.mem_of_mem_erase hk) hj heq
  rw [hsame] at hk
  exact (List.Nodup.not_mem_erase (h.distinct.of_map _)) hk

theorem inv_stopJob (h : Inv s) {g : Nat} (hc : s.notOvertaken (.stopJob g) = true)
    (hs : s.step (.stopJob g) = some s') : Inv s' := by
  simp only [step] at hs
  split at hs
  · rename_i hguard
    obtain ⟨hfree, hjob⟩ := hguard
    obtain rfl := Option.some.inj hs
    have hbound : g ≤ s.generation := h.bounded _ hjob
    refine ⟨?_, ?_, ?_, ?_, ?_, ?_⟩
    · exact fun j hj => h.bounded j (List.mem_of_mem_erase hj)
    · exact h.distinct.sublist (List.erase_sublist.map _)
    · exact Nat.max_le.mpr ⟨h.served_le, hbound⟩
    · intro line hline
      cases hline
    · intro g' p hp
      rw [show s.holder = none from hfree] at hp
      cases hp
    · cases h.pending with
      | none hcall hjobs _ _ =>
          rw [hjobs] at hjob
          cases hjob
      | waiting c hcall hwaits =>
          by_cases hown : (⟨c, s.generation⟩ : Job) = ⟨.stopVpn, g⟩
          · obtain ⟨rfl, hg⟩ := Job.mk.inj hown
            refine .settled .stopVpn hcall ⟨?_, hfree, rfl⟩
            intro j hj
            have hle := h.bounded j (List.mem_of_mem_erase hj)
            have hne := ne_of_mem_erase h hjob hj
            show j.generation < s.generation
            simp only at hne
            omega
          · exact .waiting c hcall ((List.mem_erase_of_ne hown).mpr hwaits)
      | running p hcall hholder =>
          rw [hfree] at hholder
          cases hholder
      | settled c hcall hdone =>
          cases c with
          | startVpn =>
              -- the session is the last call's, which no stop here is later than
              have hup : s.session = some s.generation := hdone.outcome
              simp only [notOvertaken, hup, Option.all_some, decide_eq_true_eq] at hc
              omega
          | stopVpn =>
              exact .settled .stopVpn hcall
                ⟨fun j hj => hdone.earlier j (List.mem_of_mem_erase hj), hfree, rfl⟩
  · cases hs

theorem inv_startJob (h : Inv s) {g : Nat} {leftover : Bool}
    (hs : s.step (.startJob g leftover) = some s') : Inv s' := by
  simp only [step] at hs
  split at hs
  · rename_i hguard
    obtain ⟨hfree, hjob⟩ := hguard
    have hbounded : ∀ j ∈ s.jobs.erase ⟨.startVpn, g⟩, j.generation ≤ s.generation :=
      fun j hj => h.bounded j (List.mem_of_mem_erase hj)
    have hdistinct := h.distinct.sublist ((List.erase_sublist (a := (⟨.startVpn, g⟩ : Job))).map _)
    split at hs
    · rename_i hold
      obtain rfl := Option.some.inj hs
      refine ⟨hbounded, hdistinct, h.served_le, h.line, ?_, ?_⟩
      · intro g' p hp
        rw [show s.holder = none from hfree] at hp
        cases hp
      · cases h.pending with
        | none hcall hjobs _ _ =>
            rw [hjobs] at hjob
            cases hjob
        | waiting c hcall hwaits =>
            refine .waiting c hcall ((List.mem_erase_of_ne ?_).mpr hwaits)
            intro heq
            exact hold (Job.mk.inj heq).2.symm
        | running p hcall hholder => exact .running p hcall hholder
        | settled c hcall hdone =>
            exact .settled c hcall
              ⟨fun j hj => hdone.earlier j (List.mem_of_mem_erase hj), hfree, hdone.outcome⟩
    · rename_i hcurrent
      have hg : g = s.generation := not_ne_iff.mp hcurrent
      obtain rfl := Option.some.inj hs
      refine ⟨hbounded, hdistinct, h.served_le, h.line, ?_, ?_⟩
      · intro g' p hp
        have hg' : g = g' := (Prod.mk.inj (Option.some.inj hp)).1
        subst hg'
        refine ⟨?_, h.bounded _ hjob, fun j hj => ne_of_mem_erase h hjob hj⟩
        rw [hg]
        exact h.served_le
      · cases h.pending with
        | none hcall hjobs _ _ =>
            rw [hjobs] at hjob
            cases hjob
        | waiting c hcall hwaits =>
            have hsame := List.inj_on_of_nodup_map h.distinct hwaits hjob hg.symm
            obtain ⟨rfl, -⟩ := Job.mk.inj hsame
            exact .running _ hcall (by rw [hg])
        | running p hcall hholder =>
            rw [hfree] at hholder
            cases hholder
        | settled c hcall hdone =>
            have hlt := hdone.earlier _ hjob
            simp only at hlt
            omega
  · cases hs

/-- The start that has the mutex is the last call, or the last call waits for it. -/
theorem pending_held (h : Inv s) {g : Nat} {p : Phase} (hholder : s.holder = some (g, p)) :
    (g = s.generation ∧ s.lastCall = some .startVpn) ∨
      (g ≠ s.generation ∧ ∃ c, s.lastCall = some c ∧ ⟨c, s.generation⟩ ∈ s.jobs) := by
  cases h.pending with
  | none _ _ hfree _ =>
      rw [hfree] at hholder
      cases hholder
  | waiting c hcall hwaits =>
      refine .inr ⟨?_, c, hcall, hwaits⟩
      intro heq
      exact (h.held g p hholder).2.2 _ hwaits heq.symm
  | running p' hcall hholder' =>
      rw [hholder] at hholder'
      exact .inl ⟨(Prod.mk.inj (Option.some.inj hholder')).1, hcall⟩
  | settled c hcall hdone =>
      rw [hdone.free] at hholder
      cases hholder

section Holder

variable {g : Nat} {p : Phase} (h : Inv s) (hholder : s.holder = some (g, p))

include h hholder

/-- A start that is not superseded ends with its line as the session's. -/
theorem inv_done (hg : g = s.generation) :
    Inv { s with holder := none, session := some g, served := max s.served g } := by
  obtain ⟨hserved, hle, hjobs⟩ := h.held g p hholder
  have hmax : max s.served g = g := Nat.max_eq_right hserved
  rw [hmax]
  refine ⟨h.bounded, h.distinct, hle, ?_, ?_, ?_⟩
  · intro line hline
    exact (Option.some.inj hline).symm
  · intro g' p' hp
    cases hp
  · rcases pending_held h hholder with ⟨_, hcall⟩ | ⟨hne, _⟩
    · refine .settled .startVpn hcall ⟨?_, rfl, ?_⟩
      · intro j hj
        have hbound := h.bounded j hj
        have hother := hjobs j hj
        show j.generation < s.generation
        omega
      · show some g = some s.generation
        rw [hg]
    · exact absurd hg hne

/-- A superseded start lets the mutex go, with the session as it was or down. -/
theorem inv_leave (hg : g ≠ s.generation) {session : Option Nat}
    (hsession : session = s.session ∨ session = none) :
    Inv { s with holder := none, session := session } := by
  refine ⟨h.bounded, h.distinct, h.served_le, ?_, ?_, ?_⟩
  · intro line hline
    rcases hsession with rfl | rfl
    · exact h.line line hline
    · cases hline
  · intro g' p' hp
    cases hp
  · rcases pending_held h hholder with ⟨heq, _⟩ | ⟨_, c, hcall, hwaits⟩
    · exact absurd heq hg
    · exact .waiting c hcall hwaits

/-- A start goes on to its next part, with the session as it was or down. -/
theorem inv_goOn (p' : Phase) {session : Option Nat}
    (hsession : session = s.session ∨ session = none) :
    Inv { s with holder := some (g, p'), session := session } := by
  refine ⟨h.bounded, h.distinct, h.served_le, ?_, ?_, ?_⟩
  · intro line hline
    rcases hsession with rfl | rfl
    · exact h.line line hline
    · cases hline
  · intro g' p'' hp
    obtain ⟨rfl, rfl⟩ := Prod.mk.inj (Option.some.inj hp)
    exact h.held g p hholder
  · rcases pending_held h hholder with ⟨rfl, hcall⟩ | ⟨_, c, hcall, hwaits⟩
    · exact .running p' hcall rfl
    · exact .waiting c hcall hwaits

end Holder

/-- **One step.** Every step keeps the invariant, a stop's under its side condition. -/
theorem inv_step (e : Event) (h : Inv s) (hc : s.notOvertaken e = true) (hs : s.step e = some s') :
    Inv s' := by
  cases e with
  | call c => exact inv_call h c hs
  | stopJob g => exact inv_stopJob h hc hs
  | startJob g leftover => exact inv_startJob h hs
  | changeLine =>
      simp only [step] at hs
      split at hs
      · rename_i g hholder
        split at hs
        · rename_i hguard
          obtain rfl := Option.some.inj hs
          exact inv_done h hholder hguard.1
        · cases hs
      · cases hs
  | standAside =>
      simp only [step] at hs
      split at hs
      · rename_i g hholder
        split at hs
        · rename_i hg
          obtain rfl := Option.some.inj hs
          exact inv_leave h hholder hg (.inl rfl)
        · cases hs
      · cases hs
  | tearDown =>
      simp only [step] at hs
      split at hs
      · rename_i g hholder
        split at hs
        · obtain rfl := Option.some.inj hs
          exact inv_goOn h hholder .tornDown (.inr rfl)
        · cases hs
      · cases hs
  | resume =>
      simp only [step] at hs
      split at hs
      · rename_i g hholder
        obtain rfl := Option.some.inj hs
        split
        · rename_i hg
          exact inv_leave h hholder hg (.inl rfl)
        · exact inv_goOn h hholder .starting (.inl rfl)
      · cases hs
  | finish =>
      simp only [step] at hs
      split at hs
      · rename_i g hholder
        split at hs
        · rename_i hg
          obtain rfl := Option.some.inj hs
          exact inv_done h hholder hg
        · rename_i hg
          obtain rfl := Option.some.inj hs
          exact inv_leave h hholder hg (.inr rfl)
      · cases hs

/-- A job that changes the session follows every call whose job has done its work. -/
theorem keepsLater_of_inv (h : Inv s) {e : Event} (hc : s.notOvertaken e = true) :
    s.KeepsLater e := by
  intro s' g hs hchange hactor
  have hheld : s.holder.map (·.1) = some g → s.served ≤ g := by
    intro hmap
    obtain ⟨⟨g', p⟩, hholder, rfl⟩ := Option.map_eq_some_iff.mp hmap
    exact (h.held g' p hholder).1
  cases e with
  | call c => cases hactor
  | stopJob g' =>
      obtain rfl := Option.some.inj hactor
      simp only [step] at hs
      split at hs
      · obtain rfl := Option.some.inj hs
        cases hline : s.session with
        | none => exact absurd hline.symm hchange
        | some line =>
            simp only [notOvertaken, hline, Option.all_some, decide_eq_true_eq] at hc
            rw [← h.line line hline]
            exact Nat.le_of_lt hc
      · cases hs
  | startJob g' leftover =>
      simp only [step] at hs
      split at hs
      · split at hs <;> (obtain rfl := Option.some.inj hs; exact absurd rfl hchange)
      · cases hs
  | changeLine | standAside | tearDown | resume | finish => exact hheld hactor

end Step

/-! ### Whole runs -/

/-- The side condition along a run. -/
abbrev InOrder (s : Manager) (es : List Event) : Prop :=
  AllSteps step (fun s e => s.notOvertaken e = true) s es

theorem inv_run {s : Manager} {es : List Event} (hC : InOrder {} es)
    (hrun : run step {} es = some s) :
    Inv s :=
  run_inv (fun _ e _ h hc hs => inv_step e h hc hs) inv_fresh hC hrun

/-- **The last request wins.** In every run in which no stop's job takes the mutex under a session
that a later call started: once every job has ended a session is up exactly when the last call was
`startVpn`, and no job undid what a later call's job did. -/
theorem last_request_wins {s : Manager} {es : List Event} (hC : InOrder {} es)
    (hrun : run step {} es = some s) :
    (s.Idle → (s.session.isSome = true ↔ s.lastCall = some .startVpn)) ∧
      AllSteps step KeepsLater {} es := by
  refine ⟨?_, ?_⟩
  · rintro ⟨hjobs, hfree⟩
    cases (inv_run hC hrun).pending with
    | none hcall _ _ hsession => simp [hcall, hsession]
    | waiting c _ hwaits =>
        rw [hjobs] at hwaits
        cases hwaits
    | running p _ hholder =>
        rw [hfree] at hholder
        cases hholder
    | settled c hcall hdone =>
        rw [hcall, hdone.outcome]
        cases c <;> simp
  · exact AllSteps.of_inv (fun _ e _ h hc hs => inv_step e h hc hs)
      (fun _ _ h hc => keepsLater_of_inv h hc) inv_fresh hC

/-- A connect, a change of line, a disconnect that supersedes a connect under way. -/
def busyRun : List Event :=
  [.call .startVpn, .startJob 1 false, .finish, .call .startVpn, .startJob 2 false, .changeLine,
    .call .startVpn, .startJob 3 false, .tearDown, .call .stopVpn, .resume, .stopJob 4]

theorem last_request_wins_busy :
    ∃ s, run step {} busyRun = some s ∧ s.Idle ∧
      (s.session.isSome = true ↔ s.lastCall = some .startVpn) :=
  ⟨_, rfl, ⟨rfl, rfl⟩, (@last_request_wins _ busyRun (by decide) rfl).1 ⟨rfl, rfl⟩⟩

/-- A quick disconnect and connect, whose jobs take the mutex the other way round. -/
def overtaken : List Event :=
  [.call .stopVpn, .call .startVpn, .startJob 2 false, .finish, .stopJob 1]

/-- The session the user asked for last is taken down by the stop before it. -/
theorem overtaken_stop_ends_session :
    ∃ s, run step {} overtaken = some s ∧ s.Idle ∧ s.lastCall = some .startVpn ∧ s.session = none ∧
      ¬ AllSteps step KeepsLater {} overtaken := by
  refine ⟨_, rfl, ⟨rfl, rfl⟩, rfl, rfl, ?_⟩
  intro h
  have hstop := ((((h.2 _ rfl).2 _ rfl).2 _ rfl).2 _ rfl).1
  have hle := hstop _ 1 rfl (by decide) rfl
  revert hle
  decide

end Manager

end Ghostlane.Desktop
