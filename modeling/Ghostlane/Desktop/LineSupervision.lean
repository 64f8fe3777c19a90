import Ghostlane.Lib.Runs
import Mathlib.Data.List.DropRight

/-!
# Ghostlane.Desktop.LineSupervision

When a session whose line is down looks at the other lines of its country. The outage of the line
(`net/SessionFailover.kt`) is begun and made longer by attempts that fail, put on record by looks
that ran to their end and dropped by a recovery (`vpn/desktop/LineSupervision.kt`), in whatever
order these come.

What an outage says is what has happened since it was begun (`Told`). So a look that is due is due
for what has happened, and not for what the record makes of it (`due_spec`).
-/

namespace Ghostlane.App.SessionFailover

def minFailedAttempts : Int32 := 2
def minOutageMs : Int64 := 30000
def repeatMs : Int64 := 5 * 60000

/-- One outage of the active line: since when, how many reconnects failed, when the others were
last tried. -/
structure Outage where
  startedAtMs : Int64
  failedAttempts : Int32
  lastPassAtMs : Option Int64 := none
  deriving DecidableEq

def Outage.another (o : Outage) : Outage := { o with failedAttempts := o.failedAttempts + 1 }

/-- Whether to look for another line now. -/
def due (outage : Option Outage) (nowMs : Int64) (networkPresent enabled : Bool) : Bool :=
  match outage with
  | none => false
  | some o =>
      enabled && networkPresent && minFailedAttempts ≤ o.failedAttempts &&
        minOutageMs ≤ nowMs - o.startedAtMs &&
        match o.lastPassAtMs with
        | none => true
        | some last => repeatMs ≤ nowMs - last

end Ghostlane.App.SessionFailover

namespace Ghostlane.Desktop.LineSupervision

open Ghostlane.Lib App.SessionFailover

/-- The outage of a line after an attempt at it failed. -/
def afterFailedAttempt (outage : Option Outage) (nowMs : Int64) (networkPresent : Bool) :
    Option Outage :=
  if !networkPresent then none
  else match outage with
    | none => some { startedAtMs := nowMs, failedAttempts := 1 }
    | some o => some o.another

/-- The outage after a look at the other lines that moved the session nowhere. -/
def afterLook (outage : Option Outage) (nowMs : Int64) (ranToItsEnd networkPresent : Bool) :
    Option Outage :=
  if ranToItsEnd && networkPresent then outage.map ({ · with lastPassAtMs := some nowMs })
  else outage

/-! ### What happens to a line -/

inductive Event
  | failed (nowMs : Int64) (networkPresent : Bool)
  | lookBegun (nowMs : Int64) (networkPresent enabled : Bool)
  | lookEnded (nowMs : Int64) (ranToItsEnd networkPresent : Bool)
  | recovered (nowMs : Int64)
  deriving DecidableEq

namespace Event

def nowMs : Event → Int64
  | failed t _ | lookBegun t _ _ | lookEnded t _ _ | recovered t => t

def isFailure : Event → Bool
  | failed _ _ => true
  | _ => false

/-- It is not a recovery and not an attempt without a network. -/
def goesOn : Event → Bool
  | failed _ networkPresent => networkPresent
  | recovered _ => false
  | _ => true

end Event

/-- What is counted once it has happened. -/
def after (outage : Option Outage) : Event → Option Outage
  | .failed nowMs networkPresent => afterFailedAttempt outage nowMs networkPresent
  | .lookBegun _ _ _ => outage
  | .lookEnded nowMs ranToItsEnd networkPresent =>
      afterLook outage nowMs ranToItsEnd networkPresent
  | .recovered _ => none

/-- A line between two events. -/
structure Line where
  counted : Option Outage := none
  /-- The looks that were begun and have not ended. -/
  looking : Nat := 0
  lastMs : Int64 := Int64.minValue

/-- Time does not go back, a look is begun only when it is due, and only one that was begun ends. -/
def step (s : Line) (e : Event) : Option Line :=
  let s' : Line := { s with counted := after s.counted e, lastMs := e.nowMs }
  if e.nowMs < s.lastMs then none
  else match e with
    | .lookBegun nowMs networkPresent enabled =>
        if due s.counted nowMs networkPresent enabled then
          some { s' with looking := s.looking + 1 }
        else none
    | .lookEnded _ _ _ => if s.looking = 0 then none else some { s' with looking := s.looking - 1 }
    | _ => some s'

/-! ### What an outage is to say -/

/-- Since the last recovery and the last attempt without a network two attempts failed at least,
the first of them half a minute ago; and in the last five minutes no look that came after that one
has run to its end with a network. -/
def RealOutage (es : List Event) (nowMs : Int64) : Prop :=
  ∃ before began since, es.rtakeWhile Event.goesOn = before ++ .failed began true :: since ∧
    (∀ e ∈ before, e.isFailure = false) ∧ (∃ e ∈ since, e.isFailure = true) ∧
    30000 ≤ nowMs.toInt - began.toInt ∧
    ∀ ended, .lookEnded ended true true ∈ since → 300000 ≤ nowMs.toInt - ended.toInt

/-- What `o` tells of the events since the last that dropped an outage. -/
structure Tells (o : Outage) (recent before since : List Event) : Prop where
  split : recent = before ++ .failed o.startedAtMs true :: since
  first : ∀ e ∈ before, e.isFailure = false
  attempts : o.failedAttempts = Int32.ofNat (since.countP Event.isFailure + 1)
  looks : ∀ endedMs, .lookEnded endedMs true true ∈ since →
    ∃ last, o.lastPassAtMs = some last ∧ endedMs ≤ last

/-- The invariant: what is counted is what has happened. -/
structure Told (es : List Event) (s : Line) : Prop where
  past : ∀ e ∈ es, e.nowMs ≤ s.lastMs
  quiet : s.counted = none → ∀ e ∈ es.rtakeWhile Event.goesOn, e.isFailure = false
  down : ∀ o, s.counted = some o → (∀ last, o.lastPassAtMs = some last → last ≤ s.lastMs) ∧
    ∃ before since, Tells o (es.rtakeWhile Event.goesOn) before since

theorem told_nil : Told [] {} where
  past := fun _ h => nomatch h
  quiet := fun _ _ h => nomatch h
  down := fun _ h => nomatch h

/-! ### One event -/

section

variable {es : List Event} {e : Event} {s s' : Line} {o : Outage} {before since : List Event}

theorem step_spec (h : step s e = some s') :
    s.lastMs ≤ e.nowMs ∧ s'.lastMs = e.nowMs ∧ s'.counted = after s.counted e := by
  unfold step at h
  split at h
  · cases h
  · rename_i hlate
    have hlate : s.lastMs ≤ e.nowMs := Int64.not_lt.mp hlate
    split at h
    · split at h
      · cases h
        exact ⟨hlate, rfl, rfl⟩
      · cases h
    · split at h
      · cases h
      · cases h
        exact ⟨hlate, rfl, rfl⟩
    · cases h
      exact ⟨hlate, rfl, rfl⟩

/-- A look is begun only when it is due. -/
theorem due_of_lookBegun {nowMs : Int64} {networkPresent enabled : Bool}
    (h : step s (.lookBegun nowMs networkPresent enabled) = some s') :
    s.lastMs ≤ nowMs ∧ due s.counted nowMs networkPresent enabled = true := by
  refine ⟨(step_spec h).1, ?_⟩
  unfold step at h
  split at h
  · cases h
  · by_contra hdue
    simp [hdue] at h

/-- What is dropped, by an event that drops nothing, was not counted. -/
theorem after_eq_none {outage : Option Outage} (hgoes : e.goesOn = true)
    (h : after outage e = none) : outage = none ∧ e.isFailure = false := by
  cases e with
  | failed nowMs networkPresent =>
      have hpresent : networkPresent = true := hgoes
      subst hpresent
      cases outage <;> cases h
  | lookBegun nowMs networkPresent enabled => exact ⟨h, rfl⟩
  | lookEnded nowMs ranToItsEnd networkPresent =>
      refine ⟨?_, rfl⟩
      simp only [after, afterLook] at h
      split at h
      · exact Option.map_eq_none_iff.mp h
      · exact h
  | recovered nowMs => cases hgoes

/-- What is counted is begun by a failure, or goes on from what was counted. -/
theorem after_eq_some {outage : Option Outage} {o' : Outage} (h : after outage e = some o') :
    (outage = none ∧ e = .failed o'.startedAtMs true ∧ o'.failedAttempts = 1 ∧
        o'.lastPassAtMs = none) ∨
      ∃ o, outage = some o ∧ e.goesOn = true ∧ o'.startedAtMs = o.startedAtMs ∧
        o'.failedAttempts = (if e.isFailure then o.failedAttempts + 1 else o.failedAttempts) ∧
        (o'.lastPassAtMs = o.lastPassAtMs ∧ (∀ endedMs, e ≠ .lookEnded endedMs true true) ∨
          ∃ endedMs, e = .lookEnded endedMs true true ∧ o'.lastPassAtMs = some endedMs) := by
  cases e with
  | failed nowMs networkPresent =>
      simp only [after, afterFailedAttempt] at h
      split at h
      · cases h
      · rename_i hpresent
        obtain rfl : networkPresent = true := by simpa using hpresent
        split at h
        · cases h
          exact .inl ⟨rfl, rfl, rfl, rfl⟩
        · cases h
          exact .inr ⟨_, rfl, rfl, rfl, rfl, .inl ⟨rfl, fun _ => nofun⟩⟩
  | lookBegun nowMs networkPresent enabled =>
      exact .inr ⟨o', h, rfl, rfl, rfl, .inl ⟨rfl, fun _ => nofun⟩⟩
  | lookEnded nowMs ranToItsEnd networkPresent =>
      simp only [after, afterLook] at h
      split at h
      · rename_i hran
        obtain ⟨rfl, rfl⟩ : ranToItsEnd = true ∧ networkPresent = true := by simpa using hran
        obtain ⟨o, rfl, rfl⟩ := Option.map_eq_some_iff.mp h
        exact .inr ⟨o, rfl, rfl, rfl, rfl, .inr ⟨nowMs, rfl, rfl⟩⟩
      · rename_i hran
        refine .inr ⟨o', h, rfl, rfl, rfl, .inl ⟨rfl, fun endedMs heq => hran ?_⟩⟩
        cases heq
        rfl
  | recovered nowMs => cases h

/-- The events go on, and what is told with them. -/
theorem Tells.concat {recent : List Event} (h : Tells o recent before since) {o' : Outage}
    (hstarted : o'.startedAtMs = o.startedAtMs)
    (hattempts : o'.failedAttempts =
      if e.isFailure then o.failedAttempts + 1 else o.failedAttempts)
    (hlooks : ∀ endedMs, .lookEnded endedMs true true ∈ since ++ [e] →
      ∃ last, o'.lastPassAtMs = some last ∧ endedMs ≤ last) :
    Tells o' (recent ++ [e]) before (since ++ [e]) where
  split := by rw [h.split, hstarted, List.append_assoc, List.cons_append]
  first := h.first
  attempts := by
    rw [hattempts, h.attempts, List.countP_append, List.countP_singleton]
    split
    · exact (Int32.ofNat_add _ 1).symm
    · rw [Nat.add_zero]
  looks := hlooks

/-- **One event.** -/
theorem Told.step (h : Told es s) (hs : step s e = some s') : Told (es ++ [e]) s' := by
  obtain ⟨hlate, hlast, hcounted⟩ := step_spec hs
  refine ⟨?_, fun hnone => ?_, fun o' ho' => ?_⟩
  · rw [hlast]
    exact List.forall_mem_append.mpr
      ⟨fun e' he' => Int64.le_trans (h.past e' he') hlate,
        List.forall_mem_singleton.mpr (Int64.le_refl _)⟩
  · by_cases hgoes : e.goesOn = true
    · obtain ⟨hold, hquiet⟩ := after_eq_none hgoes (hcounted.symm.trans hnone)
      rw [List.rtakeWhile_concat_pos _ _ _ hgoes]
      exact List.forall_mem_append.mpr ⟨h.quiet hold, List.forall_mem_singleton.mpr hquiet⟩
    · rw [List.rtakeWhile_concat_neg _ _ _ hgoes]
      exact fun _ he' => nomatch he'
  · rcases after_eq_some (hcounted.symm.trans ho') with
      ⟨hold, rfl, hattempts, hpass⟩ | ⟨o, hold, hgoes, hstarted, hattempts, hpass⟩
    · rw [List.rtakeWhile_concat_pos _ _ _ rfl]
      refine ⟨fun last hl => (nomatch hpass.symm.trans hl), es.rtakeWhile Event.goesOn, [], ?_⟩
      exact ⟨rfl, h.quiet hold, hattempts, fun _ hmem => nomatch hmem⟩
    · obtain ⟨hbefore, before, since, htells⟩ := h.down o hold
      rw [List.rtakeWhile_concat_pos _ _ _ hgoes, hlast]
      rcases hpass with ⟨hpass, hno⟩ | ⟨endedMs, rfl, hpass⟩
      · refine ⟨fun last hl => Int64.le_trans (hbefore last (hpass ▸ hl)) hlate, before,
          since ++ [e], htells.concat hstarted hattempts fun endedMs hmem => ?_⟩
        rcases List.mem_append.mp hmem with hmem | hmem
        · rw [hpass]
          exact htells.looks endedMs hmem
        · exact absurd (List.mem_singleton.mp hmem).symm (hno endedMs)
      · -- the look that ended now is the last, whatever was on record
        refine ⟨fun last hl => ?_, before, since ++ [.lookEnded endedMs true true],
          htells.concat hstarted hattempts fun t hmem => ⟨endedMs, hpass, ?_⟩⟩
        · rw [hpass] at hl
          cases hl
          exact Int64.le_refl _
        · rcases List.mem_append.mp hmem with hmem | hmem
          · have hin : .lookEnded t true true ∈ es.rtakeWhile Event.goesOn := by
              rw [htells.split]
              exact List.mem_append_right _ (List.mem_cons_of_mem _ hmem)
            exact Int64.le_trans (h.past _ ((List.rtakeWhile_suffix _ _).subset hin)) hlate
          · cases List.mem_singleton.mp hmem
            exact Int64.le_refl _

end

/-! ### Runs -/

/-- **A run.** -/
theorem told_run {es : List Event} {s : Line} (h : run step {} es = some s) : Told es s := by
  induction es using List.reverseRecOn generalizing s with
  | nil =>
      cases h
      exact told_nil
  | append_singleton es e ih =>
      obtain ⟨t, ht, hlast⟩ := run_append_eq_some.mp h
      obtain ⟨s', hs', hnil⟩ := run_cons_eq_some.mp hlast
      cases hnil
      exact (ih ht).step hs'

/-- Time that does not go back does not wrap to less than it is. -/
theorem toInt_le_of_le_sub {a b d : Int64} (hab : b ≤ a) (h : d ≤ a - b) :
    d.toInt ≤ a.toInt - b.toInt := by
  rw [Int64.le_iff_toInt_le] at hab h
  rw [Int64.toInt_sub, Int.bmod_def] at h
  split at h <;> omega

/-- What is due is due for what has happened. -/
theorem Told.real {es : List Event} {s : Line} (h : Told es s) {nowMs : Int64}
    (hnow : s.lastMs ≤ nowMs) {networkPresent enabled : Bool}
    (hdue : due s.counted nowMs networkPresent enabled = true) : RealOutage es nowMs := by
  cases hcounted : s.counted with
  | none => simp [hcounted, due] at hdue
  | some o =>
      obtain ⟨hlast, before, since, htells⟩ := h.down o hcounted
      simp only [hcounted, due, Bool.and_eq_true, decide_eq_true_eq] at hdue
      obtain ⟨⟨⟨-, hattempts⟩, hstarted⟩, hpass⟩ := hdue
      have hin : ∀ e ∈ before ++ .failed o.startedAtMs true :: since, e.nowMs ≤ nowMs := by
        intro e he
        rw [← htells.split] at he
        exact Int64.le_trans (h.past e ((List.rtakeWhile_suffix _ _).subset he)) hnow
      refine ⟨before, o.startedAtMs, since, htells.split, htells.first, ?_, ?_,
        fun ended hmem => ?_⟩
      · -- one attempt is not two
        by_contra hnone
        have hzero : since.countP Event.isFailure = 0 :=
          List.countP_eq_zero.mpr fun e he hfailed => hnone ⟨e, he, hfailed⟩
        rw [htells.attempts, hzero] at hattempts
        exact absurd hattempts (by decide)
      · exact toInt_le_of_le_sub
          (hin _ (List.mem_append_right _ List.mem_cons_self)) hstarted
      · obtain ⟨last, ho, hle⟩ := htells.looks ended hmem
        rw [ho] at hpass
        have hrepeat : repeatMs ≤ nowMs - last := by simpa using hpass
        have hgone := toInt_le_of_le_sub (Int64.le_trans (hlast last ho) hnow) hrepeat
        rw [Int64.le_iff_toInt_le] at hle
        have hms : repeatMs.toInt = 300000 := by decide
        omega

/-- **A session looks elsewhere only after a real outage.** -/
theorem due_spec {es : List Event} {s : Line} (h : run step {} es = some s) {nowMs : Int64}
    (hnow : s.lastMs ≤ nowMs) {networkPresent enabled : Bool}
    (hdue : due s.counted nowMs networkPresent enabled = true) : RealOutage es nowMs :=
  (told_run h).real hnow hdue

/-- Every look of a run was begun in a real outage. -/
theorem looks_real {es fs : List Event} {nowMs : Int64} {networkPresent enabled : Bool} {s : Line}
    (h : run step {} (es ++ .lookBegun nowMs networkPresent enabled :: fs) = some s) :
    RealOutage es nowMs := by
  obtain ⟨t, ht, hrest⟩ := run_append_eq_some.mp h
  obtain ⟨t', ht', -⟩ := run_cons_eq_some.mp hrest
  obtain ⟨hlate, hdue⟩ := due_of_lookBegun ht'
  exact (told_run ht).real hlate hdue

/-- A line fails three times, is looked past, and five minutes later still fails. -/
def longOutage : List Event :=
  [.failed 1000 true, .failed 21000 true, .failed 45000 true, .lookBegun 45000 true true,
    .failed 60000 true, .lookEnded 61000 true true, .failed 361000 true]

theorem due_longOutage : RealOutage longOutage 361000 :=
  have hdue : due (some ⟨1000, 5, some 61000⟩) 361000 true true = true := by decide
  due_spec (s := { counted := some ⟨1000, 5, some 61000⟩, lastMs := 361000 }) (by rfl)
    (Int64.le_refl _) hdue

end Ghostlane.Desktop.LineSupervision
