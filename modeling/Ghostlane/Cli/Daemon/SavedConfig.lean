import Ghostlane.Cli.Daemon.Selections

/-!
# Ghostlane.Cli.Daemon.SavedConfig

The config in memory and the one in the file. Every edit is followed by a save,
but the clone is taken under `mu` and written under `saveMu` later, and nothing
orders the writes as the clones were ordered. While the file lags behind, some
flight has still to write the config as it now is (`Flight.writes`). That
promise is broken by a write of an older clone when no other flight keeps it
(`twoAdds 1 0`), and by the rollback of a failed add, which edits the
config and writes nothing.
-/

namespace Ghostlane.Cli

open Ghostlane.Lib

/-- A save of this flight is pending: it has a clone to write, or an edit behind
it or before it that a save follows. -/
def Flight.toSave : Flight → Bool
  | storing _ | stop | stopping | cloning | saving .. | fetched .. | rollingBack _
  | fetching _ .add => true
  | _ => false

/-- A pending save that is not of an older clone than `c`: the clone is `c`, or
is still to be taken. -/
def Flight.writes (c : Config) : Flight → Prop
  | saving clone after => clone = c ∨ after = .fetchInto .add
  | f => f.toSave = true

theorem Flight.toSave_of_writes {c : Config} {f : Flight} (h : f.writes c) : f.toSave = true := by
  cases f with
  | saving clone after => rfl
  | _ => exact h

theorem Flight.isShared_of_toSave {f : Flight} (h : f.toSave = true) : f.isShared = false := by
  cases f with
  | idle => cases h
  | refreshing => cases h
  | _ => rfl

/-- Every save of the event succeeds. -/
def Event.savesOk : Event → Bool
  | request (.save _ ok) => ok
  | loop (.saved ok) => ok
  | _ => true

namespace Daemon

/-- The config `c` has still to be written, by a flight other than those `p`
leaves out, or by the loop. -/
def ToWrite (s : Daemon) (c : Config) (p : Nat → Prop) : Prop :=
  (∃ i, p i ∧ (s.flights i).writes c) ∨ s.remembering = some c

/-- No save is pending. -/
def NoSavePending (s : Daemon) : Prop :=
  (∀ i, (s.flights i).toSave = false) ∧ s.remembering = none

/-- A write is of the config as it is, or that has still to be written; and a
rollback brings back what the file holds, or that has still to be written. -/
def NoStaleWrite (s : Daemon) : Event → Prop
  | .request (.save i _) => (s.flights i).writes s.cfg ∨ s.ToWrite s.cfg (· ≠ i)
  | .request (.rollBack i) => s.file = s.cfg.dropLast ∨ s.ToWrite s.cfg.dropLast (· ≠ i)
  | .loop (.saved _) =>
      ∀ clone, s.remembering = some clone → clone = s.cfg ∨ ∃ i, (s.flights i).writes s.cfg
  | _ => True

/-- The file holds the config, or the config has still to be written. -/
def FileInv (s : Daemon) : Prop := s.file = s.cfg ∨ s.ToWrite s.cfg fun _ => True

theorem fileInv_of_writes {s : Daemon} {i : Nat} (h : (s.flights i).writes s.cfg) : FileInv s :=
  .inr (.inl ⟨i, trivial, h⟩)

theorem remembering_congr {s s' : Daemon} (h : s'.loop = s.loop) :
    s'.remembering = s.remembering := by
  unfold remembering
  rw [h]

@[simp] theorem remembering_cancelLoop (s : Daemon) : s.cancelLoop.remembering = s.remembering := by
  cases hl : s.loop <;> simp [remembering, cancelLoop, hl]

/-- A new loop has nothing to save. -/
theorem remembering_startConnectLocked {s : Daemon} (h : s.loop = none) (sel : Selection)
    (a : RoutesAnswers) : (s.startConnectLocked sel a).remembering = s.remembering := by
  have hnone : s.remembering = none := by simp [remembering, h]
  have hs := startConnectLocked_starts s sel a
  generalize s.startConnectLocked sel a = s' at hs ⊢
  cases hs with
  | fails => rfl
  | _ =>
      rw [hnone]
      rfl

/-- A flight moves, without an edit and without giving up a write. -/
theorem FileInv.moves {s s' : Daemon} (h : FileInv s) {i : Nat} {f : Flight} (hcfg : s'.cfg = s.cfg)
    (hfile : s'.file = s.file) (hr : s'.remembering = s.remembering)
    (hfl : s'.flights = Function.update s.flights i f)
    (hi : (s.flights i).toSave = false ∨ f.writes s.cfg) : FileInv s' := by
  unfold FileInv ToWrite
  rw [hcfg, hfile, hr, hfl]
  rcases h with h | ⟨j, -, hj⟩ | h
  · exact .inl h
  · by_cases hji : j = i
    · subst hji
      rcases hi with hi | hi
      · rw [Flight.toSave_of_writes hj] at hi
        cases hi
      · exact .inr (.inl ⟨j, trivial, by rw [Function.update_self]; exact hi⟩)
    · exact .inr (.inl ⟨j, trivial, by rw [Function.update_of_ne hji]; exact hj⟩)
  · exact .inr (.inr h)

/-- Nothing the file depends on moves. -/
theorem FileInv.of_eq {s s' : Daemon} (h : FileInv s) (hcfg : s'.cfg = s.cfg)
    (hfile : s'.file = s.file) (hr : s'.remembering = s.remembering)
    (hfl : s'.flights = s.flights) : FileInv s' := by
  unfold FileInv ToWrite
  rw [hcfg, hfile, hr, hfl]
  exact h

variable [External]

/-- A write of `c` that flights other than the moving one, or the loop, have
still to do stays to be done. -/
theorem RequestMove.toWrite {s s' : Daemon} {e : RequestEvent} {c : Config}
    (hm : RequestMove s e s') (h : s.ToWrite c (· ≠ e.who)) : s'.ToWrite c fun _ => True := by
  rcases h with ⟨j, hne, hj⟩ | h
  · refine .inl ⟨j, trivial, ?_⟩
    rw [hm.flights hne (Flight.isShared_of_toSave (Flight.toSave_of_writes hj))]
    exact hj
  · exact .inr ((remembering_congr hm.frame.loop).trans h)

/-- A request that edits nothing and does not give up a write. -/
theorem RequestMove.fileInv {s s' : Daemon} {e : RequestEvent} (hm : RequestMove s e s')
    (h : FileInv s) {i : Nat} (hwho : e.who = i) (hcfg : s'.cfg = s.cfg) (hfile : s'.file = s.file)
    (hi : (s.flights i).toSave = false ∨ (s'.flights i).writes s.cfg) : FileInv s' := by
  subst hwho
  rcases h with h | ⟨j, -, hj⟩ | h
  · exact .inl (by rw [hfile, hcfg, h])
  · by_cases hji : j = e.who
    · subst hji
      rcases hi with hi | hi
      · rw [Flight.toSave_of_writes hj] at hi
        cases hi
      · exact fileInv_of_writes (hcfg ▸ hi)
    · exact .inr (hcfg ▸ hm.toWrite (.inl ⟨j, hji, hj⟩))
  · exact .inr (hcfg ▸ hm.toWrite (.inr h))

theorem FileInv.request {s s' : Daemon} {e : RequestEvent} (h : FileInv s)
    (hok : (Event.request e).savesOk = true) (hC : NoStaleWrite s (.request e))
    (hm : RequestMove s e s') : FileInv s' := by
  have hkeep := fun i => hm.fileInv (i := i) h
  have hwrite := fun c => hm.toWrite (c := c)
  cases hm with
  | addRefused | inlineHeld | removesNone => exact h
  | panics => exact h.of_eq rfl rfl rfl rfl
  -- an edit is followed by a write of its own
  | @added i =>
      refine fileInv_of_writes (i := i) ?_
      rw [set_flights_self]
      rfl
  | @inlineAdded i =>
      refine fileInv_of_writes (i := i) ?_
      rw [set_flights_self]
      exact .inl rfl
  | @removed i needle f _ _ hf =>
      refine fileInv_of_writes (i := i) ?_
      rw [set_flights_self, hf]
      split <;> rfl
  | @noted i =>
      refine fileInv_of_writes (i := i) ?_
      rw [set_flights_self]
      exact .inl rfl
  | rolledBack =>
      rcases hC with hfile | hC
      · exact .inl hfile
      · exact .inr (hwrite _ hC)
  | @disconnects i hi => exact hkeep i rfl rfl rfl (.inl (by rw [hi]; rfl))
  | @refreshes i _ hi => exact hkeep i rfl rfl rfl (.inl (by rw [hi]; rfl))
  | @spawns i _ _ _ _ hi => exact hkeep i rfl rfl rfl (.inl (by rw [hi]; rfl))
  | @reads i _ hi => exact hkeep i rfl rfl rfl (.inl (by rw [hi]; rfl))
  | @answered i url hd caller hi =>
      refine hkeep i rfl rfl rfl (.inr ?_)
      rw [set_flights_self]
      rfl
  | @fails i url caller hi =>
      cases caller with
      | add =>
          refine hkeep i rfl rfl rfl (.inr ?_)
          rw [show (s.fetchFails i url .add).flights i = _ from set_flights_self s i _]
          rfl
      | refresh parent =>
          refine hkeep i rfl ?_ ?_ (.inl (by rw [hi]; rfl))
          · exact fetchFails_cfg ..
          · exact fetchFails_file ..
      | reader => exact hkeep i rfl rfl rfl (.inl (by rw [hi]; rfl))
  | @cloned i hi =>
      refine hkeep i rfl rfl rfl (.inr ?_)
      rw [set_flights_self]
      exact .inl rfl
  | @saved i ok clone after hi =>
      obtain rfl : ok = true := hok
      rcases hC with hC | hC
      · rw [hi] at hC
        rcases hC with rfl | rfl
        · exact .inl (by rw [saved_file, saved_cfg]; rfl)
        · refine fileInv_of_writes (i := i) ?_
          rw [show ((s.write clone true).saved i true (.fetchInto .add)).flights i = _ from
            set_flights_self _ i _]
          rfl
      · have hcfg : ((s.write clone true).saved i true after).cfg = s.cfg := saved_cfg ..
        exact .inr (hcfg ▸ hwrite _ hC)

theorem FileInv.section_ {s s' : Daemon} {e : SectionEvent} (h : FileInv s)
    (hm : SectionMove s e s') : FileInv s' := by
  cases hm with
  | refused => exact h
  | checked hi => exact h.moves rfl rfl rfl rfl (.inl (by rw [hi]; rfl))
  | @stores i sel cfg hi hcfg =>
      refine fileInv_of_writes (i := i) ?_
      rw [set_flights_self]
      exact .inl rfl
  | locksStart hmu hi =>
      exact h.moves rfl rfl (remembering_cancelLoop s) rfl (.inl (by rw [hi]; rfl))
  | locksStop hmu hi => exact h.moves rfl rfl (remembering_cancelLoop s) rfl (.inr rfl)
  | waited => exact h.of_eq rfl rfl rfl rfl
  | @starts i a sel hloop hi =>
      obtain ⟨loop, ksOn, ksWatched, kernel, heq⟩ := startConnectLocked_eq s sel a
      have hr := remembering_startConnectLocked hloop sel a
      rw [heq] at hr ⊢
      exact h.moves rfl rfl hr rfl (.inl (by rw [hi]; rfl))
  | @stops i a hloop hi =>
      refine fileInv_of_writes (i := i) ?_
      rw [set_flights_self]
      rfl
  | refreshStarts hmu hi =>
      exact h.moves rfl rfl (remembering_cancelLoop s) rfl (.inl (by rw [hi]; rfl))
  | refreshLeaves hmu hi => exact h.moves rfl rfl rfl rfl (.inl (by rw [hi]; rfl))
  | storedStarts | storedLeaves | runEnds => exact h.of_eq rfl rfl rfl rfl
  | locksRun => exact h.of_eq rfl rfl (remembering_cancelLoop s) rfl
  | @serves a sel hloop hmain =>
      obtain ⟨loop, ksOn, ksWatched, kernel, heq⟩ := startConnectLocked_eq s sel a
      have hr := remembering_startConnectLocked hloop sel a
      rw [heq] at hr ⊢
      exact h.of_eq rfl rfl hr rfl
  | @returns a hloop hmain =>
      obtain ⟨ksOn, ksWatched, kernel, heq⟩ := stopAll_false_eq s a
      rw [heq]
      exact h.of_eq rfl rfl rfl rfl

omit [External] in
theorem FileInv.loop {s s' : Daemon} {l : Loop} {e : LoopEvent} (h : FileInv s)
    (hok : (Event.loop e).savesOk = true) (hC : NoStaleWrite s (.loop e))
    (hm : LoopMove s l e s') : FileInv s' := by
  have hfl := hm.frame.flights
  cases hm.config with
  | keeps hcfg hfile hr hr' => exact h.of_eq hcfg hfile (hr'.trans hr.symm) hfl
  | remembers sel hcfg hfile hr hr' => exact .inr (.inr hr')
  | @saves ok clone _ hr hcfg hfile hr' =>
      obtain rfl : ok = true := hok
      rcases hC clone hr with rfl | ⟨i, hi⟩
      · exact .inl (hfile.trans hcfg.symm)
      · exact fileInv_of_writes (i := i) (by rw [hcfg, hfl]; exact hi)

theorem FileInv.step {s s' : Daemon} {e : Event} (h : FileInv s) (hok : e.savesOk = true)
    (hC : NoStaleWrite s e) (hstep : s.step e = some s') : FileInv s' := by
  cases step_move hstep with
  | request hm => exact h.request hok hC hm
  | section_ hm => exact h.section_ hm
  | loop hl hm => exact h.loop hok hC hm
  | syncs => exact h.of_eq rfl rfl rfl rfl
  | unread => exact h

/-- **No config update is lost on disk** along a run in which every save succeeds
and no write or rollback leaves behind a config nobody has still to write: when
no save is pending, the file holds the config in memory. -/
theorem file_holds_config {cfg : Config} {es : List Event} {s : Daemon}
    (hok : ∀ e ∈ es, e.savesOk = true) (hC : AllSteps step NoStaleWrite (init cfg) es)
    (hrun : run step (init cfg) es = some s) (hdone : s.NoSavePending) : s.file = s.cfg := by
  have hall : AllSteps step (fun s e => e.savesOk = true ∧ NoStaleWrite s e) (init cfg) es :=
    (allSteps_of_forall fun _ e he => hok e he).and hC
  have hinit : FileInv (init cfg) := .inl rfl
  have h : FileInv s := run_inv (fun s e s' hs hc hstep => hs.step hc.1 hc.2 hstep) hinit hall hrun
  rcases h with h | ⟨i, -, hi⟩ | h
  · exact h
  · exact absurd (Flight.toSave_of_writes hi) (by simp [hdone.1 i])
  · rw [hdone.2] at h
    cases h

/-- Two lines are added at once, and their clones written in this order. -/
def twoAdds (first second : Nat) : List Event :=
  [.request (.addInline 0 (txt "hy2://p@a.example:443#Paris") (txt "Paris") 0),
    .request (.addInline 1 (txt "hy2://p@b.example:443#Berlin") (txt "Berlin") 0),
    .request (.save first true), .request (.save second true)]

omit [External] in
theorem file_holds_config_in_order :
    ∃ s, run (@step spelledIDs) (init Config.defaults) (twoAdds 0 1) = some s ∧
      s.cfg.subscriptions.map Subscription.title = [txt "Paris", txt "Berlin"] ∧
        s.file = s.cfg := by
  refine ⟨_, rfl, rfl, ?_⟩
  refine @file_holds_config spelledIDs Config.defaults (twoAdds 0 1) _ (by decide) ?_ rfl
    ⟨fun i => ?_, rfl⟩
  · -- the first write is of an older clone, and the second flight has still to write
    exact allSteps_cons rfl trivial <| allSteps_cons rfl trivial <|
      allSteps_cons rfl (.inr (.inl ⟨1, by decide, .inl rfl⟩)) <|
      allSteps_cons rfl (.inl (.inl rfl)) trivial
  · match i with
    | 0 => rfl
    | 1 => rfl
    | i + 2 => rfl

omit [External] in
/-- Written the other way round: both are in memory, the file has the first alone. -/
theorem crossed_adds_lose_one :
    ∃ s, run (@step spelledIDs) (init Config.defaults) (twoAdds 1 0) = some s ∧
      (∀ e ∈ twoAdds 1 0, e.savesOk = true) ∧ s.NoSavePending ∧
      s.cfg.subscriptions.map Subscription.title = [txt "Paris", txt "Berlin"] ∧
      s.file.subscriptions.map Subscription.title = [txt "Paris"] := by
  refine ⟨_, rfl, by decide, ⟨fun i => ?_, rfl⟩, rfl, rfl⟩
  match i with
  | 0 => rfl
  | 1 => rfl
  | i + 2 => rfl

end Daemon

end Ghostlane.Cli
