import Ghostlane.Cli.Daemon.Selections

/-!
# Ghostlane.Cli.Daemon.Removal

What `remove` (`internal/daemon/handlers.go`) does to the selection that runs.
A selection is scoped by a text that `matchesSub` compares with a list's address
in three ways, and it may be pinned to one list besides; `remove` compares the
scope with the addresses it takes to the letter. A removal that takes the address
so written ends the selection (`Ending.step`); any other leaves it as it was.

A removal is served alone here: its own sections, the loop, `Run` and the address
watchers move, no other request does.
-/

namespace Ghostlane.Cli

open Ghostlane.Lib

/-- What a removal has left to do once it has stopped the loop. -/
def Flight.afterStop : Flight → Bool
  | cloning | saving _ .reply | idle => true
  | _ => false

namespace Daemon

/-! ### A removal served alone -/

/-- The request in flight `i` is being served, and no other. -/
def Alone (i : Nat) (s : Daemon) : Prop :=
  s.flights i ≠ .idle ∧ ∀ j, j ≠ i → (s.flights j).isRequest = false

/-- `sel` is the daemon's selection: a loop runs for it, or it is stored to be started again. -/
def Runs (s : Daemon) (sel : Selection) : Prop :=
  s.sel = some sel ∧ (s.loop ≠ none ∨ s.cfg.selection ≠ none)

/-- The list the running selection is pinned to, as its loop has it. Once the loop
has ended, what it remembered is in the stored selection when that is this one. -/
def pinOf (s : Daemon) (sel : Selection) : Text :=
  match s.loop, s.cfg.selection with
  | some l, _ => l.sel.entrySub
  | none, some stored =>
      if stored.selector = sel.selector ∧ stored.subscription = sel.subscription then
        stored.entrySub
      else sel.entrySub
  | none, none => sel.entrySub

variable [External]

/-- `remove needle`, as the request in flight `i`, returns OK in `s'`: its first
section took a list and its save succeeded. -/
def RemovalReturns (i : Nat) (needle : Text) (s s' : Daemon) : Prop :=
  ∃ t es, s.step (.request (.remove i needle)) = some t ∧
    AllSteps step (fun u _ => Alone i u) t (es ++ [.request (.save i true)]) ∧
    run step t (es ++ [.request (.save i true)]) = some s'

/-- The removal takes the list at `url`. -/
def Takes (s : Daemon) (needle url : Text) : Prop :=
  ∃ x ∈ s.cfg.subscriptions, removes needle x = true ∧ x.url = url

/-- The removal leaves no list in the selection's scope, or takes the one it is pinned to. -/
def Orphans (s : Daemon) (needle : Text) (sel : Selection) : Prop :=
  (∀ x ∈ (s.cfg.without needle).subscriptions, inScope sel.subscription x = false) ∨
    (s.pinOf sel ≠ [] ∧ s.Takes needle (s.pinOf sel))

theorem dropsSelection_iff {s : Daemon} {sel : Selection} (hsel : s.sel = some sel)
    (needle : Text) :
    dropsSelection s.cfg s.sel needle = true ↔ s.Takes needle sel.subscription := by
  simp only [dropsSelection, hsel, List.any_eq_true, Bool.and_eq_true, beq_iff_eq, Takes]
  exact exists_congr fun x => and_congr_right' (and_congr_right' eq_comm)

/-! ### A removal that stops the loop -/

/-- Nothing runs, nothing is stored, and `Run` is not about to start anything. -/
structure Ended (s : Daemon) : Prop where
  loop : s.loop = none
  selection : s.cfg.selection = none
  main : ∀ sel, s.main ≠ .startingStored sel

/-- The removal in flight `i` is on its way to `stopAll(true)`, or past it with
nothing running. -/
structure Ending (i : Nat) (s : Daemon) : Prop where
  mutex : Mutex s
  phase : (s.flights i = .stop ∨ s.flights i = .stopping) ∨
    ((s.flights i).afterStop = true ∧ s.Ended)

omit [External] in
theorem Ended.of_eq {s s' : Daemon} (h : s.Ended) (hloop : s'.loop = s.loop)
    (hselection : s'.cfg.selection = s.cfg.selection) (hmain : s'.main = s.main) : s'.Ended where
  loop := hloop.trans h.loop
  selection := hselection.trans h.selection
  main := by
    rw [hmain]
    exact h.main

omit [External] in
theorem Alone.not_request {i j : Nat} {s : Daemon} (h : Alone i s) {f : Flight}
    (hj : s.flights j = f) (hf : f.isRequest = true) : j = i := by
  by_contra hne
  rw [← hj, h.2 j hne] at hf
  cases hf

/-- A request's section takes the removal nowhere but to its own next one. -/
theorem RequestMove.ending {i : Nat} {s s' : Daemon} {e : RequestEvent} (hm : RequestMove s e s')
    (halone : Alone i s) (h : Ending i s) (hmutex : Mutex s') : Ending i s' := by
  refine ⟨hmutex, ?_⟩
  rcases h.phase with hwait | ⟨hafter, hended⟩
  · have hsection : (s.flights i).atSection = true := by
      rcases hwait with h | h <;> rw [h] <;> rfl
    rw [hm.atSection hsection]
    exact .inl hwait
  · have hended' : s'.Ended := hended.of_eq hm.frame.loop hm.frame.selection hm.frame.main
    refine .inr ⟨?_, hended'⟩
    by_cases hwho : i = e.who
    · -- the removal itself moves: it clones, or its save returns
      subst hwho
      cases hm with
      | cloned hi => simp [Flight.afterStop, RequestEvent.who]
      | @saved i ok clone after hi =>
          simp only [RequestEvent.who, hi] at hafter
          cases after with
          | reply => simp [Daemon.saved, Flight.afterStop, RequestEvent.who]
          | _ => cases hafter
      | _ => simp_all [Flight.afterStop, RequestEvent.who, Alone]
    · have hshared : (s.flights i).isShared = false := by
        have hne := halone.1
        cases hf : s.flights i <;> simp_all [Flight.afterStop, Flight.isShared]
      rw [hm.flights hwho hshared]
      exact hafter

omit [External] in
/-- A section that leaves flight `i` alone, and starts nothing once the removal
has stopped the loop. -/
theorem Ending.beside {i : Nat} {s s' : Daemon} (h : Ending i s) (hmutex : Mutex s')
    (hi : s'.flights i = s.flights i) (hended : s.Ended → s'.Ended) : Ending i s' := by
  refine ⟨hmutex, ?_⟩
  rw [hi]
  exact h.phase.imp_right (And.imp_right hended)

theorem SectionMove.ending {i : Nat} {s s' : Daemon} {e : SectionEvent} (hm : SectionMove s e s')
    (halone : Alone i s) (h : Ending i s) (hmutex : Mutex s') : Ending i s' := by
  -- flight `i` waits for `stopAll` or is past it, so it enters no other section
  have hphase := h.phase
  cases hm with
  | refused hj => exact h
  | @checked j _ _ _ sel hj =>
      have hne : i ≠ j := by
        rintro rfl
        exact halone.1 hj
      exact h.beside hmutex (set_flights_of_ne _ hne _) (fun he => he.of_eq rfl rfl rfl)
  | stores hj =>
      obtain rfl := halone.not_request hj rfl
      simp [hj, Flight.afterStop] at hphase
  | locksStart _ hj =>
      obtain rfl := halone.not_request hj rfl
      simp [hj, Flight.afterStop] at hphase
  | locksStop _ hj =>
      obtain rfl := halone.not_request hj rfl
      exact ⟨hmutex, .inl (.inr (set_flights_self ..))⟩
  | waited => exact h.beside hmutex rfl (fun he => he.of_eq rfl rfl rfl)
  | starts _ hj =>
      obtain rfl := halone.not_request hj rfl
      simp [hj, Flight.afterStop] at hphase
  | @stops j a hloop hj =>
      obtain rfl := halone.not_request hj rfl
      obtain ⟨_, _, _, heq⟩ := stopAll_true_eq s a
      have hholds : s.main.holdsConnectMu = false := by
        by_contra hmain
        have hfree := (h.mutex.main (Bool.not_eq_false _ ▸ hmain)).2 j
        rw [hj] at hfree
        cases hfree
      refine ⟨hmutex, .inr ⟨by rw [set_flights_self]; rfl, ?_, ?_, fun sel hmain => ?_⟩⟩
      · simp [hloop]
      · simp [heq]
      · simp only [set_main, stopAll_main] at hmain
        rw [hmain] at hholds
        cases hholds
  | refreshStarts _ hj =>
      obtain rfl := halone.not_request hj rfl
      simp [hj, Flight.afterStop] at hphase
  | refreshLeaves _ hj =>
      obtain rfl := halone.not_request hj rfl
      simp [hj, Flight.afterStop] at hphase
  | storedStarts _ _ hsel =>
      refine h.beside hmutex rfl (fun he => ?_)
      simp [Daemon.storedStarts, he.loop, he.selection] at hsel
  | storedLeaves =>
      refine h.beside hmutex rfl (fun he => ⟨he.loop, he.selection, fun _ hmain => ?_⟩)
      cases hmain
  | runEnds => exact h.beside hmutex rfl (fun he => he.of_eq rfl rfl rfl)
  | locksRun =>
      refine h.beside hmutex rfl (fun he => ⟨?_, he.selection, fun _ hmain => ?_⟩)
      · simp [cancelLoop, he.loop]
      · cases hmain
  | @serves a sel _ hmain =>
      obtain ⟨_, _, _, _, heq⟩ := startConnectLocked_eq s sel a
      exact h.beside hmutex (by rw [heq]) (fun he => absurd hmain (he.main sel))
  | @returns a =>
      obtain ⟨_, _, _, heq⟩ := stopAll_false_eq s a
      refine h.beside hmutex (by rw [heq]) (fun he => ⟨?_, ?_, fun _ hmain => ?_⟩)
      · rw [heq]
        exact he.loop
      · rw [heq]
        exact he.selection
      · cases hmain

/-- While a removal is served alone it keeps on its way to ending the selection. -/
theorem Ending.step {i : Nat} {s s' : Daemon} {e : Event} (h : Ending i s) (halone : Alone i s)
    (hstep : s.step e = some s') : Ending i s' := by
  have hmutex := h.mutex.step hstep
  cases step_move hstep with
  | request hm => exact hm.ending halone h hmutex
  | section_ hm => exact hm.ending halone h hmutex
  | loop hl hm =>
      refine h.beside hmutex (by rw [hm.frame.flights]) (fun he => ?_)
      rw [he.loop] at hl
      cases hl
  | syncs => exact h.beside hmutex rfl (fun he => he.of_eq rfl rfl rfl)
  | unread => exact h

/-- A removal that takes the list its selection is scoped to, to the letter, ends it. -/
theorem ended_of_takes {i : Nat} {needle : Text} {s s' : Daemon} {sel : Selection}
    (hmutex : Mutex s) (hsel : s.sel = some sel) (htakes : s.Takes needle sel.subscription)
    (hret : RemovalReturns i needle s s') :
    s'.Ended := by
  obtain ⟨t, es, hfirst, halone, hrun⟩ := hret
  have hmutex' := hmutex.step hfirst
  have hstart : Ending i t := by
    cases step_move hfirst with
    | request hm =>
        cases hm with
        | removesNone hi hany =>
            obtain ⟨x, hx, hrem, -⟩ := htakes
            exact absurd hrem (by simpa using List.any_eq_false.mp hany x hx)
        | removed hi hany hf =>
            rw [(dropsSelection_iff hsel needle).mpr htakes, if_pos rfl] at hf
            subst hf
            exact ⟨hmutex', .inl (.inl (set_flights_self ..))⟩
  -- the removal returns from its save, so it is past its section there
  obtain ⟨u, hu, hlast⟩ := run_append_eq_some.mp hrun
  have hend : Ending i u := run_inv (fun _ _ _ h ha hstep => h.step ha hstep) hstart halone.left hu
  obtain ⟨_, hsave, hnil⟩ := run_cons_eq_some.mp hlast
  cases hnil
  cases step_move hsave with
  | request hm =>
      have hframe := hm.frame
      cases hm with
      | saved hi =>
          rcases hend.phase with hwait | ⟨-, hended⟩
          · simp [hi] at hwait
          · exact hended.of_eq hframe.loop hframe.selection hframe.main

/-! ### A removal that does not -/

/-- A removal that takes a list, but not the one the scope spells out, may return
with the loop and the stored selection as they were. -/
theorem kept_of_not_takes {i : Nat} {needle : Text} {s : Daemon} {sel : Selection}
    (halive : s.crashed = false) (hquiet : s.Quiet) (hidle : s.flights i = .idle)
    (hsel : s.sel = some sel) (hany : s.cfg.subscriptions.any (removes needle) = true)
    (hnot : ¬ s.Takes needle sel.subscription) :
    ∃ s', RemovalReturns i needle s s' ∧ s'.loop = s.loop ∧ s'.cfg.selection = s.cfg.selection := by
  have hkeeps : dropsSelection s.cfg s.sel needle = false :=
    Bool.eq_false_iff.mpr fun hdrops => hnot ((dropsSelection_iff hsel needle).mp hdrops)
  let t : Daemon := { s with cfg := s.cfg.without needle }.set i .cloning
  let u : Daemon := t.set i (.saving t.cfg .reply)
  have hothers : ∀ j, j ≠ i → (t.flights j).isRequest = false := by
    intro j hne
    rw [set_flights_of_ne _ hne]
    exact hquiet j
  have hfirst : s.step (.request (.remove i needle)) = some t := by
    simp [step, halive, requestStep, hidle, hany, hkeeps, t]
  have hclone : t.step (.request (.clone i)) = some u := by
    simp [step, halive, requestStep, t, u]
  have hsave : u.step (.request (.save i true)) =
      some ((u.write t.cfg true).saved i true .reply) := by
    simp [step, halive, requestStep, t, u]
  refine ⟨(u.write t.cfg true).saved i true .reply, ⟨t, [.request (.clone i)], hfirst, ?_, ?_⟩, rfl,
    rfl⟩
  · refine allSteps_cons hclone ⟨by simp [t], hothers⟩ <| allSteps_cons hsave
      ⟨by simp [u], ?_⟩ trivial
    intro j hne
    rw [set_flights_of_ne _ hne]
    exact hothers j hne
  · exact run_cons_eq_some.mpr ⟨u, hclone, run_cons_eq_some.mpr ⟨_, hsave, rfl⟩⟩

theorem mutex_of_run {cfg : Config} {es : List Event} {s : Daemon}
    (hrun : run step (init cfg) es = some s) : Mutex s :=
  run_inv (C := fun _ _ => True) (fun _ _ _ h _ hstep => h.step hstep)
    (selectionsInv_init cfg).mutex (allSteps_of_forall fun _ _ _ => trivial) hrun

/-- **Which removals end the selection that lived in their lists.** In every state
a daemon reaches with no request in flight, a removal that orphans the running
selection ends it exactly when the scope is, to the letter, the address of a list
it takes. -/
theorem removal_ends_selection_iff {cfg : Config} {es : List Event} {s : Daemon} {sel : Selection}
    {i : Nat} {needle : Text} (hrun : run step (init cfg) es = some s) (halive : s.crashed = false)
    (hquiet : s.Quiet) (hidle : s.flights i = .idle) (hruns : s.Runs sel)
    (hany : s.cfg.subscriptions.any (removes needle) = true) :
    (s.Orphans needle sel → ∀ s', RemovalReturns i needle s s' →
      s'.loop = none ∧ s'.cfg.selection = none) ↔
    (s.Orphans needle sel → s.Takes needle sel.subscription) := by
  obtain ⟨hsel, hlive⟩ := hruns
  refine forall_congr' fun _ => ⟨fun hends => ?_, fun htakes s' hret => ?_⟩
  · by_contra hnot
    obtain ⟨s', hret, hloop, hselection⟩ := kept_of_not_takes halive hquiet hidle hsel hany hnot
    obtain ⟨hnone, hnone'⟩ := hends s' hret
    rw [hloop] at hnone
    rw [hselection] at hnone'
    exact hlive.elim (· hnone) (· hnone')
  · have hended := ended_of_takes (mutex_of_run hrun) hsel htakes hret
    exact ⟨hended.loop, hended.selection⟩

/-! ### A selection scoped to the letter, and one that is not -/

omit [External]

/-- The masks of addresses whose whole path is hidden. -/
@[reducible] def hostMasks : External :=
  { spelledIDs with
    maskURL := fun url => url.take 8 ++ (url.drop 8).takeWhile (· != '/') ++ txt "/…" }

/-- A connect within `scope`, from its checks until its loop has remembered its line. -/
def connectIn (scope : Text) : List Event :=
  [.section_ .startStored,
    .section_ (.connect 0 { selector := txt "1", subscription := scope } true oneLine),
    .section_ (.storeSelection 0), .request (.save 0 true), .section_ (.lock 0),
    .section_ (.unlock 0 {}), .loop (.readLists oneLine), .loop (.saved true)]

/-- The list of `unselected`. -/
def onlyList : Text := txt "https://a.example/l"

theorem removal_ends_selection_scoped :
    ∃ s sel, run (@step hostMasks) (init unselected) (connectIn onlyList) = some s ∧
      @Orphans hostMasks s onlyList sel ∧
      (∀ s', @RemovalReturns hostMasks 0 onlyList s s' → s'.loop = none ∧
        s'.cfg.selection = none) := by
  have horphans : @Orphans hostMasks
      ((run (@step hostMasks) (init unselected) (connectIn onlyList)).getD
        (init unselected)) onlyList
      ⟨onlyList, txt "1", .proxy, false, [], []⟩ := .inl (by decide)
  refine ⟨_, _, rfl, horphans, ?_⟩
  refine (@removal_ends_selection_iff hostMasks unselected
    (connectIn onlyList) _ _ 0 onlyList rfl rfl
    (fun j => ?_) rfl ⟨rfl, .inl ?_⟩ (by decide)).mpr (fun _ => ?_) horphans
  · cases j <;> rfl
  · exact Option.some_ne_none _
  · exact ⟨_, List.mem_cons_self .., by decide, rfl⟩

/-- The only list is removed from under a selection that names no list, and its
loop goes on, still to be started at the next boot. -/
theorem removal_leaves_unscoped :
    ∃ s sel s', run (@step hostMasks) (init unselected) (connectIn []) = some s ∧
      s.Quiet ∧ s.Runs sel ∧ @Orphans hostMasks s onlyList sel ∧
      @RemovalReturns hostMasks 0 onlyList s s' ∧
      s'.cfg.subscriptions = [] ∧ s'.loop.isSome = true ∧ s'.cfg.selection.isSome = true := by
  refine ⟨_, ⟨[], txt "1", .proxy, false, [], []⟩, _, rfl, fun j => ?_, ⟨rfl, .inl ?_⟩,
    .inl (by decide), ⟨_, [.request (.clone 0)], rfl, ?_, rfl⟩, rfl, rfl, rfl⟩
  · cases j <;> rfl
  · exact Option.some_ne_none _
  · refine allSteps_cons rfl ⟨nofun, fun j hne => ?_⟩ <| allSteps_cons rfl
      ⟨nofun, fun j hne => ?_⟩ trivial
    all_goals
      cases j with
      | zero => exact absurd rfl hne
      | succ j => rfl

end Daemon

end Ghostlane.Cli
