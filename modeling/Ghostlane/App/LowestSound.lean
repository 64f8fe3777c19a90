import Ghostlane.App.LowestConnection
import Ghostlane.App.Settled

/-!
# Ghostlane.App.LowestSound

What a write of `LowestConnection.run` takes over. What `run` has read and not yet acted on is
written down at each of its suspension points (`Stage.checked`), and every write it makes is sound
(`Write.Sound`) as long as nothing takes that away: there is no lock, and no compare and set, from
the last check to the write.
-/

namespace Ghostlane.App

open Ghostlane.Lib

namespace LowestConnection

section

variable [Build]

/-! ### What `run` relies on -/

/-- The write takes over nothing: it replaces what `run` last saw or set, by an entry of the list
that is there and dials what was ranked, and Lowest is on for the list. -/
def Write.Sound (w : Write) (store : Store) : Prop :=
  ∃ b store', store.getBundleUnlocked = .ok (b, store') ∧ b.activeLocationId = some w.expectedId ∧
    (∃ e ∈ b.locations, e.storageId = w.newId ∧ e.location.isComplete = true ∧
      ofList w.subscription e = true ∧ connectionKey e = connectionKey w.candidate) ∧
    b.settings.normalized.lowestEnabledFor w.subscription = true

/-- Something `run` reads in the store. -/
inductive Fact
  | active (id : Text)
  | lowest (subscription : Text)
  | there (subscription id : Text) (candidate : LocationEntry)

def Fact.In (b : LocationBundleV4) : Fact → Prop
  | active id => b.activeLocationId = some id
  | lowest subscription => b.settings.normalized.lowestEnabledFor subscription = true
  | there subscription id candidate => ∃ e ∈ b.locations, e.storageId = id ∧
      e.location.isComplete = true ∧ ofList subscription e = true ∧
      connectionKey e = connectionKey candidate

instance (b : LocationBundleV4) : DecidablePred (Fact.In b)
  | .active id => inferInstanceAs (Decidable (b.activeLocationId = some id))
  | .lowest subscription =>
      inferInstanceAs (Decidable (b.settings.normalized.lowestEnabledFor subscription = true))
  | .there subscription id candidate =>
      inferInstanceAs (Decidable (∃ e ∈ b.locations, e.storageId = id ∧
        e.location.isComplete = true ∧ ofList subscription e = true ∧
        connectionKey e = connectionKey candidate))

def Fact.Holds (store : Store) (f : Fact) : Prop :=
  ∃ b store', store.getBundleUnlocked = .ok (b, store') ∧ f.In b

instance (store : Store) (f : Fact) : Decidable (f.Holds store) :=
  match h : store.getBundleUnlocked with
  | .ok (b, store') => decidable_of_iff (f.In b)
      ⟨fun hf => ⟨b, store', h, hf⟩, fun ⟨_, _, hread, hf⟩ => by
        cases h.symm.trans hread
        exact hf⟩
  | .error _ => isFalse fun ⟨_, _, hread, _⟩ => by cases h.symm.trans hread

def Write.facts (w : Write) : List Fact :=
  [.active w.expectedId, .there w.subscription w.newId w.candidate, .lowest w.subscription]

/-- The write that comes next. -/
def Stage.write : Stage → Option Write
  | .holding w => some w
  | .setting l c f _ => some ⟨l.subscription, l.expectedId, c, f.entry.storageId⟩
  | _ => none

/-- What has been checked for the last time before the next write. -/
def Stage.checked : Stage → List Fact
  | .holding w => w.facts
  -- Behind the first attempt there is a pause, and these are checked again.
  | .allowed l _ _ => if l.attempts = 0 then [.active l.expectedId] else []
  | .reading l _ _ => if l.attempts = 0 then [.active l.expectedId, .lowest l.subscription] else []
  | .allowedAgain l _ _ _ => [.active l.expectedId]
  | .rechecking l _ _ _ => [.active l.expectedId, .lowest l.subscription]
  | .setting l c f _ =>
      Write.facts ⟨l.subscription, l.expectedId, c, f.entry.storageId⟩
  | _ => []

/-- Others leave what was checked for the last time; and under a kill switch's hold, where `run`
writes with no check at all, what it saw is still so and Lowest is on. -/
def Keeps (s : State) : Event → Prop
  | .other e => ∀ f ∈ s.stage.checked, f.Holds s.store →
      ∀ store, s.store.step e = some store → f.Holds store
  | .go a =>
      match s.stage with
      | .selected entry subscription => a.status.isKillSwitchHold = true →
          ∀ b store, s.store.getBundleUnlocked = .ok (b, store) →
          (∃ first ∈ (candidates subscription entry.storageId b.locations).head?,
            first.storageId ≠ entry.storageId) →
          b.activeLocationId = some entry.storageId ∧
            b.settings.normalized.lowestEnabledFor subscription = true
      | _ => True
  | .cancel => True

/-- A write that comes next takes over nothing. -/
def Sound (s : State) : Event → Prop
  | .go _ => ∀ w, s.stage.write = some w → w.Sound s.store
  | _ => True

/-- How many writes, and how many starts, a stage can come behind. -/
def Stage.Counts (sets starts : Nat) : Stage → Prop
  | .start | .selected _ _ | .holding _ | .stopping (.ranking _ _ _) | .ranking _ _ _ =>
      sets = 0 ∧ starts = 0
  | .holdingSelected => sets ≤ 1 ∧ starts = 0
  | .choosing l _ _ | .allowed l _ _ | .reading l _ _ | .connecting l _ | .connected l _
  | .stopping (.retry l _) => sets ≤ l.attempts ∧ starts ≤ l.attempts ∧ l.attempts ≤ maxAttempts
  | .cooling l _ _ _ | .allowedAgain l _ _ _ | .rechecking l _ _ _ | .setting l _ _ _ =>
      sets < l.attempts ∧ starts < l.attempts ∧ l.attempts ≤ maxAttempts
  | .onSelected l _ => sets ≤ l.attempts ∧ starts < l.attempts ∧ l.attempts ≤ maxAttempts
  | .finished => sets ≤ maxAttempts ∧ starts ≤ maxAttempts

def Counted (s : State) : Prop := s.stage.Counts s.sets s.starts

/-! ### Reading -/

omit [Build] in
theorem active_normalized_of_holds [JsonReader] {b : LocationBundleV4} {id : Text}
    (hactive : b.activeLocationId = some id)
    (hholds : LocationBundleV4.holds b.normalized.locations id = true) :
    b.normalized.activeLocationId = some id := by
  rw [LocationBundleV4.normalized_locations] at hholds
  rw [LocationBundleV4.normalized, hactive, Option.filter_some, if_pos hholds]
  rfl

/-- The selection, the settings and the locations are read again as they were. -/
theorem read_again {s s' : Store} {b : LocationBundleV4} (h : s.getBundleUnlocked = .ok (b, s')) :
    ∃ b', s'.getBundleUnlocked = .ok (b', s') ∧
      (∀ id, b.activeLocationId = some id → b'.activeLocationId = some id) ∧
      b'.settings.normalized = b.settings.normalized ∧ b'.locations = b.locations := by
  have hlocations := (Store.reads_of_getBundleUnlocked h).locations_eq
  cases Store.reads_of_getBundleUnlocked h with
  | stored hb hne => exact ⟨b, h, fun _ => id, rfl, rfl⟩
  | empty hlegacy hnil hb hempty => exact ⟨b, h, fun _ => id, rfl, rfl⟩
  | @adopted legacy hlegacy hempty hne =>
      have hadopted : (Store.withLegacy s.stored legacy.normalized).activeLocationId =
          legacy.normalized.activeLocationId ∧
          (Store.withLegacy s.stored legacy.normalized).locations =
            legacy.normalized.locations := by
        cases s.stored <;> exact ⟨rfl, rfl⟩
      have hagain : (Store.withLegacy s.stored legacy.normalized).normalized.locations =
          (Store.withLegacy s.stored legacy.normalized).locations := hlocations
      refine ⟨_, Store.getBundleUnlocked_of_stored rfl ?_, fun id hid => ?_, ?_, hagain⟩
      · rw [hagain, hadopted.2]
        exact hne
      · have hholds : LocationBundleV4.holds
            (Store.withLegacy s.stored legacy.normalized).normalized.locations id = true := by
          rw [hagain, hadopted.2]
          exact LocationBundleV4.selected_normalized (hadopted.1.symm.trans hid)
        exact active_normalized_of_holds hid hholds
      · exact SubscriptionSettings.normalized_normalized _

/-- What was read is so behind the read. -/
theorem Fact.holds_of_read {s s' : Store} {b : LocationBundleV4}
    (h : s.getBundleUnlocked = .ok (b, s')) {f : Fact} (hf : f.In b) : f.Holds s' := by
  obtain ⟨b', hread, hactive, hsettings, hlocations⟩ := read_again h
  refine ⟨b', s', hread, ?_⟩
  cases f with
  | active id => exact hactive id hf
  | lowest subscription =>
      rw [Fact.In, hsettings]
      exact hf
  | there subscription id candidate =>
      rw [Fact.In, hlocations]
      exact hf

/-- What is so is read. -/
theorem Fact.Holds.in {s s' : Store} {b : LocationBundleV4} {f : Fact} (hf : f.Holds s)
    (h : s.getBundleUnlocked = .ok (b, s')) : f.In b := by
  obtain ⟨b', s'', hread, hin⟩ := hf
  rw [h] at hread
  cases hread
  exact hin

theorem Write.sound_of_facts {w : Write} {store : Store} (h : ∀ f ∈ w.facts, f.Holds store) :
    w.Sound store := by
  rw [Write.facts, List.forall_mem_cons, List.forall_mem_cons, List.forall_mem_singleton] at h
  obtain ⟨⟨b, store', hread, hactive⟩, hthere, hlowest⟩ := h
  exact ⟨b, store', hread, hactive, hthere.in hread, hlowest.in hread⟩

/-- What a stage has checked is so. -/
def Checked (s : State) : Prop := ∀ f ∈ s.stage.checked, f.Holds s.store

theorem checked_reads {s : State} {next : LocationBundleV4 → Stage}
    (h : ∀ b store, s.store.getBundleUnlocked = .ok (b, store) → ∀ f ∈ (next b).checked, f.In b) :
    Checked (reads s next) := by
  rw [reads]
  split
  · rename_i b store hread
    exact fun f hf => Fact.holds_of_read hread (h b store hread f hf)
  · exact List.forall_mem_nil _

theorem counts_reads {s : State} {next : LocationBundleV4 → Stage}
    (hsets : s.sets ≤ maxAttempts ∧ s.starts ≤ maxAttempts)
    (h : ∀ b, (next b).Counts s.sets s.starts) :
    Counted (reads s next) := by
  rw [reads]
  split
  · exact h _
  · exact hsets

/-! ### A step -/

omit [Build] in
@[simp] theorem checked_nextCandidate (l : Loop) (rest : List LocationEntry) :
    (nextCandidate l rest).checked = [] := by
  cases rest <;> rfl

omit [Build] in
@[simp] theorem checked_order (ids : Option (List Text)) (subscription : Text)
    (selected : LocationEntry) (entries : List LocationEntry) :
    (order ids subscription selected entries).checked = [] := by
  cases ids with
  | none => rfl
  | some ids => exact checked_nextCandidate _ _

omit [Build] in
theorem checked_stopAndWait {status : VpnStatus} {onStopped : Stage} {r : Resume}
    (h : onStopped.checked = []) : (stopAndWait status onStopped r).checked = [] := by
  rw [stopAndWait]
  split
  · exact h
  · split <;> rfl

omit [Build] in
@[simp] theorem checked_resume (ids : Option (List Text)) (r : Resume) :
    (resume ids r).checked = [] := by
  cases r with
  | ranking subscription selected entries => exact checked_order _ _ _ _
  | retry l rest => exact checked_nextCandidate _ _

theorem complete_of_clean {b : LocationBundleV4} (hb : b.Clean) {e : LocationEntry}
    (he : e ∈ b.locations) : e.location.isComplete = true :=
  (Bool.and_eq_true _ _ ▸ hb.kept e he).2

/-- What is found is there. -/
theorem of_found? {subscription : Text} {candidate : LocationEntry} {b : LocationBundleV4}
    (hb : b.Clean) {f : Found candidate} (h : found? subscription candidate b = some f) :
    (Fact.there subscription f.entry.storageId candidate).In b := by
  obtain ⟨entry, hentry, hf⟩ := Option.bind_eq_some_iff.mp h
  split at hf
  · rename_i hlist
    cases hf
    have hmem := List.mem_of_find?_eq_some hentry
    exact ⟨entry, hmem, rfl, complete_of_clean hb hmem, hlist.1, hlist.2.2⟩
  · cases hf

theorem of_mem_candidates {subscription selectedId : Text} {entries : List LocationEntry}
    {e : LocationEntry} (h : e ∈ candidates subscription selectedId entries) :
    e ∈ entries ∧ ofList subscription e = true ∧ e.location.isComplete = true := by
  have hours : e ∈ entries.filter fun e =>
      ofList subscription e && e.location.isComplete && !e.mismatched :=
    (List.mem_append.mp ((distinctBy_sublist _).subset h)).elim List.mem_of_mem_filter
      List.mem_of_mem_filter
  obtain ⟨hmem, hcandidate⟩ := List.mem_filter.mp hours
  simp only [Bool.and_eq_true] at hcandidate
  exact ⟨hmem, hcandidate.1⟩

theorem checked_afterCandidates {ids : Option (List Text)} {status : VpnStatus}
    {subscription : Text} {selected : LocationEntry} {b : LocationBundleV4}
    (h : status.isKillSwitchHold = true →
      (∃ first ∈ (candidates subscription selected.storageId b.locations).head?,
        first.storageId ≠ selected.storageId) →
      b.activeLocationId = some selected.storageId ∧
        b.settings.normalized.lowestEnabledFor subscription = true) :
    ∀ f ∈ (afterCandidates ids status subscription selected b.locations).checked, f.In b := by
  rw [afterCandidates]
  cases hcandidates : candidates subscription selected.storageId b.locations with
  | nil => exact List.forall_mem_nil _
  | cons first rest =>
      rw [hcandidates] at h
      dsimp only
      split
      · rename_i hheld
        split
        · rename_i hother
          obtain ⟨hactive, hlowest⟩ := h hheld ⟨first, rfl, hother⟩
          have hfirst : first ∈ candidates subscription selected.storageId b.locations := by
            rw [hcandidates]
            exact List.mem_cons_self
          obtain ⟨hmem, hours, hcomplete⟩ := of_mem_candidates hfirst
          simp only [Stage.checked, Write.facts, List.forall_mem_cons, List.not_mem_nil,
            false_imp_iff, implies_true, and_true]
          exact ⟨hactive, ⟨first, hmem, rfl, hcomplete, hours, rfl⟩, hlowest⟩
        · exact List.forall_mem_nil _
      · rw [checked_stopAndWait (checked_order _ _ _ _)]
        exact List.forall_mem_nil _

theorem go_checked {s s' : State} {a : Answers} (h : Checked s) (hkeeps : Keeps s (.go a))
    (hgo : go s a = some s') : Checked s' := by
  have hread : ∀ b store, s.store.getBundleUnlocked = .ok (b, store) →
      ∀ f ∈ s.stage.checked, f.In b := fun b store hread f hf => (h f hf).in hread
  obtain ⟨store, preferredIds, stage, sets, starts⟩ := s
  cases stage with
  | start =>
      cases hgo
      refine checked_reads fun b _ _ => ?_
      split
      · exact List.forall_mem_nil _
      · split <;> exact List.forall_mem_nil _
  | selected entry subscription =>
      cases hgo
      exact checked_reads fun b store' hb => checked_afterCandidates fun hheld =>
        hkeeps hheld b store' hb
  | holding w =>
      cases hgo
      split <;> exact List.forall_mem_nil _
  | holdingSelected =>
      cases hgo
      exact List.forall_mem_nil _
  | stopping r =>
      cases hgo
      rw [Checked, checked_resume]
      exact List.forall_mem_nil _
  | ranking subscription selected entries =>
      cases hgo
      rw [Checked, checked_nextCandidate]
      exact List.forall_mem_nil _
  | choosing l candidate rest =>
      cases hgo
      refine checked_reads fun b store' hb => ?_
      split
      · rename_i hactive
        rw [Stage.checked]
        split
        · exact List.forall_mem_singleton.mpr hactive
        · exact List.forall_mem_nil _
      · exact List.forall_mem_nil _
  | allowed l candidate rest =>
      cases hgo
      refine checked_reads fun b store' hb => ?_
      have hbefore := hread b store' hb
      simp only [Stage.checked] at hbefore
      split
      · rename_i hlowest
        rw [Stage.checked]
        split
        · rename_i hfirst
          rw [if_pos hfirst, List.forall_mem_singleton] at hbefore
          exact List.forall_mem_cons.mpr ⟨hbefore, List.forall_mem_singleton.mpr hlowest⟩
        · exact List.forall_mem_nil _
      · exact List.forall_mem_nil _
  | reading l candidate rest =>
      cases hgo
      refine checked_reads fun b store' hb => ?_
      have hbefore := hread b store' hb
      simp only [Stage.checked] at hbefore
      split
      · rw [checked_nextCandidate]
        exact List.forall_mem_nil _
      · split
        · exact List.forall_mem_nil _
        · dsimp only
          split
          · exact List.forall_mem_nil _
          · rename_i hfirst
            split
            · rw [if_pos (by omega)] at hbefore
              exact hbefore
            · exact List.forall_mem_nil _
  | cooling l candidate f rest =>
      cases hgo
      refine checked_reads fun b store' hb => ?_
      split
      · rename_i hactive
        exact List.forall_mem_singleton.mpr hactive
      · exact List.forall_mem_nil _
  | allowedAgain l candidate f rest =>
      cases hgo
      refine checked_reads fun b store' hb => ?_
      have hbefore := List.forall_mem_singleton.mp (hread b store' hb)
      split
      · rename_i hlowest
        exact List.forall_mem_cons.mpr ⟨hbefore, List.forall_mem_singleton.mpr hlowest.1⟩
      · exact List.forall_mem_nil _
  | rechecking l candidate f rest =>
      cases hgo
      refine checked_reads fun b store' hb => ?_
      obtain ⟨hactive, hlowest⟩ := List.forall_mem_cons.mp (hread b store' hb)
      split
      · rw [checked_nextCandidate]
        exact List.forall_mem_nil _
      · rename_i g hfound
        split
        · rw [checked_nextCandidate]
          exact List.forall_mem_nil _
        · obtain ⟨e, he, hid, hcomplete, hours, hkey⟩ :=
            of_found? (Store.clean_getBundleUnlocked hb) hfound
          have hthere : (Fact.there l.subscription (f.again g).entry.storageId candidate).In b :=
            ⟨e, he, hid, hcomplete, hours, hkey.trans f.same.2⟩
          exact List.forall_mem_cons.mpr ⟨hactive, List.forall_mem_cons.mpr ⟨hthere, hlowest⟩⟩
  | setting l candidate f rest =>
      cases hgo
      split <;> exact List.forall_mem_nil _
  | onSelected l rest =>
      cases hgo
      exact List.forall_mem_nil _
  | connecting l rest =>
      have hretry : (stopAndWait a.status (nextCandidate l rest) (.retry l rest)).checked = [] :=
        checked_stopAndWait (checked_nextCandidate l rest)
      simp only [go] at hgo
      split at hgo
      all_goals cases hgo
      all_goals rw [Checked]
      · exact List.forall_mem_nil _
      · exact List.forall_mem_nil _
      · exact List.forall_mem_nil _
      · rw [hretry]
        exact List.forall_mem_nil _
      · rw [hretry]
        exact List.forall_mem_nil _
  | connected l rest =>
      have hretry : (stopAndWait a.status (nextCandidate l rest) (.retry l rest)).checked = [] :=
        checked_stopAndWait (checked_nextCandidate l rest)
      simp only [go] at hgo
      split at hgo
      all_goals cases hgo
      all_goals rw [Checked]
      · exact List.forall_mem_nil _
      · exact List.forall_mem_nil _
      · rw [hretry]
        exact List.forall_mem_nil _
  | finished => cases hgo

theorem step_checked {s s' : State} {e : Event} (h : Checked s) (hkeeps : Keeps s e)
    (hstep : step s e = some s') : Checked s' := by
  cases e with
  | other e =>
      obtain ⟨store, hstore, hs'⟩ := Option.map_eq_some_iff.mp hstep
      cases hs'
      exact fun f hf => hkeeps f hf (h f hf) store hstore
  | go a => exact go_checked h hkeeps hstep
  | cancel =>
      cases hstep
      exact List.forall_mem_nil _

/-- A write that comes next is one whose facts were checked. -/
theorem sound_of_checked {s : State} (h : Checked s) (e : Event) : Sound s e := by
  obtain ⟨store, preferredIds, stage, sets, starts⟩ := s
  cases e with
  | other e => trivial
  | cancel => trivial
  | go a =>
      intro w hw
      cases stage with
      | holding w' =>
          cases hw
          exact Write.sound_of_facts h
      | setting l candidate f rest =>
          cases hw
          exact Write.sound_of_facts h
      | _ => cases hw

/-! ### Attempts -/

omit [Build] in
theorem counts_nextCandidate {l : Loop} {sets starts : Nat} (hsets : sets ≤ l.attempts)
    (hstarts : starts ≤ l.attempts) (hattempts : l.attempts ≤ maxAttempts)
    (rest : List LocationEntry) : (nextCandidate l rest).Counts sets starts := by
  cases rest with
  | nil => exact ⟨hsets.trans hattempts, hstarts.trans hattempts⟩
  | cons candidate rest => exact ⟨hsets, hstarts, hattempts⟩

omit [Build] in
theorem counts_stopAndWait {status : VpnStatus} {onStopped : Stage} {r : Resume} {sets starts : Nat}
    (hnext : onStopped.Counts sets starts) (hstop : (Stage.stopping r).Counts sets starts)
    (hended : Stage.finished.Counts sets starts) :
    (stopAndWait status onStopped r).Counts sets starts := by
  rw [stopAndWait]
  split
  · exact hnext
  · split
    · exact hended
    · exact hstop

omit [Build] in
theorem counts_order (ids : Option (List Text)) (subscription : Text) (selected : LocationEntry)
    (entries : List LocationEntry) : (order ids subscription selected entries).Counts 0 0 := by
  cases ids with
  | none => exact ⟨rfl, rfl⟩
  | some ids => exact counts_nextCandidate (Nat.le_refl 0) (Nat.le_refl 0) (Nat.zero_le _) _

omit [Build] in
/-- No stage comes behind more writes, or starts, than there are attempts. -/
theorem Stage.Counts.le {stage : Stage} {sets starts : Nat} (h : stage.Counts sets starts) :
    sets ≤ maxAttempts ∧ starts ≤ maxAttempts := by
  have hmax : 1 ≤ maxAttempts := by decide
  cases stage with
  | stopping r =>
      cases r
      all_goals
        simp only [Counts] at h
        omega
  | _ =>
      simp only [Counts] at h
      omega

theorem go_counts {s s' : State} {a : Answers} (h : Counted s) (hgo : go s a = some s') :
    Counted s' := by
  have hle := Stage.Counts.le h
  obtain ⟨store, preferredIds, stage, sets, starts⟩ := s
  cases stage with
  | start =>
      cases hgo
      refine counts_reads hle fun b => ?_
      split
      · exact hle
      · split
        · exact hle
        · exact h
  | selected entry subscription =>
      cases hgo
      obtain ⟨rfl, rfl⟩ := h
      refine counts_reads hle fun b => ?_
      rw [afterCandidates]
      split
      · exact hle
      · split
        · split
          · exact ⟨rfl, rfl⟩
          · exact ⟨Nat.zero_le 1, rfl⟩
        · exact counts_stopAndWait (counts_order _ _ _ _) ⟨rfl, rfl⟩ hle
  | holding w =>
      cases hgo
      obtain ⟨rfl, rfl⟩ := h
      split
      · exact ⟨Nat.le_refl 1, rfl⟩
      · exact hle
  | holdingSelected =>
      cases hgo
      obtain ⟨hsets, rfl⟩ := h
      exact ⟨hsets.trans (by decide), (by decide : 0 + 1 ≤ maxAttempts)⟩
  | stopping r =>
      cases hgo
      cases r with
      | ranking subscription selected entries =>
          obtain ⟨rfl, rfl⟩ := h
          exact counts_order _ _ _ _
      | retry l rest => exact counts_nextCandidate h.1 h.2.1 h.2.2 rest
  | ranking subscription selected entries =>
      cases hgo
      obtain ⟨rfl, rfl⟩ := h
      exact counts_nextCandidate (Nat.le_refl 0) (Nat.le_refl 0) (Nat.zero_le _) _
  | choosing l candidate rest =>
      cases hgo
      refine counts_reads hle fun b => ?_
      split
      · exact h
      · exact hle
  | allowed l candidate rest =>
      cases hgo
      refine counts_reads hle fun b => ?_
      split
      · exact h
      · exact hle
  | reading l candidate rest =>
      cases hgo
      have hsets : sets ≤ l.attempts := h.1
      have hstarts : starts ≤ l.attempts := h.2.1
      refine counts_reads hle fun b => ?_
      split
      · exact counts_nextCandidate hsets hstarts h.2.2 rest
      · split
        · exact hle
        · rename_i hfew
          have hnext : sets < l.attempts + 1 ∧ starts < l.attempts + 1 ∧
              l.attempts + 1 ≤ maxAttempts := by omega
          dsimp only
          split
          · exact hnext
          · split
            · exact hnext
            · exact hle
  | cooling l candidate f rest =>
      cases hgo
      refine counts_reads hle fun b => ?_
      split
      · exact h
      · exact hle
  | allowedAgain l candidate f rest =>
      cases hgo
      refine counts_reads hle fun b => ?_
      split
      · exact h
      · exact hle
  | rechecking l candidate f rest =>
      cases hgo
      refine counts_reads hle fun b => ?_
      have hnext := counts_nextCandidate h.1.le h.2.1.le h.2.2 rest
      split
      · exact hnext
      · split
        · exact hnext
        · exact h
  | setting l candidate f rest =>
      cases hgo
      split
      · exact ⟨h.1, h.2.1, h.2.2⟩
      · exact hle
  | onSelected l rest =>
      cases hgo
      exact ⟨h.1, h.2.1, h.2.2⟩
  | connecting l rest =>
      have hnext := counts_nextCandidate h.1 h.2.1 h.2.2 rest
      have hretry := @counts_stopAndWait a.status _ (.retry l rest) _ _ hnext h hle
      simp only [go] at hgo
      split at hgo
      all_goals cases hgo
      all_goals first | exact hle | exact h | exact hretry
  | connected l rest =>
      have hnext := counts_nextCandidate h.1 h.2.1 h.2.2 rest
      have hretry := @counts_stopAndWait a.status _ (.retry l rest) _ _ hnext h hle
      simp only [go] at hgo
      split at hgo
      all_goals cases hgo
      all_goals first | exact hle | exact hretry
  | finished => cases hgo

theorem step_counts {s s' : State} {e : Event} (h : Counted s) (hstep : step s e = some s') :
    Counted s' := by
  cases e with
  | other e =>
      obtain ⟨store, -, hs'⟩ := Option.map_eq_some_iff.mp hstep
      cases hs'
      exact h
  | go a => exact go_counts h hstep
  | cancel =>
      cases hstep
      exact Stage.Counts.le h

/-- **Lowest takes over nothing**: every write is sound in a run whose steps all leave what was
checked for the last time. And it never makes more than three attempts. -/
theorem run_takes_over_nothing (store : Store) (preferredIds : Option (List Text))
    (events : List Event) :
    (AllSteps step Keeps { store, preferredIds } events →
      AllSteps step Sound { store, preferredIds } events) ∧
    ∀ s, run step { store, preferredIds } events = some s →
      s.sets ≤ maxAttempts ∧ s.starts ≤ maxAttempts := by
  constructor
  · intro hkeeps
    exact AllSteps.of_inv (fun s e s' => step_checked) (fun s e h _ => sound_of_checked h e)
      (List.forall_mem_nil _) hkeeps
  · intro s hrun
    have hstart : Counted { store, preferredIds } := ⟨rfl, rfl⟩
    have hany : AllSteps step (fun _ _ => True) { store, preferredIds } events :=
      allSteps_of_forall fun _ _ _ => trivial
    exact Stage.Counts.le (run_inv (fun s e s' h _ => step_counts h) hstart hany hrun)


end

/-! ### A run -/

section

attribute [local instance] Build.plain

/-- A room of the one list. -/
def room (id : String) : LocationEntry where
  storageId := txt id
  subscriptionUrl := some (txt "l")
  endpoint := some { roomId := txt id, key := txt "k" }

/-- Three rooms of a list that Lowest is on for, the first of them selected. -/
def threeRooms : Store := Store.empty.save
  { activeLocationId := some (txt "a"), locations := [room "a", room "b", room "c"]
    settings := { lowestSubscriptionUrls := [txt "l"] } }

/-- Nothing is connected. -/
def idle : Answers where
  status := .disconnected

/-- From the start to behind the last check. -/
def checks : List Event := List.replicate 6 (.go idle)

/-- The user deletes the third room behind the last check, and all that was checked stays. -/
def besides : List Event := [.other (.deleteLocation (txt "c")), .go idle]

theorem run_takes_over_nothing_besides :
    AllSteps step Sound { store := threeRooms, preferredIds := some [txt "b"] }
        (checks ++ besides) ∧
      (run step { store := threeRooms, preferredIds := some [txt "b"] }
        (checks ++ besides)).map (fun s => (s.sets, s.store.stored.map fun b =>
          (b.activeLocationId, b.locations.map (·.storageId)))) =
        some (1, some (some (txt "b"), [txt "a", txt "b"])) := by
  have hidle : ∀ s, Keeps s (.go idle) := by
    intro s
    rw [Keeps]
    split
    · exact fun hheld => by cases hheld
    · trivial
  have hleaves : (run step { store := threeRooms, preferredIds := some [txt "b"] } checks).all
      (fun s => decide (∀ f ∈ s.stage.checked, ∀ store ∈ s.store.step (.deleteLocation (txt "c")),
        f.Holds store)) = true := by decide +kernel
  refine ⟨(run_takes_over_nothing threeRooms (some [txt "b"]) _).1 ?_, by decide +kernel⟩
  refine AllSteps.append (allSteps_of_forall fun s e he => ?_) fun t ht => ?_
  · rw [List.eq_of_mem_replicate he]
    exact hidle s
  · rw [ht, Option.all_some, decide_eq_true_eq] at hleaves
    exact ⟨fun f hf _ store hstore => hleaves f hf store hstore, fun t' _ =>
      ⟨hidle t', fun _ _ => trivial⟩⟩

/-- The user selects the third room behind the last check, and `run` the second in its place. -/
theorem run_takes_over_selection :
    ¬ AllSteps step Sound { store := threeRooms, preferredIds := some [txt "b"] }
      ((checks ++ [.other (.setActive (some (txt "c")))]) ++ [.go idle]) := by
  have hshown : ((run step { store := threeRooms, preferredIds := some [txt "b"] }
      (checks ++ [.other (.setActive (some (txt "c")))])).map fun s =>
        (s.stage.write.map (·.expectedId), s.store.stored.bind (·.activeLocationId),
          s.store.stored.all (·.locations ≠ []))) =
      some (some (txt "a"), some (txt "c"), true) := by
    decide +kernel
  intro hsound
  obtain ⟨s, hrun, hs⟩ := Option.map_eq_some_iff.mp hshown
  obtain ⟨w, hw, hexpected⟩ := Option.map_eq_some_iff.mp (Prod.mk.inj hs).1
  obtain ⟨b, hb, hactive⟩ := Option.bind_eq_some_iff.mp (Prod.mk.inj (Prod.mk.inj hs).2).1
  have hne : b.locations ≠ [] := by
    have := (Prod.mk.inj (Prod.mk.inj hs).2).2
    rw [hb] at this
    simpa using this
  obtain ⟨b', s', hread, hreplaced, -⟩ := (hsound.right hrun).1 w hw
  rw [Store.getBundleUnlocked_of_stored hb hne] at hread
  cases hread
  rw [hactive, hexpected] at hreplaced
  exact absurd hreplaced (by decide)

end

end LowestConnection

end Ghostlane.App
