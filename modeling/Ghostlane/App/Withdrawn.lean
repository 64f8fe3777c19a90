import Ghostlane.App.Operations
import Ghostlane.App.Selection

/-!
# Ghostlane.App.Withdrawn

**A selection a refusal took away.** While locations are stored the bundle says
that nothing is selected on purpose, and no step but a choice of the person's
selects anything (`withdrawn_selection_stays`). With no location left there is
nothing to withdraw and the bundle says nothing: locations that come to an empty
store, from a list that is served or from the storage before bundles, are
selected from as they are at an import.
-/

namespace Ghostlane.App

open Ghostlane.Lib

section

variable [Build]

/-! ### Nothing selected on purpose -/

namespace LocationBundleV4

/-- Nothing is selected; and where something could be, on purpose. -/
def Quiet (b : LocationBundleV4) : Prop :=
  b.activeLocationId = none ∧ (b.locations ≠ [] → b.selectionWithdrawn = true)

variable {b b' : LocationBundleV4}

omit [Build] in
/-- A change that brings no location to a bundle without any keeps it quiet. -/
theorem Quiet.change (h : b.Quiet) (hactive : b'.activeLocationId = none)
    (hflag : b.selectionWithdrawn = true → b'.selectionWithdrawn = true)
    (hlocations : b'.locations ≠ [] → b.locations ≠ []) : b'.Quiet :=
  ⟨hactive, fun hne => hflag (h.2 (hlocations hne))⟩

theorem Quiet.normalized (h : b.Quiet) : b.normalized.Quiet := by
  obtain ⟨hactive, hwithdrawn⟩ := h
  have hchosen : b.activeLocationId.filter (holds (normalizedLocations b.locations)) = none := by
    rw [hactive]
    rfl
  by_cases hnil : normalizedLocations b.locations = []
  · refine ⟨?_, fun hne => absurd hnil hne⟩
    show Option.or (b.activeLocationId.filter _) _ = none
    rw [hchosen, Option.none_or, hnil]
    split <;> rfl
  · have hne : b.locations ≠ [] := by
      rintro heq
      exact hnil (by rw [heq]; rfl)
    have hflag : (b.selectionWithdrawn && (b.activeLocationId.filter
        (holds (normalizedLocations b.locations))).isNone &&
          !(normalizedLocations b.locations).isEmpty) = true := by
      rw [hwithdrawn hne, hchosen]
      simpa using hnil
    refine ⟨?_, fun _ => hflag⟩
    show Option.or (b.activeLocationId.filter _) (if _ = true then none else _) = none
    rw [if_pos hflag, hchosen]
    rfl

end LocationBundleV4

namespace Store

/-- The bundle on disk is quiet. -/
def Quiet (s : Store) : Prop := ∃ b, s.stored = some b ∧ b.Quiet

variable {s s₁ s' : Store} {b : LocationBundleV4}

theorem quiet_save (h : b.Quiet) : (s.save b).Quiet := ⟨_, stored_save s b, h.normalized.normalized⟩

/-- Locations are there, or none come from the storage before bundles. -/
def AdoptsNothing (s : Store) : Prop :=
  s.locations ≠ [] ∨ ∀ legacy, s.legacyBundle = .ok legacy → legacy.normalized.locations = []

/-- A read that adopts nothing returns the bundle on disk, and leaves it. -/
theorem Quiet.read (h : s.Quiet) (hadopts : s.AdoptsNothing)
    (hread : s.getBundleUnlocked = .ok (b, s₁)) : s₁ = s ∧ s.stored = some b ∧ b.Quiet := by
  obtain ⟨b₀, hb₀, hquiet⟩ := h
  cases reads_of_getBundleUnlocked hread with
  | stored hb hne =>
      rw [hb] at hb₀
      cases hb₀
      exact ⟨rfl, hb, hquiet⟩
  | empty hlegacy hnil hb hempty =>
      rw [hb₀, Option.getD_some] at hb
      subst hb
      exact ⟨rfl, hb₀, hquiet⟩
  | adopted hlegacy hempty hne =>
      exfalso
      rcases hadopts with hlocations | hnothing
      · refine hlocations ?_
        rw [locations, hb₀]
        exact hempty b₀ hb₀
      · exact hne (hnothing _ hlegacy)

theorem Quiet.afterRead (h : s.Quiet) (hadopts : s.AdoptsNothing) : s.afterRead = s := by
  unfold Store.afterRead
  cases hread : s.getBundleUnlocked with
  | error err => rfl
  | ok r => exact (h.read hadopts hread).1

/-- An operation that reads and saves keeps a store quiet when its change keeps
the bundle so. -/
theorem Quiet.change (h : s.Quiet) (hadopts : s.AdoptsNothing)
    {f : LocationBundleV4 → LocationBundleV4} (hf : ∀ b : LocationBundleV4, b.Quiet → (f b).Quiet)
    (hchange : s.change f = .ok s') : s'.Quiet := by
  obtain ⟨⟨b, s₁⟩, hread, hsave⟩ := bind_eq_ok.mp hchange
  cases hsave
  exact quiet_save (hf b (h.read hadopts hread).2.2)

end Store

/-! ### Refreshes -/

section Refreshes

variable {b : LocationBundleV4} {only : Option (List Text)} {w : Text → World}

/-- With nothing selected a refresh selects nothing. -/
theorem activeAfter_refreshedBy_of_none (h : b.activeLocationId = none) :
    (refreshedBy b only w).activeAfter = none := by
  rw [refreshedBy, handleAll, activeAfter_foldl_handle w fun a _ => holdsActive_of_none h a.1]
  exact h

/-- A refresh that serves nothing to a store without locations brings none. -/
theorem refreshedBy_locations_eq_nil (hnil : b.locations = [])
    (hserves : ∀ p ∈ askedLists b only w, p.2.lines = []) :
    (refreshedBy b only w).locations = [] := by
  have hentries : ∀ url, b.entriesOf url = [] := fun url => by
    rw [LocationBundleV4.entriesOf, hnil]
    rfl
  have hfiled : ∀ (lists : List (Text × Outcome)) (used : List Text),
      (∀ p ∈ lists, p.2.lines = []) → filedAll b w used lists = [] := by
    intro lists
    induction lists with
    | nil =>
        intro used _
        rfl
    | cons p lists ih =>
        intro used hlines
        obtain ⟨url, o⟩ := p
        have hblock : o.filed b (w url) used url = [] := by
          cases o with
          | kept =>
              rw [Outcome.filed, hentries]
              rfl
          | refused source => rfl
          | served source lines =>
              have hnone : lines = [] := hlines _ List.mem_cons_self
              rw [Outcome.filed, hnone]
              rfl
        rw [filedAll, hblock, ih _ fun q hq => hlines q (List.mem_cons_of_mem _ hq)]
        rfl
  rw [refreshedBy_locations, hnil, hfiled _ _ hserves]
  rfl

/-- What a refresh saves of a quiet bundle is quiet, unless it serves a list to
a bundle without locations. -/
theorem quiet_refreshedBy (h : b.Quiet)
    (hserves : b.locations = [] → ∀ p ∈ askedLists b only w, p.2.lines = []) :
    ((refreshedBy b only w).bundle b).Quiet := by
  refine h.change (activeAfter_refreshedBy_of_none h.1) (fun hflag => ?_) fun hne hnil => ?_
  · exact Bool.or_eq_true_iff.mpr (Or.inl hflag)
  · exact hne (refreshedBy_locations_eq_nil hnil (hserves hnil))

theorem Store.Quiet.refresh {s s' : Store} {report : SubscriptionRefreshReport} (h : s.Quiet)
    (hadopts : s.AdoptsNothing)
    (hserves : ∀ b, s.stored = some b → b.locations = [] →
      ∀ p ∈ askedLists b only w, p.2.lines = [])
    (hrefresh : s.refreshSubscriptionsUnlocked only w = .ok (s', report)) : s'.Quiet := by
  have hbind := hrefresh
  unfold Store.refreshSubscriptionsUnlocked at hbind
  obtain ⟨⟨b, s₁⟩, hread, -⟩ := bind_eq_ok.mp hbind
  obtain ⟨rfl, hstored, hquiet⟩ := h.read hadopts hread
  rw [refresh_eq hread (allAnswered_of_refresh hread hrefresh)] at hrefresh
  split at hrefresh
  · cases hrefresh
    exact h
  · cases hrefresh
    exact Store.quiet_save (quiet_refreshedBy hquiet (hserves b hstored))

/-- **A refusal that took the selection leaves the bundle quiet.** -/
theorem quiet_of_refusedSelection (hclean : b.Clean)
    (h : (refreshedBy b only w).refusedSelection = true) :
    ((refreshedBy b only w).bundle b).Quiet := by
  refine ⟨?_, fun _ => Bool.or_eq_true_iff.mpr (Or.inr h)⟩
  rcases foldl_handle_refusedSelection w _ _ h with hstart | ⟨a, ha, ⟨source, hrefused⟩, hholds⟩
  · cases hstart
  · obtain ⟨url, hurl, rfl⟩ := List.mem_map.mp ha
    -- The list that was refused is the only one that held the selected entry.
    obtain ⟨id, hactive, hheld⟩ := (Option.any_eq_true _ _).mp hholds
    obtain ⟨e, he, hid⟩ := List.any_eq_true.mp hheld
    obtain ⟨hmem, hlisted⟩ := List.mem_filter.mp he
    have hchosen : Chosen b e url :=
      ⟨hclean, hmem, of_decide_eq_true hlisted, by rw [hactive, beq_iff_eq.mp hid]⟩
    obtain ⟨before, after, htargets⟩ := List.append_of_mem hurl
    have hnodup := b.nodup_targetUrls only
    rw [htargets] at hnodup
    have hafter : ∀ url' ∈ after, url' ≠ url := fun url' hurl' heq =>
      (List.nodup_cons.mp (List.nodup_append'.mp hnodup).2.1).1 (heq ▸ hurl')
    show (refreshedBy b only w).activeAfter = none
    rw [refreshedBy, handleAll, htargets, List.map_append, List.foldl_append, List.map_cons,
      List.foldl_cons, hchosen.activeAfter_foldl w]
    · dsimp only
      rw [Refreshing.handle_eq, hrefused]
      exact if_pos hholds
    · intro a' ha'
      obtain ⟨url', hurl', rfl⟩ := List.mem_map.mp ha'
      exact hafter url' hurl'

end Refreshes

/-! ### Steps that are no choice -/

/-- The steps by which the person selects: choosing, saving or moving to a
location, an import that is served, and a bundle put in place of the stored one. -/
def StoreEvent.isChoice : StoreEvent → Bool
  | .setActive _ | .saveLocation .. | .moveActive .. | .saveBundle _ => true
  | .paste text w =>
      match resolveParsedImport w text none with
      | .ok (some (.parsed ..)) => true
      | _ => false
  | _ => false

/-- The lists a step asks, with the network it finds. -/
def StoreEvent.asks (b : LocationBundleV4) :
    StoreEvent → Option (Option (List Text) × (Text → World))
  | .refresh only w => some (only, w)
  | .refreshDue now w => some (some (Store.dueUrls b now), w)
  | _ => none

/-- A step that brings no location to a store without any: it serves no list,
and its read finds none in the storage before bundles. -/
def BringsNone (s : Store) (e : StoreEvent) : Prop :=
  (∀ legacy, s.legacyBundle = .ok legacy → legacy.normalized.locations = []) ∧
    ∀ b only w, s.stored = some b → e.asks b = some (only, w) →
      ∀ p ∈ askedLists b only w, p.2.lines = []

/-- A step that is no choice, taken while locations are stored or bringing none. -/
def Unprompted (s : Store) (e : StoreEvent) : Prop :=
  e.isChoice = false ∧ (s.locations ≠ [] ∨ BringsNone s e)

section Steps

variable {s s' : Store} {e : StoreEvent}

theorem Unprompted.adoptsNothing (h : Unprompted s e) : s.AdoptsNothing := h.2.imp id And.left

theorem Unprompted.serves (h : Unprompted s e) {b : LocationBundleV4} {only : Option (List Text)}
    {w : Text → World} (hstored : s.stored = some b) (hasks : e.asks b = some (only, w))
    (hnil : b.locations = []) : ∀ p ∈ askedLists b only w, p.2.lines = [] := by
  rcases h.2 with hlocations | hbrings
  · refine absurd ?_ hlocations
    rw [Store.locations, hstored]
    exact hnil
  · exact hbrings.2 b only w hstored hasks

/-- A refused paste takes its list's entries and selects nothing. -/
theorem Store.Quiet.paste {text : Text} {w : World} {report : Store.ImportReport} (h : s.Quiet)
    (hstep : Unprompted s (.paste text w)) (hpaste : s.importReport w text = .ok (s', report)) :
    s'.Quiet := by
  unfold Store.importReport at hpaste
  obtain ⟨resolution, hresolved, hpaste⟩ := bind_eq_ok.mp hpaste
  have hchoice := hstep.1
  rw [StoreEvent.isChoice, hresolved] at hchoice
  split at hpaste
  · cases hpaste
    exact h
  · cases hchoice
  · obtain ⟨s₂, hchange, hpaste⟩ := bind_eq_ok.mp hpaste
    cases hpaste
    refine h.change hstep.adoptsNothing (fun b hb => ?_) hchange
    refine hb.change ?_ (fun hflag => Bool.or_eq_true_iff.mpr (Or.inl hflag)) ?_
    · show (if Option.any _ b.activeLocationId = true then none else b.activeLocationId) = none
      rw [hb.1]
      split <;> rfl
    · intro hne hnil
      refine hne ?_
      show b.locations.filter _ = []
      rw [hnil]
      rfl

theorem Store.Quiet.deleteSubscription {url : Text} {removed : Nat} (h : s.Quiet)
    (hadopts : s.AdoptsNothing) (hdelete : s.deleteSubscription url = .ok (s', removed)) :
    s'.Quiet := by
  unfold Store.deleteSubscription at hdelete
  dsimp only at hdelete
  split at hdelete
  · cases hdelete
    exact h
  · obtain ⟨⟨b, s₁⟩, hread, hrest⟩ := bind_eq_ok.mp hdelete
    obtain ⟨rfl, -, hquiet⟩ := h.read hadopts hread
    dsimp only at hrest
    split at hrest
    · cases hrest
      refine Store.quiet_save (hquiet.change ?_ (fun hflag => hflag) ?_)
      · show b.activeLocationId.filter _ = none
        rw [hquiet.1]
        rfl
      · intro hne hnil
        refine hne ?_
        show b.locations.filter _ = []
        rw [hnil]
        rfl
    · cases hrest
      exact h

theorem Store.Quiet.refreshDue {now : Int} {w : Text → World} {report : SubscriptionRefreshReport}
    (h : s.Quiet) (hstep : Unprompted s (.refreshDue now w))
    (hrefresh : s.refreshDueSubscriptions now w = .ok (s', report)) : s'.Quiet := by
  obtain ⟨⟨b, s₁⟩, hread, hrest⟩ := bind_eq_ok.mp hrefresh
  obtain ⟨rfl, hstored, -⟩ := h.read hstep.adoptsNothing hread
  dsimp only at hrest
  split at hrest
  · cases hrest
    exact h
  · refine h.refresh hstep.adoptsNothing (fun b' hb' hnil => ?_) hrest
    rw [hstored] at hb'
    cases hb'
    exact hstep.serves hstored rfl hnil

/-- **One step that is no choice keeps the selection withdrawn.** -/
theorem quiet_perform (h : s.Quiet) (hstep : Unprompted s e) (hperform : s.perform e = .ok s') :
    s'.Quiet := by
  have hadopts := hstep.adoptsNothing
  -- The changes that leave the selection and the locations alone.
  have hsame : ∀ f : LocationBundleV4 → LocationBundleV4, s.change f = .ok s' →
      (∀ b, (f b).activeLocationId = b.activeLocationId ∧ (f b).locations = b.locations ∧
        (f b).selectionWithdrawn = b.selectionWithdrawn) → s'.Quiet := by
    intro f hchange hf
    refine h.change hadopts (fun b hb => ?_) hchange
    obtain ⟨hactive, hlocations, hflag⟩ := hf b
    exact hb.change (hactive.trans hb.1) (fun hw => hflag.trans hw) fun hne => hlocations ▸ hne
  cases e with
  | read =>
      obtain ⟨⟨b, s₁⟩, hread, rfl⟩ := map_eq_ok.mp hperform
      obtain ⟨rfl, -, -⟩ := h.read hadopts hread
      exact h
  | refresh only w =>
      obtain ⟨⟨s₁, report⟩, hrefresh, rfl⟩ := map_eq_ok.mp hperform
      exact h.refresh hadopts (fun b hb hnil => hstep.serves hb rfl hnil) hrefresh
  | refreshDue now w =>
      obtain ⟨⟨s₁, report⟩, hrefresh, rfl⟩ := map_eq_ok.mp hperform
      exact h.refreshDue hstep hrefresh
  | paste text w =>
      obtain ⟨⟨s₁, report⟩, hpaste, rfl⟩ := map_eq_ok.mp hperform
      exact h.paste hstep hpaste
  | setInterval url hours =>
      unfold Store.perform Store.setSubscriptionUpdateInterval at hperform
      dsimp only at hperform
      split at hperform
      · cases hperform
        exact h
      · refine h.change hadopts (fun b hb => ?_) hperform
        refine hb.change hb.1 (fun hflag => hflag) fun hne hnil => hne ?_
        show b.locations.map _ = []
        rw [hnil]
        rfl
  | changeSettings f =>
      unfold Store.perform Store.changeSubscriptionSettings at hperform
      exact hsame _ hperform fun b => ⟨rfl, rfl, rfl⟩
  | saveRouting settings =>
      unfold Store.perform Store.saveRoutingSettings at hperform
      exact hsame _ hperform fun b => ⟨rfl, rfl, rfl⟩
  | acceptDisclosure atMillis =>
      obtain ⟨⟨b, s₁⟩, hread, hsave⟩ := bind_eq_ok.mp hperform
      obtain ⟨rfl, -, hquiet⟩ := h.read hadopts hread
      dsimp only at hsave
      split at hsave
      · cases hsave
        exact h
      · cases hsave
        exact Store.quiet_save (hquiet.change hquiet.1 (fun hflag => hflag) fun hne => hne)
  | setOnboarding atMillis =>
      unfold Store.perform Store.setOnboardingSeen at hperform
      exact hsame _ hperform fun b => ⟨rfl, rfl, rfl⟩
  | deleteSubscription url =>
      obtain ⟨⟨s₁, removed⟩, hdelete, rfl⟩ := map_eq_ok.mp hperform
      exact h.deleteSubscription hadopts hdelete
  | deleteLocation id =>
      unfold Store.perform Store.deleteLocation at hperform
      refine h.change hadopts (fun b hb => ?_) hperform
      refine hb.change ?_ (fun hflag => hflag) fun hne hnil => hne ?_
      · show b.activeLocationId.filter _ = none
        rw [hb.1]
        rfl
      · show b.locations.filter _ = []
        rw [hnil]
        rfl
  | saveLocation id location => cases hstep.1
  | setActive id => cases hstep.1
  | moveActive old new group => cases hstep.1
  | saveBundle bundle => cases hstep.1

theorem quiet_step (h : s.Quiet) (hstep : Unprompted s e) (hs' : s.step e = some s') :
    s'.Quiet := by
  unfold Store.step at hs'
  split at hs'
  · rename_i hperform
    cases hs'
    exact quiet_perform h hstep hperform
  · cases hs'
    exact h
  · cases hs'
    rw [h.afterRead hstep.adoptsNothing]
    exact h

end Steps

/-! ### Histories after a refusal -/

/-- A refusal that took the selection, and the store it left: a refresh that
says so, or a paste of the list the selected entry was in. -/
inductive TakesSelection (s : Store) : Store → Prop
  | refresh {only : Option (List Text)} {w : Text → World} {s' : Store}
      {report : SubscriptionRefreshReport}
      (hrefresh : s.refreshSubscriptionsUnlocked only w = .ok (s', report))
      (htook : report.refusedSelection = true) : TakesSelection s s'
  | refreshDue {now : Int} {w : Text → World} {s' : Store} {report : SubscriptionRefreshReport}
      (hrefresh : s.refreshDueSubscriptions now w = .ok (s', report))
      (htook : report.refusedSelection = true) : TakesSelection s s'
  | paste {text : Text} {w : World} {b : LocationBundleV4} {s₁ s' : Store} {source : ImportSource}
      {originLink : Option Text} {report : Store.ImportReport} {e : LocationEntry}
      (hread : s.getBundleUnlocked = .ok (b, s₁))
      (hresolved : resolveParsedImport w text none = .ok (some (.refused source originLink)))
      (he : e ∈ b.locations) (hactive : b.activeLocationId = some e.storageId)
      (hlist : e.subscriptionUrl.map trim = some (trim (source.subscriptionUrl.getD (trim text))))
      (hpaste : s.importReport w text = .ok (s', report)) : TakesSelection s s'

theorem quiet_refresh_of_refusedSelection {s s' : Store} {only : Option (List Text)}
    {w : Text → World} {report : SubscriptionRefreshReport}
    (hrefresh : s.refreshSubscriptionsUnlocked only w = .ok (s', report))
    (htook : report.refusedSelection = true) : s'.Quiet := by
  have hbind := hrefresh
  unfold Store.refreshSubscriptionsUnlocked at hbind
  obtain ⟨⟨b, s₁⟩, hread, -⟩ := bind_eq_ok.mp hbind
  rw [refresh_eq hread (allAnswered_of_refresh hread hrefresh)] at hrefresh
  split at hrefresh
  · cases hrefresh
    cases htook
  · cases hrefresh
    exact Store.quiet_save (quiet_of_refusedSelection (Store.clean_getBundleUnlocked hread) htook)

theorem TakesSelection.quiet {s s' : Store} (h : TakesSelection s s') : s'.Quiet := by
  cases h with
  | refresh hrefresh htook => exact quiet_refresh_of_refusedSelection hrefresh htook
  | refreshDue hrefresh htook =>
      obtain ⟨⟨b, s₁⟩, hread, hrest⟩ := bind_eq_ok.mp hrefresh
      dsimp only at hrest
      split at hrest
      · cases hrest
        cases htook
      · exact quiet_refresh_of_refusedSelection hrest htook
  | @paste text w b s₁ s' source originLink report e hread hresolved he hactive hlist hpaste =>
      unfold Store.importReport at hpaste
      obtain ⟨resolution, hresolution, hpaste⟩ := bind_eq_ok.mp hpaste
      rw [hresolved] at hresolution
      cases hresolution
      obtain ⟨s₂, hchange, hpaste⟩ := bind_eq_ok.mp hpaste
      cases hpaste
      obtain ⟨⟨b', s₃⟩, hread', hsave⟩ := bind_eq_ok.mp hchange
      rw [hread] at hread'
      cases hread'
      cases hsave
      refine Store.quiet_save ?_
      set listUrl := source.subscriptionUrl.getD (trim text) with hlistUrl
      -- The selected entry is one of those that go.
      have hgone : ∀ refused : RefusedList, refused.subscriptionUrl = trim listUrl →
          (Store.withRefusal b refused).Quiet := by
        intro refused hrefused
        have hselected : b.activeLocationId.any (LocationBundleV4.holds (b.locations.filter
            (·.subscriptionUrl.map trim = some refused.subscriptionUrl))) = true := by
          rw [hactive, Option.any_some, LocationBundleV4.holds, List.any_eq_true]
          refine ⟨e, List.mem_filter.mpr ⟨he, ?_⟩, beq_self_eq_true _⟩
          rw [hrefused, hlist]
          exact decide_eq_true rfl
        exact ⟨if_pos hselected, fun _ => Bool.or_eq_true_iff.mpr (Or.inr hselected)⟩
      exact hgone _ rfl

/-- **A selection a refusal took away is given back by no answer**: over every
history of steps that are no choice, each taken while locations are stored or
bringing none, nothing is selected. -/
theorem withdrawn_selection_stays {s₀ s s' : Store} {es : List StoreEvent}
    (htook : TakesSelection s₀ s) (hsteps : AllSteps Store.step Unprompted s es)
    (hrun : run Store.step s es = some s') : s'.stored.bind (·.activeLocationId) = none := by
  have hquiet : s'.Quiet :=
    run_inv (fun _ _ _ h hstep hs' => quiet_step h hstep hs') htook.quiet hsteps hrun
  obtain ⟨b, hstored, hactive, -⟩ := hquiet
  rw [hstored, Option.bind_some, hactive]

end

/-! ### A list among others, and the only one -/

section

attribute [local instance] Build.plain

/-- The store after a step. -/
def stepped (s : Store) (e : StoreEvent) : Store := (s.step e).getD s

theorem step_stepped (s : Store) (e : StoreEvent) : s.step e = some (stepped s e) := by
  have hsome : (s.step e).isSome = true := by
    unfold Store.step
    split <;> rfl
  obtain ⟨s', hs'⟩ := Option.isSome_iff_exists.mp hsome
  rw [stepped, hs', Option.getD_some]

/-- What can be checked of a refusal that took the selection. -/
theorem takesSelection_of_checked {s : Store} {only : Option (List Text)} {w : Text → World}
    (h : (s.refreshSubscriptionsUnlocked only w).toOption.any (·.2.refusedSelection) = true) :
    TakesSelection s (stepped s (.refresh only w)) := by
  cases hrefresh : s.refreshSubscriptionsUnlocked only w with
  | error err =>
      rw [hrefresh] at h
      cases h
  | ok r =>
      have hstepped : stepped s (.refresh only w) = r.1 := by
        have hperform : s.perform (.refresh only w) = .ok r.1 := by
          rw [Store.perform, hrefresh]
          rfl
        unfold stepped Store.step
        rw [hperform]
        rfl
      rw [hrefresh] at h
      rw [hstepped]
      exact .refresh hrefresh h

/-- The second of two lists refuses; the first does not answer. -/
def otherRefuses (url : Text) : World := if url = otherList then .refusing else .failing

theorem withdrawn_selection_stays_twoLists :
    ∃ s s', TakesSelection twoLists s ∧
      run Store.step s [.refresh none fun _ => .serving linkA, .setInterval someList 5] = some s' ∧
      s'.stored.bind (·.activeLocationId) = none := by
  have htook : TakesSelection twoLists (stepped twoLists (.refresh none otherRefuses)) :=
    takesSelection_of_checked (by decide)
  set s := stepped twoLists (.refresh none otherRefuses) with hs
  have hfirst := step_stepped s (.refresh none fun _ => .serving linkA)
  have hsecond := step_stepped (stepped s (.refresh none fun _ => .serving linkA))
    (.setInterval someList 5)
  have hrun : run Store.step s [.refresh none fun _ => .serving linkA, .setInterval someList 5] =
      some (stepped (stepped s (.refresh none fun _ => .serving linkA))
        (.setInterval someList 5)) :=
    run_cons_eq_some.mpr ⟨_, hfirst, run_cons_eq_some.mpr ⟨_, hsecond, rfl⟩⟩
  refine ⟨s, _, htook, hrun, withdrawn_selection_stays htook ?_ hrun⟩
  refine allSteps_cons hfirst ⟨rfl, Or.inl ?_⟩ (allSteps_cons hsecond ⟨rfl, Or.inl ?_⟩ trivial)
  · rw [hs]
    decide
  · rw [hs]
    decide +kernel

/-- **The only list, refused and served again, is selected from**: nothing was
left to withdraw, and the refresh that serves it takes its first entry. -/
theorem only_list_served_again_selects :
    ∃ s s', TakesSelection twinLinks s ∧ s.stored.bind (·.activeLocationId) = none ∧
      (StoreEvent.refresh none fun _ => .serving linkA).isChoice = false ∧
      run Store.step s [.refresh none fun _ => .serving linkA] = some s' ∧
      s'.stored.bind (·.activeLocationId) = some (txt "imported_a") := by
  refine ⟨stepped twinLinks (.refresh none fun _ => .refusing), _,
    takesSelection_of_checked (by decide), by decide, rfl,
    run_cons_eq_some.mpr ⟨_, step_stepped _ _, rfl⟩, ?_⟩
  decide

end

end Ghostlane.App
