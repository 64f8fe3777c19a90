import Ghostlane.App.Answers

/-!
# Ghostlane.App.RefreshSound

**What a refresh leaves in the store.** `Conserves` is what it should leave: a
served list one entry to an importable line, a list whose answer came to nothing
its entries, a refused list none, and everything else as it was.

It does so exactly when its new names stay clear of the ids lists handled later
keep (`NamesClear`). Where they do not, one of two entries of one id is lost, in
`preserve` or in `normalized`.
-/

namespace Ghostlane.App

open Ghostlane.Lib

section

variable [Build]

/-! ### What a refresh conserves -/

/-- The entries of a list after a refresh, as its answer decides them. -/
def Outcome.Conserves (b : LocationBundleV4) (url : Text) (after : List LocationEntry) :
    Outcome → Prop
  | kept => after = b.entriesOf url
  | refused _ => after = []
  | served source _ => after.map (·.location.line) =
      importable (normalizedImportText source.content)

/-- **What a refresh is to leave** of a bundle. -/
structure Conserves (b : LocationBundleV4) (only : Option (List Text)) (w : Text → World)
    (after : List LocationEntry) : Prop where
  lists : ∀ url ∈ b.targetUrls only,
    (outcomeOf (answerOf b w url)).Conserves b url (after.filter (·.listUrl = some url))
  others : after.filter (b.notAsked only) = b.locations.filter (b.notAsked only)
  nodup : (after.map (·.storageId)).Nodup

/-- No new name is an id that a list handled later keeps. -/
def NamesClear (b : LocationBundleV4) (only : Option (List Text)) (w : Text → World) : Prop :=
  ClearFrom b ((b.locations.filter (b.notAsked only)).map (·.storageId)) (askedLists b only w)

section Conservation

variable {b : LocationBundleV4} {only : Option (List Text)} {w : Text → World}

/-- Lists do not share entries, nor ids. -/
theorem disjoint_ids_entriesOf (hclean : b.Clean) {url url' : Text} (hne : url ≠ url') :
    List.Disjoint ((b.entriesOf url).map (·.storageId)) ((b.entriesOf url').map (·.storageId)) := by
  intro id hid hid'
  obtain ⟨e, he, rfl⟩ := List.mem_map.mp hid
  obtain ⟨e', he', heq⟩ := List.mem_map.mp hid'
  obtain ⟨hmem, hurl⟩ := List.mem_filter.mp he
  obtain ⟨hmem', hurl'⟩ := List.mem_filter.mp he'
  obtain rfl := List.inj_on_of_nodup_map hclean.nodup hmem' hmem heq
  rw [decide_eq_true_eq] at hurl hurl'
  rw [hurl] at hurl'
  exact hne (Option.some.inj hurl')

/-- The entries no list asked has share no id with a list that is asked. -/
theorem disjoint_ids_others (hclean : b.Clean) {url : Text} (hurl : url ∈ b.targetUrls only) :
    List.Disjoint ((b.locations.filter (b.notAsked only)).map (·.storageId))
      ((b.entriesOf url).map (·.storageId)) := by
  intro id hid hid'
  obtain ⟨e, he, rfl⟩ := List.mem_map.mp hid
  obtain ⟨e', he', heq⟩ := List.mem_map.mp hid'
  obtain ⟨hmem, hnot⟩ := List.mem_filter.mp he
  obtain ⟨hmem', hurl'⟩ := List.mem_filter.mp he'
  obtain rfl := List.inj_on_of_nodup_map hclean.nodup hmem' hmem heq
  rw [decide_eq_true_eq] at hurl'
  rw [LocationBundleV4.notAsked, hurl', Option.all_some, decide_eq_true_eq] at hnot
  exact hnot hurl

theorem disjoint_others_keptIds (hclean : b.Clean) {p : Text × Outcome}
    (hp : p ∈ askedLists b only w) :
    List.Disjoint ((b.locations.filter (b.notAsked only)).map (·.storageId))
      (p.2.keptIds b p.1) := by
  obtain ⟨url, hurl, rfl⟩ := List.mem_map.mp hp
  intro id hid hid'
  exact disjoint_ids_others hclean hurl hid (Outcome.mem_keptIds b hid')

/-- Lists that all stay as they were take only ids of their own. -/
theorem clearFrom_of_kept (hclean : b.Clean) {lists : List (Text × Outcome)} (hlists : Asked lists)
    (hkept : ∀ p ∈ lists, p.2 = .kept) (used : List Text) : ClearFrom b used lists := by
  induction lists generalizing used with
  | nil => trivial
  | cons p lists ih =>
      obtain ⟨url, o⟩ := p
      obtain rfl : o = .kept := hkept _ List.mem_cons_self
      refine ⟨fun q hq id hid hid' => ?_,
        ih hlists.tail (fun q hq => hkept q (List.mem_cons_of_mem _ hq)) _⟩
      exact disjoint_ids_entriesOf hclean (hlists.ne_head hq).symm (List.mem_reverse.mp hid)
        (Outcome.mem_keptIds b hid')

/-- A refresh that changes nothing conserves. -/
theorem conserves_self (hclean : b.Clean) (hkept : ∀ p ∈ askedLists b only w, p.2 = .kept) :
    Conserves b only w b.locations where
  lists url hurl := by
    have houtcome : outcomeOf (answerOf b w url) = .kept :=
      hkept _ (List.mem_map_of_mem (f := fun url => (url, outcomeOf (answerOf b w url))) hurl)
    rw [houtcome]
    rfl
  others := rfl
  nodup := hclean.nodup

omit [Build] in
/-- Where an entry is filed does not change when it is stored. -/
theorem listUrl_settled {e : LocationEntry} (h : ∃ e₀ : LocationEntry, e₀.normalized = e) :
    e.normalized.normalized.listUrl = e.listUrl := by
  obtain ⟨e₀, rfl⟩ := h
  have hurl : e₀.normalized.normalized.normalized.subscriptionUrl = e₀.normalized.subscriptionUrl :=
    (LocationEntry.urlOf_urlOf _ _).trans (LocationEntry.urlOf_urlOf _ _)
  rw [LocationEntry.listUrl, hurl, LocationEntry.listUrl]

/-- An entry that is stored as it is, up to settling. -/
structure Storable (e : LocationEntry) : Prop where
  normalized : ∃ e₀ : LocationEntry, e₀.normalized = e
  trim_id : trim e.storageId = e.storageId
  kept : isBlank e.storageId = false ∧ e.location.isComplete = true

theorem storable_of_clean (hclean : b.Clean) {e : LocationEntry} (he : e ∈ b.locations) :
    Storable e where
  normalized := ⟨e, hclean.settled e he⟩
  trim_id := hclean.trim_id he
  kept := hclean.isComplete he

variable (only w) in
theorem storable_refreshedBy (hclean : b.Clean) :
    ∀ e ∈ (refreshedBy b only w).locations, Storable e := by
  intro e he
  rw [refreshedBy_locations] at he
  rcases List.mem_append.mp he with he | he
  · exact storable_of_clean hclean (List.mem_filter.mp he).1
  · obtain ⟨p, hp, used', hfiled⟩ := exists_of_mem_filedAll he
    have hid := Outcome.id_of_mem_filed hclean hfiled
    exact
      { normalized := Outcome.normalized_of_mem_filed hclean hfiled
        trim_id := hid.1
        kept := ⟨hid.2, Outcome.isComplete_of_mem_filed hclean (whole_askedLists hp) hfiled⟩ }

/-- Settling entries keeps which list has which. -/
theorem filter_map_settled {es : List LocationEntry} (hes : ∀ e ∈ es, Storable e)
    (p : Option Text → Bool) :
    (es.map (·.normalized.normalized)).filter (p ·.listUrl) =
      (es.filter (p ·.listUrl)).map (·.normalized.normalized) := by
  rw [List.filter_map]
  refine congrArg _ (List.filter_congr fun e he => ?_)
  rw [Function.comp_apply, listUrl_settled (hes e he).normalized]

theorem map_settled_of_clean (hclean : b.Clean) {es : List LocationEntry}
    (hes : ∀ e ∈ es, e ∈ b.locations) : es.map (·.normalized.normalized) = es := by
  conv_rhs => rw [← List.map_id es]
  refine List.map_congr_left fun e he => ?_
  rw [hclean.settled e (hes e he), hclean.settled e (hes e he), id]

theorem filter_refreshedBy_asked {url : Text}
    (hurl : url ∈ b.targetUrls only) :
    (refreshedBy b only w).locations.filter (·.listUrl = some url) =
      (filedAll b w ((b.locations.filter (b.notAsked only)).map (·.storageId))
        (askedLists b only w)).filter (·.listUrl = some url) := by
  have hothers : (b.locations.filter (b.notAsked only)).filter (·.listUrl = some url) = [] := by
    rw [List.filter_eq_nil_iff]
    intro e he heq
    have hnot := (List.mem_filter.mp he).2
    rw [LocationBundleV4.notAsked, of_decide_eq_true heq, Option.all_some,
      decide_eq_true_eq] at hnot
    exact hnot hurl
  rw [refreshedBy_locations, List.filter_append, hothers, List.nil_append]

theorem filter_refreshedBy_notAsked (hmoved : Unmoved b only w) :
    (refreshedBy b only w).locations.filter (b.notAsked only) =
      b.locations.filter (b.notAsked only) := by
  have hfiled : (filedAll b w ((b.locations.filter (b.notAsked only)).map (·.storageId))
      (askedLists b only w)).filter (b.notAsked only) = [] := by
    rw [List.filter_eq_nil_iff]
    intro e he hnot
    obtain ⟨p, hp, hurl⟩ := listUrl_of_mem_filedAll (asked_askedLists hmoved) he
    obtain ⟨url, htarget, rfl⟩ := List.mem_map.mp hp
    rw [LocationBundleV4.notAsked, hurl, Option.all_some, decide_eq_true_eq] at hnot
    exact hnot htarget
  rw [refreshedBy_locations, List.filter_append, hfiled, List.append_nil, List.filter_filter]
  simp only [Bool.and_self]

/-- The entries of a refresh that loses none are those it is to leave. -/
theorem conserves_of_whole (hclean : b.Clean) (hmoved : Unmoved b only w)
    (hnodup : ((refreshedBy b only w).locations.map (·.storageId)).Nodup)
    (hwhole : ∀ p ∈ askedLists b only w,
      ((refreshedBy b only w).locations.filter (·.listUrl = some p.1)).length =
        p.2.width b p.1) :
    Conserves b only w ((refreshedBy b only w).locations.map (·.normalized.normalized)) where
  lists url hurl := by
    have hasked := asked_askedLists hmoved
    have hp : (url, outcomeOf (answerOf b w url)) ∈ askedLists b only w := List.mem_map_of_mem hurl
    have hlen := hwhole _ hp
    have ho := whole_askedLists hp
    obtain ⟨used', hfiled⟩ := filter_filedAll b w
      ((b.locations.filter (b.notAsked only)).map (·.storageId)) hasked hp
    rw [filter_refreshedBy_asked hurl, hfiled] at hlen
    rw [filter_map_settled (storable_refreshedBy only w hclean)
      (fun u => u = some url), filter_refreshedBy_asked hurl, hfiled]
    dsimp only at hlen ho ⊢
    cases houtcome : outcomeOf (answerOf b w url) with
    | kept =>
        rw [houtcome] at hlen
        have hall : Outcome.kept.filed b (w url) used' url = b.entriesOf url :=
          (distinctFrom_sublist _ _).eq_of_length hlen
        rw [hall]
        exact map_settled_of_clean hclean fun e he => (List.mem_filter.mp he).1
    | refused source => rfl
    | served source lines =>
        rw [houtcome] at ho
        show List.map _ (List.map _ (List.zipWith _ _ _)) = _
        rw [List.map_map, ← ho.1]
        refine map_zipWith_left (by simp) fun line _ id => ?_
        simp only [Function.comp_apply, LocationEntry.line_normalized, refile_line]
  others := by
    have hsettled := filter_map_settled (storable_refreshedBy only w hclean)
      (fun u => u.all (· ∉ b.targetUrls only))
    refine hsettled.trans ?_
    have hothers := filter_refreshedBy_notAsked hmoved
    unfold LocationBundleV4.notAsked at hothers ⊢
    rw [hothers]
    exact map_settled_of_clean hclean fun e he => (List.mem_filter.mp he).1
  nodup := by
    have hids : ((refreshedBy b only w).locations.map (·.normalized.normalized)).map
        (·.storageId) = (refreshedBy b only w).locations.map (·.storageId) := by
      rw [List.map_map]
      refine List.map_congr_left fun e he => ?_
      have htrim := (storable_refreshedBy only w hclean e he).trim_id
      show trim (trim e.storageId) = e.storageId
      rw [htrim, htrim]
    rw [hids]
    exact hnodup

/-- The entries a list has where it is conserved are as many as it is to have. -/
theorem length_of_conserves {after : List LocationEntry}
    (h : Conserves b only w after) {p : Text × Outcome} (hp : p ∈ askedLists b only w) :
    (after.filter (·.listUrl = some p.1)).length = p.2.width b p.1 := by
  have ho := whole_askedLists hp
  obtain ⟨url, hurl, rfl⟩ := List.mem_map.mp hp
  have hlist := h.lists url hurl
  dsimp only at ho ⊢
  cases houtcome : outcomeOf (answerOf b w url) with
  | kept =>
      rw [houtcome] at hlist
      exact congrArg List.length hlist
  | refused source =>
      rw [houtcome] at hlist
      exact congrArg List.length hlist
  | served source lines =>
      rw [houtcome] at hlist ho
      have hlines := congrArg List.length (hlist.trans ho.1.symm)
      rwa [List.length_map, List.length_map] at hlines

/-- **Where a refresh conserves, none of its entries was lost.** -/
theorem whole_of_conserves (hclean : b.Clean) (hmoved : Unmoved b only w)
    {after : List LocationEntry}
    (hsub : List.Sublist after ((refreshedBy b only w).locations.map (·.normalized.normalized)))
    (h : Conserves b only w after) :
    ((refreshedBy b only w).locations.map (·.storageId)).Nodup ∧
      ∀ p ∈ askedLists b only w,
        ((refreshedBy b only w).locations.filter (·.listUrl = some p.1)).length =
          p.2.width b p.1 := by
  have hasked := asked_askedLists hmoved
  have hstorable := storable_refreshedBy only w hclean
  have hfilter := fun k => filter_map_settled hstorable (fun u => decide (u = k))
  -- No list has fewer entries stored than it had filed.
  have hall : after = (refreshedBy b only w).locations.map (·.normalized.normalized) := by
    refine eq_of_sublist_of_filter_length (·.listUrl) hsub fun k => ?_
    rw [hfilter k, List.length_map]
    by_cases hk : ∃ url ∈ b.targetUrls only, k = some url
    · obtain ⟨url, hurl, rfl⟩ := hk
      have hp : (url, outcomeOf (answerOf b w url)) ∈ askedLists b only w :=
        List.mem_map_of_mem hurl
      obtain ⟨used', hfiled⟩ := filter_filedAll b w
        ((b.locations.filter (b.notAsked only)).map (·.storageId)) hasked hp
      rw [filter_refreshedBy_asked hurl, hfiled, length_of_conserves h hp]
      exact Outcome.length_filed_le b _ _ _ _
    · have hnot : ∀ es : List LocationEntry, es.filter (·.listUrl = k) =
          (es.filter (b.notAsked only)).filter (·.listUrl = k) := by
        intro es
        rw [List.filter_filter]
        refine List.filter_congr fun e _ => ?_
        by_cases he : e.listUrl = k
        · have hnone : b.notAsked only e = true := by
            rw [LocationBundleV4.notAsked, he]
            cases k with
            | none => rfl
            | some url => simpa using fun hurl => hk ⟨url, hurl, rfl⟩
          simp [he, hnone]
        · simp [he]
      rw [hnot, hnot after, filter_refreshedBy_notAsked hmoved, h.others]
  refine ⟨?_, fun p hp => ?_⟩
  · have hids := h.nodup
    rw [hall, List.map_map] at hids
    have hsame : (refreshedBy b only w).locations.map
        ((·.storageId) ∘ fun e : LocationEntry => e.normalized.normalized) =
        (refreshedBy b only w).locations.map (·.storageId) := by
      refine List.map_congr_left fun e he => ?_
      have htrim := (hstorable e he).trim_id
      show trim (trim e.storageId) = e.storageId
      rw [htrim, htrim]
    rw [hsame] at hids
    exact hids
  · rw [← length_of_conserves h hp, hall, hfilter, List.length_map]

/-- Names that stay clear are what makes a refresh lose nothing. -/
theorem namesClear_iff_whole (hclean : b.Clean) (hmoved : Unmoved b only w) :
    NamesClear b only w ↔
      ((refreshedBy b only w).locations.map (·.storageId)).Nodup ∧
        ∀ p ∈ askedLists b only w,
          ((refreshedBy b only w).locations.filter (·.listUrl = some p.1)).length =
            p.2.width b p.1 := by
  have hasked := asked_askedLists hmoved
  have hwidths : ∀ p ∈ askedLists b only w,
      (refreshedBy b only w).locations.filter (·.listUrl = some p.1) =
        (filedAll b w ((b.locations.filter (b.notAsked only)).map (·.storageId))
          (askedLists b only w)).filter (·.listUrl = some p.1) := by
    intro p hp
    obtain ⟨url, hurl, rfl⟩ := List.mem_map.mp hp
    exact filter_refreshedBy_asked hurl
  constructor
  · intro hclear
    obtain ⟨hnodup, hdisjoint, hwhole⟩ := filedAll_of_clear (w := w) hclean hasked
      (fun p hp => disjoint_others_keptIds hclean hp) hclear
    refine ⟨?_, fun p hp => ?_⟩
    · rw [refreshedBy_locations, List.map_append]
      exact List.nodup_append'.mpr
        ⟨hclean.nodup.sublist (List.filter_sublist.map _), hnodup, hdisjoint⟩
    · rw [hwidths p hp]
      exact hwhole p hp
  · rintro ⟨hnodup, hwhole⟩
    rw [refreshedBy_locations, List.map_append] at hnodup
    refine (clear_of_filedAll (w := w) hclean hasked (List.nodup_append'.mp hnodup).2.1 ?_).1
    intro p hp
    rw [← hwidths p hp]
    exact hwhole p hp

theorem sublist_save (s : Store) (b : LocationBundleV4) :
    List.Sublist (s.save b).locations (b.locations.map (·.normalized.normalized)) := by
  have hround : ∀ es : List LocationEntry,
      List.Sublist (LocationBundleV4.normalizedLocations es) (es.map (·.normalized)) :=
    fun es => (distinctBy_sublist _).trans List.filter_sublist
  have htwice := (hround (LocationBundleV4.normalizedLocations b.locations)).trans
    ((hround b.locations).map _)
  rwa [List.map_map] at htwice

/-- **A refresh conserves the lists exactly when every answer can be read and no
new name is an id that a list handled later keeps.** -/
theorem refresh_conserves_iff {s s₁ : Store} (hread : s.getBundleUnlocked = .ok (b, s₁))
    (hmoved : Unmoved b only w) :
    (∃ s' report, s.refreshSubscriptionsUnlocked only w = .ok (s', report) ∧
        Conserves b only w s'.locations) ↔
      AllAnswered b only w ∧ NamesClear b only w := by
  have hclean := Store.clean_getBundleUnlocked hread
  constructor
  · rintro ⟨s', report, hrefresh, hconserves⟩
    have hanswered := allAnswered_of_refresh hread hrefresh
    refine ⟨hanswered, ?_⟩
    rw [refresh_eq hread hanswered] at hrefresh
    split at hrefresh
    · rename_i hcounts
      exact clearFrom_of_kept hclean (asked_askedLists hmoved) (isKept_of_counts hcounts) _
    · cases hrefresh
      exact (namesClear_iff_whole hclean hmoved).mpr
        (whole_of_conserves hclean hmoved (sublist_save _ _) hconserves)
  · rintro ⟨hanswered, hclear⟩
    rw [refresh_eq hread hanswered]
    split
    · rename_i hcounts
      refine ⟨s₁, _, rfl, ?_⟩
      rw [(Store.reads_of_getBundleUnlocked hread).locations_eq]
      exact conserves_self hclean (isKept_of_counts hcounts)
    · refine ⟨_, _, rfl, ?_⟩
      obtain ⟨hnodup, hwhole⟩ := (namesClear_iff_whole hclean hmoved).mp hclear
      have hstorable := storable_refreshedBy only w hclean
      have hids : (refreshedBy b only w).locations.map (trim ·.storageId) =
          (refreshedBy b only w).locations.map (·.storageId) :=
        List.map_congr_left fun e he => (hstorable e he).trim_id
      rw [Store.locations_save (b := (refreshedBy b only w).bundle b)
        (fun e he => (hstorable e he).kept) (hids.symm ▸ hnodup)]
      exact conserves_of_whole hclean hmoved hnodup hwhole

end Conservation

end

/-! ### Two lists -/

section

attribute [local instance] Build.plain

/-- The store after a list was pasted and served. -/
def pasted (s : Store) (url body : Text) : Store :=
  ((s.importReport (.serving body) url).toOption.map Prod.fst).getD s

/-- The address of another list. -/
def otherList : Text := txt "https://other/list"

/-- A server called NL in one list, and one called DE in another. -/
def twoLists : Store :=
  pasted (pasted .empty someList (txt "ss://aes-256-gcm:pw@1.2.3.4:443#NL"))
    otherList (txt "ss://aes-256-gcm:pw@5.6.7.8:443#DE")

/-- The first list serves a line more; the second does not answer. -/
def firstServes (newLine : String) (url : Text) : World :=
  if url = someList then
    .serving (txt "ss://aes-256-gcm:pw@1.2.3.4:443#NL" ++ '\n' :: txt newLine)
  else .failing

/-- The bundle a read of the two lists returns. -/
def twoListsBundle : LocationBundleV4 := twoLists.stored.getD {}

theorem read_twoLists : twoLists.getBundleUnlocked = .ok (twoListsBundle, twoLists) := by
  refine Store.getBundleUnlocked_of_stored ?_ (by decide)
  have hsome : twoLists.stored.isSome = true := by decide
  obtain ⟨b, hb⟩ := Option.isSome_iff_exists.mp hsome
  rw [twoListsBundle, hb, Option.getD_some]

/-- What can be checked list by list holds of every list asked. -/
theorem unmoved_of_all {b : LocationBundleV4} {only : Option (List Text)} {w : Text → World}
    (h : (b.targetUrls only).all
      (fun url => ((answerOf b w url).bind (·.source.movedTo)).isNone) = true) :
    Unmoved b only w := by
  intro url hurl answer hanswer
  have hnone := List.all_eq_true.mp h url hurl
  rw [hanswer, Option.bind_some, Option.isNone_iff_eq_none] at hnone
  exact hnone

theorem allAnswered_of_all {b : LocationBundleV4} {only : Option (List Text)} {w : Text → World}
    (h : (b.targetUrls only).all (fun url => (askList b (w url) url).isOk) = true) :
    AllAnswered b only w := by
  intro url hurl
  have hok := List.all_eq_true.mp h url hurl
  cases hask : askList b (w url) url with
  | ok answer => exact ⟨answer, rfl⟩
  | error err =>
      rw [hask] at hok
      cases hok

theorem refresh_conserves_twoLists :
    ∃ s' report, twoLists.refreshSubscriptionsUnlocked none
        (firstServes "ss://aes-256-gcm:pw@1.2.3.4:444#FR") = .ok (s', report) ∧
      Conserves twoListsBundle none (firstServes "ss://aes-256-gcm:pw@1.2.3.4:444#FR")
        s'.locations := by
  refine (refresh_conserves_iff read_twoLists (unmoved_of_all ?_)).mpr
    ⟨allAnswered_of_all ?_, ?_⟩
  · decide
  · decide
  · show ClearFrom _ _ _
    decide +kernel

/-- **A list that did not answer loses its server**: the new line of the list
before it is called DE too, takes the id of its entry, and the entry is not kept. -/
theorem refresh_loses_kept_entry :
    twoLists.locations.map (fun e => (e.listUrl, e.storageId)) =
        [(some someList, txt "imported_nl"), (some otherList, txt "imported_de")] ∧
      ((twoLists.refreshSubscriptionsUnlocked none
          (firstServes "ss://aes-256-gcm:pw@1.2.3.4:444#DE")).toOption.map fun r =>
        r.1.locations.map fun e => (e.listUrl, e.storageId)) =
        some [(some someList, txt "imported_nl"), (some someList, txt "imported_de")] ∧
      ¬ ∃ s' report, twoLists.refreshSubscriptionsUnlocked none
          (firstServes "ss://aes-256-gcm:pw@1.2.3.4:444#DE") = .ok (s', report) ∧
        Conserves twoListsBundle none (firstServes "ss://aes-256-gcm:pw@1.2.3.4:444#DE")
          s'.locations := by
  have hafter : ((twoLists.refreshSubscriptionsUnlocked none
      (firstServes "ss://aes-256-gcm:pw@1.2.3.4:444#DE")).toOption.map fun r =>
      r.1.locations.map fun e => (e.listUrl, e.storageId)) =
      some [(some someList, txt "imported_nl"), (some someList, txt "imported_de")] := by
    decide +kernel
  refine ⟨by decide, hafter, ?_⟩
  rintro ⟨s', report, hrefresh, hconserves⟩
  rw [hrefresh] at hafter
  have hstored : s'.locations.map (fun e => (e.listUrl, e.storageId)) = _ := Option.some.inj hafter
  -- The list that did not answer had one entry, and has none.
  have hasked : otherList ∈ twoListsBundle.targetUrls none := by decide
  have hkept : outcomeOf (answerOf twoListsBundle
      (firstServes "ss://aes-256-gcm:pw@1.2.3.4:444#DE") otherList) = .kept := rfl
  have hlist := hconserves.lists otherList hasked
  rw [hkept] at hlist
  have hone : (twoListsBundle.entriesOf otherList).length = 1 := by decide
  have hnone : s'.locations.filter (·.listUrl = some otherList) = [] := by
    rw [List.filter_eq_nil_iff]
    intro e he heq
    have hmem := List.mem_map_of_mem (f := fun e : LocationEntry => (e.listUrl, e.storageId)) he
    rw [hstored, of_decide_eq_true heq] at hmem
    have hne : ∀ p ∈ [(some someList, txt "imported_nl"), (some someList, txt "imported_de")],
        p.1 ≠ some otherList := by decide
    exact hne _ hmem rfl
  rw [← show _ = twoListsBundle.entriesOf otherList from hlist, hnone] at hone
  cases hone

end

end Ghostlane.App
