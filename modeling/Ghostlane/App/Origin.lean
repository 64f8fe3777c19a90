import Ghostlane.App.RefreshSound
import Ghostlane.App.ImportFrame
import Ghostlane.App.Steps
import Ghostlane.App.Share

/-!
# Ghostlane.App.Origin

The encrypted link a list arrived as. The store knows the list by its address,
and everything filed there is to carry the link, so that the list is shared as
the link and not as the address it hides.

The link is copied by hand wherever an entry is made anew: an import stamps it, a
refresh takes it from the entries before (or from the refusal), a refusal takes it
from the entries. An edit (`saveLocation`) does not, and an entry that says a link
of its own is believed.
-/

namespace Ghostlane.App

open Ghostlane.Lib

section

variable [Build] {u link : Text}

/-! ### What carries the link -/

/-- An entry that was stored, and carries the link when it is filed at `u`. -/
structure LocationEntry.Linked (u link : Text) (e : LocationEntry) : Prop where
  settled : ∃ e₀ : LocationEntry, e₀.normalized = e
  carries : e.listUrl = some u → e.subscriptionOriginLink = some link

def RefusedList.Linked (u link : Text) (r : RefusedList) : Prop :=
  trim r.subscriptionUrl = u → r.subscriptionOriginLink = some link

/-- Everything filed at `u` carries the link. -/
structure LocationBundleV4.Linked (u link : Text) (b : LocationBundleV4) : Prop where
  locations : ∀ e ∈ b.locations, e.Linked u link
  refused : ∀ r ∈ b.refusedLists, r.Linked u link

/-- A link as it is stored. -/
structure StoredLink (link : Text) : Prop where
  trimmed : trim link = link
  not_blank : isBlank link = false

omit [Build] in
theorem StoredLink.kept (h : StoredLink link) {v : Option Text} (hv : v.map trim = some link) :
    (v.bind fun l => nonBlank (trim l)) = some link := by
  obtain ⟨l, rfl, hl⟩ := Option.map_eq_some_iff.mp hv
  rw [Option.bind_some, hl]
  exact nonBlank_eq_some.mpr ⟨h.not_blank, rfl⟩

omit [Build] in
theorem StoredLink.kept_some (h : StoredLink link) :
    ((some link).bind fun l => nonBlank (trim l)) = some link :=
  h.kept (by rw [Option.map_some, h.trimmed])

omit [Build] in
/-- An entry that differs from a linked one in neither address nor link. -/
theorem LocationEntry.Linked.normalized_of_same {e e' : LocationEntry} (h : e.Linked u link)
    (hlink : StoredLink link) (hurl : e'.subscriptionUrl = e.subscriptionUrl)
    (hlegacy : e'.legacySubscriptionUrl = e.legacySubscriptionUrl)
    (horigin : e'.subscriptionOriginLink = e.subscriptionOriginLink) :
    e'.normalized.Linked u link where
  settled := ⟨e', rfl⟩
  carries hat := by
    obtain ⟨e₀, rfl⟩ := h.settled
    have hsame : e'.normalized.subscriptionUrl = e₀.normalized.subscriptionUrl := by
      show LocationEntry.urlOf e'.subscriptionUrl e'.legacySubscriptionUrl = _
      rw [hurl, hlegacy]
      exact LocationEntry.urlOf_urlOf _ _
    rw [LocationEntry.listUrl, hsame] at hat
    show (e'.subscriptionOriginLink.bind fun l => nonBlank (trim l)) = some link
    rw [horigin, h.carries hat]
    exact hlink.kept_some

omit [Build] in
theorem LocationEntry.Linked.normalized {e : LocationEntry} (h : e.Linked u link)
    (hlink : StoredLink link) : e.normalized.Linked u link :=
  h.normalized_of_same hlink rfl rfl rfl

omit [Build] in
theorem RefusedList.Linked.normalized {r : RefusedList} (h : r.Linked u link)
    (hlink : StoredLink link) : r.normalized.Linked u link := by
  intro hurl
  have hsame : trim r.subscriptionUrl = u := (trim_trim r.subscriptionUrl).symm.trans hurl
  show (r.subscriptionOriginLink.bind fun l => nonBlank (trim l)) = some link
  rw [h hsame]
  exact hlink.kept_some

theorem LocationBundleV4.Linked.normalized {b : LocationBundleV4} (h : b.Linked u link)
    (hlink : StoredLink link) : b.normalized.Linked u link where
  locations e he := by
    obtain ⟨⟨e₀, he₀, rfl⟩, -⟩ := of_mem_normalizedLocations he
    exact (h.locations e₀ he₀).normalized hlink
  refused r hr := by
    have hr := (List.mem_filter.mp (mem_of_mem_associateBy hr)).1
    obtain ⟨r₀, hr₀, rfl⟩ := List.mem_map.mp hr
    exact (h.refused r₀ hr₀).normalized hlink

omit [Build] in
/-- A change to neither the locations nor the refused lists. -/
theorem LocationBundleV4.Linked.of_same {b b' : LocationBundleV4} (h : b.Linked u link)
    (hlocations : b'.locations ⊆ b.locations) (hrefused : b'.refusedLists ⊆ b.refusedLists) :
    b'.Linked u link :=
  ⟨fun e he => h.locations e (hlocations he), fun r hr => h.refused r (hrefused hr)⟩

namespace Store

/-- Everything stored at `u` carries the link, and nothing at `u` can be adopted. -/
structure Linked (u link : Text) (s : Store) : Prop where
  stored : ∀ b, s.stored = some b → b.Linked u link
  legacy : ∀ legacy, s.legacyBundle = .ok legacy →
    ∀ e ∈ legacy.normalized.locations, e.listUrl ≠ some u

variable {s s₁ : Store} {b : LocationBundleV4}

theorem Linked.save (h : s.Linked u link) (hlink : StoredLink link) (hb : b.Linked u link) :
    (s.save b).Linked u link where
  stored b' hb' := by
    rw [stored_save] at hb'
    cases hb'
    exact (hb.normalized hlink).normalized hlink
  legacy := h.legacy

theorem refusedLists_legacyBundle {legacy : LocationBundleV4} (h : s.legacyBundle = .ok legacy) :
    legacy.normalized.refusedLists = [] := by
  obtain ⟨found, -, hlegacy⟩ := bind_eq_ok.mp h
  cases hlegacy
  rfl

theorem Linked.read (h : s.Linked u link) (hlink : StoredLink link)
    (hread : s.getBundleUnlocked = .ok (b, s₁)) : b.Linked u link ∧ s₁.Linked u link := by
  cases reads_of_getBundleUnlocked hread with
  | stored hb hne => exact ⟨h.stored b hb, h⟩
  | @empty _ legacy hlegacy hnil hb hempty =>
      refine ⟨?_, h⟩
      cases hstored : s.stored with
      | some b₀ =>
          rw [hstored, Option.getD_some] at hb
          exact hb ▸ h.stored b₀ hstored
      | none =>
          rw [hstored, Option.getD_none] at hb
          subst hb
          refine ⟨fun e he => absurd (hempty ▸ he) List.not_mem_nil, fun r hr => ?_⟩
          rw [refusedLists_legacyBundle hlegacy] at hr
          exact absurd hr List.not_mem_nil
  | @adopted legacy hlegacy hempty hne =>
      have hadopted : (withLegacy s.stored legacy.normalized).Linked u link := by
        constructor
        · intro e he
          rw [locations_withLegacy] at he
          exact ⟨legacy.written_normalized e he,
            fun hurl => absurd hurl (h.legacy legacy hlegacy e he)⟩
        · intro r hr
          cases hstored : s.stored with
          | none =>
              rw [hstored] at hr
              exact absurd (refusedLists_legacyBundle hlegacy ▸ hr) List.not_mem_nil
          | some b₀ =>
              rw [hstored] at hr
              exact (h.stored b₀ hstored).refused r hr
      refine ⟨hadopted, ?_, h.legacy⟩
      intro b' hb'
      cases hb'
      exact hadopted.normalized hlink

end Store

/-! ### Refreshes -/

/-- An answer files its list at `u`; so may one that says it moved to no address. -/
def ImportSource.FilesAt (source : ImportSource) (url u : Text) : Prop :=
  trim (source.movedTo.getD url) = u ∨ isBlank (source.movedTo.getD url) = true

/-- What a refresh does with a list leaves what is filed at `u` with the link: a list
that is filed there is the one that is there, or came by the same link, and no line of
it says another. -/
def Outcome.FilesLinked (u link : Text) (b : LocationBundleV4) (url : Text) : Outcome → Prop
  | kept => True
  | refused source =>
      source.FilesAt url u → url = u ∨ Refreshing.previousOriginLink b url = some link
  | served source lines =>
      source.FilesAt url u →
        (url = u ∨ Refreshing.previousOriginLink b url = some link) ∧
          ∀ line ∈ lines, line.subscriptionOriginLink.all (trim · = link) = true

section Refreshes

variable {b : LocationBundleV4} {only : Option (List Text)} {w : Text → World}

omit [Build] in
/-- A list that is asked has its link, from its entries or from its refusal. -/
theorem previousOriginLink_eq (h : b.Linked u link) (hasked : u ∈ b.targetUrls only) :
    Refreshing.previousOriginLink b u = some link := by
  have hlisted : u ∈ b.listUrls → Store.originLinkOf (b.entriesOf u) = some link := by
    intro hu
    obtain ⟨e, he, hurl⟩ := LocationBundleV4.mem_listUrls.mp hu
    have hmem : e ∈ b.entriesOf u := List.mem_filter.mpr ⟨he, decide_eq_true hurl⟩
    cases hentries : b.entriesOf u with
    | nil => exact absurd (hentries ▸ hmem) List.not_mem_nil
    | cons e₁ es =>
        have he₁ := List.mem_filter.mp (hentries ▸ List.mem_cons_self (a := e₁) (l := es))
        rw [Store.originLinkOf, List.findSome?_cons,
          (h.locations e₁ he₁.1).carries (of_decide_eq_true he₁.2)]
  unfold Refreshing.previousOriginLink
  by_cases hu : u ∈ b.listUrls
  · rw [hlisted hu]
    rfl
  · have hentries : b.entriesOf u = [] := by
      refine List.filter_eq_nil_iff.mpr fun e he hurl => hu ?_
      exact LocationBundleV4.mem_listUrls.mpr ⟨e, he, of_decide_eq_true hurl⟩
    have hrefused : ∃ r ∈ b.refusedLists, trim r.subscriptionUrl = u := by
      rcases List.mem_append.mp hasked with hmem | hmem
      · exact absurd (List.mem_filter.mp hmem).1 hu
      · exact List.mem_map.mp (mem_distinct.mp (List.mem_filter.mp hmem).1)
    obtain ⟨r, hr, hurl⟩ := hrefused
    rw [hentries, LocationBundleV4.refusalAt, if_neg hu]
    cases hlast : (b.refusedLists.filter fun r => trim r.subscriptionUrl = u).getLast? with
    | none =>
        have hnil := List.getLast?_eq_none_iff.mp hlast
        exact absurd hurl (by simpa using List.filter_eq_nil_iff.mp hnil r hr)
    | some r₁ =>
        obtain ⟨hmem, hurl₁⟩ := List.mem_filter.mp (List.mem_of_getLast? hlast)
        exact h.refused r₁ hmem (of_decide_eq_true hurl₁)

omit [Build] in
/-- The refused records a refresh ends with: those of lists it did not ask or could not, and
one for each refusal. -/
theorem of_mem_refusedLists_handle {r : Refreshing} {w : World} {url : Text} {o : Option Resolution}
    {x : RefusedList} (hx : x ∈ (r.handle b w url o).refusedLists) :
    x ∈ r.refusedLists ∨
      (outcomeOf o = .kept ∧ x ∈ b.refusedLists ∧ trim x.subscriptionUrl = url) ∨
      ∃ source, outcomeOf o = .refused source ∧
      x = Store.refusedListOf w.nowEpochMs source (source.movedTo.getD url)
        (Refreshing.previousOriginLink b url)
        ((Store.subscriptionOf (b.entriesOf url)).or
          ((b.refusalAt url).bind (·.subscription))) := by
  rw [Refreshing.handle_eq] at hx
  cases houtcome : outcomeOf o with
  | kept =>
      rw [houtcome] at hx
      simp only [Refreshing.keepAsItWas, foldl_preserve] at hx
      rcases List.mem_append.mp hx with hx | hx
      · exact .inl hx
      · rw [Option.mem_toList, LocationBundleV4.refusalAt] at hx
        split at hx
        · cases hx
        · obtain ⟨hmem, hurl⟩ := List.mem_filter.mp (List.mem_of_getLast? hx)
          exact .inr (.inl ⟨rfl, hmem, of_decide_eq_true hurl⟩)
  | refused source =>
      rw [houtcome] at hx
      rcases List.mem_append.mp hx with hx | hx
      · exact .inl hx
      · exact .inr (.inr ⟨source, rfl, List.mem_singleton.mp hx⟩)
  | served source lines =>
      rw [houtcome] at hx
      exact .inl hx

omit [Build] in
theorem of_mem_refusedLists_foldl {answers : List (Text × Option Resolution)} {r : Refreshing}
    {x : RefusedList}
    (hx : x ∈ (answers.foldl (fun r a => r.handle b (w a.1) a.1 a.2) r).refusedLists) :
    x ∈ r.refusedLists ∨
      (∃ a ∈ answers, outcomeOf a.2 = .kept ∧ x ∈ b.refusedLists ∧ trim x.subscriptionUrl = a.1) ∨
      ∃ a ∈ answers, ∃ source, outcomeOf a.2 = .refused source ∧
        x = Store.refusedListOf (w a.1).nowEpochMs source (source.movedTo.getD a.1)
          (Refreshing.previousOriginLink b a.1)
          ((Store.subscriptionOf (b.entriesOf a.1)).or
            ((b.refusalAt a.1).bind (·.subscription))) := by
  induction answers generalizing r with
  | nil => exact .inl hx
  | cons a answers ih =>
      rcases ih hx with hx | ⟨a', ha', hkept⟩ | ⟨a', ha', hrefused⟩
      · rcases of_mem_refusedLists_handle hx with hx | hkept | hrefused
        · exact .inl hx
        · exact .inr (.inl ⟨a, List.mem_cons_self, hkept⟩)
        · exact .inr (.inr ⟨a, List.mem_cons_self, hrefused⟩)
      · exact .inr (.inl ⟨a', List.mem_cons_of_mem _ ha', hkept⟩)
      · exact .inr (.inr ⟨a', List.mem_cons_of_mem _ ha', hrefused⟩)

omit [Build] in
/-- A refreshed line filed at `u` has the link, its own or the list's. -/
theorem linked_refile {w : World} {url : Text} {source : ImportSource} {line : LocationEntry}
    {id : Text} (hlink : StoredLink link)
    (hfiles : source.FilesAt url u → Refreshing.previousOriginLink b url = some link ∧
      line.subscriptionOriginLink.all (trim · = link) = true) :
    (Refreshing.refile b w url source line id).Linked u link where
  settled := ⟨_, rfl⟩
  carries hurl := by
    have hat : source.FilesAt url u := by
      by_cases hblank : isBlank (source.movedTo.getD url) = true
      · exact .inr hblank
      · refine .inl ?_
        rw [LocationEntry.listUrl, refile_subscriptionUrl b w url source line id
          (Bool.not_eq_true _ ▸ hblank), Option.bind_some] at hurl
        exact (nonBlank_eq_some.mp hurl).2
    obtain ⟨hprevious, hline⟩ := hfiles hat
    refine hlink.kept ?_
    show ((line.subscriptionOriginLink.or (Refreshing.previousOriginLink b url)).map trim) =
        some link
    cases horigin : line.subscriptionOriginLink with
    | none =>
        rw [hprevious, Option.none_or, Option.map_some, hlink.trimmed]
    | some l =>
        rw [horigin, Option.all_some, decide_eq_true_eq] at hline
        rw [Option.some_or, Option.map_some, hline]

/-- **A refresh keeps the link** of what is filed at `u`. -/
theorem linked_refreshedBy (h : b.Linked u link) (hlink : StoredLink link)
    (hfiles : ∀ p ∈ askedLists b only w, p.2.FilesLinked u link b p.1) :
    ((refreshedBy b only w).bundle b).Linked u link := by
  have hprevious : ∀ p ∈ askedLists b only w,
      p.1 = u ∨ Refreshing.previousOriginLink b p.1 = some link →
      Refreshing.previousOriginLink b p.1 = some link := by
    rintro p hp (rfl | hsame)
    · obtain ⟨url, hurl, rfl⟩ := List.mem_map.mp hp
      exact previousOriginLink_eq h hurl
    · exact hsame
  constructor
  · intro e he
    replace he : e ∈ (refreshedBy b only w).locations := he
    rw [refreshedBy_locations] at he
    rcases List.mem_append.mp he with he | he
    · exact h.locations e (List.mem_filter.mp he).1
    · obtain ⟨⟨url, o⟩, hp, used, hfiled⟩ := exists_of_mem_filedAll he
      cases o with
      | kept =>
          have hmem := (distinctFrom_sublist _ _).subset hfiled
          exact h.locations e (List.mem_filter.mp hmem).1
      | refused source => cases hfiled
      | served source lines =>
          obtain ⟨line, hline, id, -, rfl⟩ := exists_of_mem_zipWith hfiled
          refine linked_refile hlink fun hat => ?_
          obtain ⟨hsame, hlines⟩ := hfiles _ hp hat
          exact ⟨hprevious _ hp hsame, hlines line hline⟩
  · intro r hr
    rcases of_mem_refusedLists_foldl hr with hr | ⟨-, -, -, hr, -⟩ | ⟨a, ha, source, houtcome, rfl⟩
    · exact h.refused r (List.mem_filter.mp hr).1
    · exact h.refused r hr
    · have hp : (a.1, outcomeOf a.2) ∈ askedLists b only w := by
        obtain ⟨url, hurl, rfl⟩ := List.mem_map.mp ha
        exact List.mem_map.mpr ⟨url, hurl, rfl⟩
      intro hurl
      have hfile := hfiles _ hp
      rw [houtcome] at hfile
      have hsame := hprevious _ hp (hfile (.inl ((trim_trim _).symm.trans hurl)))
      refine hlink.kept ?_
      rw [hsame, Option.map_some, hlink.trimmed]

end Refreshes

/-! ### Every operation -/

/-- What is resolved for an import files nothing at `u` but with the link. -/
def Resolution.FilesLinked (u link text : Text) : Resolution → Prop
  | parsed _ read =>
      ∀ e ∈ read.bundle.normalized.locations, e.listUrl = some u →
        e.subscriptionOriginLink = some link
  | refused source originLink =>
      trim (source.subscriptionUrl.getD (trim text)) = u → originLink.map trim = some link

/-- A step that leaves what is filed at `u` with its link: it edits no entry of the list,
and what it files there carries the link. -/
def KeepsLink (u link : Text) (s : Store) : StoreEvent → Prop
  | .refresh only w => ∀ b s₁, s.getBundleUnlocked = .ok (b, s₁) →
      ∀ p ∈ askedLists b only w, p.2.FilesLinked u link b p.1
  | .refreshDue now w => ∀ b s₁ b' s₂, s.getBundleUnlocked = .ok (b, s₁) →
      s₁.getBundleUnlocked = .ok (b', s₂) →
      ∀ p ∈ askedLists b' (some (Store.dueUrls b now)) w, p.2.FilesLinked u link b' p.1
  | .paste text w => ∀ resolution, resolveParsedImport w text none = .ok (some resolution) →
      resolution.FilesLinked u link text
  | .saveLocation storageId location => ∀ b s₁, s.getBundleUnlocked = .ok (b, s₁) →
      ∀ e ∈ b.locations, e.storageId = ifBlank storageId location.storageSlug →
        e.listUrl ≠ some u
  | .saveBundle bundle => bundle.normalized.Linked u link
  | _ => True

section Steps

variable {b b' : LocationBundleV4} {s s' : Store} {e : StoreEvent}

/-- An entry of a clean bundle is one that was stored. -/
theorem LocationBundleV4.Clean.settles (h : b.Clean) {e : LocationEntry} (he : e ∈ b.locations) :
    ∃ e₀ : LocationEntry, e₀.normalized = e := ⟨e, h.settled e he⟩

theorem linked_merge (h : b.Linked u link) (hlink : StoredLink link) (hclean : b.Clean)
    {p : LocationBundleV4} (restore : Bool)
    (hfiles : ∀ e ∈ p.normalized.locations, e.listUrl = some u →
      e.subscriptionOriginLink = some link) :
    (Store.mergeImportedBundle b p.normalized restore).Linked u link := by
  have himported : ∀ e ∈ p.normalized.locations, e.Linked u link := fun e he =>
    ⟨p.written_normalized e he, hfiles e he⟩
  constructor
  · by_cases hempty : b.locations = []
    · have hlocations : (Store.mergeImportedBundle b p.normalized restore).locations =
          p.normalized.locations := by
        have hcurrent : b.normalized.locations = [] := hclean.normalizedLocations_eq.trans hempty
        unfold Store.mergeImportedBundle
        dsimp only
        rw [if_pos hcurrent]
      rw [hlocations]
      exact himported
    · intro e he
      rw [LocationBundleV4.locations_merge hclean hempty] at he
      rcases List.mem_append.mp he with he | he
      · obtain ⟨k, hk, rfl⟩ := List.mem_map.mp he
        rcases LocationBundleV4.replacement_cases p.normalized restore k with heq | ⟨hin, -, -⟩
        · rw [heq]
          exact h.locations k (List.mem_filter.mp hk).1
        · exact himported _ hin
      · obtain ⟨e₀, he₀, id, -, rfl⟩ := exists_of_mem_zipWith he
        exact (himported e₀ (List.mem_filter.mp he₀).1).normalized_of_same hlink rfl rfl rfl
  · intro r hr
    have hrefused : (Store.mergeImportedBundle b p.normalized restore).refusedLists =
        b.normalized.refusedLists := by
      unfold Store.mergeImportedBundle
      dsimp only
      split
      · rfl
      · rfl
    rw [hrefused] at hr
    exact (h.normalized hlink).refused r hr

omit [Build] in
theorem linked_withRefusal (h : b.Linked u link) {r : RefusedList} (hr : r.Linked u link) :
    (Store.withRefusal b r).Linked u link := by
  refine ⟨fun e he => h.locations e (List.mem_filter.mp he).1, fun x hx => ?_⟩
  rcases List.mem_append.mp hx with hx | hx
  · exact h.refused x (List.mem_filter.mp hx).1
  · exact List.mem_singleton.mp hx ▸ hr

/-- **What an operation saves keeps the link.** -/
theorem linked_rewrites {s₁ : Store} (h : b.Linked u link) (hlink : StoredLink link)
    (hread : s.getBundleUnlocked = .ok (b, s₁)) (hkeeps : KeepsLink u link s e)
    (hrewrites : Rewrites b e b') : b'.Linked u link := by
  have hclean := Store.clean_getBundleUnlocked hread
  cases hrewrites with
  | refresh => exact linked_refreshedBy h hlink (hkeeps b s₁ hread)
  | imported hresolved => exact linked_merge h hlink hclean _ (hkeeps _ hresolved)
  | refused hresolved hurl hprevious hrefusal =>
      subst hurl
      refine linked_withRefusal h fun hat => ?_
      have horigin := hkeeps _ hresolved ((trim_trim _).symm.trans hat)
      refine hlink.kept ?_
      obtain ⟨l, rfl, hl⟩ := Option.map_eq_some_iff.mp horigin
      rw [Option.some_or, Option.some_or, Option.map_some, hl]
  | @setInterval url hours =>
      refine ⟨fun x hx => ?_, h.refused⟩
      obtain ⟨e, he, rfl⟩ := List.mem_map.mp hx
      split
      · exact (h.locations e he).normalized_of_same hlink rfl rfl rfl
      · exact h.locations e he
  | @saveLocation storageId location id hid current hcurrent entry hentry =>
      subst hid
      refine ⟨fun x hx => ?_, h.refused⟩
      rcases List.mem_append.mp hx with hx | hx
      · exact h.locations x (List.mem_filter.mp hx).1
      · rw [List.mem_singleton.mp hx, hentry]
        refine ⟨⟨_, rfl⟩, fun hurl => ?_⟩
        -- an edit takes the address of the entry it replaces, which is no entry of the list
        obtain ⟨v, hv, hu⟩ := Option.bind_eq_some_iff.mp hurl
        obtain ⟨e, he, hev⟩ := Option.bind_eq_some_iff.mp (urlOf_eq_some hv)
        rw [hcurrent] at he
        have hid := List.find?_some he
        refine absurd ?_
          (hkeeps b s₁ hread e (List.mem_of_find?_eq_some he) (of_decide_eq_true hid))
        rw [LocationEntry.listUrl, hev, Option.bind_some]
        exact hu
  | deleteSubscription hremaining =>
      subst hremaining
      exact h.of_same (List.filter_subset_self _) (List.filter_subset_self _)
  | deleteLocation => exact h.of_same (List.filter_subset_self _) (List.Subset.refl _)
  | setActive => exact h.of_same (List.Subset.refl _) (List.Subset.refl _)
  | moveActive hactive hholds => exact h.of_same (List.Subset.refl _) (List.Subset.refl _)
  | changeSettings => exact h.of_same (List.Subset.refl _) (List.Subset.refl _)
  | saveRouting => exact h.of_same (List.Subset.refl _) (List.Subset.refl _)
  | acceptDisclosure hfirst => exact h.of_same (List.Subset.refl _) (List.Subset.refl _)
  | setOnboarding => exact h.of_same (List.Subset.refl _) (List.Subset.refl _)

/-- **One step keeps the link** of what is filed at `u`. -/
theorem linked_step (hlink : StoredLink link) (h : s.Linked u link) (hkeeps : KeepsLink u link s e)
    (hstep : s.step e = some s') : s'.Linked u link := by
  cases Store.performs_of_step hstep with
  | nothing => exact h
  | reads hread => exact (h.read hlink hread).2
  | saves hread hrewrites =>
      obtain ⟨hb, hs₁⟩ := h.read hlink hread
      exact hs₁.save hlink (linked_rewrites hb hlink hread hkeeps hrewrites)
  | rereads hread hreread => exact ((h.read hlink hread).2.read hlink hreread).2
  | savesDue he hread hreread =>
      subst he
      obtain ⟨hb', hs₂⟩ := (h.read hlink hread).2.read hlink hreread
      exact hs₂.save hlink (linked_refreshedBy hb' hlink (hkeeps _ _ _ _ hread hreread))
  | @saveBundle bundle he =>
      subst he
      refine ⟨fun b hb => ?_, h.legacy⟩
      rw [Store.stored_save] at hb
      cases hb
      exact LocationBundleV4.Linked.normalized hkeeps hlink

end Steps

/-! ### What is shared -/

omit [Build] in
theorem shareText_of_linked {b : LocationBundleV4} (h : b.Linked u link)
    {item : SubscriptionShareItem}
    (hitem : item ∈ ConfigShareService.subscriptionShareItems b.locations) (hurl : item.url = u) :
    item.shareText = link := by
  obtain ⟨url, hmem, rfl⟩ := List.mem_map.mp hitem
  obtain rfl : url = u := hurl
  obtain ⟨e, he, hshared⟩ :=
    List.mem_filterMap.mp (mem_distinct.mp ((List.mem_insertionSort _).mp hmem))
  have hu : isBlank url = false := by
    have hweb := (Option.filter_eq_some_iff.mp hshared).2
    rcases Bool.or_eq_true_iff.mp hweb with hweb | hweb
    · exact not_blank_of_startsWith hweb (by decide)
    · exact not_blank_of_startsWith hweb (by decide)
  -- every entry that is shared with it is filed at the list
  have hall : ∀ x ∈ b.locations.filter (ConfigShareService.sharedUrl · = some url),
      x.subscriptionOriginLink = some link := by
    intro x hx
    obtain ⟨hxb, hxurl⟩ := List.mem_filter.mp hx
    have htrim := (Option.filter_eq_some_iff.mp (of_decide_eq_true hxurl)).1
    obtain ⟨v, hv, hvu⟩ := Option.map_eq_some_iff.mp htrim
    refine (h.locations x hxb).carries ?_
    rw [LocationEntry.listUrl, hv, Option.bind_some, hvu]
    exact nonBlank_eq_some.mpr ⟨hu, rfl⟩
  have hin : e ∈ b.locations.filter (ConfigShareService.sharedUrl · = some url) :=
    List.mem_filter.mpr ⟨he, decide_eq_true hshared⟩
  show ((b.locations.filter (ConfigShareService.sharedUrl · = some url)).findSome?
    (·.subscriptionOriginLink)).getD url = link
  cases hentries : b.locations.filter (ConfigShareService.sharedUrl · = some url) with
  | nil => exact absurd (hentries ▸ hin) List.not_mem_nil
  | cons x xs =>
      rw [List.findSome?_cons, hall x (hentries ▸ List.mem_cons_self)]
      rfl

/-! ### Histories of an encrypted list -/

/-- The list at `u` is shared as the link, and everything filed there carries it. -/
def Store.SharesAs (u link : Text) (s : Store) : Prop :=
  ∀ b, s.stored = some b →
    (∀ e ∈ b.locations, e.listUrl = some u → e.subscriptionOriginLink = some link) ∧
    (∀ r ∈ b.refusedLists, trim r.subscriptionUrl = u → r.subscriptionOriginLink = some link) ∧
    ∀ item ∈ ConfigShareService.subscriptionShareItems b.locations, item.url = u →
      item.shareText = link

theorem Store.Linked.sharesAs {s : Store} (h : s.Linked u link) : s.SharesAs u link := fun b hb =>
  ⟨fun e he => ((h.stored b hb).locations e he).carries, (h.stored b hb).refused,
    fun _ hitem hurl => shareText_of_linked (h.stored b hb) hitem hurl⟩

/-- The text is an encrypted link that resolves to a list. -/
structure ArrivesAs (w : World) (text link : Text) : Prop where
  link : (arrivedAs text).map trim = some link
  list : ∃ resolution, resolveParsedImport w text none = .ok (some resolution) ∧
    resolution.source.subscriptionUrl.isSome = true

omit [Build] in
theorem storedLink_of_arrivedAs {text : Text} (h : (arrivedAs text).map trim = some link) :
    StoredLink link := by
  obtain ⟨l, hl, rfl⟩ := Option.map_eq_some_iff.mp h
  refine ⟨trim_trim l, ?_⟩
  unfold arrivedAs at hl
  dsimp only at hl
  split at hl
  · rename_i hmarked
    cases hl
    rcases Bool.or_eq_true_iff.mp hmarked with hmarked | hmarked
    · exact not_blank_of_startsWith hmarked (by decide)
    · exact not_blank_of_startsWith hmarked (by decide)
  · cases hl

omit [Build] in
theorem stamp_origin {w : World} {source : ImportSource} {text : Text} {e : LocationEntry}
    (hlink : (arrivedAs text).map trim = some link) (hlist : source.subscriptionUrl.isSome = true) :
    (stamp w source (arrivedAs text) e).subscriptionOriginLink = arrivedAs text := by
  obtain ⟨l, hl, -⟩ := Option.map_eq_some_iff.mp hlink
  rw [stamp, hl, hlist]
  rfl

/-- An import through the link stamps it on all it files. -/
theorem keepsLink_of_arrivesAs {w : World} {text : Text} (h : ArrivesAs w text link) (s : Store) :
    KeepsLink u link s (.paste text w) := by
  have hlink := storedLink_of_arrivedAs h.link
  obtain ⟨resolution, hresolved, hlist⟩ := h.list
  intro resolution' hresolved'
  rw [hresolved] at hresolved'
  cases hresolved'
  cases resolution with
  | refused source originLink =>
      intro _
      rw [resolveParsedImport_refused hresolved]
      exact h.link
  | parsed source parsed =>
      intro e he _
      obtain ⟨p, -, -, hlocations⟩ :=
        parseImportSource_entries (resolveParsedImport_parsed hresolved)
      obtain ⟨⟨e₁, he₁, rfl⟩, -⟩ := LocationBundleV4.of_mem_normalizedLocations he
      rw [hlocations] at he₁
      obtain ⟨e₀, -, rfl⟩ := List.mem_map.mp he₁
      exact hlink.kept ((congrArg (Option.map trim) (stamp_origin h.link hlist)).trans h.link)

/-- Nothing is known of the list at `u`. -/
def Store.KnowsNothing (u : Text) (s : Store) : Prop :=
  (∀ b, s.stored = some b → (∀ e ∈ b.locations, e.listUrl ≠ some u) ∧
    ∀ r ∈ b.refusedLists, trim r.subscriptionUrl ≠ u) ∧
  ∀ legacy, s.legacyBundle = .ok legacy → ∀ e ∈ legacy.normalized.locations, e.listUrl ≠ some u

/-- **An encrypted list stays encrypted on its way out**: in every history that begins
with its import and then neither edits one of its entries nor files at its address
what says another link, the list is shared as the link it arrived as. -/
theorem encrypted_list_shared_encrypted {s₀ s s' : Store} {w : World} {text : Text}
    {es : List StoreEvent} (harrives : ArrivesAs w text link)
    (hnew : s₀.KnowsNothing u) (himport : s₀.step (.paste text w) = some s)
    (hsteps : AllSteps Store.step (KeepsLink u link) s es) (hrun : run Store.step s es = some s') :
    s'.SharesAs u link := by
  have hlink := storedLink_of_arrivedAs harrives.link
  have hs₀ : s₀.Linked u link :=
    ⟨fun b hb =>
      ⟨fun e he => ⟨(Store.clean_stored hb).settles he, fun hat => absurd hat
        ((hnew.1 b hb).1 e he)⟩,
      fun r hr hat => absurd hat ((hnew.1 b hb).2 r hr)⟩, hnew.2⟩
  have hs : s.Linked u link := linked_step hlink hs₀ (keepsLink_of_arrivesAs harrives s₀) himport
  exact (run_inv
    (fun _ _ _ h hkeeps hstep => linked_step hlink h hkeeps hstep) hs hsteps hrun).sharesAs

end

/-! ### An entry that is edited -/

section

/-- An encrypted link. -/
def hiddenLink : Text := txt "olcrtc://crypt1/blob"

/-- A build with the key, to which the link stands for a list. -/
@[reducible] def Build.decrypting : Build where
  parseToJsonElement _ := none
  intOrNull _ := none
  decodeEntry _ := none
  cryptCodec := some fun blob => if blob = txt "blob" then some someList else none

attribute [local instance] Build.decrypting

/-- The one line of the list. -/
def hiddenLine : Text := txt "hy2://pw@a.example:443#A"

/-- The store after the link was pasted and its list served. -/
def hiddenStore : Store :=
  (Store.empty.step (.paste hiddenLink (.serving hiddenLine))).getD .empty

theorem step_hiddenStore :
    Store.empty.step (.paste hiddenLink (.serving hiddenLine)) = some hiddenStore := by
  have hsome : (Store.empty.step (.paste hiddenLink (.serving hiddenLine))).isSome = true := by
    decide
  obtain ⟨s, hs⟩ := Option.isSome_iff_exists.mp hsome
  rw [hiddenStore, hs, Option.getD_some]

theorem arrivesAs_hiddenLink : ArrivesAs (.serving hiddenLine) hiddenLink hiddenLink where
  link := by decide
  list := ⟨_, rfl, rfl⟩

/-- What is shared of a store. -/
def sharedTexts (s : Store) : List Text :=
  (ConfigShareService.subscriptionShareItems s.locations).map (·.shareText)

/-- What can be checked of a step: it files no line at another address, and none with
a link of its own. -/
def leavesLink (s : Store) : StoreEvent → Bool
  | .refresh only w =>
      match s.getBundleUnlocked with
      | .ok (b, _) => (askedLists b only w).all fun p =>
          p.1 = someList && p.2.lines.all fun line => line.subscriptionOriginLink.isNone
      | .error _ => true
  | .setInterval _ _ => true
  | _ => false

theorem keepsLink_of_leavesLink {s : Store} {e : StoreEvent} (h : leavesLink s e = true) :
    KeepsLink someList hiddenLink s e := by
  unfold leavesLink at h
  split at h
  · rename_i only w
    intro b s₁ hread p hp
    rw [hread] at h
    have hchecked := List.all_eq_true.mp h p hp
    rw [Bool.and_eq_true, decide_eq_true_eq, List.all_eq_true] at hchecked
    obtain ⟨hurl, hlines⟩ := hchecked
    cases ho : p.2 with
    | kept => trivial
    | refused source => exact fun _ => .inl hurl
    | served source lines =>
        refine fun _ => ⟨.inl hurl, fun line hline => ?_⟩
        rw [ho] at hlines
        rw [Option.isNone_iff_eq_none.mp (hlines line hline)]
        rfl
  · trivial
  · cases h

/-- The list is refreshed, then refused, then served again. -/
def servedAgain : List StoreEvent :=
  [.setInterval someList 5, .refresh none fun _ => .serving hiddenLine,
    .refresh none fun _ => .refusing, .refresh none fun _ => .serving hiddenLine]

theorem encrypted_list_shared_again :
    ∃ s', run Store.step hiddenStore servedAgain = some s' ∧
      s'.SharesAs someList hiddenLink ∧ sharedTexts s' = [hiddenLink] := by
  have hrun : ((run Store.step hiddenStore servedAgain).any
      fun s' => sharedTexts s' = [hiddenLink]) = true := by decide +kernel
  obtain ⟨s', hs', hshared⟩ := (Option.any_eq_true _ _).mp hrun
  refine ⟨s', hs', ?_, of_decide_eq_true hshared⟩
  have hnew : Store.empty.KnowsNothing someList := by
    constructor
    · intro b hb
      cases hb
    · intro legacy hlegacy e he
      cases hlegacy
      cases he
  have hchecked : AllSteps Store.step
      (fun s e => leavesLink s e = true) hiddenStore servedAgain := by
    decide +kernel
  have hsteps : AllSteps Store.step (KeepsLink someList hiddenLink) hiddenStore servedAgain :=
    hchecked.imp fun s e => keepsLink_of_leavesLink
  exact encrypted_list_shared_encrypted arrivesAs_hiddenLink hnew step_hiddenStore hsteps hs'

/-- The edit of the list's one entry, under its own name. -/
def editEntry : StoreEvent :=
  .saveLocation (txt "imported_a")
    { name := txt "A", kind := .hysteria2, rawLink := some hiddenLine }

/-- **An edit gives the list away**: the one entry of the encrypted list is saved again,
and the list is shared as its address. -/
theorem edited_list_shared_in_plain :
    sharedTexts hiddenStore = [hiddenLink] ∧
    ∃ s', run Store.step hiddenStore [editEntry] = some s' ∧
      (s'.locations.map fun e => (e.listUrl, e.subscriptionOriginLink)) = [(some someList, none)] ∧
      sharedTexts s' = [someList] ∧ ¬ s'.SharesAs someList hiddenLink := by
  have hshared : sharedTexts hiddenStore = [hiddenLink] := by decide
  have hrun : ((run Store.step hiddenStore [editEntry]).any fun s' =>
      (s'.locations.map fun e => (e.listUrl, e.subscriptionOriginLink)) = [(some someList, none)] ∧
        sharedTexts s' = [someList]) = true := by decide
  obtain ⟨s', hs', hplain⟩ := (Option.any_eq_true _ _).mp hrun
  obtain ⟨hentries, htexts⟩ := of_decide_eq_true hplain
  refine ⟨hshared, s', hs', hentries, htexts, fun hshares => ?_⟩
  -- the one entry is filed at the list and carries nothing
  cases hstored : s'.stored with
  | none =>
      rw [Store.locations, hstored] at hentries
      cases hentries
  | some b =>
      obtain ⟨e, he, hpair⟩ := List.mem_map.mp
        (hentries ▸ List.mem_singleton_self (some someList, (none : Option Text)))
      rw [Store.locations, hstored] at he
      have hcarries := (hshares b hstored).1 e he (congrArg Prod.fst hpair)
      have hnone : e.subscriptionOriginLink = none := congrArg Prod.snd hpair
      rw [hnone] at hcarries
      cases hcarries

end

end Ghostlane.App
