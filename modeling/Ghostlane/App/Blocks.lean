import Ghostlane.App.Filing
import Ghostlane.App.ImportSound

/-!
# Ghostlane.App.Blocks

The blocks a refresh files, and when none of them loses an entry.

A line that inherits no entry is named apart from the ids taken so far. The ids
of a list that is handled later are not among them, so a new name may be an id
that list is about to keep. `ClearFrom` says that this does not happen; then the
ids filed are distinct and every block is whole (`filedAll_of_clear`), and only
then (`clear_of_filedAll`).
-/

namespace Ghostlane.App

open Ghostlane.Lib

/-! ### Where a block is filed -/

section Refiled

variable (b : LocationBundleV4) (w : World) (url : Text) (source : ImportSource)
  (line : LocationEntry) (id : Text)

@[simp] theorem refile_storageId :
    (Refreshing.refile b w url source line id).storageId = trim id := rfl

@[simp] theorem refile_line :
    (Refreshing.refile b w url source line id).location.line = line.location.line :=
  LocationEntry.line_normalized _

/-- A line is filed where its list lives from now on. -/
theorem refile_subscriptionUrl (hurl : isBlank (source.movedTo.getD url) = false) :
    (Refreshing.refile b w url source line id).subscriptionUrl =
      some (source.movedTo.getD url) := by
  have hfirst : firstNotBlank [some (source.movedTo.getD url), line.legacySubscriptionUrl] =
      source.movedTo.getD url := by
    rw [firstNotBlank, List.find?_cons_of_pos (by simp [isNullOrBlank, hurl])]
    rfl
  show nonBlank (firstNotBlank [some (source.movedTo.getD url), line.legacySubscriptionUrl]) = _
  rw [hfirst]
  exact nonBlank_eq_some.mpr ⟨hurl, rfl⟩

/-- A line is filed at its list, unless the list moved. -/
theorem refile_listUrl (hurl : trim url = url ∧ isBlank url = false)
    (hmoved : source.movedTo = none) :
    (Refreshing.refile b w url source line id).listUrl = some url := by
  have hfiled : (Refreshing.refile b w url source line id).subscriptionUrl = some url := by
    rw [refile_subscriptionUrl b w url source line id (by rw [hmoved, Option.getD_none, hurl.2]),
      hmoved, Option.getD_none]
  rw [LocationEntry.listUrl, hfiled, Option.bind_some, hurl.1]
  exact nonBlank_eq_some.mpr ⟨hurl.2, rfl⟩

end Refiled

namespace Outcome

/-- Where the list lives from now on, if it moves. -/
def movedTo : Outcome → Option Text
  | served source _ => source.movedTo
  | _ => none

variable {b : LocationBundleV4} {w : World} {used : List Text} {url : Text} {o : Outcome}

/-- Every entry of a block is filed at its list. -/
theorem listUrl_of_mem_filed (hurl : trim url = url ∧ isBlank url = false) (ho : o.movedTo = none)
    {e : LocationEntry} (he : e ∈ o.filed b w used url) : e.listUrl = some url := by
  cases o with
  | kept =>
      have hmem := (distinctFrom_sublist _ _).subset he
      simpa using (List.mem_filter.mp hmem).2
  | refused source => cases he
  | served source lines =>
      obtain ⟨line, -, id, -, rfl⟩ := exists_of_mem_zipWith he
      exact refile_listUrl b w url source line id hurl ho

end Outcome

/-! ### One block after another -/

/-- The lists a refresh asks, each decided by its answer; none of them moves. -/
structure Asked (lists : List (Text × Outcome)) : Prop where
  nodup : (lists.map Prod.fst).Nodup
  url : ∀ p ∈ lists, trim p.1 = p.1 ∧ isBlank p.1 = false
  stays : ∀ p ∈ lists, p.2.movedTo = none

theorem Asked.tail {p : Text × Outcome} {lists : List (Text × Outcome)} (h : Asked (p :: lists)) :
    Asked lists where
  nodup := (List.nodup_cons.mp h.nodup).2
  url q hq := h.url q (List.mem_cons_of_mem _ hq)
  stays q hq := h.stays q (List.mem_cons_of_mem _ hq)

theorem Asked.ne_head {p q : Text × Outcome} {lists : List (Text × Outcome)}
    (h : Asked (p :: lists)) (hq : q ∈ lists) : q.1 ≠ p.1 := by
  intro heq
  exact (List.nodup_cons.mp h.nodup).1 (heq ▸ List.mem_map_of_mem hq)

section Blocks

variable {b : LocationBundleV4} {w : Text → World} {used : List Text}
  {lists : List (Text × Outcome)}

theorem exists_of_mem_filedAll {e : LocationEntry} (he : e ∈ filedAll b w used lists) :
    ∃ p ∈ lists, ∃ used', e ∈ p.2.filed b (w p.1) used' p.1 := by
  induction lists generalizing used with
  | nil => cases he
  | cons p lists ih =>
      rcases List.mem_append.mp he with he | he
      · exact ⟨p, List.mem_cons_self, used, he⟩
      · obtain ⟨q, hq, hfiled⟩ := ih he
        exact ⟨q, List.mem_cons_of_mem _ hq, hfiled⟩

theorem listUrl_of_mem_filedAll (hlists : Asked lists) {e : LocationEntry}
    (he : e ∈ filedAll b w used lists) : ∃ p ∈ lists, e.listUrl = some p.1 := by
  obtain ⟨p, hp, used', hfiled⟩ := exists_of_mem_filedAll he
  exact ⟨p, hp, Outcome.listUrl_of_mem_filed (hlists.url p hp) (hlists.stays p hp) hfiled⟩

/-- The first list has its block. -/
theorem filter_filedAll_head {url : Text} {o : Outcome} (hlists : Asked ((url, o) :: lists)) :
    (filedAll b w used ((url, o) :: lists)).filter (·.listUrl = some url) =
      o.filed b (w url) used url := by
  have hurl := hlists.url _ List.mem_cons_self
  have ho := hlists.stays _ List.mem_cons_self
  rw [filedAll, List.filter_append]
  have hblock : (o.filed b (w url) used url).filter (·.listUrl = some url) =
      o.filed b (w url) used url :=
    List.filter_eq_self.mpr fun e he => by simpa using Outcome.listUrl_of_mem_filed hurl ho he
  have hrest : (filedAll b w (o.taken b used url ++ used) lists).filter
      (·.listUrl = some url) = [] := by
    rw [List.filter_eq_nil_iff]
    intro e he
    obtain ⟨q, hq, heq⟩ := listUrl_of_mem_filedAll hlists.tail he
    have hne := hlists.ne_head hq
    simpa [heq] using hne
  rw [hblock, hrest, List.append_nil]

/-- A later list has its block among the later ones. -/
theorem filter_filedAll_tail {url : Text} {o : Outcome} (hlists : Asked ((url, o) :: lists))
    {q : Text × Outcome} (hq : q ∈ lists) :
    (filedAll b w used ((url, o) :: lists)).filter (·.listUrl = some q.1) =
      (filedAll b w (o.taken b used url ++ used) lists).filter (·.listUrl = some q.1) := by
  have hurl := hlists.url _ List.mem_cons_self
  have ho := hlists.stays _ List.mem_cons_self
  have hne := hlists.ne_head hq
  have hblock : (o.filed b (w url) used url).filter (·.listUrl = some q.1) = [] := by
    rw [List.filter_eq_nil_iff]
    intro e he
    rw [Outcome.listUrl_of_mem_filed hurl ho he]
    simpa using fun heq : url = q.1 => hne heq.symm
  rw [filedAll, List.filter_append, hblock, List.nil_append]

/-- Each list has its block. -/
theorem filter_filedAll (b : LocationBundleV4) (w : Text → World) (used : List Text)
    (hlists : Asked lists) {p : Text × Outcome} (hp : p ∈ lists) :
    ∃ used', (filedAll b w used lists).filter (·.listUrl = some p.1) =
      p.2.filed b (w p.1) used' p.1 := by
  induction lists generalizing used with
  | nil => cases hp
  | cons q lists ih =>
      obtain ⟨url, o⟩ := q
      rcases List.mem_cons.mp hp with rfl | hp
      · exact ⟨used, filter_filedAll_head hlists⟩
      · rw [filter_filedAll_tail hlists hp]
        exact ih _ hlists.tail hp

end Blocks

/-! ### The ids a list is to take -/

namespace Outcome

/-- The ids a list is to take. -/
def planned (b : LocationBundleV4) (used : List Text) (url : Text) : Outcome → List Text
  -- The last first, as they are taken.
  | kept => ((b.entriesOf url).map (·.storageId)).reverse
  | refused _ => []
  | served _ lines => refreshedIds used (b.entriesOf url) lines

variable {b : LocationBundleV4} {w : World} {used : List Text} {url : Text} {o : Outcome}

theorem keptIds_subset_planned : o.keptIds b url ⊆ o.planned b used url := by
  cases o with
  | kept => exact fun id hid => List.mem_reverse.mpr hid
  | refused source => exact fun id hid => hid
  | served source lines => exact inheritedIds_subset_refreshedIds

/-- Where nothing is lost the ids taken are the ids planned. -/
theorem taken_eq_planned (hfull : (o.filed b w used url).length = o.width b url) :
    o.taken b used url = o.planned b used url := by
  cases o with
  | kept =>
      have heq : kept.filed b w used url = b.entriesOf url :=
        (distinctFrom_sublist _ _).eq_of_length hfull
      rw [planned, ← heq]
      rfl
  | refused source => rfl
  | served source lines => rfl

end Outcome

/-- No id a list is to take is one that a list handled later keeps. -/
def ClearFrom (b : LocationBundleV4) : (used : List Text) → List (Text × Outcome) → Prop
  | _, [] => True
  | used, (url, o) :: lists =>
      (∀ p ∈ lists, ∀ id ∈ o.planned b used url, id ∉ p.2.keptIds b p.1) ∧
        ClearFrom b (o.planned b used url ++ used) lists

instance decidableClearFrom (b : LocationBundleV4) :
    ∀ used lists, Decidable (ClearFrom b used lists)
  | _, [] => isTrue trivial
  | used, (url, o) :: lists =>
      have := decidableClearFrom b (o.planned b used url ++ used) lists
      inferInstanceAs (Decidable (_ ∧ _))

section

variable [Build]

/-! ### The entries of a block -/

namespace Outcome

/-- What is known of every answer: the lines it serves are those of its body, and
each can be dialled. -/
def Whole : Outcome → Prop
  | served source lines =>
      lines.map (·.location.line) = importable (normalizedImportText source.content) ∧
        ∀ e ∈ lines, e.location.isComplete = true
  | _ => True

variable {b : LocationBundleV4} {w : World} {used : List Text} {url : Text} {o : Outcome}

/-- The ids of the entries of a list are as they are stored. -/
theorem of_mem_entriesOf (hclean : b.Clean) {e : LocationEntry} (he : e ∈ b.entriesOf url) :
    trim e.storageId = e.storageId ∧ isBlank e.storageId = false :=
  have hmem := (List.mem_filter.mp he).1
  ⟨hclean.trim_id hmem, (hclean.isComplete hmem).1⟩

/-- So are the ids given to the lines served to it. -/
theorem of_mem_refreshedIds (hclean : b.Clean) {lines : List LocationEntry} {id : Text}
    (hid : id ∈ refreshedIds used (b.entriesOf url) lines) : trim id = id ∧ isBlank id = false := by
  rcases mem_refreshedIds hid with hid | ⟨-, hplain⟩
  · obtain ⟨e, he, rfl⟩ := List.mem_map.mp (mem_inheritedIds hid)
    exact of_mem_entriesOf hclean he
  · exact ⟨hplain.trim_eq, hplain.not_blank⟩

theorem id_of_mem_filed (hclean : b.Clean) {e : LocationEntry} (he : e ∈ o.filed b w used url) :
    trim e.storageId = e.storageId ∧ isBlank e.storageId = false := by
  cases o with
  | kept => exact of_mem_entriesOf hclean ((distinctFrom_sublist _ _).subset he)
  | refused source => cases he
  | served source lines =>
      obtain ⟨line, -, id, hid, rfl⟩ := exists_of_mem_zipWith he
      obtain ⟨htrim, hblank⟩ := of_mem_refreshedIds hclean hid
      rw [refile_storageId, htrim]
      exact ⟨htrim, hblank⟩

theorem isComplete_of_mem_filed (hclean : b.Clean) (ho : o.Whole) {e : LocationEntry}
    (he : e ∈ o.filed b w used url) : e.location.isComplete = true := by
  cases o with
  | kept =>
      have hmem := (List.mem_filter.mp ((distinctFrom_sublist _ _).subset he)).1
      exact (hclean.isComplete hmem).2
  | refused source => cases he
  | served source lines =>
      obtain ⟨line, hline, id, -, rfl⟩ := exists_of_mem_zipWith he
      have hcomplete := ho.2 line hline
      rw [LocationConfig.isComplete_eq_dials] at hcomplete ⊢
      rw [refile_line]
      exact hcomplete

theorem normalized_of_mem_filed (hclean : b.Clean) {e : LocationEntry}
    (he : e ∈ o.filed b w used url) : ∃ e₀ : LocationEntry, e₀.normalized = e := by
  cases o with
  | kept =>
      have hmem := (List.mem_filter.mp ((distinctFrom_sublist _ _).subset he)).1
      exact ⟨e, hclean.settled e hmem⟩
  | refused source => cases he
  | served source lines =>
      obtain ⟨line, -, id, -, rfl⟩ := exists_of_mem_zipWith he
      exact ⟨_, rfl⟩

theorem entriesOf_ids_nodup (hclean : b.Clean) (url : Text) :
    ((b.entriesOf url).map (·.storageId)).Nodup :=
  hclean.nodup.sublist (List.filter_sublist.map _)

/-- The ids of a served block are the ids its lines were given. -/
theorem ids_filed_served (hclean : b.Clean) (source : ImportSource) (lines : List LocationEntry) :
    ((served source lines).filed b w used url).map (·.storageId) =
      refreshedIds used (b.entriesOf url) lines := by
  conv_rhs => rw [← List.map_id (refreshedIds used (b.entriesOf url) lines)]
  refine map_zipWith_right (by simp) fun line storageId hid => ?_
  exact (of_mem_refreshedIds hclean hid).1

theorem mem_ids_filed (hclean : b.Clean) {id : Text} :
    id ∈ (o.filed b w used url).map (·.storageId) ↔ id ∈ o.taken b used url := by
  cases o with
  | kept => exact List.mem_reverse.symm
  | refused source => exact Iff.rfl
  | served source lines => rw [ids_filed_served hclean, taken]

/-- No two entries of a block share an id. -/
theorem nodup_ids_filed (hclean : b.Clean) : ((o.filed b w used url).map (·.storageId)).Nodup := by
  cases o with
  | kept => exact distinctFrom_nodup _ _
  | refused source => exact List.nodup_nil
  | served source lines =>
      rw [ids_filed_served hclean]
      exact nodup_refreshedIds (entriesOf_ids_nodup hclean url)

end Outcome

/-! ### Names that stay clear -/

namespace Outcome

variable {b : LocationBundleV4} {w : World} {used : List Text} {url : Text} {o : Outcome}

/-- A list none of whose ids is taken has all its entries. -/
theorem filed_kept_eq (hclean : b.Clean) (hclear : List.Disjoint used (kept.keptIds b url)) :
    kept.filed b w used url = b.entriesOf url := by
  refine distinctFrom_eq_self (entriesOf_ids_nodup hclean url) fun e he hused => ?_
  exact hclear hused (List.mem_map_of_mem he)

/-- A block is whole where its list keeps no id that is taken. -/
theorem length_filed (hclean : b.Clean) (hclear : List.Disjoint used (o.keptIds b url)) :
    (o.filed b w used url).length = o.width b url := by
  cases o with
  | kept => rw [filed_kept_eq hclean hclear, width]
  | refused source => rfl
  | served source lines => simp [filed, width]

/-- And then its ids are new to those taken. -/
theorem disjoint_ids_filed (hclean : b.Clean) (hclear : List.Disjoint used (o.keptIds b url)) :
    List.Disjoint used ((o.filed b w used url).map (·.storageId)) := by
  intro id hused hid
  cases o with
  | kept =>
      rw [filed_kept_eq hclean hclear] at hid
      exact hclear hused hid
  | refused source => cases hid
  | served source lines =>
      rw [ids_filed_served hclean] at hid
      rcases mem_refreshedIds hid with hid | ⟨hnew, -⟩
      · exact hclear hused hid
      · exact hnew hused

end Outcome

section Clear

variable {b : LocationBundleV4} {w : Text → World} {used : List Text}
  {lists : List (Text × Outcome)}

/-- **Where the names stay clear nothing is lost**: the ids filed are distinct
and new, and every block is whole. -/
theorem filedAll_of_clear (hclean : b.Clean) (hlists : Asked lists)
    (hused : ∀ p ∈ lists, List.Disjoint used (p.2.keptIds b p.1)) (h : ClearFrom b used lists) :
    ((filedAll b w used lists).map (·.storageId)).Nodup ∧
      List.Disjoint used ((filedAll b w used lists).map (·.storageId)) ∧
      ∀ p ∈ lists, ((filedAll b w used lists).filter (·.listUrl = some p.1)).length =
        p.2.width b p.1 := by
  induction lists generalizing used with
  | nil => exact ⟨List.nodup_nil, List.disjoint_nil_right _, fun p hp => absurd hp List.not_mem_nil⟩
  | cons p lists ih =>
      obtain ⟨url, o⟩ := p
      obtain ⟨hlater, hrest⟩ := h
      have hhead := hused _ List.mem_cons_self
      have hfull := Outcome.length_filed (w := w url) hclean hhead
      have htaken := Outcome.taken_eq_planned hfull
      -- What is taken now is not kept later, so the later lists are as clear.
      have hused' : ∀ q ∈ lists, List.Disjoint (o.taken b used url ++ used)
          (q.2.keptIds b q.1) := by
        intro q hq
        rw [htaken, List.disjoint_append_left]
        exact ⟨fun id hid => hlater q hq id hid, hused q (List.mem_cons_of_mem _ hq)⟩
      obtain ⟨hnodup, hdisjoint, hwhole⟩ := ih hlists.tail hused' (htaken ▸ hrest)
      rw [List.disjoint_append_left] at hdisjoint
      refine ⟨?_, ?_, ?_⟩
      · rw [filedAll, List.map_append]
        refine List.nodup_append'.mpr ⟨Outcome.nodup_ids_filed hclean, hnodup, ?_⟩
        intro id hid hid'
        exact hdisjoint.1 ((Outcome.mem_ids_filed hclean).mp hid) hid'
      · rw [filedAll, List.map_append, List.disjoint_append_right]
        exact ⟨Outcome.disjoint_ids_filed hclean hhead, hdisjoint.2⟩
      · intro q hq
        rcases List.mem_cons.mp hq with rfl | hq
        · rw [filter_filedAll_head hlists]
          exact hfull
        · rw [filter_filedAll_tail hlists hq]
          exact hwhole q hq

/-- **Where nothing is lost the names stayed clear.** -/
theorem clear_of_filedAll (hclean : b.Clean) (hlists : Asked lists)
    (hnodup : ((filedAll b w used lists).map (·.storageId)).Nodup)
    (hwhole : ∀ p ∈ lists, ((filedAll b w used lists).filter (·.listUrl = some p.1)).length =
      p.2.width b p.1) :
    ClearFrom b used lists ∧
      ∀ p ∈ lists, p.2.keptIds b p.1 ⊆ (filedAll b w used lists).map (·.storageId) := by
  induction lists generalizing used with
  | nil => exact ⟨trivial, fun p hp => absurd hp List.not_mem_nil⟩
  | cons p lists ih =>
      obtain ⟨url, o⟩ := p
      have hfull : (o.filed b (w url) used url).length = o.width b url := by
        have hhead := hwhole _ List.mem_cons_self
        rwa [filter_filedAll_head hlists] at hhead
      have htaken := Outcome.taken_eq_planned hfull
      rw [filedAll, List.map_append] at hnodup
      obtain ⟨-, hnodup', hapart⟩ := List.nodup_append'.mp hnodup
      obtain ⟨hclear, hkept⟩ := ih hlists.tail hnodup' fun q hq => by
        rw [← filter_filedAll_tail hlists hq]
        exact hwhole q (List.mem_cons_of_mem _ hq)
      refine ⟨⟨fun q hq id hid hid' => ?_, htaken ▸ hclear⟩, ?_⟩
      · -- Both would be stored, under one id.
        rw [← htaken] at hid
        exact hapart ((Outcome.mem_ids_filed hclean).mpr hid) (hkept q hq hid')
      · intro q hq id hid
        rw [filedAll, List.map_append, List.mem_append]
        rcases List.mem_cons.mp hq with rfl | hq
        · refine Or.inl ((Outcome.mem_ids_filed hclean).mpr ?_)
          rw [htaken]
          exact Outcome.keptIds_subset_planned hid
        · exact Or.inr (hkept q hq hid)

end Clear

end

end Ghostlane.App
