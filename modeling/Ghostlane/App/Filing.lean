import Ghostlane.App.Clean
import Ghostlane.App.Refresh

/-!
# Ghostlane.App.Filing

What a refresh files, list by list. An answer decides a list (`Outcome`), and
what the list contributes depends on the ids taken before it (`Outcome.filed`);
so the locations a refresh ends with are those it started with and one block
after another (`handleAll_locations`).

Every id in a block is one an entry of the list had, or is new to the ids taken
before (`mem_refreshedIds`). It is not new to the ids a list handled later
keeps: those are taken only when that list is reached.
-/

namespace Ghostlane.App

open Ghostlane.Lib

/-! ### The ids of a list's lines -/

@[simp] theorem length_inherited (previous refreshed : List LocationEntry) :
    (inherited previous refreshed).length = refreshed.length := by
  induction refreshed generalizing previous with
  | nil => rfl
  | cons line refreshed ih => exact congrArg (· + 1) (ih _)

/-- The ids lines inherit. -/
def inheritedIds (previous refreshed : List LocationEntry) : List Text :=
  ((inherited previous refreshed).map (·.map (·.storageId))).filterMap fun id => id

/-- No entry is inherited twice. -/
theorem inheritedIds_subperm (previous refreshed : List LocationEntry) :
    List.Subperm (inheritedIds previous refreshed) (previous.map (·.storageId)) := by
  induction refreshed generalizing previous with
  | nil => exact List.nil_subperm
  | cons line refreshed ih =>
      unfold inheritedIds inherited
      dsimp only
      set same : LocationEntry → Bool := fun e =>
        subscriptionSignature e.location == subscriptionSignature line.location
      cases hfind : previous.find? same with
      | none =>
          rw [List.eraseP_of_forall_not fun e he => by simpa using List.find?_eq_none.mp hfind e he]
          exact ih previous
      | some e =>
          obtain ⟨he, before, after, rfl, hbefore⟩ := List.find?_eq_some_iff_append.mp hfind
          have herase : (before ++ e :: after).eraseP same = before ++ after := by
            rw [List.eraseP_append_right _ (by simpa using hbefore), List.eraseP_cons_of_pos he]
          rw [herase]
          have hrest := (List.subperm_cons e.storageId).mpr (ih (before ++ after))
          refine hrest.trans (List.Perm.subperm ?_)
          exact List.perm_middle.symm.map fun e : LocationEntry => e.storageId

theorem mem_inheritedIds {previous refreshed : List LocationEntry} {id : Text}
    (h : id ∈ inheritedIds previous refreshed) : id ∈ previous.map (·.storageId) :=
  (inheritedIds_subperm previous refreshed).subset h

@[simp] theorem length_assignIds (used : List Text) (lines : List (Option Text × Text)) :
    (assignIds used lines).length = lines.length := by
  induction lines generalizing used with
  | nil => rfl
  | cons line lines ih =>
      obtain ⟨reused, base⟩ := line
      cases reused with
      | some id => exact congrArg (· + 1) (ih _)
      | none => exact congrArg (· + 1) (ih _)

/-- An id is the one inherited, or a plain one that is not taken. -/
theorem mem_assignIds {used : List Text} {lines : List (Option Text × Text)} {id : Text}
    (h : id ∈ assignIds used lines) :
    some id ∈ lines.map Prod.fst ∨ (id ∉ used ∧ Plain id) := by
  induction lines generalizing used with
  | nil => cases h
  | cons line lines ih =>
      obtain ⟨reused, base⟩ := line
      cases reused with
      | some id' =>
          rcases List.mem_cons.mp h with rfl | h
          · exact Or.inl List.mem_cons_self
          · exact (ih h).imp (List.mem_cons_of_mem _) (fun h => h)
      | none =>
          rcases List.mem_cons.mp h with rfl | h
          · exact Or.inr ⟨uniqueStorageId_not_mem _ _, plain_uniqueStorageId _ _⟩
          · rcases ih h with h | ⟨h, hplain⟩
            · exact Or.inl (List.mem_cons_of_mem _ h)
            · exact Or.inr ⟨fun hused => h (List.mem_cons_of_mem _ hused), hplain⟩

theorem mem_assignIds_of_some {used : List Text} {lines : List (Option Text × Text)} {id : Text}
    (h : some id ∈ lines.map Prod.fst) : id ∈ assignIds used lines := by
  induction lines generalizing used with
  | nil => cases h
  | cons line lines ih =>
      obtain ⟨reused, base⟩ := line
      cases reused with
      | some id' =>
          rcases List.mem_cons.mp h with h | h
          · rw [Option.some.inj h]
            exact List.mem_cons_self
          · exact List.mem_cons_of_mem _ (ih h)
      | none =>
          rcases List.mem_cons.mp h with h | h
          · cases h
          · exact List.mem_cons_of_mem _ (ih h)

theorem nodup_assignIds {used : List Text} {lines : List (Option Text × Text)}
    (hnodup : ((lines.map Prod.fst).filterMap fun id => id).Nodup)
    (hused : ∀ id, some id ∈ lines.map Prod.fst → id ∈ used) : (assignIds used lines).Nodup := by
  induction lines generalizing used with
  | nil => exact List.nodup_nil
  | cons line lines ih =>
      obtain ⟨reused, base⟩ := line
      cases reused with
      | some id =>
          obtain ⟨hnot, hrest⟩ := List.nodup_cons.mp hnodup
          refine List.nodup_cons.mpr ⟨fun hmem => ?_,
            ih hrest fun id' hid' => hused id' (List.mem_cons_of_mem _ hid')⟩
          -- A later line has it as its own, or as a name that was not taken.
          rcases mem_assignIds hmem with h | ⟨h, -⟩
          · exact hnot (List.mem_filterMap.mpr ⟨some id, h, rfl⟩)
          · exact h (hused id List.mem_cons_self)
      | none =>
          refine List.nodup_cons.mpr ⟨fun hmem => ?_, ih hnodup fun id' hid' =>
            List.mem_cons_of_mem _ (hused id' (List.mem_cons_of_mem _ hid'))⟩
          rcases mem_assignIds hmem with h | ⟨h, -⟩
          · exact uniqueStorageId_not_mem base used (hused _ (List.mem_cons_of_mem _ h))
          · exact h List.mem_cons_self

section RefreshedIds

variable {used : List Text} {previous refreshed : List LocationEntry}

theorem map_fst_reused (previous refreshed : List LocationEntry) :
    (((inherited previous refreshed).map (·.map (·.storageId))).zip
      (refreshed.mapIdx nameBase)).map Prod.fst =
      (inherited previous refreshed).map (·.map (·.storageId)) :=
  List.map_fst_zip (by simp)

@[simp] theorem length_refreshedIds (used : List Text) (previous refreshed : List LocationEntry) :
    (refreshedIds used previous refreshed).length = refreshed.length := by
  simp [refreshedIds]

theorem some_mem_reused {id : Text} :
    some id ∈ (inherited previous refreshed).map (·.map (·.storageId)) ↔
      id ∈ inheritedIds previous refreshed := by
  unfold inheritedIds
  simp

/-- **An id of a line is inherited or new.** -/
theorem mem_refreshedIds {id : Text} (h : id ∈ refreshedIds used previous refreshed) :
    id ∈ inheritedIds previous refreshed ∨ (id ∉ used ∧ Plain id) := by
  rcases mem_assignIds h with h | ⟨h, hplain⟩
  · rw [map_fst_reused, some_mem_reused] at h
    exact Or.inl h
  · exact Or.inr ⟨fun hused => h (List.mem_append_right _ hused), hplain⟩

theorem inheritedIds_subset_refreshedIds :
    inheritedIds previous refreshed ⊆ refreshedIds used previous refreshed := by
  intro id hid
  refine mem_assignIds_of_some ?_
  rw [map_fst_reused, some_mem_reused]
  exact hid

/-- The lines of a list get ids of their own. -/
theorem nodup_refreshedIds (hnodup : (previous.map (·.storageId)).Nodup) :
    (refreshedIds used previous refreshed).Nodup := by
  refine nodup_assignIds ?_ fun id hid => ?_
  · rw [map_fst_reused]
    obtain ⟨ids, hperm, hsub⟩ := inheritedIds_subperm previous refreshed
    exact hperm.nodup_iff.mp (hnodup.sublist hsub)
  · rw [map_fst_reused, some_mem_reused] at hid
    exact List.mem_append_left _ hid

end RefreshedIds

/-! ### What an answer decides -/

inductive Outcome
  /-- It failed, or there was nothing in it: the list stays as it was. -/
  | kept
  | refused (source : ImportSource)
  | served (source : ImportSource) (lines : List LocationEntry)

def outcomeOf : Option Resolution → Outcome
  | none => .kept
  | some (.refused source _) => .refused source
  | some (.parsed source parsed) =>
      if parsed.bundle.locations = [] then .kept else .served source parsed.bundle.locations

theorem Refreshing.handle_eq (b : LocationBundleV4) (w : World) (url : Text)
    (answer : Option Resolution) (r : Refreshing) :
    r.handle b w url answer = match outcomeOf answer with
      | .kept => r.keepAsItWas b url
      | .refused source => r.refuse b w url source
      | .served source lines => r.serve b w url source lines := by
  unfold handle outcomeOf
  cases answer with
  | none => rfl
  | some resolution =>
      cases resolution with
      | refused source originLink => rfl
      | parsed source parsed =>
          dsimp only
          split <;> rfl

/-- The lines an answer serves. -/
def Outcome.lines : Outcome → List LocationEntry
  | served _ lines => lines
  | _ => []

/-- Keeping entries keeps the first of each id that is not taken. -/
theorem foldl_preserve (es : List LocationEntry) (r : Refreshing) :
    es.foldl Refreshing.preserve r =
      { r with
        locations := r.locations ++ distinctFrom (·.storageId) r.usedStorageIds es
        usedStorageIds :=
          ((distinctFrom (·.storageId) r.usedStorageIds es).map (·.storageId)).reverse ++
            r.usedStorageIds } := by
  induction es generalizing r with
  | nil => simp [distinctFrom]
  | cons e es ih =>
      rw [List.foldl_cons, ih, Refreshing.preserve, distinctFrom]
      split
      · rfl
      · simp

namespace Outcome

variable (b : LocationBundleV4)

/-- The entries a list contributes, the ids in `used` being taken. -/
def filed (w : World) (used : List Text) (url : Text) : Outcome → List LocationEntry
  | kept => distinctFrom (·.storageId) used (b.entriesOf url)
  | refused _ => []
  | served source lines => List.zipWith (Refreshing.refile b w url source) lines
      (refreshedIds used (b.entriesOf url) lines)

/-- The ids it takes. -/
def taken (used : List Text) (url : Text) : Outcome → List Text
  | kept => ((distinctFrom (·.storageId) used (b.entriesOf url)).map (·.storageId)).reverse
  | refused _ => []
  | served _ lines => refreshedIds used (b.entriesOf url) lines

/-- The ids of its entries that it keeps. -/
def keptIds (url : Text) : Outcome → List Text
  | kept => (b.entriesOf url).map (·.storageId)
  | refused _ => []
  | served _ lines => inheritedIds (b.entriesOf url) lines

/-- How many entries it is to have. -/
def width (url : Text) : Outcome → Nat
  | kept => (b.entriesOf url).length
  | refused _ => 0
  | served _ lines => lines.length

theorem mem_keptIds {url : Text} {o : Outcome} {id : Text} (h : id ∈ o.keptIds b url) :
    id ∈ (b.entriesOf url).map (·.storageId) := by
  cases o with
  | kept => exact h
  | refused source => cases h
  | served source lines => exact mem_inheritedIds h

theorem length_filed_le (w : World) (used : List Text) (url : Text) (o : Outcome) :
    (o.filed b w used url).length ≤ o.width b url := by
  cases o with
  | kept => exact (distinctFrom_sublist _ _).length_le
  | refused source => exact Nat.le_refl 0
  | served source lines => simp [filed, width]

end Outcome

/-- The entries a refresh files, one list after another. -/
def filedAll (b : LocationBundleV4) (w : Text → World) :
    (used : List Text) → List (Text × Outcome) → List LocationEntry
  | _, [] => []
  | used, (url, o) :: lists =>
      o.filed b (w url) used url ++ filedAll b w (o.taken b used url ++ used) lists

/-- The ids taken after some lists were handled. -/
def usedAfter (b : LocationBundleV4) : (used : List Text) → List (Text × Outcome) → List Text
  | used, [] => used
  | used, (url, o) :: lists => usedAfter b (o.taken b used url ++ used) lists

theorem filedAll_append (b : LocationBundleV4) (w : Text → World) (used : List Text)
    (lists lists' : List (Text × Outcome)) :
    filedAll b w used (lists ++ lists') =
      filedAll b w used lists ++ filedAll b w (usedAfter b used lists) lists' := by
  induction lists generalizing used with
  | nil => rfl
  | cons p lists ih =>
      obtain ⟨url, o⟩ := p
      rw [List.cons_append, filedAll, filedAll, ih, List.append_assoc, usedAfter]

theorem Refreshing.handle_locations (b : LocationBundleV4) (w : World) (url : Text)
    (answer : Option Resolution) (r : Refreshing) :
    (r.handle b w url answer).locations =
        r.locations ++ (outcomeOf answer).filed b w r.usedStorageIds url ∧
      (r.handle b w url answer).usedStorageIds =
        (outcomeOf answer).taken b r.usedStorageIds url ++ r.usedStorageIds := by
  rw [handle_eq]
  cases outcomeOf answer with
  | kept =>
      simp only [keepAsItWas, foldl_preserve]
      exact ⟨rfl, rfl⟩
  | refused source => exact ⟨(List.append_nil _).symm, rfl⟩
  | served source lines => exact ⟨rfl, rfl⟩

theorem foldl_handle_locations (b : LocationBundleV4) (w : Text → World)
    (answers : List (Text × Option Resolution)) (r : Refreshing) :
    (answers.foldl (fun r a => r.handle b (w a.1) a.1 a.2) r).locations =
        r.locations ++ filedAll b w r.usedStorageIds
          (answers.map fun a => (a.1, outcomeOf a.2)) ∧
      (answers.foldl (fun r a => r.handle b (w a.1) a.1 a.2) r).usedStorageIds =
        usedAfter b r.usedStorageIds (answers.map fun a => (a.1, outcomeOf a.2)) := by
  induction answers generalizing r with
  | nil => exact ⟨(List.append_nil _).symm, rfl⟩
  | cons a answers ih =>
      obtain ⟨hlocations, hused⟩ := Refreshing.handle_locations b (w a.1) a.1 a.2 r
      obtain ⟨ihlocations, ihused⟩ := ih (r.handle b (w a.1) a.1 a.2)
      rw [List.foldl_cons, ihlocations, ihused, hlocations, hused, List.append_assoc]
      exact ⟨rfl, rfl⟩

/-- **The locations a refresh ends with**: those it started with, and a block
for each list. -/
theorem handleAll_locations [Build] (b : LocationBundleV4) (only : Option (List Text))
    (w : Text → World) (answers : List (Text × Option Resolution)) :
    (handleAll b only w answers).locations = (Refreshing.start b only).locations ++
      filedAll b w ((Refreshing.start b only).locations.map (·.storageId))
        (answers.map fun a => (a.1, outcomeOf a.2)) :=
  (foldl_handle_locations b w answers _).1

/-! ### The selection while lists are handled -/

section Active

variable {b : LocationBundleV4} {url : Text}

/-- A list that does not hold the selected entry does not move the selection. -/
theorem Refreshing.activeAfter_handle (h : holdsActive b url = false) (w : World)
    (answer : Option Resolution) (r : Refreshing) :
    (r.handle b w url answer).activeAfter = r.activeAfter := by
  rw [handle_eq]
  cases outcomeOf answer with
  | kept => simp only [keepAsItWas, foldl_preserve]
  | refused source => simp [refuse, h]
  | served source lines => simp [serve, h]

theorem activeAfter_foldl_handle (w : Text → World) {answers : List (Text × Option Resolution)}
    (h : ∀ a ∈ answers, Refreshing.holdsActive b a.1 = false) (r : Refreshing) :
    (answers.foldl (fun r a => r.handle b (w a.1) a.1 a.2) r).activeAfter = r.activeAfter := by
  induction answers generalizing r with
  | nil => rfl
  | cons a answers ih =>
      rw [List.foldl_cons, ih fun a' ha' => h a' (List.mem_cons_of_mem _ ha'),
        Refreshing.activeAfter_handle (h a List.mem_cons_self)]

/-- With nothing selected no list holds the selected entry. -/
theorem holdsActive_of_none (h : b.activeLocationId = none) (url : Text) :
    Refreshing.holdsActive b url = false := by
  rw [Refreshing.holdsActive, h]
  rfl

/-- A selection that was refused was in a list that was. -/
theorem foldl_handle_refusedSelection (w : Text → World)
    (answers : List (Text × Option Resolution)) (r : Refreshing)
    (h : (answers.foldl (fun r a => r.handle b (w a.1) a.1 a.2) r).refusedSelection = true) :
    r.refusedSelection = true ∨
      ∃ a ∈ answers, (∃ source, outcomeOf a.2 = .refused source) ∧
        Refreshing.holdsActive b a.1 = true := by
  induction answers generalizing r with
  | nil => exact Or.inl h
  | cons a answers ih =>
      rcases ih _ h with hstep | ⟨a', ha', hrefused⟩
      · dsimp only at hstep
        rw [Refreshing.handle_eq] at hstep
        cases houtcome : outcomeOf a.2 with
        | kept =>
            rw [houtcome] at hstep
            simp only [Refreshing.keepAsItWas, foldl_preserve] at hstep
            exact Or.inl hstep
        | refused source =>
            rw [houtcome] at hstep
            rcases Bool.or_eq_true_iff.mp hstep with hbefore | hholds
            · exact Or.inl hbefore
            · exact Or.inr ⟨a, List.mem_cons_self, ⟨source, houtcome⟩, hholds⟩
        | served source lines =>
            rw [houtcome] at hstep
            exact Or.inl hstep
      · exact Or.inr ⟨a', List.mem_cons_of_mem _ ha', hrefused⟩

end Active

/-! ### The lists asked -/

namespace LocationBundleV4

variable {b : LocationBundleV4} {only : Option (List Text)} {url : Text}

theorem listUrl_eq_some {e : LocationEntry} (h : e.listUrl = some url) :
    trim url = url ∧ isBlank url = false := by
  obtain ⟨url₀, -, h⟩ := Option.bind_eq_some_iff.mp h
  obtain ⟨hblank, rfl⟩ := nonBlank_eq_some.mp h
  exact ⟨trim_trim url₀, hblank⟩

theorem mem_listUrls : url ∈ b.listUrls ↔ ∃ e ∈ b.locations, e.listUrl = some url := by
  rw [listUrls, mem_distinct, List.mem_filterMap]

/-- An address that is asked is trimmed, and is one. -/
theorem of_mem_targetUrls (h : url ∈ b.targetUrls only) : trim url = url ∧ isBlank url = false := by
  rcases List.mem_append.mp h with h | h
  · obtain ⟨e, -, he⟩ := mem_listUrls.mp (List.mem_filter.mp h).1
    exact listUrl_eq_some he
  · obtain ⟨hmem, hkeep⟩ := List.mem_filter.mp h
    obtain ⟨r, -, rfl⟩ := List.mem_map.mp ((distinctBy_sublist _).subset hmem)
    simp only [Bool.and_eq_true, Bool.not_eq_true'] at hkeep
    exact ⟨trim_trim _, hkeep.1.1⟩

/-- No list is asked twice. -/
theorem nodup_targetUrls (b : LocationBundleV4) (only : Option (List Text)) :
    (b.targetUrls only).Nodup := by
  refine List.nodup_append'.mpr ⟨(nodup_distinct _).filter _, (nodup_distinct _).filter _, ?_⟩
  intro k hgrouped hrefused
  have hkeep := (List.mem_filter.mp hrefused).2
  simp only [Bool.and_eq_true, decide_eq_true_eq] at hkeep
  exact hkeep.1.2 hgrouped

/-- An entry of no list that is asked. -/
def notAsked (b : LocationBundleV4) (only : Option (List Text)) (e : LocationEntry) : Bool :=
  e.listUrl.all (· ∉ b.targetUrls only)

/-- A refresh starts with the entries of no list it asks. -/
theorem start_locations (b : LocationBundleV4) (only : Option (List Text)) :
    (Refreshing.start b only).locations = b.locations.filter (b.notAsked only) := by
  refine List.filter_congr fun e he => ?_
  unfold notAsked
  cases hurl : e.listUrl with
  | none => rfl
  | some url =>
      cases only with
      | some urls => simp
      | none =>
          -- With no list singled out, every list that has entries is asked.
          have hasked : url ∈ b.targetUrls none :=
            List.mem_append_left _ (List.mem_filter.mpr ⟨mem_listUrls.mpr ⟨e, he, hurl⟩, rfl⟩)
          simp [hasked]

end LocationBundleV4

end Ghostlane.App
