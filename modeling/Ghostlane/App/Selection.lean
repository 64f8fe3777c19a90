import Ghostlane.App.Handing

/-!
# Ghostlane.App.Selection

**Where a refresh leaves the selection.** The selection is an id, and the lines
of a served list are handed the ids of its entries by signature, in the order
they are served: the entry at some place among those of its signature goes to
the line at that place among the lines of it (`heirOf`). A signature tells rooms
apart and does not tell the share links of one host and port apart, so the heir
of an entry need not be its own line.
-/

namespace Ghostlane.App

open Ghostlane.Lib

/-! ### Where the selection lands -/

/-- Where the selection of an entry lands when its list is served: on its heir;
else on a new line that was named by its id, or on the first line. -/
def landing (used : List Text) (previous lines : List LocationEntry) (e : LocationEntry) :
    Option (LocationEntry × Text) :=
  match heirOf previous lines e with
  | some heir => some (heir, e.storageId)
  | none =>
      let filed := lines.zip (refreshedIds used previous lines)
      (filed.find? (·.2 = e.storageId)).or filed.head?

theorem landing_eq {used : List Text} {previous lines : List LocationEntry} {e : LocationEntry}
    (hnodup : (previous.map (·.storageId)).Nodup) (he : e ∈ previous) :
    landing used previous lines e =
      ((lines.zip (refreshedIds used previous lines)).find? (·.2 = e.storageId)).or
        (lines.zip (refreshedIds used previous lines)).head? := by
  unfold landing
  cases hheir : heirOf previous lines e with
  | none => rfl
  | some heir =>
      have hfound := find?_inherited hnodup he lines
      rw [hheir] at hfound
      obtain ⟨p, hp, -⟩ := Option.map_eq_some_iff.mp hfound
      have hreused : e.storageId ∈ inheritedIds previous lines := by
        have hmem := (List.of_mem_zip (List.mem_of_find?_eq_some hp)).2
        have hid : p.2 = some e.storageId := by simpa using List.find?_some hp
        rw [hid] at hmem
        exact some_mem_reused.mp hmem
      -- Its id was taken before any line was named.
      have hassign := find?_assignIds (List.mem_append_left used hreused) lines
        (((inherited previous lines).map (·.map (·.storageId))).zip (lines.mapIdx nameBase))
      rw [map_fst_reused, hfound] at hassign
      obtain ⟨q, hq, hline⟩ := Option.map_eq_some_iff.mp hassign
      have hid : q.2 = e.storageId := by simpa using List.find?_some hq
      have hfiled : (lines.zip (refreshedIds used previous lines)).find? (·.2 = e.storageId) =
          some q := hq
      rw [hfiled, Option.some_or, ← hline, ← hid]

/-! ### The selection while lists are handled -/

/-- The entry the person chose, in the list it belongs to. -/
structure Chosen [Build] (b : LocationBundleV4) (e : LocationEntry) (url : Text) : Prop where
  clean : b.Clean
  mem : e ∈ b.locations
  listed : e.listUrl = some url
  active : b.activeLocationId = some e.storageId

section

variable [Build] {b : LocationBundleV4} {e : LocationEntry} {url : Text}

theorem Chosen.mem_entriesOf (h : Chosen b e url) : e ∈ b.entriesOf url :=
  List.mem_filter.mpr ⟨h.mem, by simp [h.listed]⟩

omit [Build] in
theorem holds_eq_isSome (es : List LocationEntry) (id : Text) :
    LocationBundleV4.holds es id = (es.find? (·.storageId = id)).isSome := by
  rw [Bool.eq_iff_iff, List.find?_isSome, LocationBundleV4.holds, List.any_eq_true]
  simp only [beq_iff_eq, decide_eq_true_eq]

/-- Only the list of the chosen entry holds it. -/
theorem Chosen.holdsActive_iff (h : Chosen b e url) (url' : Text) :
    Refreshing.holdsActive b url' = true ↔ url' = url := by
  rw [Refreshing.holdsActive, h.active, Option.any_some, LocationBundleV4.holds, List.any_eq_true]
  constructor
  · rintro ⟨e', he', hid⟩
    obtain ⟨hmem, hurl⟩ := List.mem_filter.mp he'
    obtain rfl := List.inj_on_of_nodup_map h.clean.nodup hmem h.mem (beq_iff_eq.mp hid)
    rw [decide_eq_true_eq, h.listed] at hurl
    exact (Option.some.inj hurl).symm
  · rintro rfl
    exact ⟨e, h.mem_entriesOf, beq_self_eq_true _⟩

/-- No other list moves the selection. -/
theorem Chosen.activeAfter_foldl (h : Chosen b e url) (w : Text → World)
    {answers : List (Text × Option Resolution)} (hne : ∀ a ∈ answers, a.1 ≠ url) (r : Refreshing) :
    (answers.foldl (fun r a => r.handle b (w a.1) a.1 a.2) r).activeAfter = r.activeAfter := by
  refine activeAfter_foldl_handle w (fun a ha => ?_) r
  exact Bool.eq_false_iff.mpr fun hholds => hne a ha ((h.holdsActive_iff a.1).mp hholds)

/-! ### The list of the chosen entry -/

/-- The entries filed before a list is handled. -/
def filedBefore (b : LocationBundleV4) (only : Option (List Text)) (w : Text → World)
    (url : Text) : List LocationEntry :=
  b.locations.filter (b.notAsked only) ++
    filedAll b w ((b.locations.filter (b.notAsked only)).map (·.storageId))
      (handledBefore b only w url)

omit [Build] in
/-- The selection lands on a line that is filed under its id. -/
theorem find?_landing {used : List Text} {previous lines : List LocationEntry}
    {p : LocationEntry × Text} (hnodup : (previous.map (·.storageId)).Nodup) (he : e ∈ previous)
    (h : landing used previous lines e = some p) :
    (lines.zip (refreshedIds used previous lines)).find? (·.2 = p.2) = some p := by
  rw [landing_eq hnodup he] at h
  rcases Option.or_eq_some_iff.mp h with h | ⟨-, h⟩
  · have hid : p.2 = e.storageId := by simpa using List.find?_some h
    rw [hid]
    exact h
  · obtain ⟨rest, hrest⟩ := List.head?_eq_some_iff.mp h
    rw [hrest, List.find?_cons_of_pos (by simp)]

/-- Serving its list moves the selection to where it lands. -/
theorem Chosen.activeAfter_serve (h : Chosen b e url) (w : World) (source : ImportSource)
    {lines : List LocationEntry} (hlines : lines ≠ []) {r : Refreshing}
    (hr : r.activeAfter = some e.storageId) :
    ∃ p, landing r.usedStorageIds (b.entriesOf url) lines e = some p ∧
      (r.serve b w url source lines).activeAfter = some p.2 := by
  have hholds : Refreshing.holdsActive b url = true := (h.holdsActive_iff url).mpr rfl
  have hfind := find?_block h.clean url w r.usedStorageIds source lines e.storageId
  have hactive : (r.serve b w url source lines).activeAfter =
      if ((Outcome.served source lines).filed b w r.usedStorageIds url).find?
          (·.storageId = e.storageId) = none then
        ((Outcome.served source lines).filed b w r.usedStorageIds url).head?.map (·.storageId)
      else some e.storageId := by
    show (if (Refreshing.holdsActive b url && !r.activeAfter.any _) = true then _ else _) = _
    rw [hholds, hr, Option.any_some, holds_eq_isSome, Bool.true_and]
    show (if (!(List.find? _
        ((Outcome.served source lines).filed b w r.usedStorageIds url)).isSome) =
      true then _ else _) = _
    cases ((Outcome.served source lines).filed b w r.usedStorageIds url).find?
        (·.storageId = e.storageId) with
    | none => rfl
    | some e' => rfl
  rw [landing_eq (Outcome.entriesOf_ids_nodup h.clean url) h.mem_entriesOf, hactive, hfind]
  cases hfound : (lines.zip (refreshedIds r.usedStorageIds (b.entriesOf url) lines)).find?
      (·.2 = e.storageId) with
  | some p =>
      have hid : p.2 = e.storageId := by simpa using List.find?_some hfound
      exact ⟨p, rfl, by simp [hid]⟩
  | none =>
      -- No line took the id, so the first line is selected.
      have hne : lines.zip (refreshedIds r.usedStorageIds (b.entriesOf url) lines) ≠ [] := by
        simpa [List.zip_eq_nil_iff, ← List.length_eq_zero_iff] using hlines
      have hhead := List.head?_eq_some_head hne
      set p := (lines.zip (refreshedIds r.usedStorageIds (b.entriesOf url) lines)).head hne
      refine ⟨p, hhead, ?_⟩
      rw [Option.map_none, if_pos rfl, Outcome.filed, ← List.map_uncurry_zip_eq_zipWith,
        List.head?_map, hhead, Option.map_some, Option.map_some]
      have hmem := (List.of_mem_zip (List.mem_of_mem_head? hhead)).2
      exact congrArg some (Outcome.of_mem_refreshedIds h.clean hmem).1

section Landed

variable {only : Option (List Text)} {w : Text → World} {source : ImportSource}
  {lines : List LocationEntry}

/-- **Where a refresh leaves the selection**, and what it has filed first under
that id. -/
theorem Chosen.activeAfter_refreshedBy (h : Chosen b e url) (hurl : url ∈ b.targetUrls only)
    (hserved : outcomeOf (answerOf b w url) = .served source lines) :
    ∃ p, landing (takenBefore b only w url) (b.entriesOf url) lines e = some p ∧
      (refreshedBy b only w).activeAfter = some p.2 ∧
      ((refreshedBy b only w).locations.find? (·.storageId = p.2)).map (·.location.line) =
        some ((((filedBefore b only w url).find? (·.storageId = p.2)).map
          (·.location.line)).getD p.1.location.line) := by
  obtain ⟨before, after, htargets⟩ := List.append_of_mem hurl
  have hnodup := b.nodup_targetUrls only
  rw [htargets] at hnodup
  obtain ⟨-, hnodup', hapart⟩ := List.nodup_append'.mp hnodup
  have hbefore : ∀ url' ∈ before, url' ≠ url := fun url' hurl' heq =>
    hapart hurl' (heq ▸ List.mem_cons_self)
  have hafter : ∀ url' ∈ after, url' ≠ url := fun url' hurl' heq =>
    (List.nodup_cons.mp hnodup').1 (heq ▸ hurl')
  -- The lists handled before are those in front of it.
  have hhandled : handledBefore b only w url =
      before.map fun url => (url, outcomeOf (answerOf b w url)) := by
    rw [handledBefore, askedLists, htargets, List.map_append, List.takeWhile_append_of_pos]
    · rw [List.map_cons, List.takeWhile_cons_of_neg (by simp), List.append_nil]
    · intro p hp
      obtain ⟨url', hurl', rfl⟩ := List.mem_map.mp hp
      simpa using hbefore url' hurl'
  set r := (before.map fun url => (url, answerOf b w url)).foldl
    (fun r a => r.handle b (w a.1) a.1 a.2) (Refreshing.start b only) with hr
  have hfold : refreshedBy b only w = (after.map fun url => (url, answerOf b w url)).foldl
      (fun r a => r.handle b (w a.1) a.1 a.2) (r.serve b (w url) url source lines) := by
    rw [refreshedBy, handleAll, htargets, List.map_append, List.foldl_append, List.map_cons,
      List.foldl_cons, Refreshing.handle_eq b (w url) url (answerOf b w url), hserved]
  have hractive : r.activeAfter = some e.storageId := by
    rw [hr, h.activeAfter_foldl w, ← h.active]
    · rfl
    · intro a ha
      obtain ⟨url', hurl', rfl⟩ := List.mem_map.mp ha
      exact hbefore url' hurl'
  have hrused : r.usedStorageIds = takenBefore b only w url := by
    rw [hr, (foldl_handle_locations b w _ _).2, takenBefore, hhandled, List.map_map,
      ← LocationBundleV4.start_locations]
    rfl
  obtain ⟨-, -, -, hlines⟩ := outcomeOf_eq_served hserved
  obtain ⟨p, hp, hactive⟩ := h.activeAfter_serve (w url) source hlines hractive
  rw [hrused] at hp
  refine ⟨p, hp, ?_, ?_⟩
  · rw [hfold, h.activeAfter_foldl w, hactive]
    intro a ha
    obtain ⟨url', hurl', rfl⟩ := List.mem_map.mp ha
    exact hafter url' hurl'
  · have hlists : askedLists b only w = handledBefore b only w url ++ (url, .served source lines) ::
        after.map fun url => (url, outcomeOf (answerOf b w url)) := by
      rw [hhandled, askedLists, htargets, List.map_append, List.map_cons, hserved]
    have hblock := find?_block h.clean url (w url) (takenBefore b only w url) source lines p.2
    rw [find?_landing (Outcome.entriesOf_ids_nodup h.clean url) h.mem_entriesOf hp,
      Option.map_some] at hblock
    rw [refreshedBy_locations, hlists, filedAll_append, ← List.append_assoc, List.find?_append]
    show ((List.find? _ (filedBefore b only w url)).or (List.find? _ (_ ++ _))).map _ = _
    rw [List.find?_append]
    show ((List.find? _ _).or ((List.find? _ ((Outcome.served source lines).filed b (w url)
      (takenBefore b only w url) url)).or _)).map _ = _
    rw [hblock, Option.some_or]
    cases (filedBefore b only w url).find? (·.storageId = p.2) with
    | none => simp
    | some e' => rfl

end Landed

/-! ### The selection as it is stored -/

/-- The line of the selected entry. -/
def Store.selectedLine (s : Store) : Option Line :=
  (s.stored.bind (·.activeLocationId)).bind fun id =>
    (s.locations.find? (·.storageId = id)).map (·.location.line)

section Stored

variable {B : LocationBundleV4} {id : Text}

theorem Storable.normalized_again {e : LocationEntry} (h : Storable e) : Storable e.normalized where
  normalized := ⟨e, rfl⟩
  trim_id := trim_trim e.storageId
  kept := by
    refine ⟨(isBlank_trim _).trans h.kept.1, ?_⟩
    have hcomplete := h.kept.2
    rw [LocationConfig.isComplete_eq_dials] at hcomplete ⊢
    rw [LocationEntry.line_normalized]
    exact hcomplete

theorem storable_normalized (h : ∀ e ∈ B.locations, Storable e) :
    ∀ e ∈ B.normalized.locations, Storable e := by
  intro e he
  obtain ⟨⟨e₀, he₀, rfl⟩, -⟩ := LocationBundleV4.of_mem_normalizedLocations he
  exact (h e₀ he₀).normalized_again

/-- Normalizing keeps the first entry of each id. -/
theorem find?_normalized (h : ∀ e ∈ B.locations, Storable e) (id : Text) :
    B.normalized.locations.find? (·.storageId = id) =
      (B.locations.find? (·.storageId = id)).map (·.normalized) := by
  have hfilter : (B.locations.map (·.normalized)).filter LocationBundleV4.keeps =
      B.locations.map (·.normalized) := by
    refine List.filter_eq_self.mpr fun e he => ?_
    obtain ⟨e₀, he₀, rfl⟩ := List.mem_map.mp he
    obtain ⟨hid, hcomplete⟩ := (h e₀ he₀).kept
    rw [LocationBundleV4.keeps_normalized, hid, hcomplete]
    rfl
  rw [LocationBundleV4.normalized_locations, LocationBundleV4.normalizedLocations, hfilter,
    find?_distinctBy, List.find?_map]
  refine congrArg _ (List.find?_congr fun e he => ?_)
  show decide (trim e.storageId = id) = _
  rw [(h e he).trim_id]

/-- A selection of an entry that is there stays. -/
theorem active_normalized (h : ∀ e ∈ B.locations, Storable e)
    (hactive : B.activeLocationId = some id)
    (hfound : (B.locations.find? (·.storageId = id)).isSome = true) :
    B.normalized.activeLocationId = some id := by
  have hholds : LocationBundleV4.holds B.normalized.locations id = true := by
    rw [holds_eq_isSome, find?_normalized h, Option.isSome_map]
    exact hfound
  show Option.or (B.activeLocationId.filter (LocationBundleV4.holds B.normalized.locations)) _ = _
  rw [hactive, Option.filter_some, if_pos hholds, Option.some_or]

/-- **The selection after a save**: the line filed first under its id. -/
theorem selectedLine_save (s : Store) (h : ∀ e ∈ B.locations, Storable e)
    (hactive : B.activeLocationId = some id)
    (hfound : (B.locations.find? (·.storageId = id)).isSome = true) :
    (s.save B).selectedLine = (B.locations.find? (·.storageId = id)).map (·.location.line) := by
  have hactive' := active_normalized h hactive hfound
  have hfound' : (B.normalized.locations.find? (·.storageId = id)).isSome = true := by
    rw [find?_normalized h, Option.isSome_map]
    exact hfound
  have hactive'' := active_normalized (storable_normalized h) hactive' hfound'
  have hline := find?_normalized (storable_normalized h) id
  rw [find?_normalized h, Option.map_map] at hline
  unfold Store.selectedLine
  rw [Store.stored_save, Option.bind_some, hactive'', Option.bind_some]
  show (List.find? _ B.normalized.normalized.locations).map _ = _
  rw [hline, Option.map_map]
  refine Option.map_congr fun e _ => ?_
  simp only [Function.comp_apply, LocationEntry.line_normalized]

end Stored

/-! ### Keeping the server -/

section Keeping

variable {only : Option (List Text)} {w : Text → World} {source : ImportSource}
  {lines : List LocationEntry}

/-- The selection lands on the chosen entry's own line; and if a list handled
before filed a line under that id, that one is its line. -/
def LandsOnOwn (b : LocationBundleV4) (only : Option (List Text)) (w : Text → World) (url : Text)
    (e : LocationEntry) (lines : List LocationEntry) : Prop :=
  ∃ line id, landing (takenBefore b only w url) (b.entriesOf url) lines e = some (line, id) ∧
    (((filedBefore b only w url).find? (·.storageId = id)).map (·.location.line)).getD
      line.location.line = e.location.line

/-- The line that has an id is the server's own: one that a list handled before
is served, or where none there has the id, the line of this list. -/
structure OwnUnder (b : LocationBundleV4) (only : Option (List Text)) (w : Text → World)
    (ids : Text → List Text) (url : Text) (own : Line) (id : Text) (line : LocationEntry) :
      Prop where
  before : ∀ other, NamedIn ids (handledBefore b only w url) id other → other.location.line = own
  here : (∀ other, ¬ NamedIn ids (handledBefore b only w url) id other) → line.location.line = own

/-- **What keeps the chosen server**, by the lines its list is served and their ids. -/
inductive KeepsUnder (b : LocationBundleV4) (only : Option (List Text)) (w : Text → World)
    (ids : Text → List Text) (url : Text) (e : LocationEntry) (lines : List LocationEntry) : Prop
  /-- The line at the place of the entry among those of its signature is its own. -/
  | inherits {line : LocationEntry} (hheir : heirOf (b.entriesOf url) lines e = some line)
      (hown : OwnUnder b only w ids url e.location.line e.storageId line)
  /-- Fewer lines have its signature, and a new line whose name comes out as its id is its own. -/
  | named {line : LocationEntry} (hheir : heirOf (b.entriesOf url) lines e = none)
      (hnamed : (line, e.storageId) ∈ lines.zip (ids url))
      (hown : OwnUnder b only w ids url e.location.line e.storageId line)
  /-- Fewer lines have its signature, none is named so, and the first line is its own. -/
  | first {line : LocationEntry} {id : Text} (hheir : heirOf (b.entriesOf url) lines e = none)
      (hnone : e.storageId ∉ ids url) (hfirst : (lines.zip (ids url)).head? = some (line, id))
      (hown : OwnUnder b only w ids url e.location.line id line)

/-- With the ids that its places and names give every line served. -/
def KeepsServer (b : LocationBundleV4) (only : Option (List Text)) (w : Text → World) (url : Text)
    (e : LocationEntry) (lines : List LocationEntry) : Prop :=
  ∃ ids, Named b only w ids ∧ KeepsUnder b only w ids url e lines

section Named

variable {ids : Text → List Text} {id : Text}

/-- No list but this one keeps the id, and no entry that is not asked about has it. -/
def KeptHere (b : LocationBundleV4) (only : Option (List Text)) (w : Text → World) (url id : Text) :
    Prop :=
  id ∉ (b.locations.filter (b.notAsked only)).map (·.storageId) ∧
    ∀ p ∈ handledBefore b only w url, id ∉ p.2.keptIds b p.1

theorem keptHere_of_entry (hclean : b.Clean) (hurl : url ∈ b.targetUrls only)
    (hid : id ∈ (b.entriesOf url).map (·.storageId)) : KeptHere b only w url id := by
  refine ⟨fun hout => disjoint_ids_others hclean hurl hout hid, fun p hp hkept => ?_⟩
  have hne : p.1 ≠ url := by
    rw [handledBefore] at hp
    simpa using List.mem_takeWhile_imp hp
  exact disjoint_ids_entriesOf hclean hne (Outcome.mem_keptIds b hkept) hid

/-- So it is with every id the lines of the list get. -/
theorem keptHere_of_mem (hclean : b.Clean) (hurl : url ∈ b.targetUrls only)
    (hid : id ∈ refreshedIds (takenBefore b only w url) (b.entriesOf url) lines) :
    KeptHere b only w url id := by
  rcases mem_refreshedIds hid with hinherited | ⟨hnew, -⟩
  · exact keptHere_of_entry hclean hurl (mem_inheritedIds hinherited)
  · exact ⟨fun hout => hnew (subset_usedAfter _ _ hout),
      fun p hp hkept => hnew (keptIds_subset_usedAfter hp hkept)⟩

/-- Whose line has the id decides what is found under it. -/
theorem ownUnder_iff (hclean : b.Clean) (hnamed : Named b only w ids)
    (hkept : KeptHere b only w url id) (own : Line) (line : LocationEntry) :
    OwnUnder b only w ids url own id line ↔
      (((filedBefore b only w url).find? (·.storageId = id)).map (·.location.line)).getD
        line.location.line = own := by
  have hbefore : NamedFrom b ids ((b.locations.filter (b.notAsked only)).map (·.storageId))
      (handledBefore b only w url) := by
    rw [Named, ← List.takeWhile_append_dropWhile (p := (·.1 ≠ url)) (l := askedLists b only w)]
      at hnamed
    exact hnamed.left
  have hothers : (b.locations.filter (b.notAsked only)).find? (·.storageId = id) = none := by
    refine List.find?_eq_none.mpr fun e he heq => hkept.1 ?_
    rw [← of_decide_eq_true heq]
    exact List.mem_map_of_mem he
  rw [filedBefore, List.find?_append, hothers, Option.none_or,
    hbefore.find?_filedAll hclean w (fun _ => Iff.rfl) hkept.1 hkept.2]
  exact ⟨fun h => ⟨h.before, h.here⟩, fun h => ⟨h.1, h.2⟩⟩

/-- The ids a refresh gives are those the list's own turn gives. -/
theorem ids_eq_of_named (hclean : b.Clean) (hurl : url ∈ b.targetUrls only)
    (hserved : outcomeOf (answerOf b w url) = .served source lines)
    (hnamed : Named b only w ids) :
    ids url = refreshedIds (takenBefore b only w url) (b.entriesOf url) lines := by
  have hmem : (url, .served source lines) ∈ askedLists b only w := by
    rw [← hserved]
    exact List.mem_map_of_mem hurl
  obtain ⟨before, after, hlists⟩ := List.append_of_mem hmem
  rw [Named, hlists] at hnamed
  rw [hnamed.ids_eq hclean fun _ => Iff.rfl, takenBefore, handledBefore_eq hlists]

omit [Build] in
/-- **Where a selection lands**: on the heir, else on the line named by its id, else on the
first. -/
theorem landing_eq_some_iff {used : List Text} {previous : List LocationEntry}
    (hnodup : (previous.map (·.storageId)).Nodup) {line : LocationEntry} :
    landing used previous lines e = some (line, id) ↔
      (heirOf previous lines e = some line ∧ id = e.storageId) ∨
      (heirOf previous lines e = none ∧ id = e.storageId ∧
        (line, e.storageId) ∈ lines.zip (refreshedIds used previous lines)) ∨
      (heirOf previous lines e = none ∧ e.storageId ∉ refreshedIds used previous lines ∧
        (lines.zip (refreshedIds used previous lines)).head? = some (line, id)) := by
  have hsnd : (lines.zip (refreshedIds used previous lines)).map Prod.snd =
      refreshedIds used previous lines :=
    List.map_snd_zip (length_refreshedIds _ _ _).le
  have hnodupIds : ((lines.zip (refreshedIds used previous lines)).map Prod.snd).Nodup :=
    hsnd.symm ▸ nodup_refreshedIds hnodup
  have hnone : (lines.zip (refreshedIds used previous lines)).find? (·.2 = e.storageId) = none ↔
      e.storageId ∉ refreshedIds used previous lines := by
    rw [List.find?_eq_none]
    refine ⟨fun h hmem => ?_, fun h p hp hid => h ?_⟩
    · rw [← hsnd] at hmem
      obtain ⟨p, hp, hid⟩ := List.mem_map.mp hmem
      exact h p hp (decide_eq_true hid)
    · rw [← of_decide_eq_true hid]
      exact (List.of_mem_zip hp).2
  unfold landing
  cases heirOf previous lines e with
  | some heir => simp [eq_comm]
  | none =>
      simp only [Option.or_eq_some_iff, find?_key_eq_some_iff hnodupIds, hnone, reduceCtorEq,
        false_and, false_or, true_and]
      refine or_congr_left ⟨fun ⟨hmem, hid⟩ => ⟨hid, ?_⟩, fun ⟨hid, hmem⟩ => ⟨?_, hid⟩⟩
      · rw [← show id = e.storageId from hid]
        exact hmem
      · rw [hid]
        exact hmem

/-- **Where the selection lands is told by the places and the names of the lines.** -/
theorem keepsServer_iff (h : Chosen b e url) (hurl : url ∈ b.targetUrls only)
    (hserved : outcomeOf (answerOf b w url) = .served source lines) :
    KeepsServer b only w url e lines ↔ LandsOnOwn b only w url e lines := by
  have hnodup := Outcome.entriesOf_ids_nodup h.clean url
  have hentry : KeptHere b only w url e.storageId :=
    keptHere_of_entry h.clean hurl (List.mem_map_of_mem h.mem_entriesOf)
  have hfirstKept : ∀ {line : LocationEntry} {id : Text},
      (lines.zip (refreshedIds (takenBefore b only w url) (b.entriesOf url) lines)).head? =
        some (line, id) → KeptHere b only w url id := fun hfirst =>
    keptHere_of_mem h.clean hurl (List.of_mem_zip (List.mem_of_mem_head? hfirst)).2
  constructor
  · rintro ⟨ids, hnamed, hkeeps⟩
    have hids := ids_eq_of_named h.clean hurl hserved hnamed
    cases hkeeps with
    | @inherits line hheir hown =>
        exact ⟨line, e.storageId, (landing_eq_some_iff hnodup).mpr (.inl ⟨hheir, rfl⟩),
          (ownUnder_iff h.clean hnamed hentry _ _).mp hown⟩
    | @named line hheir hmem hown =>
        exact ⟨line, e.storageId,
          (landing_eq_some_iff hnodup).mpr (.inr (.inl ⟨hheir, rfl, hids ▸ hmem⟩)),
          (ownUnder_iff h.clean hnamed hentry _ _).mp hown⟩
    | @first line id hheir hnone hfirst hown =>
        rw [hids] at hnone hfirst
        exact ⟨line, id,
          (landing_eq_some_iff hnodup).mpr (.inr (.inr ⟨hheir, hnone, hfirst⟩)),
          (ownUnder_iff h.clean hnamed (hfirstKept hfirst) _ _).mp hown⟩
  · rintro ⟨line, id, hlanding, hown⟩
    obtain ⟨ids, hnamed⟩ := @exists_named _ b only w h.clean
    have hids := ids_eq_of_named h.clean hurl hserved hnamed
    refine ⟨ids, hnamed, ?_⟩
    rcases (landing_eq_some_iff hnodup).mp hlanding with
      ⟨hheir, rfl⟩ | ⟨hheir, rfl, hmem⟩ | ⟨hheir, hnone, hfirst⟩
    · exact .inherits hheir ((ownUnder_iff h.clean hnamed hentry _ _).mpr hown)
    · exact .named hheir (hids ▸ hmem) ((ownUnder_iff h.clean hnamed hentry _ _).mpr hown)
    · exact .first hheir (hids ▸ hnone) (hids ▸ hfirst)
        ((ownUnder_iff h.clean hnamed (hfirstKept hfirst) _ _).mpr hown)

end Named

/-- A refresh that returns and serves the list of the chosen entry. -/
structure Serves (s : Store) (b : LocationBundleV4) (only : Option (List Text)) (w : Text → World)
    (url : Text) (lines : List LocationEntry) (s' : Store) : Prop where
  asked : url ∈ b.targetUrls only
  served : ∃ source, outcomeOf (answerOf b w url) = .served source lines
  returns : ∃ report, s.refreshSubscriptionsUnlocked only w = .ok (s', report)

theorem selectedLine_refresh {s s₁ s' : Store} (hread : s.getBundleUnlocked = .ok (b, s₁))
    (h : Chosen b e url) (hserves : Serves s b only w url lines s') :
    s'.selectedLine = some e.location.line ↔ LandsOnOwn b only w url e lines := by
  obtain ⟨source, hserved⟩ := hserves.served
  obtain ⟨report, hrefresh⟩ := hserves.returns
  obtain ⟨p, hlanding, hactive, hfound⟩ := h.activeAfter_refreshedBy hserves.asked hserved
  -- A list was served, so the refresh saved.
  have hsaved : s' = s₁.save ((refreshedBy b only w).bundle b) := by
    rw [refresh_eq hread (allAnswered_of_refresh hread hrefresh)] at hrefresh
    split at hrefresh
    · rename_i hcounts
      have hkept := isKept_of_counts hcounts (url, outcomeOf (answerOf b w url))
        (List.mem_map_of_mem hserves.asked)
      rw [hserved] at hkept
      cases hkept
    · cases hrefresh
      rfl
  have hline : s'.selectedLine = some ((((filedBefore b only w url).find?
      (·.storageId = p.2)).map (·.location.line)).getD p.1.location.line) := by
    rw [hsaved, ← hfound]
    refine selectedLine_save s₁ (storable_refreshedBy only w h.clean) hactive ?_
    have hsome := congrArg Option.isSome hfound
    rwa [Option.isSome_map, Option.isSome_some] at hsome
  rw [hline, LandsOnOwn, Option.some_inj]
  constructor
  · intro heq
    exact ⟨p.1, p.2, hlanding, heq⟩
  · rintro ⟨line, id, hlanding', heq⟩
    rw [hlanding] at hlanding'
    cases hlanding'
    exact heq

/-- Where the entry's list is handled first and the line at its place is its own. -/
theorem keepsServer_of_heir (hclean : b.Clean)
    (hheir : (heirOf (b.entriesOf url) lines e).map (·.location.line) = some e.location.line)
    (hfirst : handledBefore b only w url = []) : KeepsServer b only w url e lines := by
  obtain ⟨heir, hheir, hline⟩ := Option.map_eq_some_iff.mp hheir
  obtain ⟨ids, hnamed⟩ := @exists_named _ b only w hclean
  refine ⟨ids, hnamed, .inherits hheir ⟨fun other hother => ?_, fun _ => hline⟩⟩
  rw [hfirst] at hother
  obtain ⟨p, hp, -⟩ := hother
  cases hp

/-- **Two refreshes leave the chosen server selected, and the same one, exactly
when in each the line at its place is its own**, or of fewer lines the one named
by its id, or the first. -/
theorem refresh_keeps_server_iff {s s₁ s' s'' : Store} {w' : Text → World}
    {lines' : List LocationEntry} (hread : s.getBundleUnlocked = .ok (b, s₁))
    (he : e ∈ b.locations) (hlisted : e.listUrl = some url)
    (hactive : b.activeLocationId = some e.storageId) (hserves : Serves s b only w url lines s')
    (hserves' : Serves s b only w' url lines' s'') :
    s'.selectedLine = some e.location.line ∧ s''.selectedLine = s'.selectedLine ↔
      KeepsServer b only w url e lines ∧ KeepsServer b only w' url e lines' := by
  have hchosen : Chosen b e url := ⟨Store.clean_getBundleUnlocked hread, he, hlisted, hactive⟩
  obtain ⟨source, hserved⟩ := hserves.served
  obtain ⟨source', hserved'⟩ := hserves'.served
  rw [keepsServer_iff hchosen hserves.asked hserved,
    keepsServer_iff hchosen hserves'.asked hserved', ← selectedLine_refresh hread hchosen hserves,
    ← selectedLine_refresh hread hchosen hserves']
  constructor
  · rintro ⟨hfirst, hsecond⟩
    exact ⟨hfirst, hsecond.trans hfirst⟩
  · rintro ⟨hfirst, hsecond⟩
    exact ⟨hfirst, hsecond.trans hfirst.symm⟩

end Keeping

end

/-! ### Two links of one host and port -/

section

attribute [local instance] Build.plain

/-- A link to one of two servers behind one address. -/
def linkA : Text := txt "ss://aes-256-gcm:a@1.2.3.4:443#A"

/-- A link to the other. -/
def linkB : Text := txt "ss://aes-256-gcm:b@1.2.3.4:443#B"

/-- A list of the two, the first of them selected. -/
def twinLinks : Store := pasted .empty someList (linkA ++ '\n' :: linkB)

def twinLinksBundle : LocationBundleV4 := twinLinks.stored.getD {}

/-- The entry of the first link. -/
def entryA : LocationEntry := twinLinksBundle.locations.head?.getD { storageId := [] }

theorem read_twinLinks : twinLinks.getBundleUnlocked = .ok (twinLinksBundle, twinLinks) := by
  refine Store.getBundleUnlocked_of_stored ?_ (by decide)
  have hsome : twinLinks.stored.isSome = true := by decide
  obtain ⟨b, hb⟩ := Option.isSome_iff_exists.mp hsome
  rw [twinLinksBundle, hb, Option.getD_some]

/-- What can be checked of a refresh that serves a list. -/
theorem serves_of_checked {s : Store} {b : LocationBundleV4} {only : Option (List Text)}
    {w : Text → World} {url : Text} (hasked : url ∈ b.targetUrls only)
    (hlines : (outcomeOf (answerOf b w url)).lines ≠ [])
    (hreturns : (s.refreshSubscriptionsUnlocked only w).isOk = true) :
    ∃ s', Serves s b only w url (outcomeOf (answerOf b w url)).lines s' := by
  cases hrefresh : s.refreshSubscriptionsUnlocked only w with
  | error err =>
      rw [hrefresh] at hreturns
      cases hreturns
  | ok r =>
      refine ⟨r.1, hasked, ?_, r.2, hrefresh⟩
      cases houtcome : outcomeOf (answerOf b w url) with
      | kept => simp [houtcome, Outcome.lines] at hlines
      | refused source => simp [houtcome, Outcome.lines] at hlines
      | served source lines => exact ⟨source, rfl⟩

theorem refresh_keeps_linkA :
    ∃ s' s'' report report',
      (twinLinks.refreshSubscriptionsUnlocked none fun _ => .serving (linkA ++ '\n' :: linkB)) =
        .ok (s', report) ∧
      (twinLinks.refreshSubscriptionsUnlocked none fun _ => .serving linkA) = .ok (s'', report') ∧
      s'.selectedLine = some (.link (some linkA)) ∧ s''.selectedLine = s'.selectedLine := by
  have hasked : someList ∈ twinLinksBundle.targetUrls none := by decide
  have hchosen : entryA ∈ twinLinksBundle.locations ∧ entryA.listUrl = some someList ∧
      twinLinksBundle.activeLocationId = some entryA.storageId ∧
      entryA.location.line = .link (some linkA) := by decide +kernel
  obtain ⟨he, hlisted, hactive, hline⟩ := hchosen
  have hclean : twinLinksBundle.Clean := Store.clean_getBundleUnlocked read_twinLinks
  obtain ⟨s', hserves⟩ := serves_of_checked (s := twinLinks)
    (w := fun _ => .serving (linkA ++ '\n' :: linkB)) hasked (by decide) (by decide)
  obtain ⟨s'', hserves'⟩ := serves_of_checked (s := twinLinks) (w := fun _ => .serving linkA)
    hasked (by decide) (by decide)
  obtain ⟨report, hreturns⟩ := hserves.returns
  obtain ⟨report', hreturns'⟩ := hserves'.returns
  have hkeeps := (refresh_keeps_server_iff read_twinLinks he hlisted hactive hserves hserves').mpr
    ⟨keepsServer_of_heir hclean (by decide +kernel) (by decide +kernel),
      keepsServer_of_heir hclean (by decide +kernel) (by decide +kernel)⟩
  rw [hline] at hkeeps
  exact ⟨s', s'', report, report', hreturns, hreturns', hkeeps⟩

/-- **A refresh changes the chosen server**: its list still has its link, after
the other one now, and the selection is on the other. -/
theorem refresh_moves_to_linkB :
    twinLinks.selectedLine = some (.link (some linkA)) ∧
      importable (linkB ++ '\n' :: linkA) = [.link (some linkB), .link (some linkA)] ∧
      ((twinLinks.refreshSubscriptionsUnlocked none fun _ =>
        .serving (linkB ++ '\n' :: linkA)).toOption.map (·.1.selectedLine)) =
          some (some (.link (some linkB))) ∧
      ((twinLinks.refreshSubscriptionsUnlocked none fun _ =>
        .serving (linkA ++ '\n' :: linkB)).toOption.map (·.1.selectedLine)) =
          some (some (.link (some linkA))) := by
  decide +kernel

end

end Ghostlane.App
