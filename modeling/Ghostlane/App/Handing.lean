import Ghostlane.App.RefreshSound
import Mathlib.Data.List.Find

/-!
# Ghostlane.App.Handing

**Which id a served line gets**, said of the lines and the entries alone. A line whose place among
those of its signature an entry has too gets that entry's id; any other is new, and gets the first
spelling of its name that is free (`HandsOut`). A refresh names its lists one after another
(`NamedFrom`), and in one way only: the one of `refreshedIds` (`handed_iff`).
-/

namespace Ghostlane.App

open Ghostlane.Lib

/-! ### Heirs -/

/-- Two entries a refresh takes for one server. -/
def sameServer (e e' : LocationEntry) : Bool :=
  subscriptionSignature e'.location == subscriptionSignature e.location

/-- The line that inherits an entry: of the lines of its signature, the one at
its place among the entries of that signature. -/
def heirOf (previous lines : List LocationEntry) (e : LocationEntry) : Option LocationEntry :=
  (lines.filter (sameServer e))[(previous.filter (sameServer e)).findIdx
    (·.storageId = e.storageId)]?

theorem sameServer_congr {e e' : LocationEntry} (h : sameServer e e' = true) :
    sameServer e' = sameServer e := by
  funext e''
  rw [sameServer, sameServer, beq_iff_eq.mp h]

/-- What is of a line's signature is of no other. -/
theorem sameServer_disjoint {e line : LocationEntry} (h : ¬ sameServer e line = true)
    (e' : LocationEntry) (he' : sameServer line e' = true) : sameServer e e' = false := by
  refine Bool.eq_false_iff.mpr fun hboth => h ?_
  rw [sameServer, beq_iff_eq] at he' hboth ⊢
  rw [← he', hboth]

/-- **Ids are handed down by place.** -/
theorem find?_inherited {previous : List LocationEntry} {e : LocationEntry}
    (hnodup : (previous.map (·.storageId)).Nodup) (he : e ∈ previous) (lines : List LocationEntry) :
    ((lines.zip ((inherited previous lines).map (·.map (·.storageId)))).find?
      (·.2 = some e.storageId)).map Prod.fst = heirOf previous lines e := by
  induction lines generalizing previous with
  | nil => rfl
  | cons line lines ih =>
      have hmem : e ∈ previous.filter (sameServer e) :=
        List.mem_filter.mpr ⟨he, beq_self_eq_true _⟩
      have hnodup' : ((previous.eraseP (sameServer line)).map (·.storageId)).Nodup :=
        hnodup.sublist ((List.eraseP_sublist).map _)
      show (((line, (previous.find? (sameServer line)).map (·.storageId)) ::
        lines.zip ((inherited (previous.eraseP (sameServer line)) lines).map
          (·.map (·.storageId)))).find? _).map _ = _
      by_cases hsame : sameServer e line = true
      · -- The line takes the first entry left of the signature.
        rw [sameServer_congr hsame] at hnodup' ⊢
        have htail := filter_eraseP_self (sameServer e) previous
        cases hfilter : previous.filter (sameServer e) with
        | nil => exact absurd hmem (by simp [hfilter])
        | cons first rest =>
            have hfirst : previous.find? (sameServer e) = some first := by
              rw [← List.head?_filter, hfilter, List.head?_cons]
            rw [hfilter, List.tail_cons] at htail
            rw [hfilter] at hmem
            rw [hfirst, heirOf, List.filter_cons_of_pos hsame, hfilter, List.findIdx_cons]
            by_cases hid : first.storageId = e.storageId
            · rw [List.find?_cons_of_pos (by simpa using hid)]
              simp [hid]
            · rw [List.find?_cons_of_neg (by simpa using hid), ih hnodup', heirOf, htail]
              · simp [hid]
              · -- The entry was not the first, so it is still there.
                have hrest : e ∈ rest := (List.mem_cons.mp hmem).resolve_left
                  fun heq => hid (heq ▸ rfl)
                exact (List.mem_filter.mp (htail ▸ hrest)).1
      · have hapart := sameServer_disjoint hsame
        have hkeep := filter_eraseP_of_disjoint hapart previous
        have hother : (previous.find? (sameServer line)).map (·.storageId) ≠ some e.storageId := by
          intro heq
          obtain ⟨e', he', hid⟩ := Option.map_eq_some_iff.mp heq
          obtain rfl := List.inj_on_of_nodup_map hnodup (List.mem_of_find?_eq_some he') he hid
          have hself := hapart _ (List.find?_some he')
          rw [sameServer, beq_self_eq_true] at hself
          cases hself
        rw [List.find?_cons_of_neg (by simp [hother]), ih hnodup', heirOf, hkeep, heirOf,
          List.filter_cons_of_neg hsame]
        rw [← hkeep] at hmem
        exact (List.mem_filter.mp hmem).1

/-- A name that is taken goes to no new line. -/
theorem find?_assignIds {used : List Text} {id : Text} (hid : id ∈ used)
    (lines : List LocationEntry) (bases : List (Option Text × Text)) :
    ((lines.zip (assignIds used bases)).find? (·.2 = id)).map Prod.fst =
      ((lines.zip (bases.map Prod.fst)).find? (·.2 = some id)).map Prod.fst := by
  induction bases generalizing lines used with
  | nil => simp [assignIds]
  | cons base bases ih =>
      cases lines with
      | nil => rfl
      | cons line lines =>
          obtain ⟨reused, name⟩ := base
          cases reused with
          | some reused =>
              by_cases heq : reused = id
              · simp [assignIds, heq]
              · simpa [assignIds, heq] using ih hid lines
          | none =>
              have hne : uniqueStorageId name used ≠ id := fun heq =>
                uniqueStorageId_not_mem name used (heq ▸ hid)
              simpa [assignIds, hne] using ih (List.mem_cons_of_mem _ hid) lines

/-! ### Ids by place and by name -/

/-- The entry whose place a line has under the lines above it. -/
def predecessor (previous above : List LocationEntry) (line : LocationEntry) :
    Option LocationEntry :=
  (previous.filter (sameServer line))[(above.filter (sameServer line)).length]?

/-- The ids of some lines under those above them. -/
inductive HandsOut (previous : List LocationEntry) :
    (taken : List Text) → (above lines : List LocationEntry) → List Text → Prop
  | nil {taken : List Text} {above : List LocationEntry} : HandsOut previous taken above [] []
  /-- The line has the place of an entry, and its id. -/
  | inherits {taken : List Text} {above lines : List LocationEntry} {line old : LocationEntry}
      {ids : List Text} (hplace : predecessor previous above line = some old)
      (hrest : HandsOut previous taken (above ++ [line]) lines ids) :
      HandsOut previous taken above (line :: lines) (old.storageId :: ids)
  /-- The line is new, and its name is taken from then on. -/
  | names {taken : List Text} {above lines : List LocationEntry} {line : LocationEntry} {id : Text}
      {ids : List Text} (hplace : predecessor previous above line = none)
      (hfree : IsFirstFree (nameCandidate (storageSlug (nameBase above.length line))) taken id)
      (hrest : HandsOut previous (id :: taken) (above ++ [line]) lines ids) :
      HandsOut previous taken above (line :: lines) (id :: ids)

/-- The ids of the lines a list is served, what is inherited being taken before any is named. -/
def Handed (taken : List Text) (previous lines : List LocationEntry) (ids : List Text) : Prop :=
  HandsOut previous
    ((previous.filter fun e => (heirOf previous lines e).isSome).map (·.storageId) ++ taken)
    [] lines ids

section Handed

variable {previous lines : List LocationEntry} {taken used ids : List Text}

/-- A line takes the first entry left of its signature, and none of another's. -/
theorem filter_eraseP_sameServer {pool above : List LocationEntry}
    (hpool : ∀ line, pool.filter (sameServer line) =
      (previous.filter (sameServer line)).drop (above.filter (sameServer line)).length)
    (line other : LocationEntry) :
    (pool.eraseP (sameServer line)).filter (sameServer other) =
      (previous.filter (sameServer other)).drop
        ((above ++ [line]).filter (sameServer other)).length := by
  rw [List.filter_append, List.length_append]
  by_cases hsame : sameServer other line = true
  · have hself : sameServer line line = true := beq_self_eq_true _
    rw [← sameServer_congr hsame, filter_eraseP_self, hpool, List.tail_drop,
      List.filter_cons_of_pos hself]
    rfl
  · rw [filter_eraseP_of_disjoint (sameServer_disjoint hsame), hpool,
      List.filter_cons_of_neg hsame]
    rfl

/-- What is left of each signature is what the lines above have not taken. -/
theorem handsOut_iff {pool above : List LocationEntry}
    (hpool : ∀ line, pool.filter (sameServer line) =
      (previous.filter (sameServer line)).drop (above.filter (sameServer line)).length) :
    HandsOut previous taken above lines ids ↔
      assignIds taken (((inherited pool lines).map (·.map (·.storageId))).zip
        (lines.mapIdx fun i => nameBase (above.length + i))) = ids := by
  induction lines generalizing pool above taken ids with
  | nil =>
      constructor
      · intro h
        cases h
        rfl
      · intro h
        rw [← h]
        exact .nil
  | cons line lines ih =>
      have hfind : pool.find? (sameServer line) = predecessor previous above line := by
        rw [predecessor, ← List.head?_filter, hpool, List.head?_drop]
      have hpool' := filter_eraseP_sameServer hpool line
      have hbases : (line :: lines).mapIdx (fun i => nameBase (above.length + i)) =
          nameBase above.length line ::
            lines.mapIdx fun i => nameBase ((above ++ [line]).length + i) := by
        rw [List.mapIdx_cons, List.length_append, List.length_singleton]
        simp only [Nat.add_assoc, Nat.add_comm 1]
        rfl
      show _ ↔ assignIds taken (((pool.find? (sameServer line) ::
        inherited (pool.eraseP (sameServer line)) lines).map _).zip _) = ids
      rw [hbases, hfind, List.map_cons, List.zip_cons_cons]
      cases hplace : predecessor previous above line with
      | some old =>
          rw [Option.map_some, assignIds]
          constructor
          · intro h
            cases h with
            | inherits hplace' hrest =>
                rw [hplace] at hplace'
                cases hplace'
                rw [(ih hpool').mp hrest]
            | names hplace' => rw [hplace] at hplace'; cases hplace'
          · intro h
            rw [← h]
            exact .inherits hplace ((ih hpool').mpr rfl)
      | none =>
          rw [Option.map_none, assignIds]
          constructor
          · intro h
            cases h with
            | inherits hplace' => rw [hplace] at hplace'; cases hplace'
            | names _ hfree hrest =>
                have hid := (firstFree_eq_iff (nameCandidate_injective _)).mpr hfree
                rw [← (ih hpool').mp hrest, ← hid]
                rfl
          · intro h
            rw [← h]
            exact .names hplace (isFirstFree_firstFree (nameCandidate_injective _) _)
              ((ih hpool').mpr rfl)

/-- A name depends on what is taken, not on the order it was taken in. -/
theorem assignIds_congr (hsame : ∀ id, id ∈ taken ↔ id ∈ used) (bases : List (Option Text × Text)) :
    assignIds taken bases = assignIds used bases := by
  induction bases generalizing taken used with
  | nil => rfl
  | cons base bases ih =>
      obtain ⟨reused, name⟩ := base
      cases reused with
      | some id => exact congrArg (id :: ·) (ih hsame)
      | none =>
          have hname : uniqueStorageId name taken = uniqueStorageId name used := by
            refine (firstFree_eq_iff (nameCandidate_injective _)).mpr ?_
            obtain ⟨n, hn, hfree, hbelow⟩ :=
              isFirstFree_firstFree (nameCandidate_injective (storageSlug name)) used
            exact ⟨n, hn, fun h => hfree ((hsame _).mp h), fun m hm => (hsame _).mpr (hbelow m hm)⟩
          rw [assignIds, assignIds, hname]
          refine congrArg (_ :: ·) (ih fun id => ?_)
          rw [List.mem_cons, List.mem_cons, hsame]

/-- What is inherited is the ids of the entries that have an heir. -/
theorem mem_inheritedIds_iff (hnodup : (previous.map (·.storageId)).Nodup) {id : Text} :
    id ∈ inheritedIds previous lines ↔
      id ∈ (previous.filter fun e => (heirOf previous lines e).isSome).map (·.storageId) := by
  have hheir : ∀ e ∈ previous,
      (heirOf previous lines e).isSome = true ↔ e.storageId ∈ inheritedIds previous lines := by
    intro e he
    rw [← find?_inherited hnodup he, Option.isSome_map, List.find?_isSome, ← some_mem_reused]
    constructor
    · rintro ⟨p, hp, hid⟩
      exact of_decide_eq_true hid ▸ (List.of_mem_zip hp).2
    · intro hmem
      have hsnd : (lines.zip ((inherited previous lines).map (·.map (·.storageId)))).map Prod.snd =
          (inherited previous lines).map (·.map (·.storageId)) :=
        List.map_snd_zip (by simp)
      rw [← hsnd] at hmem
      obtain ⟨p, hp, hid⟩ := List.mem_map.mp hmem
      exact ⟨p, hp, decide_eq_true hid⟩
  rw [List.mem_map]
  constructor
  · intro hmem
    obtain ⟨e, he, rfl⟩ := List.mem_map.mp (mem_inheritedIds hmem)
    exact ⟨e, List.mem_filter.mpr ⟨he, (hheir e he).mpr hmem⟩, rfl⟩
  · rintro ⟨e, he, rfl⟩
    obtain ⟨he, hsome⟩ := List.mem_filter.mp he
    exact (hheir e he).mp hsome

/-- **Lines get their ids in one way.** -/
theorem handed_iff (hnodup : (previous.map (·.storageId)).Nodup)
    (hsame : ∀ id, id ∈ taken ↔ id ∈ used) :
    Handed taken previous lines ids ↔ refreshedIds used previous lines = ids := by
  have hpool : ∀ line, previous.filter (sameServer line) =
      (previous.filter (sameServer line)).drop (([] : List LocationEntry).filter
        (sameServer line)).length := fun _ => rfl
  rw [Handed, handsOut_iff hpool, refreshedIds]
  simp only [List.length_nil, Nat.zero_add]
  rw [assignIds_congr fun id => ?_]
  rw [List.mem_append, List.mem_append, ← mem_inheritedIds_iff hnodup, hsame]
  rfl

end Handed

/-! ### One list after another -/

/-- The ids a list takes, those of its lines being given. -/
def takenBy (b : LocationBundleV4) (ids : Text → List Text) : Text × Outcome → List Text
  | (url, .kept) => (b.entriesOf url).map (·.storageId)
  | (_, .refused _) => []
  | (url, .served _ _) => ids url

/-- Each list's lines are named when its turn comes, those before it having their ids. -/
def NamedFrom (b : LocationBundleV4) (ids : Text → List Text) :
    (taken : List Text) → List (Text × Outcome) → Prop
  | _, [] => True
  | taken, (url, o) :: lists =>
      (∀ source lines, o = .served source lines →
        Handed taken (b.entriesOf url) lines (ids url)) ∧
      NamedFrom b ids (takenBy b ids (url, o) ++ taken) lists

section

variable [Build] {b : LocationBundleV4} {ids : Text → List Text} {taken used : List Text}
  {lists : List (Text × Outcome)}

omit [Build] in
theorem usedAfter_append (lists' : List (Text × Outcome)) :
    usedAfter b used (lists ++ lists') = usedAfter b (usedAfter b used lists) lists' := by
  induction lists generalizing used with
  | nil => rfl
  | cons p lists ih => exact ih

theorem mem_takenBy (hclean : b.Clean) (hsame : ∀ id, id ∈ taken ↔ id ∈ used) {url : Text}
    {o : Outcome} (hnamed : ∀ source lines, o = .served source lines →
      Handed taken (b.entriesOf url) lines (ids url)) (id : Text) :
    id ∈ takenBy b ids (url, o) ++ taken ↔ id ∈ o.taken b used url ++ used := by
  rw [List.mem_append, List.mem_append, hsame]
  cases o with
  | kept =>
      -- an entry whose id is taken is left out, and its id is taken
      rw [takenBy, Outcome.taken, List.mem_reverse]
      constructor
      · rintro (hmem | hmem)
        · by_cases hused : id ∈ used
          · exact .inr hused
          · exact .inl (mem_map_distinctFrom hmem hused)
        · exact .inr hmem
      · exact Or.imp_left fun hmem => ((distinctFrom_sublist _ _).map _).subset hmem
  | refused source => rfl
  | served source lines =>
      rw [takenBy, Outcome.taken,
        (handed_iff (Outcome.entriesOf_ids_nodup hclean url) hsame).mp (hnamed source lines rfl)]

/-- What a served block has under an id. -/
theorem find?_block (hclean : b.Clean) (url : Text) (w : World) (used : List Text)
    (source : ImportSource) (lines : List LocationEntry) (id : Text) :
    ((Outcome.served source lines).filed b w used url).find? (·.storageId = id) =
      ((lines.zip (refreshedIds used (b.entriesOf url) lines)).find? (·.2 = id)).map fun p =>
        Refreshing.refile b w url source p.1 p.2 := by
  rw [Outcome.filed, ← List.map_uncurry_zip_eq_zipWith, List.find?_map]
  refine congrArg _ (List.find?_congr fun p hp => ?_)
  show decide (trim p.2 = id) = _
  rw [(Outcome.of_mem_refreshedIds hclean (List.of_mem_zip hp).2).1]

/-- **The ids of a list's lines** are those its turn gives. -/
theorem NamedFrom.ids_eq (hclean : b.Clean) (hsame : ∀ id, id ∈ taken ↔ id ∈ used)
    {before after : List (Text × Outcome)} {url : Text} {source : ImportSource}
    {lines : List LocationEntry}
    (h : NamedFrom b ids taken (before ++ (url, .served source lines) :: after)) :
    ids url = refreshedIds (usedAfter b used before) (b.entriesOf url) lines := by
  induction before generalizing taken used with
  | nil =>
      exact ((handed_iff (Outcome.entriesOf_ids_nodup hclean url) hsame).mp
        (h.1 source lines rfl)).symm
  | cons p before ih =>
      obtain ⟨url', o⟩ := p
      exact ih (mem_takenBy hclean hsame h.1) h.2

end

/-! ### What is filed before under an id -/

section

variable [Build] {b : LocationBundleV4} {ids : Text → List Text} {taken used : List Text}
  {lists : List (Text × Outcome)}

/-- A line that one of some lists is served has the id. -/
def NamedIn (ids : Text → List Text) (lists : List (Text × Outcome)) (id : Text)
    (line : LocationEntry) : Prop :=
  ∃ p ∈ lists, ∃ source lines, p.2 = .served source lines ∧ (line, id) ∈ lines.zip (ids p.1)

omit [Build] in
theorem namedIn_cons {url : Text} {o : Outcome} {id : Text} {line : LocationEntry} :
    NamedIn ids ((url, o) :: lists) id line ↔
      (∃ source lines, o = .served source lines ∧ (line, id) ∈ lines.zip (ids url)) ∨
        NamedIn ids lists id line := by
  unfold NamedIn
  rw [List.exists_mem_cons_iff]

/-- An id that is taken goes to no line that does not inherit it. -/
theorem NamedFrom.not_namedIn (hclean : b.Clean) (hsame : ∀ id, id ∈ taken ↔ id ∈ used) {id : Text}
    (h : NamedFrom b ids taken lists) (hid : id ∈ used)
    (hkept : ∀ p ∈ lists, id ∉ p.2.keptIds b p.1) (line : LocationEntry) :
    ¬ NamedIn ids lists id line := by
  induction lists generalizing taken used with
  | nil =>
      rintro ⟨p, hp, -⟩
      exact List.not_mem_nil hp
  | cons q lists ih =>
      obtain ⟨url, o⟩ := q
      rw [namedIn_cons, not_or]
      constructor
      · rintro ⟨source, lines, rfl, hline⟩
        have hids := (handed_iff (Outcome.entriesOf_ids_nodup hclean url) hsame).mp
          (h.1 source lines rfl)
        have hmem := (List.of_mem_zip hline).2
        rw [← hids] at hmem
        rcases mem_refreshedIds hmem with hinherited | ⟨hnew, -⟩
        · exact hkept _ (List.mem_cons_self ..) hinherited
        · exact hnew hid
      · exact ih (mem_takenBy hclean hsame h.1) h.2 (List.mem_append_right _ hid)
          fun p hp => hkept p (List.mem_cons_of_mem _ hp)

/-- The ids a list is served are its lines', and no two of them are one. -/
theorem zip_ids (hclean : b.Clean) (hsame : ∀ id, id ∈ taken ↔ id ∈ used) {url : Text}
    {lines : List LocationEntry} (h : Handed taken (b.entriesOf url) lines (ids url)) :
    refreshedIds used (b.entriesOf url) lines = ids url ∧
      (lines.zip (ids url)).map Prod.snd = ids url ∧
      ((lines.zip (ids url)).map Prod.snd).Nodup := by
  have hnodup := Outcome.entriesOf_ids_nodup hclean url
  have hids := (handed_iff hnodup hsame).mp h
  have hsnd : (lines.zip (ids url)).map Prod.snd = ids url :=
    List.map_snd_zip (by rw [← hids, length_refreshedIds])
  refine ⟨hids, hsnd, ?_⟩
  rw [hsnd, ← hids]
  exact nodup_refreshedIds hnodup

/-- The line that an id goes to is the only one. -/
theorem NamedFrom.namedIn_served_iff (hclean : b.Clean) (hsame : ∀ id, id ∈ taken ↔ id ∈ used)
    {url id : Text} {source : ImportSource} {lines : List LocationEntry} {own : LocationEntry}
    (h : NamedFrom b ids taken ((url, .served source lines) :: lists))
    (hown : (own, id) ∈ lines.zip (ids url)) (hkept : ∀ p ∈ lists, id ∉ p.2.keptIds b p.1)
    (line : LocationEntry) :
    NamedIn ids ((url, .served source lines) :: lists) id line ↔ line = own := by
  obtain ⟨hids, -, hnodup⟩ := zip_ids hclean hsame (h.1 source lines rfl)
  rw [namedIn_cons]
  constructor
  · rintro (⟨source', lines', heq, hline⟩ | hlater)
    · cases heq
      exact congrArg Prod.fst (List.inj_on_of_nodup_map hnodup hline hown rfl)
    · have htaken : id ∈ (Outcome.served source lines).taken b used url := by
        rw [Outcome.taken, hids]
        exact (List.of_mem_zip hown).2
      exact absurd hlater (h.2.not_namedIn hclean (mem_takenBy hclean hsame h.1)
        (List.mem_append_left _ htaken) hkept line)
  · rintro rfl
    exact .inl ⟨source, lines, rfl, hown⟩

/-- A list that does not take an id has no line under it. -/
theorem NamedFrom.namedIn_of_not_taken (hclean : b.Clean) (hsame : ∀ id, id ∈ taken ↔ id ∈ used)
    {url id : Text} {o : Outcome} (h : NamedFrom b ids taken ((url, o) :: lists))
    (hid : id ∉ o.taken b used url) (line : LocationEntry) :
    NamedIn ids ((url, o) :: lists) id line ↔ NamedIn ids lists id line := by
  rw [namedIn_cons, or_iff_right]
  rintro ⟨source, lines, rfl, hline⟩
  refine hid ?_
  rw [Outcome.taken, (zip_ids hclean hsame (h.1 source lines rfl)).1]
  exact (List.of_mem_zip hline).2

/-- **What is filed first under an id** that no list keeps is the one line named so. -/
theorem NamedFrom.find?_filedAll (hclean : b.Clean) (w : Text → World)
    (hsame : ∀ id, id ∈ taken ↔ id ∈ used) {id : Text} (h : NamedFrom b ids taken lists)
    (hid : id ∉ used) (hkept : ∀ p ∈ lists, id ∉ p.2.keptIds b p.1) (own other : Line) :
    (((filedAll b w used lists).find? (·.storageId = id)).map (·.location.line)).getD other = own ↔
      (∀ line, NamedIn ids lists id line → line.location.line = own) ∧
        ((∀ line, ¬ NamedIn ids lists id line) → other = own) := by
  induction lists generalizing taken used with
  | nil =>
      have hnone : ∀ line, ¬ NamedIn ids [] id line := fun line ⟨p, hp, _⟩ => List.not_mem_nil hp
      exact ⟨fun heq => ⟨fun line hline => absurd hline (hnone line), fun _ => heq⟩,
        fun hown => hown.2 hnone⟩
  | cons q lists ih =>
      obtain ⟨url, o⟩ := q
      have hkept' : ∀ p ∈ lists, id ∉ p.2.keptIds b p.1 := fun p hp =>
        hkept p (List.mem_cons_of_mem _ hp)
      rw [filedAll, List.find?_append]
      by_cases hmem : id ∈ o.taken b used url
      · -- the id goes to a line of the first list, which is served then
        cases o with
        | kept =>
            refine absurd ?_ (hkept _ (List.mem_cons_self ..))
            exact ((distinctFrom_sublist _ _).map _).subset (List.mem_reverse.mp hmem)
        | refused source => cases hmem
        | served source lines =>
            obtain ⟨hids, hsnd, hnodup⟩ := zip_ids hclean hsame (h.1 source lines rfl)
            rw [Outcome.taken, hids, ← hsnd] at hmem
            obtain ⟨⟨line, id⟩, hline, rfl⟩ := List.mem_map.mp hmem
            have hfind : (lines.zip (ids url)).find? (·.2 = id) = some (line, id) :=
              (find?_key_eq_some_iff hnodup).mpr ⟨hline, rfl⟩
            rw [find?_block hclean, hids, hfind, Option.map_some, Option.some_or, Option.map_some,
              Option.getD_some, refile_line]
            simp only [h.namedIn_served_iff hclean hsame hline hkept', forall_eq]
            exact ⟨fun hown => ⟨hown, fun hnone => hnone.elim⟩, And.left⟩
      · -- nothing of the first list is filed under it
        have hnone : (o.filed b (w url) used url).find? (·.storageId = id) = none := by
          refine List.find?_eq_none.mpr fun e he heq => hmem ?_
          rw [← Outcome.mem_ids_filed hclean (w := w url), ← of_decide_eq_true heq]
          exact List.mem_map_of_mem he
        have hid' : id ∉ o.taken b used url ++ used := by
          rw [List.mem_append, not_or]
          exact ⟨hmem, hid⟩
        rw [hnone, Option.none_or, ih (mem_takenBy hclean hsame h.1) h.2 hid' hkept']
        simp only [h.namedIn_of_not_taken hclean hsame hmem]

omit [Build] in
theorem NamedFrom.left {after : List (Text × Outcome)}
    (h : NamedFrom b ids taken (lists ++ after)) :
    NamedFrom b ids taken lists := by
  induction lists generalizing taken with
  | nil => trivial
  | cons q lists ih => exact ⟨h.1, ih h.2⟩

omit [Build] in
/-- What is taken stays taken. -/
theorem subset_usedAfter (lists : List (Text × Outcome)) (used : List Text) :
    used ⊆ usedAfter b used lists := by
  induction lists generalizing used with
  | nil => exact List.Subset.refl used
  | cons q lists ih => exact fun id hid => ih _ (List.mem_append_right _ hid)

omit [Build] in
/-- What a list keeps is taken when it is handled. -/
theorem keptIds_subset_usedAfter {p : Text × Outcome} (hp : p ∈ lists) :
    p.2.keptIds b p.1 ⊆ usedAfter b used lists := by
  induction lists generalizing used with
  | nil => cases hp
  | cons q lists ih =>
      rcases List.mem_cons.mp hp with rfl | hp
      · intro id hid
        refine subset_usedAfter lists _ ?_
        rw [List.mem_append]
        obtain ⟨url, o⟩ := p
        cases o with
        | kept =>
            by_cases hused : id ∈ used
            · exact .inr hused
            · exact .inl (List.mem_reverse.mpr (mem_map_distinctFrom hid hused))
        | refused source => cases hid
        | served source lines => exact .inl (inheritedIds_subset_refreshedIds hid)
      · exact ih hp

end

section

variable [Build] {b : LocationBundleV4} {only : Option (List Text)} {w : Text → World}
  {ids : Text → List Text}

/-- The lists a refresh handles before another. -/
def handledBefore (b : LocationBundleV4) (only : Option (List Text)) (w : Text → World)
    (url : Text) : List (Text × Outcome) :=
  (askedLists b only w).takeWhile (·.1 ≠ url)

/-- The ids taken by then. -/
def takenBefore (b : LocationBundleV4) (only : Option (List Text)) (w : Text → World)
    (url : Text) : List Text :=
  usedAfter b ((b.locations.filter (b.notAsked only)).map (·.storageId))
    (handledBefore b only w url)

/-- The ids of the lines of every list served in a refresh. -/
def Named (b : LocationBundleV4) (only : Option (List Text)) (w : Text → World)
    (ids : Text → List Text) : Prop :=
  NamedFrom b ids ((b.locations.filter (b.notAsked only)).map (·.storageId)) (askedLists b only w)

theorem handledBefore_eq {before after : List (Text × Outcome)} {url : Text} {o : Outcome}
    (h : askedLists b only w = before ++ (url, o) :: after) :
    handledBefore b only w url = before := by
  have hnodup : ((askedLists b only w).map Prod.fst).Nodup := nodup_askedLists
  rw [h, List.map_append, List.map_cons] at hnodup
  have hbefore : ∀ p ∈ before, p.1 ≠ url := fun p hp heq =>
    (List.nodup_append.mp hnodup).2.2 p.1 (List.mem_map_of_mem hp) url (List.mem_cons_self ..) heq
  rw [handledBefore, h, List.takeWhile_append_of_pos fun p hp => by simpa using hbefore p hp,
    List.takeWhile_cons_of_neg (by simp), List.append_nil]

/-- **Every refresh has such ids.** -/
theorem exists_named (hclean : b.Clean) : ∃ ids, Named b only w ids := by
  set ids : Text → List Text := fun url => refreshedIds (takenBefore b only w url) (b.entriesOf url)
    (outcomeOf (answerOf b w url)).lines with hids
  refine ⟨ids, ?_⟩
  have hfrom : ∀ (after before : List (Text × Outcome)) (taken : List Text),
      askedLists b only w = before ++ after →
      (∀ id, id ∈ taken ↔
        id ∈ usedAfter b ((b.locations.filter (b.notAsked only)).map (·.storageId)) before) →
      NamedFrom b ids taken after := by
    intro after
    induction after with
    | nil => exact fun _ _ _ _ => trivial
    | cons p after ih =>
        obtain ⟨url, o⟩ := p
        intro before taken hlists hsame
        have hdecided : outcomeOf (answerOf b w url) = o := by
          have hmem : (url, o) ∈ askedLists b only w := by
            rw [hlists]
            exact List.mem_append_right before (List.mem_cons_self ..)
          obtain ⟨url', -, heq⟩ := List.mem_map.mp hmem
          cases heq
          rfl
        have hhead : ∀ source lines, o = .served source lines →
            Handed taken (b.entriesOf url) lines (ids url) := by
          intro source lines ho
          rw [handed_iff (Outcome.entriesOf_ids_nodup hclean url) hsame, hids]
          dsimp only
          rw [hdecided, ho, takenBefore, handledBefore_eq hlists]
          rfl
        refine ⟨hhead, ih (before ++ [(url, o)]) _ ?_ fun id => ?_⟩
        · rw [hlists, List.append_assoc]
          rfl
        · rw [usedAfter_append]
          exact mem_takenBy hclean hsame hhead id
  exact hfrom _ [] _ rfl fun _ => Iff.rfl

end

end Ghostlane.App
