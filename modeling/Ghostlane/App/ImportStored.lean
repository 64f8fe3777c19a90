import Ghostlane.App.Clean

/-!
# Ghostlane.App.ImportStored

**What an import leaves in the store.** Merging loses nothing: every entry of
the imported bundle is filed under a name that is new to the store
(`importReport_stores`). What is merged, though, is the bundle after
`normalized`, which keeps one entry to an id, and the two readers of a body
named theirs apart from each other. A room and a share link of one name come out
of reading under one id, and the link is gone before it is merged.
-/

namespace Ghostlane.App

open Ghostlane.Lib

section

variable [Build]

/-! ### What was resolved -/

/-- The link a text is, when it is one that hides what it stands for. -/
def arrivedAs (text : Text) : Option Text :=
  let input := normalizedImportText text
  if isPartnerLink input || isCryptLink input then some input else none

/-- A list that was read is what reading its source gave. -/
theorem resolveParsedImport_parsed {w : World} {text : Text} {hours : Option Int}
    {source : ImportSource} {parsed : ParsedImport}
    (h : resolveParsedImport w text hours = .ok (some (.parsed source parsed))) :
    parseImportSource w source hours (arrivedAs text) = .ok (some parsed) := by
  unfold resolveParsedImport at h
  dsimp only at h
  split at h
  · cases h
  · split at h
    · cases h
    · split at h
      · cases h
      · cases h
      · obtain ⟨read, hread, h⟩ := bind_eq_ok.mp h
        cases read with
        | some parsed' =>
            cases h
            exact hread
        | none =>
            dsimp only at h
            split at h
            · cases h
            · obtain ⟨read, hread, h⟩ := bind_eq_ok.mp h
              obtain ⟨parsed', hparsed, hresolution⟩ :=
                Option.map_eq_some_iff.mp (Except.ok.inj h)
              cases hresolution
              exact hparsed ▸ hread

theorem resolveParsedImport_refused {w : World} {text : Text} {hours : Option Int}
    {source : ImportSource} {originLink : Option Text}
    (h : resolveParsedImport w text hours = .ok (some (.refused source originLink))) :
    originLink = arrivedAs text := by
  unfold resolveParsedImport at h
  dsimp only at h
  split at h
  · cases h
  · split at h
    · cases h
    · split at h
      · cases h
        rfl
      · cases h
      · obtain ⟨read, hread, h⟩ := bind_eq_ok.mp h
        cases read with
        | some parsed => cases h
        | none =>
            dsimp only at h
            split at h
            · cases h
            · obtain ⟨read, hread, h⟩ := bind_eq_ok.mp h
              obtain ⟨parsed, -, hresolution⟩ := Option.map_eq_some_iff.mp (Except.ok.inj h)
              cases hresolution

/-- Stamping an entry changes neither its id nor its location. -/
theorem parseImportSource_entries {w : World} {source : ImportSource} {hours : Option Int}
    {originLink : Option Text} {parsed : ParsedImport}
    (h : parseImportSource w source hours originLink = .ok (some parsed)) :
    ∃ p, parseImport (normalizedImportText source.content) source.subscriptionUrl
        (initialInterval source hours) = .ok (some p) ∧ parsed.mode = p.mode ∧
      parsed.bundle.locations = p.bundle.locations.map (stamp w source originLink) := by
  obtain ⟨read, hread, h⟩ := bind_eq_ok.mp h
  obtain ⟨p, hp, rfl⟩ := Option.map_eq_some_iff.mp (Except.ok.inj h)
  exact ⟨p, hp ▸ hread, rfl, rfl⟩

/-- **The entries of a list that was read**: one for each importable line of its
body, and each can be dialled. -/
theorem resolved_lines {w : World} {text : Text} {hours : Option Int} {source : ImportSource}
    {parsed : ParsedImport}
    (h : resolveParsedImport w text hours = .ok (some (.parsed source parsed))) :
    parsed.bundle.locations.map (·.location.line) =
        importable (normalizedImportText source.content) ∧
      ∀ e ∈ parsed.bundle.locations, e.location.isComplete = true := by
  have hsource := resolveParsedImport_parsed h
  obtain ⟨p, hp, -, hlocations⟩ := parseImportSource_entries hsource
  obtain ⟨hlines, hcomplete⟩ := parseImport_lines hp
  rw [hlocations, List.map_map]
  refine ⟨hlines, fun e he => ?_⟩
  obtain ⟨e₀, he₀, rfl⟩ := List.mem_map.mp he
  exact hcomplete e₀ he₀

/-! ### Merging -/

/-- An entry under another id, as merging files it. -/
def renamed (e : LocationEntry) (id : Text) : LocationEntry :=
  LocationEntry.normalized { e with storageId := id }

omit [Build] in
theorem line_renamed (e : LocationEntry) (id : Text) :
    (renamed e id).location.line = e.location.line :=
  LocationEntry.line_normalized _

/-- What merging an additive import puts in the bundle, when none of its lists
is here already. -/
theorem mergeImportedBundle_locations {b imported : LocationBundleV4} (hclean : b.Clean)
    (hnew : ∀ e ∈ b.locations, ∀ u ∈ imported.locations.filterMap (·.listUrl),
      e.listUrl ≠ some u) :
    (Store.mergeImportedBundle b imported false).locations =
      if b.locations = [] then imported.locations
      else b.locations ++ List.zipWith renamed imported.locations
        (uniqueStorageIds (b.locations.map (·.storageId))
          (imported.locations.map (·.storageId))) := by
  have hcurrent : b.normalized.locations = b.locations := hclean.normalizedLocations_eq
  have hkept : b.locations.filter (fun e =>
      (e.subscriptionUrl.map trim).all (· ∉ imported.locations.filterMap (·.listUrl))) =
      b.locations := by
    refine List.filter_eq_self.mpr fun e he => ?_
    cases hurl : e.subscriptionUrl with
    | none => rfl
    | some url =>
        rw [Option.map_some, Option.all_some, decide_eq_true_eq]
        intro hmem
        obtain ⟨e', -, he'⟩ := List.mem_filterMap.mp hmem
        obtain ⟨url', -, hnonblank⟩ := Option.bind_eq_some_iff.mp he'
        obtain ⟨hblank, htrim⟩ := nonBlank_eq_some.mp hnonblank
        refine hnew e he _ hmem ?_
        rw [LocationEntry.listUrl, hurl, Option.bind_some]
        exact nonBlank_eq_some.mpr ⟨htrim ▸ hblank, rfl⟩
  unfold Store.mergeImportedBundle
  simp only [hcurrent]
  split
  · rfl
  · have hsame : b.locations.map (fun e : LocationEntry =>
        ((imported.locations.filter fun _ => false).getLast?).getD e) = b.locations := by
      simp
    simp only [hkept, ite_self, Bool.false_and, Bool.not_false, List.filter_true, hsame]
    rfl

/-- **Merging loses nothing.** The entries that were here stay, and each entry
of the imported bundle is stored beside them under a name of its own. -/
theorem importReport_stores {s s₁ : Store} {b : LocationBundleV4} {w : World} {input : Text}
    {source : ImportSource} {parsed : ParsedImport}
    (hread : s.getBundleUnlocked = .ok (b, s₁))
    (hresolved : resolveParsedImport w input none = .ok (some (.parsed source parsed)))
    (hmode : parsed.mode = .additive)
    (hnew : ∀ e ∈ b.locations, ∀ u ∈ parsed.bundle.normalized.locations.filterMap (·.listUrl),
      e.listUrl ≠ some u) :
    ∃ s' report new, s.importReport w input = .ok (s', report) ∧
      s'.locations = b.locations ++ new ∧
      new.map (·.location.line) = parsed.bundle.normalized.locations.map (·.location.line) := by
  have hclean := Store.clean_getBundleUnlocked hread
  set imported := parsed.bundle.normalized with himported
  set merged := Store.mergeImportedBundle b imported false with hmerged
  have hrun : s.importReport w input = .ok (s₁.save merged, { imported := true }) := by
    have hrestore : decide (parsed.mode = .restore) = false := by rw [hmode]; rfl
    unfold Store.importReport Store.change
    simp only [hresolved, hread, hrestore, bind, Except.bind, pure, Except.pure]
    rfl
  have hlocations := mergeImportedBundle_locations hclean hnew
  rw [← hmerged] at hlocations
  have himportedKept : ∀ e ∈ imported.locations,
      isBlank e.storageId = false ∧ e.location.isComplete = true := by
    intro e he
    have hkeeps := (LocationBundleV4.of_mem_normalizedLocations he).2
    rw [LocationBundleV4.keeps, Bool.and_eq_true, Bool.not_eq_true'] at hkeeps
    exact hkeeps
  by_cases hempty : b.locations = []
  · -- An empty store takes the imported bundle's locations as they are.
    rw [if_pos hempty] at hlocations
    have hids : merged.locations.map (trim ·.storageId) = imported.locations.map (·.storageId) := by
      rw [hlocations]
      refine List.map_congr_left fun e he => ?_
      obtain ⟨⟨e₀, -, rfl⟩, -⟩ := LocationBundleV4.of_mem_normalizedLocations he
      exact trim_trim e₀.storageId
    refine ⟨_, _, merged.locations.map (·.normalized.normalized), hrun, ?_, ?_⟩
    · rw [hempty, List.nil_append]
      refine Store.locations_save (fun e he => himportedKept e (hlocations ▸ he)) ?_
      rw [hids]
      exact LocationBundleV4.normalizedLocations_nodup _
    · rw [List.map_map, hlocations]
      exact List.map_congr_left fun e _ => by simp
  · rw [if_neg hempty] at hlocations
    set ids := uniqueStorageIds (b.locations.map (·.storageId))
      (imported.locations.map (·.storageId)) with hids
    have hplain : ∀ id ∈ ids, Plain id := fun id hid => plain_of_mem_uniqueStorageIds hid
    set added := List.zipWith renamed imported.locations ids with hadded
    have haddedIds : added.map (trim ·.storageId) = ids := by
      conv_rhs => rw [← List.map_id ids]
      refine map_zipWith_right (by simp [hids]) fun e id hid => ?_
      exact (trim_trim id).trans (hplain id hid).trim_eq
    have hkept : ∀ e ∈ merged.locations,
        isBlank e.storageId = false ∧ e.location.isComplete = true := by
      intro e he
      rw [hlocations] at he
      rcases List.mem_append.mp he with he | he
      · exact hclean.isComplete he
      · obtain ⟨e₀, he₀, id, hid, rfl⟩ := exists_of_mem_zipWith he
        refine ⟨(isBlank_trim id).trans (hplain id hid).not_blank, ?_⟩
        have hcomplete := (himportedKept e₀ he₀).2
        rw [LocationConfig.isComplete_eq_dials] at hcomplete ⊢
        rw [line_renamed]
        exact hcomplete
    have hnodup : (merged.locations.map (trim ·.storageId)).Nodup := by
      rw [hlocations, List.map_append, hclean.trim_ids, haddedIds]
      refine List.nodup_append'.mpr ⟨hclean.nodup, nodup_uniqueStorageIds _ _, ?_⟩
      intro id hid hid'
      exact not_mem_of_mem_uniqueStorageIds hid' hid
    refine ⟨_, _, added.map (·.normalized.normalized), hrun, ?_, ?_⟩
    · rw [Store.locations_save hkept hnodup, hlocations, List.map_append]
      congr 1
      conv_rhs => rw [← List.map_id b.locations]
      refine List.map_congr_left fun e he => ?_
      rw [hclean.settled e he, hclean.settled e he, id]
    · rw [List.map_map]
      refine map_zipWith_left (by simp [hids]) fun e _ id => ?_
      simp only [Function.comp_apply, LocationEntry.line_normalized, line_renamed]

/-! ### A body of lines -/

/-- A body with importable lines is read as those lines, and adds to what is here. -/
theorem parseImport_of_linesText {body text : Text} (h : linesText body = some text)
    (url : Option Text) (hours : Option Int) :
    ∃ bundle, parseLines text url hours = some bundle ∧
      parseImport body url hours = .ok (some { bundle, mode := .additive }) := by
  cases hparse : parseLines text url hours with
  | none =>
      exact absurd ((parseLines_eq_none_iff text url hours).mp hparse) (importableLines_ne_nil h)
  | some bundle =>
      refine ⟨bundle, rfl, ?_⟩
      unfold parseImport
      rw [parseLines_linesText, h, Option.bind_some, hparse]

omit [Build] in
theorem urlOf_eq_some {url : Option Text} {v : Text} (h : LocationEntry.urlOf url none = some v) :
    url = some v := by
  cases url with
  | none => cases h
  | some t =>
      by_cases hblank : isBlank t = true
      · have hnil : firstNotBlank [some t, none] = [] := by
          simp [firstNotBlank, isNullOrBlank, hblank]
        rw [LocationEntry.urlOf, hnil] at h
        cases h
      · rw [LocationEntry.urlOf, LocationEntry.firstNotBlank_cons_none t _ (by simp)
          (fun hb => absurd hb hblank)] at h
        rw [(nonBlank_eq_some.mp h).2]

omit [Build] in
theorem namedEntries_url {url : Option Text} {bases : List Text} {e : LocationEntry}
    {found : List (LocationConfig × Option LocationMetadata)}
    (h : e ∈ namedEntries url found bases) :
    LocationEntry.urlOf e.subscriptionUrl e.legacySubscriptionUrl =
      LocationEntry.urlOf url none := by
  obtain ⟨p, -, id, -, rfl⟩ := exists_of_mem_zipWith h
  exact LocationEntry.urlOf_urlOf url none

/-- Every entry of a body is filed at the address it came from. -/
theorem parseLines_url {text : Text} {url : Option Text} {hours : Option Int} {e : LocationEntry}
    (h : e ∈ entriesIn (parseLines text url hours)) :
    LocationEntry.urlOf e.subscriptionUrl e.legacySubscriptionUrl =
      LocationEntry.urlOf url none := by
  rw [entriesIn_parseLines] at h
  rcases List.mem_append.mp h with h | h
  · unfold parseOlcRtcText at h
    split at h
    · cases h
    · rw [entriesIn_bundleOf] at h
      exact namedEntries_url h
  · rw [parseSingBoxText, entriesIn_bundleOf] at h
    exact namedEntries_url h

/-- What reading a body of lines gives: an entry for each, named by its family. -/
theorem resolved_of_linesText {w : World} {input : Text} {hours : Option Int}
    {source : ImportSource} {parsed : ParsedImport} {text : Text}
    (hresolved : resolveParsedImport w input hours = .ok (some (.parsed source parsed)))
    (hbody : linesText (normalizedImportText source.content) = some text) :
    parsed.mode = .additive ∧
      parsed.bundle.locations.map (·.location.line) = importableLines text ∧
      parsed.bundle.locations.map (·.storageId) =
        namesFor (roomsOf text) ++ namesFor (linksOf text) ∧
      ∀ e ∈ parsed.bundle.locations, ∀ u, e.normalized.listUrl = some u →
        ∃ v, source.subscriptionUrl = some v ∧ u = trim v := by
  have hsource := resolveParsedImport_parsed hresolved
  obtain ⟨p, hp, hmode, hlocations⟩ := parseImportSource_entries hsource
  obtain ⟨bundle, hbundle, himport⟩ := parseImport_of_linesText hbody source.subscriptionUrl
    (initialInterval source hours)
  rw [himport] at hp
  cases hp
  have hreads := parseLines_reads text source.subscriptionUrl (initialInterval source hours)
  rw [hbundle] at hreads
  refine ⟨hmode, ?_, ?_, ?_⟩
  · rw [hlocations, List.map_map]
    exact hreads.1
  · rw [hlocations, List.map_map]
    exact hreads.2
  · intro e he u hu
    rw [hlocations] at he
    obtain ⟨e₀, he₀, rfl⟩ := List.mem_map.mp he
    have hurl : LocationEntry.urlOf e₀.subscriptionUrl e₀.legacySubscriptionUrl =
        LocationEntry.urlOf source.subscriptionUrl none :=
      parseLines_url (show e₀ ∈ entriesIn (parseLines text source.subscriptionUrl _) by
        rw [hbundle]
        exact he₀)
    have hlist : (stamp w source (arrivedAs input) e₀).normalized.listUrl =
        (LocationEntry.urlOf source.subscriptionUrl none).bind fun url => nonBlank (trim url) := by
      rw [← hurl]
      rfl
    rw [hlist] at hu
    obtain ⟨v, hv, hu⟩ := Option.bind_eq_some_iff.mp hu
    exact ⟨v, urlOf_eq_some hv, (nonBlank_eq_some.mp hu).2.symm⟩

/-! ### One entry to a line -/

/-- The locations a read returns, none from a store whose read throws. -/
def Store.known (s : Store) : List LocationEntry :=
  match s.getBundleUnlocked with
  | .ok (b, _) => b.locations
  | .error _ => []

/-- An import that returned has read the store. -/
theorem read_of_importReport {s s' : Store} {w : World} {input : Text} {source : ImportSource}
    {parsed : ParsedImport} {report : Store.ImportReport}
    (hresolved : resolveParsedImport w input none = .ok (some (.parsed source parsed)))
    (h : s.importReport w input = .ok (s', report)) :
    ∃ b s₁, s.getBundleUnlocked = .ok (b, s₁) := by
  unfold Store.importReport at h
  obtain ⟨r, hr, h⟩ := bind_eq_ok.mp h
  rw [hresolved] at hr
  cases hr
  obtain ⟨s₂, hchange, -⟩ := bind_eq_ok.mp h
  obtain ⟨⟨b, s₁⟩, hread, -⟩ := bind_eq_ok.mp hchange
  exact ⟨b, s₁, hread⟩

/-- Normalizing loses none of some entries that are all kept exactly when they
share no id. -/
theorem length_normalizedLocations_iff {es : List LocationEntry}
    (hkept : ∀ e ∈ es, isBlank e.storageId = false ∧ e.location.isComplete = true) :
    (LocationBundleV4.normalizedLocations es).length = es.length ↔
      (es.map (trim ·.storageId)).Nodup := by
  constructor
  · intro hlen
    have hsub : List.Sublist (LocationBundleV4.normalizedLocations es) (es.map (·.normalized)) :=
      (distinctBy_sublist _).trans List.filter_sublist
    have heq := hsub.eq_of_length (by simpa using hlen)
    have hnodup := LocationBundleV4.normalizedLocations_nodup es
    rw [heq, List.map_map] at hnodup
    exact hnodup
  · intro hnodup
    rw [LocationBundleV4.normalizedLocations_eq_map hkept hnodup, List.length_map]

/-- An import of a body of lines as it should be: the locations that were here,
and one for each importable line. -/
def StoresEachLine (s : Store) (w : World) (input text : Text) : Prop :=
  ∃ s' report new, s.importReport w input = .ok (s', report) ∧
    s'.locations = s.known ++ new ∧ new.map (·.location.line) = importableLines text

/-- **An import stores one entry to an importable line exactly when no room of
the body has the name of a link of it.** The store has to be readable, too: a
location of the storage before bundles may make its read throw. -/
theorem import_stores_each_line_iff {s : Store} {w : World} {input text : Text}
    {source : ImportSource} {parsed : ParsedImport}
    (hresolved : resolveParsedImport w input none = .ok (some (.parsed source parsed)))
    (hbody : linesText (normalizedImportText source.content) = some text)
    (hnew : ∀ e ∈ s.known, ∀ u, source.subscriptionUrl = some u → e.listUrl ≠ some (trim u)) :
    StoresEachLine s w input text ↔
      (∃ b s₁, s.getBundleUnlocked = .ok (b, s₁)) ∧
        List.Disjoint (namesFor (roomsOf text)) (namesFor (linksOf text)) := by
  obtain ⟨hmode, hlines, hids, hurls⟩ := resolved_of_linesText hresolved hbody
  have hkept : ∀ e ∈ parsed.bundle.locations,
      isBlank e.storageId = false ∧ e.location.isComplete = true := by
    intro e he
    refine ⟨?_, (resolved_lines hresolved).2 e he⟩
    have hid := List.mem_map_of_mem (f := (·.storageId)) he
    rw [hids] at hid
    rcases List.mem_append.mp hid with hid | hid
    · exact (plain_of_mem_uniqueStorageIds hid).not_blank
    · exact (plain_of_mem_uniqueStorageIds hid).not_blank
  -- Trimming leaves the names as they are, so they are what the entries are told apart by.
  have htrim : parsed.bundle.locations.map (trim ·.storageId) =
      namesFor (roomsOf text) ++ namesFor (linksOf text) := by
    have hmap : parsed.bundle.locations.map (trim ·.storageId) =
        (parsed.bundle.locations.map (·.storageId)).map trim := by rw [List.map_map]; rfl
    rw [hmap, hids]
    conv_rhs => rw [← List.map_id (namesFor (roomsOf text) ++ namesFor (linksOf text))]
    refine List.map_congr_left fun id hid => ?_
    rcases List.mem_append.mp hid with hid | hid
    · exact (plain_of_mem_uniqueStorageIds hid).trim_eq
    · exact (plain_of_mem_uniqueStorageIds hid).trim_eq
  have hdisjoint : (parsed.bundle.locations.map (trim ·.storageId)).Nodup ↔
      List.Disjoint (namesFor (roomsOf text)) (namesFor (linksOf text)) := by
    rw [htrim, List.nodup_append']
    exact ⟨fun h => h.2.2, fun h => ⟨nodup_uniqueStorageIds _ _, nodup_uniqueStorageIds _ _, h⟩⟩
  have hstores : ∀ b s₁, s.getBundleUnlocked = .ok (b, s₁) → s.known = b.locations ∧
      ∃ s' report new, s.importReport w input = .ok (s', report) ∧
        s'.locations = b.locations ++ new ∧
        new.map (·.location.line) = parsed.bundle.normalized.locations.map (·.location.line) := by
    intro b s₁ hread
    have hknown : s.known = b.locations := by rw [Store.known, hread]
    refine ⟨hknown, importReport_stores hread hresolved hmode ?_⟩
    intro e he u hu heq
    obtain ⟨e', he', hu⟩ := List.mem_filterMap.mp hu
    obtain ⟨⟨e₀, he₀, rfl⟩, -⟩ := LocationBundleV4.of_mem_normalizedLocations he'
    obtain ⟨v, hv, rfl⟩ := hurls e₀ he₀ u hu
    exact hnew e (hknown ▸ he) v hv heq
  rw [← hdisjoint, ← length_normalizedLocations_iff hkept]
  constructor
  · rintro ⟨s', report, new, himport, hlocations, hnewLines⟩
    obtain ⟨b, s₁, hread⟩ := read_of_importReport hresolved himport
    refine ⟨⟨b, s₁, hread⟩, ?_⟩
    obtain ⟨hknown, s'', report', new', himport', hlocations', hnewLines'⟩ := hstores b s₁ hread
    rw [himport] at himport'
    cases himport'
    rw [hlocations', hknown] at hlocations
    rw [← List.append_cancel_left hlocations, hnewLines', ← hlines] at hnewLines
    simpa using congrArg List.length hnewLines
  · rintro ⟨⟨b, s₁, hread⟩, hlen⟩
    obtain ⟨hknown, s', report, new, himport, hlocations, hnewLines⟩ := hstores b s₁ hread
    refine ⟨s', report, new, himport, hknown ▸ hlocations, ?_⟩
    have hmap := LocationBundleV4.normalizedLocations_eq_map hkept
      ((length_normalizedLocations_iff hkept).mp hlen)
    rw [hnewLines, ← hlines, LocationBundleV4.normalized_locations, hmap, List.map_map]
    exact List.map_congr_left fun e _ => LocationEntry.line_normalized e

end

section

attribute [local instance] Build.plain

/-- A room called DE and a link called FR. -/
def roomAndLink : Text :=
  txt "olcrtc://wbstream?vp8channel@r1#k$DE\nss://aes-256-gcm:pw@1.2.3.4:443#FR"

/-- A room and a link that are both called DE. -/
def namesakes : Text :=
  txt "olcrtc://wbstream?vp8channel@r1#k$DE\nss://aes-256-gcm:pw@1.2.3.4:443#DE"

/-- The address of a list. -/
def someList : Text := txt "https://host/list"

theorem import_stores_roomAndLink :
    StoresEachLine {} (.serving roomAndLink) someList roomAndLink := by
  obtain ⟨source, parsed, hresolved, hbody⟩ : ∃ source parsed,
      resolveParsedImport (.serving roomAndLink) someList none =
        .ok (some (.parsed source parsed)) ∧
      linesText (normalizedImportText source.content) = some roomAndLink :=
    ⟨_, _, rfl, by decide⟩
  refine (import_stores_each_line_iff hresolved hbody ?_).mpr ⟨⟨_, _, rfl⟩, ?_⟩
  · intro e he
    cases he
  · intro id hroom hlink
    have hnames : namesFor (roomsOf roomAndLink) = [txt "imported_de"] ∧
        namesFor (linksOf roomAndLink) = [txt "imported_fr"] := by decide
    rw [hnames.1] at hroom
    rw [hnames.2] at hlink
    rw [List.mem_singleton.mp hroom] at hlink
    exact absurd (List.mem_singleton.mp hlink) (by decide)

/-- **The link is dropped**: its body has two importable lines, and the import
reports success and stores the room alone. -/
theorem import_drops_namesake :
    importableLines namesakes =
        [.room (txt "wbstream") (txt "vp8channel") (txt "r1") (txt "k"),
          .link (some (txt "ss://aes-256-gcm:pw@1.2.3.4:443#DE"))] ∧
      ((Store.importReport {} (.serving namesakes) someList).toOption.map fun r =>
        (r.1.locations.map (·.location.line), r.2.imported)) =
        some ([.room (txt "wbstream") (txt "vp8channel") (txt "r1") (txt "k")], true) ∧
      ¬ StoresEachLine {} (.serving namesakes) someList namesakes := by
  have hlines : importableLines namesakes =
      [.room (txt "wbstream") (txt "vp8channel") (txt "r1") (txt "k"),
        .link (some (txt "ss://aes-256-gcm:pw@1.2.3.4:443#DE"))] := by decide
  have hstored : ((Store.importReport {} (.serving namesakes) someList).toOption.map fun r =>
      (r.1.locations.map (·.location.line), r.2.imported)) =
      some ([.room (txt "wbstream") (txt "vp8channel") (txt "r1") (txt "k")], true) := by
    decide +kernel
  refine ⟨hlines, hstored, ?_⟩
  rintro ⟨s', report, new, himport, hlocations, hnew⟩
  rw [himport] at hstored
  have hmap : s'.locations.map (·.location.line) = _ :=
    congrArg Prod.fst (Option.some.inj hstored)
  have hknown : Store.known {} = [] := rfl
  rw [hlocations, hknown, List.nil_append, hnew, hlines] at hmap
  exact absurd (congrArg List.length hmap) (by decide)

end

end Ghostlane.App
