import Ghostlane.App.Naming
import Ghostlane.App.Normal
import Ghostlane.Lib.Outcomes

/-!
# Ghostlane.App.ImportSound

What a body is read into. Its lines are split into the two families a reader
each takes (`roomLines`, `linkLines`), by the parser of a single line alone;
`parseLines_reads` says that reading gives exactly one entry for each of them,
rooms first, under the names its reader gave (`namesFor`).

Reading loses nothing. What the rest of an import does with two entries of one
name is not reading, and is looked at where imports are stored.
-/

namespace Ghostlane.App

open Ghostlane.Lib

/-! ### Texts inside texts -/

theorem contains_of_part {t needle : Text} (h : needle <:+: t) : contains t needle = true := by
  induction t with
  | nil =>
      rw [List.infix_nil.mp h]
      rfl
  | cons c t ih =>
      rw [contains, Bool.or_eq_true]
      rcases List.infix_cons_iff.mp h with hprefix | hinfix
      · exact Or.inl (List.isPrefixOf_iff_prefix.mpr hprefix)
      · exact Or.inr (ih hinfix)

theorem infix_of_trim (t : Text) : trim t <:+: t := infix_trimBy _ t

theorem infix_of_removed (t needle : Text) : removePrefix t needle <:+: t := by
  unfold removePrefix
  split
  · exact (List.drop_suffix _ _).isInfix
  · exact List.infix_rfl

theorem infix_normalizedImportText (t : Text) : normalizedImportText t <:+: t :=
  ((infix_of_trim _).trans (infix_of_removed _ _)).trans (infix_of_trim t)

@[simp] theorem trim_normalizedImportText (t : Text) :
    trim (normalizedImportText t) = normalizedImportText t := trim_trim _

/-- The first line is where the text begins. -/
theorem prefix_of_head_lines {t line : Text} {rest : List Text} (h : lines t = line :: rest) :
    line <+: t := by
  induction t using lines.induct generalizing line rest with
  | case1 =>
      obtain ⟨rfl, -⟩ := List.cons.inj h
      exact List.prefix_rfl
  | case2 t ih =>
      obtain ⟨rfl, -⟩ := List.cons.inj h
      exact List.nil_prefix
  | case3 c t hcr hnewline ih =>
      rw [lines, if_pos hnewline] at h
      · obtain ⟨rfl, -⟩ := List.cons.inj h
        exact List.nil_prefix
      · exact hcr
  | case4 c t hcr hnewline hnil ih =>
      rw [lines, if_neg hnewline, hnil] at h
      · obtain ⟨rfl, -⟩ := List.cons.inj h
        exact ⟨t, rfl⟩
      · exact hcr
  | case5 c t hcr hnewline first others hcons ih =>
      rw [lines, if_neg hnewline, hcons] at h
      · obtain ⟨rfl, -⟩ := List.cons.inj h
        exact (List.prefix_cons_inj c).mpr (ih hcons)
      · exact hcr

/-- A line of a text stands in it. -/
theorem infix_of_mem_lines {t line : Text} (h : line ∈ lines t) : line <:+: t := by
  induction t using lines.induct with
  | case1 =>
      obtain rfl := List.mem_singleton.mp h
      exact List.infix_rfl
  | case2 t ih =>
      rcases List.mem_cons.mp h with rfl | h
      · exact List.nil_infix
      · exact (ih h).trans ⟨['\r', '\n'], [], by simp⟩
  | case3 c t hcr hnewline ih =>
      rw [lines, if_pos hnewline] at h
      · rcases List.mem_cons.mp h with rfl | h
        · exact List.nil_infix
        · exact List.infix_cons_iff.mpr (Or.inr (ih h))
      · exact hcr
  | case4 c t hcr hnewline hnil ih =>
      rw [lines, if_neg hnewline, hnil] at h
      · rw [List.mem_singleton.mp h]
        exact ⟨[], t, rfl⟩
      · exact hcr
  | case5 c t hcr hnewline first others hcons ih =>
      rw [lines, if_neg hnewline, hcons] at h
      · rcases List.mem_cons.mp h with rfl | h
        · exact ((List.prefix_cons_inj c).mpr (prefix_of_head_lines hcons)).isInfix
        · exact List.infix_cons_iff.mpr
            (Or.inr (ih (hcons ▸ List.mem_cons_of_mem _ h)))
      · exact hcr

/-! ### Entries under names -/

/-- The names one reader gives to its locations. -/
def namesFor (found : List LocationConfig) : List Text :=
  uniqueStorageIds [] (found.map fun c => txt "imported_" ++ c.storageSlug)

/-- The entries of a bundle, none without one. -/
def entriesIn (b : Option LocationBundleV4) : List LocationEntry := (b.map (·.locations)).getD []

theorem entriesIn_bundleOf (entries : List LocationEntry) :
    entriesIn (bundleOf entries) = entries := by
  unfold bundleOf
  split
  · rename_i h
    rw [h]
    rfl
  · rfl

theorem bundleOf_eq_none {entries : List LocationEntry} :
    bundleOf entries = none ↔ entries = [] := by
  unfold bundleOf
  split <;> simp_all

theorem namedEntries_lines (url : Option Text) {bases : List Text}
    {found : List (LocationConfig × Option LocationMetadata)} (h : bases.length = found.length) :
    (namedEntries url found bases).map (·.location.line) =
      found.map fun p => p.1.normalized.line := by
  refine map_zipWith_left (by simp [h]) fun p _ id => ?_
  rw [LocationEntry.location_fromLocation, LocationConfig.line_stored]

theorem namedEntries_ids (url : Option Text) {bases : List Text}
    {found : List (LocationConfig × Option LocationMetadata)} (h : bases.length = found.length) :
    (namedEntries url found bases).map (·.storageId) =
      uniqueStorageIds [] (bases.map (txt "imported_" ++ ·)) := by
  conv_rhs => rw [← List.map_id (uniqueStorageIds _ _)]
  exact map_zipWith_right (by simp [h]) fun p id hid =>
    (plain_of_mem_uniqueStorageIds hid).trim_eq

/-! ### A room and its fields -/

/-- A blank line is no link. -/
theorem not_startsWith_of_blank {line : Text} (h : isBlank line = true) :
    startsWith line olcrtcUriPrefix = false := by
  refine Bool.eq_false_iff.mpr fun hstart => ?_
  rw [not_blank_of_startsWith hstart (by decide)] at h
  cases h

/-- What is read under a room does not change which room it is. -/
theorem line_olcRtcLocation {p : ParsedOlcRtcUri} (hnorm : p.location.normalized = p.location)
    (hkind : p.location.kind = .olcrtc) (subscription : Option SubscriptionMetadata)
    (fields : List (Text × Text)) :
    (olcRtcLocation subscription p fields).1.line = p.location.line := by
  have hid : trim p.location.id = p.location.id := congrArg LocationConfig.id hnorm
  have hkey : trim p.location.key = p.location.key := congrArg LocationConfig.key hnorm
  have hprovider := congrArg LocationConfig.bypassProvider hnorm
  have htransport := congrArg LocationConfig.transport hnorm
  simp only [LocationConfig.normalized] at hprovider htransport
  rw [hprovider] at htransport
  simp only [olcRtcLocation, LocationConfig.normalized, LocationConfig.line, hkind, hid, hkey,
    htransport, hprovider]

theorem firstNotBlank_cons_blank {v : Option Text} (rest : List (Option Text))
    (h : isNullOrBlank v = true) : firstNotBlank (v :: rest) = firstNotBlank rest := by
  rw [firstNotBlank, List.find?_cons_of_neg (by simp [h])]
  rfl

/-- A room's name is its own, whatever its list says about itself. -/
theorem olcRtcLocation_fst (subscription : Option SubscriptionMetadata) (p : ParsedOlcRtcUri)
    (fields : List (Text × Text)) :
    (olcRtcLocation subscription p fields).1 = (olcRtcLocation none p fields).1 := by
  have hname : ∀ sub : Option SubscriptionMetadata, ∀ rest : List (Option Text),
      firstNotBlank ((buildLocationMetadata fields p sub).bind (·.name) :: rest) =
        firstNotBlank (cleanMetadataValue (lastValue fields (txt "name")) :: rest) := by
    intro sub rest
    unfold buildLocationMetadata LocationMetadata.cleaned
    simp only [Option.map_some, Option.filter_some]
    split
    · rfl
    · -- The metadata was left out as empty, and so was the name in it.
      rename_i hempty
      simp only [Bool.not_eq_true', Bool.not_eq_false, LocationMetadata.isEmpty, List.all_cons,
        Bool.and_eq_true] at hempty
      have hblank : isNullOrBlank (cleanMetadataValue (lastValue fields (txt "name"))) = true :=
        hempty.1.1
      rw [firstNotBlank_cons_blank rest hblank, Option.bind_none,
        firstNotBlank_cons_blank rest rfl]
  unfold olcRtcLocation
  simp only [hname]

theorem outbound_kind_ne (spec : OutboundSpec) : spec.kind ≠ .olcrtc := by
  unfold OutboundSpec.kind
  split <;> exact LocationKind.noConfusion

section

variable [JsonReader]

/-! ### The lines of a body -/

/-- The lines `parseOlcRtcUri` accepts, as it reads them. -/
def roomUris (text : Text) : List ParsedOlcRtcUri :=
  ((lines text).map normalizedImportText).filterMap fun line =>
    if startsWith line olcrtcUriPrefix then parseOlcRtcUri line else none

/-- The rooms of a body, a line each. -/
def roomLines (text : Text) : List Line := (roomUris text).map (·.location.line)

/-- The share links of a body, each line `LinkParser.parse` accepts. -/
def linkLines (text : Text) : List Line :=
  ((lines text).map normalizedImportText).filterMap fun line =>
    (LinkParser.parse line).map fun _ => .link (some line)

/-- The importable lines of a text. -/
def importableLines (text : Text) : List Line := roomLines text ++ linkLines text

/-! ### Rooms -/

theorem parseOlcRtcUri_spec {line : Text} {p : ParsedOlcRtcUri} (h : parseOlcRtcUri line = some p) :
    p.location.normalized = p.location ∧ p.location.kind = .olcrtc ∧
      p.location.isComplete = true := by
  simp only [parseOlcRtcUri, Option.bind_eq_bind, Option.bind_eq_some_iff] at h
  obtain ⟨⟨provider, rest⟩, -, h⟩ := h
  by_cases hprovider : provider = []
  · rw [if_pos hprovider] at h
    cases h
  · rw [if_neg hprovider, Option.bind_eq_some_iff] at h
    obtain ⟨⟨token, rest⟩, -, h⟩ := h
    obtain ⟨⟨room, rest⟩, -, h⟩ := Option.bind_eq_some_iff.mp h
    simp only [olcRtcUriOf] at h
    split at h
    · rename_i hcomplete
      cases h
      exact ⟨LocationConfig.normalized_normalized _, rfl, hcomplete⟩
    · cases h

theorem mem_roomUris {text : Text} {p : ParsedOlcRtcUri} (h : p ∈ roomUris text) :
    ∃ line, parseOlcRtcUri line = some p := by
  obtain ⟨line, -, hline⟩ := List.mem_filterMap.mp h
  split at hline
  · exact ⟨line, hline⟩
  · cases hline

/-- One line adds the room it is, if it is one, and never loses one. -/
theorem OlcRtcLines.read_locations (s : OlcRtcLines) (line : Text) :
    (s.read line).locations.map Prod.fst =
      ((if startsWith line olcrtcUriPrefix then parseOlcRtcUri line else none).toList ++
        s.locations.map Prod.fst) := by
  unfold OlcRtcLines.read
  split
  · split <;> simp_all
  · split
    · split
      · split <;> simp_all
      · split <;> rfl
    · rfl

theorem foldl_read_locations (ls : List Text) (s : OlcRtcLines) :
    (ls.foldl OlcRtcLines.read s).locations.reverse.map Prod.fst =
      s.locations.reverse.map Prod.fst ++ ls.filterMap fun line =>
        if startsWith line olcrtcUriPrefix then parseOlcRtcUri line else none := by
  induction ls generalizing s with
  | nil => simp
  | cons line ls ih =>
      rw [List.foldl_cons, ih, List.map_reverse, OlcRtcLines.read_locations, List.filterMap_cons]
      cases (if startsWith line olcrtcUriPrefix then parseOlcRtcUri line else none) <;> simp

/-- Reading a body finds the rooms of its lines, in order. -/
theorem readOlcRtcLines_rooms (text : Text) :
    (readOlcRtcLines text).locations.reverse.map Prod.fst = roomUris text := by
  rw [readOlcRtcLines, foldl_read_locations, roomUris, List.filterMap_filter]
  refine List.filterMap_congr fun line _ => ?_
  cases hblank : isBlank line with
  | false => rfl
  | true => simp [not_startsWith_of_blank hblank]

/-- A text without the marker has no rooms. -/
theorem roomUris_eq_nil {text : Text} (h : contains text olcrtcUriPrefix = false) :
    roomUris text = [] := by
  rw [roomUris, List.filterMap_eq_nil_iff]
  intro line hline
  obtain ⟨line₀, hmem, rfl⟩ := List.mem_map.mp hline
  split
  · rename_i hstart
    have hinfix := ((List.isPrefixOf_iff_prefix.mp hstart).isInfix.trans
      (infix_normalizedImportText line₀)).trans (infix_of_mem_lines hmem)
    exact absurd (contains_of_part hinfix) (by simp [h])
  · rfl

/-- The rooms of a body as their entries hold them. -/
def roomsOf (text : Text) : List LocationConfig :=
  (readOlcRtcLines text).locations.reverse.map fun p => (olcRtcLocation none p.1 p.2).1

/-- The links of a body as their entries hold them. -/
def linksOf (text : Text) : List LocationConfig :=
  ((lines text).map normalizedImportText).filterMap shareLocation

/-- **The rooms of a text are read**, a line each, under the names of the rooms. -/
theorem parseOlcRtcText_reads (text : Text) (url : Option Text) (hours : Option Int) :
    (entriesIn (parseOlcRtcText text url hours)).map (·.location.line) = roomLines text ∧
      (entriesIn (parseOlcRtcText text url hours)).map (·.storageId) = namesFor (roomsOf text) := by
  have hrooms : (readOlcRtcLines text).locations.reverse.map Prod.fst = roomUris text :=
    readOlcRtcLines_rooms text
  unfold parseOlcRtcText
  cases hcontains : contains text olcrtcUriPrefix with
  | false =>
      have hnil := roomUris_eq_nil hcontains
      rw [hnil, List.map_eq_nil_iff] at hrooms
      constructor
      · rw [roomLines, hnil]
        rfl
      · rw [roomsOf, hrooms]
        rfl
  | true =>
      simp only [Bool.not_true, Bool.false_eq_true, if_false, entriesIn_bundleOf]
      constructor
      · rw [namedEntries_lines _ (by simp), List.map_map, roomLines, ← hrooms, List.map_map]
        refine List.map_congr_left fun p hp => ?_
        obtain ⟨line, hline⟩ := mem_roomUris (hrooms ▸ List.mem_map_of_mem hp)
        obtain ⟨hnorm, hkind, -⟩ := parseOlcRtcUri_spec hline
        show (LocationConfig.normalized _).line = p.1.location.line
        rw [← line_olcRtcLocation hnorm hkind _ p.2]
        exact congrArg LocationConfig.line (LocationConfig.normalized_normalized _)
      · rw [namedEntries_ids _ (by simp), namesFor, roomsOf]
        congr 1
        refine List.ext_getElem (by simp) fun i h₁ h₂ => ?_
        simp only [List.getElem_mapIdx, List.getElem_map, ifBlank_storageSlug]
        rw [olcRtcLocation_fst]

/-! ### Share links -/

theorem supports_of_parse {line : Text} (h : (LinkParser.parse line).isSome = true) :
    LinkParser.supports line = true := by
  by_contra hnot
  simp only [LinkParser.supports, LinkParser.schemes, List.any_cons, List.any_nil, Bool.or_false,
    Bool.or_eq_true, not_or, Bool.not_eq_true] at hnot
  obtain ⟨h₁, h₂, h₃, h₄, h₅, h₆⟩ := hnot
  simp [LinkParser.parse, h₁, h₂, h₃, h₄, h₅, h₆] at h

/-- A link that parses is read, and stands for itself. -/
theorem shareLocation_line (line : Text) :
    (shareLocation line).map (·.line) =
      (LinkParser.parse line).map fun _ => Line.link (some (trim line)) := by
  unfold shareLocation
  cases hparse : LinkParser.parse line with
  | none => split <;> rfl
  | some spec =>
      rw [if_pos (supports_of_parse (by rw [hparse]; rfl)), Option.map_some, Option.map_some,
        Option.map_some]
      have hkind := outbound_kind_ne spec
      have hline : ∀ c : LocationConfig, c.kind ≠ .olcrtc → c.line = .link c.rawLink := by
        intro c hc
        unfold LocationConfig.line
        split
        · contradiction
        · rfl
      exact congrArg some (hline _ hkind)

theorem shareLocation_normalized {line : Text} {c : LocationConfig}
    (h : shareLocation line = some c) : c.normalized = c := by
  unfold shareLocation at h
  split at h
  · obtain ⟨spec, -, rfl⟩ := Option.map_eq_some_iff.mp h
    exact LocationConfig.normalized_normalized _
  · cases h

theorem linksOf_lines (text : Text) : (linksOf text).map (·.line) = linkLines text := by
  rw [linksOf, List.map_filterMap, linkLines]
  refine List.filterMap_congr fun line hline => ?_
  obtain ⟨line₀, -, rfl⟩ := List.mem_map.mp hline
  rw [shareLocation_line, trim_normalizedImportText]

/-- **The links of a text are read**, a line each, under the names of the links. -/
theorem parseSingBoxText_reads (text : Text) (url : Option Text) :
    (entriesIn (parseSingBoxText text url)).map (·.location.line) = linkLines text ∧
      (entriesIn (parseSingBoxText text url)).map (·.storageId) = namesFor (linksOf text) := by
  unfold parseSingBoxText
  simp only [entriesIn_bundleOf]
  constructor
  · rw [namedEntries_lines _ (by simp), List.map_map, ← linksOf_lines]
    refine List.map_congr_left fun c hc => ?_
    obtain ⟨line, -, hline⟩ := List.mem_filterMap.mp hc
    exact congrArg LocationConfig.line (shareLocation_normalized hline)
  · rw [namedEntries_ids _ (by simp), namesFor, List.map_map]
    congr 1
    refine List.map_congr_left fun c _ => ?_
    rw [Function.comp_apply, ifBlank_storageSlug]

/-! ### Both families -/

theorem entriesIn_parseLines (text : Text) (url : Option Text) (hours : Option Int) :
    entriesIn (parseLines text url hours) =
      entriesIn (parseOlcRtcText text url hours) ++ entriesIn (parseSingBoxText text url) := by
  unfold parseLines
  cases parseOlcRtcText text url hours <;> cases parseSingBoxText text url <;> simp [entriesIn]

/-- **Reading loses nothing**: one entry for each importable line, rooms first,
each family under its own names. -/
theorem parseLines_reads (text : Text) (url : Option Text) (hours : Option Int) :
    (entriesIn (parseLines text url hours)).map (·.location.line) = importableLines text ∧
      (entriesIn (parseLines text url hours)).map (·.storageId) =
        namesFor (roomsOf text) ++ namesFor (linksOf text) := by
  obtain ⟨hroomLines, hroomIds⟩ := parseOlcRtcText_reads text url hours
  obtain ⟨hlinkLines, hlinkIds⟩ := parseSingBoxText_reads text url
  rw [entriesIn_parseLines, List.map_append, List.map_append, hroomLines, hroomIds, hlinkLines,
    hlinkIds]
  exact ⟨rfl, rfl⟩

theorem parseOlcRtcText_ne_nil {text : Text} {url : Option Text} {hours : Option Int}
    {b : LocationBundleV4} (h : parseOlcRtcText text url hours = some b) : b.locations ≠ [] := by
  unfold parseOlcRtcText at h
  split at h
  · cases h
  · intro hnil
    have hentries := congrArg entriesIn h
    rw [entriesIn_bundleOf] at hentries
    rw [bundleOf_eq_none.mpr (hentries.trans hnil)] at h
    cases h

theorem parseSingBoxText_ne_nil {text : Text} {url : Option Text} {b : LocationBundleV4}
    (h : parseSingBoxText text url = some b) : b.locations ≠ [] := by
  intro hnil
  have hentries := congrArg entriesIn h
  rw [parseSingBoxText, entriesIn_bundleOf] at hentries
  rw [parseSingBoxText, bundleOf_eq_none.mpr (hentries.trans hnil)] at h
  cases h

/-- A text is read into something exactly when it has an importable line. -/
theorem parseLines_eq_none_iff (text : Text) (url : Option Text) (hours : Option Int) :
    parseLines text url hours = none ↔ importableLines text = [] := by
  rw [← (parseLines_reads text url hours).1, List.map_eq_nil_iff]
  constructor
  · intro h
    rw [h]
    rfl
  · intro h
    cases hparse : parseLines text url hours with
    | none => rfl
    | some b =>
        exfalso
        rw [hparse] at h
        unfold parseLines at hparse
        split at hparse
        · rename_i olc sb holc hsb
          cases hparse
          exact parseOlcRtcText_ne_nil holc (List.append_eq_nil_iff.mp h).1
        · rename_i olc holc hsb
          cases hparse
          exact parseOlcRtcText_ne_nil holc h
        · exact parseSingBoxText_ne_nil hparse h

/-- Every importable line can be dialled. -/
theorem dials_of_mem_importableLines {text : Text} {l : Line} (h : l ∈ importableLines text) :
    l.dials = true := by
  rcases List.mem_append.mp h with h | h
  · obtain ⟨p, hp, rfl⟩ := List.mem_map.mp h
    obtain ⟨line, hline⟩ := mem_roomUris hp
    rw [← LocationConfig.isComplete_eq_dials]
    exact (parseOlcRtcUri_spec hline).2.2
  · obtain ⟨line, -, hline⟩ := List.mem_filterMap.mp h
    obtain ⟨spec, hspec, rfl⟩ := Option.map_eq_some_iff.mp hline
    simp [Line.dials, hspec]

end

/-! ### JSON -/

section

variable [Serialization]

/-- An entry as a reader of JSON gives it: normalized, and one that can be
dialled. -/
def WellRead (e : LocationEntry) : Prop :=
  (∃ e₀ : LocationEntry, e₀.normalized = e) ∧ e.location.isComplete = true

theorem wellRead_of_decode {root : JsonObject} {url : Option Text} {e : LocationEntry}
    (h : decodeLocationEntry root url = some e) : WellRead e := by
  obtain ⟨hmap, hcomplete⟩ := Option.filter_eq_some_iff.mp h
  obtain ⟨e₀, -, rfl⟩ := Option.map_eq_some_iff.mp hmap
  exact ⟨⟨_, rfl⟩, hcomplete⟩

theorem normalized_locationOfObject (root source : JsonObject) :
    (locationOfObject root source).normalized = locationOfObject root source :=
  LocationConfig.normalized_normalized _

theorem wellRead_of_parseLocationObject {root : JsonObject} {id url : Option Text}
    {e : LocationEntry} (h : parseLocationObject root id url = some e) : WellRead e := by
  unfold parseLocationObject at h
  rcases Option.or_eq_some_iff.mp h with h | ⟨-, h⟩
  · exact wellRead_of_decode h
  · dsimp only at h
    split at h
    · rename_i hcomplete
      cases h
      refine ⟨⟨_, rfl⟩, ?_⟩
      rw [LocationEntry.location_fromLocation, LocationConfig.isComplete_eq_dials,
        LocationConfig.line_stored, normalized_locationOfObject,
        ← LocationConfig.isComplete_eq_dials]
      exact hcomplete
    · cases h

/-- A read entry with other metadata, normalized again. -/
theorem WellRead.stamped {e : LocationEntry} (h : WellRead e) (m : Option LocationMetadata) :
    WellRead (LocationEntry.normalized { e with metadata := m }) := by
  refine ⟨⟨_, rfl⟩, ?_⟩
  have hcomplete := h.2
  rw [LocationConfig.isComplete_eq_dials] at hcomplete ⊢
  rw [LocationEntry.line_normalized]
  exact hcomplete

theorem wellRead_of_parseBundleItem {url : Option Text} {hours : Option Int} {el : JsonElement}
    {e : LocationEntry} (h : parseBundleItem url hours el = some e) : WellRead e := by
  simp only [parseBundleItem, Option.bind_eq_bind, Option.bind_eq_some_iff] at h
  obtain ⟨item, -, entry, hentry, h⟩ := h
  cases h
  rcases Option.or_eq_some_iff.mp hentry with hentry | ⟨-, hentry⟩
  · exact (wellRead_of_decode hentry).stamped _
  · exact (wellRead_of_parseLocationObject hentry).stamped _

theorem parseBundle_locations {root : JsonObject} {url : Option Text} {hours : Option Int}
    {b : LocationBundleV4} (h : parseBundle root url hours = .ok (some b)) :
    ∃ items, bundleItems root = some items ∧
      b.locations = items.filterMap (parseBundleItem url hours) := by
  unfold parseBundle at h
  split at h
  · cases h
  · rename_i items hitems
    obtain ⟨version, -, h⟩ := bind_eq_ok.mp h
    by_cases hempty : version < 3 ∧ items.filterMap (parseBundleItem url hours) = []
    · rw [if_pos hempty] at h
      cases h
    · rw [if_neg hempty] at h
      cases h
      exact ⟨items, hitems, rfl⟩

theorem wellRead_of_parseBundle {root : JsonObject} {url : Option Text} {hours : Option Int}
    {b : LocationBundleV4} (h : parseBundle root url hours = .ok (some b)) {e : LocationEntry}
    (he : e ∈ b.locations) : WellRead e := by
  obtain ⟨items, -, hlocations⟩ := parseBundle_locations h
  obtain ⟨el, -, hel⟩ := List.mem_filterMap.mp (hlocations ▸ he)
  exact wellRead_of_parseBundleItem hel

/-- What the storage before bundles held is read like any other. -/
theorem wellRead_of_parseSingleLocation {text : Text} {id : Option Text} {e : LocationEntry}
    (h : parseSingleLocation text id = .ok (some e)) : ∃ e₀ : LocationEntry, e₀.normalized = e := by
  unfold parseSingleLocation at h
  split at h
  · cases h
  · rename_i root hroot
    obtain ⟨b, -, h⟩ := bind_eq_ok.mp h
    cases b with
    | none => exact (wellRead_of_parseLocationObject (Except.ok.inj h)).1
    | some b =>
        have hmem := List.mem_of_mem_head? (Except.ok.inj h)
        obtain ⟨⟨e₀, -, he₀⟩, -⟩ := LocationBundleV4.of_mem_normalizedLocations hmem
        exact ⟨e₀, he₀⟩

/-! ### The lines of any body -/

/-- The part of an object that is about the server. -/
def serverPart (root : JsonObject) : JsonObject :=
  ((root.inner "location").or (root.inner "hysteria")).getD root

/-- The server a JSON object stands for, if it is one. -/
def objectLine (root : JsonObject) : Option Line :=
  (((Serialization.decodeEntry root).map (·.location.line)).filter (·.dials)).or
    (some (locationOfObject root (serverPart root)).line |>.filter (·.dials))

/-- The servers of a JSON object: the items of a bundle, or the one it is. A
bundle of an old version with no items is read as the latter. -/
def jsonLines (root : JsonObject) : List Line :=
  match bundleItems root with
  | none => (objectLine root).toList
  | some items =>
      let found := items.filterMap fun el => el.fields?.bind objectLine
      if (bundleVersion root).toOption.any (· < 3) ∧ found = [] then (objectLine root).toList
      else found

/-- The text whose lines are a body's: itself, or what its base64 says. -/
def linesText (body : Text) : Option Text :=
  ((some body).filter (importableLines · ≠ [])).or
    ((decodeBodyBase64 body).filter (importableLines · ≠ []))

/-- **The importable lines of a body.** -/
def importable (body : Text) : List Line :=
  match linesText body with
  | some text => importableLines text
  | none => ((rootObject body).map jsonLines).getD []

theorem decodeLocationEntry_line (root : JsonObject) (url : Option Text) :
    (decodeLocationEntry root url).map (·.location.line) =
      ((Serialization.decodeEntry root).map (·.location.line)).filter (·.dials) := by
  unfold decodeLocationEntry
  cases Serialization.decodeEntry root with
  | none => rfl
  | some e =>
      -- The address an entry is filed under is no part of its location.
      have hline : ∀ e' : LocationEntry, e'.location = e.location →
          ((some e'.normalized).filter (·.location.isComplete)).map (·.location.line) =
            (some e.location.line).filter (·.dials) := by
        intro e' he'
        simp only [Option.filter_some, LocationConfig.isComplete_eq_dials,
          LocationEntry.line_normalized, he']
        split
        · rw [Option.map_some, LocationEntry.line_normalized, he']
        · rfl
      exact hline _ (by split <;> rfl)

theorem parseLocationObject_line (root : JsonObject) (id url : Option Text) :
    (parseLocationObject root id url).map (·.location.line) = objectLine root := by
  unfold parseLocationObject objectLine
  rw [Option.map_or, decodeLocationEntry_line]
  congr 1
  simp only [Option.filter_some, ← LocationConfig.isComplete_eq_dials]
  change Option.map _
      (if (locationOfObject root (serverPart root)).isComplete = true then _ else _) =
    if (locationOfObject root (serverPart root)).isComplete = true then _ else _
  split
  · rw [Option.map_some, LocationEntry.location_fromLocation, LocationConfig.line_stored,
      normalized_locationOfObject]
    rfl
  · rfl

theorem parseBundleItem_line (url : Option Text) (hours : Option Int) (el : JsonElement) :
    (parseBundleItem url hours el).map (·.location.line) = el.fields?.bind objectLine := by
  unfold parseBundleItem
  cases el.fields? with
  | none => rfl
  | some item =>
      simp only [Option.bind_eq_bind, Option.bind_some]
      have hstamp : ∀ (x : Option LocationEntry) (f : LocationEntry → Option LocationMetadata),
          (x.bind fun e => some (LocationEntry.normalized { e with metadata := f e })).map
            (·.location.line) = x.map (·.location.line) := by
        intro x f
        cases x with
        | none => rfl
        | some e => exact congrArg some (LocationEntry.line_normalized _)
      refine (hstamp _ _).trans ?_
      rw [Option.map_or, decodeLocationEntry_line, parseLocationObject_line, objectLine,
        ← Option.or_assoc, Option.or_self]

theorem filterMap_parseBundleItem_lines (url : Option Text) (hours : Option Int)
    (items : List JsonElement) :
    (items.filterMap (parseBundleItem url hours)).map (·.location.line) =
      items.filterMap fun el => el.fields?.bind objectLine := by
  rw [List.map_filterMap]
  exact List.filterMap_congr fun el _ => parseBundleItem_line url hours el

theorem parseBundle_lines {root : JsonObject} {url : Option Text} {hours : Option Int}
    {b : Option LocationBundleV4} (h : parseBundle root url hours = .ok b) :
    jsonLines root = match b with
      | some b => b.locations.map (·.location.line)
      | none => (objectLine root).toList := by
  unfold parseBundle at h
  unfold jsonLines
  cases hitems : bundleItems root with
  | none =>
      rw [hitems] at h
      cases h
      rfl
  | some items =>
      rw [hitems] at h
      obtain ⟨version, hversion, h⟩ := bind_eq_ok.mp h
      have hlines := filterMap_parseBundleItem_lines url hours items
      simp only [hversion, Except.toOption, Option.any_some, decide_eq_true_eq, ← hlines,
        List.map_eq_nil_iff]
      by_cases hempty : version < 3 ∧ items.filterMap (parseBundleItem url hours) = []
      · rw [if_pos hempty] at h
        cases h
        rw [if_pos hempty]
      · rw [if_neg hempty] at h
        cases h
        rw [if_neg hempty]

theorem importableLines_ne_nil {body text : Text} (h : linesText body = some text) :
    importableLines text ≠ [] := by
  rcases Option.or_eq_some_iff.mp h with h | ⟨-, h⟩
  · simpa using (Option.filter_eq_some_iff.mp h).2
  · simpa using (Option.filter_eq_some_iff.mp h).2

theorem filter_bind_parseLines (text : Option Text) (url : Option Text) (hours : Option Int) :
    (text.filter (importableLines · ≠ [])).bind (parseLines · url hours) =
      text.bind (parseLines · url hours) := by
  cases text with
  | none => rfl
  | some text =>
      by_cases hnil : importableLines text = []
      · rw [Option.filter_some, if_neg (by simpa using hnil), Option.bind_none, Option.bind_some,
          (parseLines_eq_none_iff text url hours).mpr hnil]
      · rw [Option.filter_some, if_pos (by simpa using hnil)]

/-- Reading a body, or else what its base64 says, is reading `linesText`. -/
theorem parseLines_linesText (body : Text) (url : Option Text) (hours : Option Int) :
    (parseLines body url hours).or ((decodeBodyBase64 body).bind (parseLines · url hours)) =
      (linesText body).bind (parseLines · url hours) := by
  rw [← filter_bind_parseLines (decodeBodyBase64 body), linesText]
  by_cases hnil : importableLines body = []
  · rw [(parseLines_eq_none_iff body url hours).mpr hnil, Option.filter_some,
      if_neg (by simpa using hnil), Option.none_or, Option.none_or]
  · rw [Option.filter_some, if_pos (by simpa using hnil), Option.some_or, Option.bind_some]
    cases hbody : parseLines body url hours with
    | none => exact absurd ((parseLines_eq_none_iff body url hours).mp hbody) hnil
    | some b => rfl

/-- **An import reads every importable line of its body**, each into an entry
that can be dialled. -/
theorem parseImport_lines {body : Text} {url : Option Text} {hours : Option Int}
    {r : Option ParsedImport} (h : parseImport body url hours = .ok r) :
    (entriesIn (r.map (·.bundle))).map (·.location.line) = importable body ∧
      ∀ e ∈ entriesIn (r.map (·.bundle)), e.location.isComplete = true := by
  unfold parseImport at h
  unfold importable
  rw [parseLines_linesText] at h
  split at h
  · rename_i b hlines
    obtain ⟨text, htext, hparse⟩ := Option.bind_eq_some_iff.mp hlines
    cases h
    have hentries := (parseLines_reads text url hours).1
    rw [hparse] at hentries
    rw [htext]
    refine ⟨hentries, fun e he => ?_⟩
    rw [LocationConfig.isComplete_eq_dials]
    exact dials_of_mem_importableLines (hentries ▸ List.mem_map_of_mem he)
  · rename_i hlines
    have hnone : linesText body = none := by
      rw [Option.eq_none_iff_forall_ne_some]
      intro text htext
      rw [htext, Option.bind_some] at hlines
      exact importableLines_ne_nil htext ((parseLines_eq_none_iff text url hours).mp hlines)
    rw [hnone]
    cases hroot : rootObject body with
    | none =>
        rw [hroot] at h
        cases h
        exact ⟨rfl, fun e he => absurd he List.not_mem_nil⟩
    | some root =>
        rw [hroot] at h
        obtain ⟨b, hb, h⟩ := bind_eq_ok.mp h
        have hjson := parseBundle_lines hb
        rw [Option.map_some, Option.getD_some, hjson]
        cases b with
        | some b =>
            cases h
            exact ⟨rfl, fun e he => (wellRead_of_parseBundle hb he).2⟩
        | none =>
            cases h
            rw [← parseLocationObject_line root none url]
            cases hobject : parseLocationObject root none url with
            | none => exact ⟨rfl, fun e he => absurd he List.not_mem_nil⟩
            | some entry =>
                have hread := wellRead_of_parseLocationObject hobject
                refine ⟨congrArg ([·]) (LocationEntry.line_normalized _), fun e he => ?_⟩
                rw [List.mem_singleton.mp he]
                exact (hread.stamped _).2

end

end Ghostlane.App
