import Ghostlane.App.ImportFrame
import Ghostlane.App.Share
import Ghostlane.App.WellFormed

/-!
# Ghostlane.App.Backup

A backup (`exportBundle` in `data/datasource/LocationsDatasource.kt`, and the
serializer of transports in `data/model/LocationConfig.kt`): the bundle written as
JSON, and read back through the same import that reads every other text.

The library generates the serializers and prints the JSON; `JsonWriter` stands for
that, and `ReadsBack` says what is relied on. The transport's serializer is written
by hand, over a generated one of a surrogate with the same two fields.
-/

namespace Ghostlane.App

open Ghostlane.Lib

/-! ### Writing -/

structure LocationTransportConfigSurrogate where
  type : Text := defaultTransport
  vp8 : Option Vp8TransportConfig := none
  deriving DecidableEq, Repr

/-- The JSON library as it writes. -/
class JsonWriter where
  /-- The serializer generated for the surrogate. -/
  encodeSurrogate : LocationTransportConfigSurrogate → JsonObject
  decodeSurrogate : JsonObject → Option LocationTransportConfigSurrogate
  /-- The one generated for `LocationEntry`, which writes a transport by the serializer it is
  given. -/
  encodeEntry : (LocationTransportConfig → JsonElement) → LocationEntry → JsonObject
  encodeSettings : SubscriptionSettings → JsonElement
  encodeRouting : RoutingSettings → JsonElement
  encodeRefused : RefusedList → JsonElement
  /-- `encodeToString`, pretty-printed. -/
  encodeToString : JsonElement → Text

section

variable [JsonWriter]

namespace LocationTransportConfigSerializer

def serialize (value : LocationTransportConfig) : JsonElement :=
  .object (JsonWriter.encodeSurrogate { type := value.type, vp8 := value.vp8 })

/-- Older versions wrote the name alone. -/
def deserialize : JsonElement → Option LocationTransportConfig
  | .null => some { type := [] }
  | .primitive content => some { type := content }
  | .object fields =>
      (JsonWriter.decodeSurrogate fields).map fun s => { type := s.type, vp8 := s.vp8 }
  | .array _ => some {}

end LocationTransportConfigSerializer

/-- `LocationBundleV4.serializer()`: defaults are written and nulls are not. -/
def encodeBundle (b : LocationBundleV4) : JsonObject :=
  (txt "version", .primitive (intText b.version)) ::
  b.activeLocationId.toList.map (fun id => (txt "active_location_id", .primitive id)) ++
  [(txt "locations", .array (b.locations.map fun e =>
      .object (JsonWriter.encodeEntry LocationTransportConfigSerializer.serialize e))),
    (txt "settings", JsonWriter.encodeSettings b.settings),
    (txt "routing", JsonWriter.encodeRouting b.routing)] ++
  b.vpnDisclosureAcceptedAt.toList.map
    (fun at_ => (txt "vpn_disclosure_accepted_at", .primitive (intText at_))) ++
  b.onboardingSeenAt.toList.map (fun at_ => (txt "onboarding_seen_at", .primitive (intText at_))) ++
  [(txt "refused_lists", .array (b.refusedLists.map JsonWriter.encodeRefused)),
    (txt "selection_withdrawn",
      .primitive (txt (if b.selectionWithdrawn then "true" else "false")))]

/-- The backup of a bundle. -/
def backupOf (b : LocationBundleV4) : Text := JsonWriter.encodeToString (.object (encodeBundle b))

def Store.exportBundle [Build] (s : Store) : Except Thrown (Text × Store) := do
  let (b, s) ← s.getBundleUnlocked
  return (backupOf b, s)

/-! ### What is relied on -/

/-- How a line of printed JSON begins. -/
def opensJson (line : Text) : Bool :=
  line.head?.any (· ∈ ['\x7b', '\x7d', '[', ']', '"'])

/-- The library reads back what it wrote of a bundle, and prints it on lines that
begin with a bracket or a quote: it escapes the line breaks of a string. -/
structure ReadsBack [Build] (b : LocationBundleV4) : Prop where
  surrogate : ∀ e ∈ b.locations, ∀ t, e.transport = some t →
    JsonWriter.decodeSurrogate (JsonWriter.encodeSurrogate { type := t.type, vp8 := t.vp8 }) =
      some { type := t.type, vp8 := t.vp8 }
  entry : ∀ e ∈ b.locations,
    (∀ t, e.transport = some t → LocationTransportConfigSerializer.deserialize
      (LocationTransportConfigSerializer.serialize t) = some t) →
    Serialization.decodeEntry
      (JsonWriter.encodeEntry LocationTransportConfigSerializer.serialize e) = some e
  text : JsonReader.parseToJsonElement (backupOf b) = some (.object (encodeBundle b))
  opens : (backupOf b).head? = some '\x7b'
  closes : (backupOf b).getLast? = some '\x7d'
  lines : ∀ line ∈ lines (backupOf b), opensJson (normalizedImportText line) = true

variable [Build] {b : LocationBundleV4}

/-- **A transport is read back** through its surrogate. -/
theorem deserialize_serialize (h : ReadsBack b) {e : LocationEntry} (he : e ∈ b.locations)
    {t : LocationTransportConfig} (ht : e.transport = some t) :
    LocationTransportConfigSerializer.deserialize
      (LocationTransportConfigSerializer.serialize t) = some t := by
  show (JsonWriter.decodeSurrogate (JsonWriter.encodeSurrogate _)).map _ = some t
  rw [h.surrogate e he t ht]
  rfl

theorem decodeEntry_encodeEntry (h : ReadsBack b) {e : LocationEntry} (he : e ∈ b.locations) :
    Serialization.decodeEntry
      (JsonWriter.encodeEntry LocationTransportConfigSerializer.serialize e) = some e :=
  h.entry e he fun _ ht => deserialize_serialize h he ht

/-! ### No line of it is a link -/

omit [JsonWriter] [Build] in
/-- A line of JSON starts with no scheme. -/
theorem not_startsWith_of_opensJson {line scheme : Text} (h : opensJson line = true)
    (hscheme : opensJson scheme = false) (hne : scheme ≠ []) : startsWith line scheme = false := by
  refine Bool.eq_false_iff.mpr fun hstart => ?_
  obtain ⟨rest, rfl⟩ := List.isPrefixOf_iff_prefix.mp hstart
  have hhead : (scheme ++ rest).head? = scheme.head? := by
    cases scheme with
    | nil => exact absurd rfl hne
    | cons c scheme => rfl
  rw [opensJson, hhead] at h
  rw [opensJson, h] at hscheme
  cases hscheme

omit [JsonWriter] in
theorem importableLines_of_opensJson {text : Text}
    (h : ∀ line ∈ lines text, opensJson (normalizedImportText line) = true) :
    importableLines text = [] := by
  have hlink : ∀ line ∈ (lines text).map normalizedImportText, opensJson line = true := by
    intro line hline
    obtain ⟨line₀, hmem, rfl⟩ := List.mem_map.mp hline
    exact h line₀ hmem
  have hrooms : roomUris text = [] := by
    refine List.filterMap_eq_nil_iff.mpr fun line hline => ?_
    rw [not_startsWith_of_opensJson (hlink line hline) (by decide) (by decide)]
    rfl
  have hlinks : linkLines text = [] := by
    refine List.filterMap_eq_nil_iff.mpr fun line hline => ?_
    obtain ⟨line₀, hmem, rfl⟩ := List.mem_map.mp hline
    rw [Option.map_eq_none_iff]
    by_contra hparse
    have hsupports := supports_of_parse (Option.isSome_iff_ne_none.mpr hparse)
    obtain ⟨scheme, hscheme, hstart⟩ := List.any_eq_true.mp hsupports
    rw [trim_normalizedImportText] at hstart
    have hall : LinkParser.schemes.all (fun scheme => !opensJson scheme && scheme != []) =
        true := by
      decide
    have hplain := List.all_eq_true.mp hall scheme hscheme
    rw [Bool.and_eq_true, Bool.not_eq_true', bne_iff_ne] at hplain
    rw [not_startsWith_of_opensJson (h line₀ hmem) hplain.1 hplain.2] at hstart
    cases hstart
  rw [importableLines, roomLines, hrooms, hlinks]
  rfl

omit [JsonWriter] [Build] in
/-- A text with a brace in it is no base64. -/
theorem decodeBodyBase64_of_brace {text : Text} (h : '\x7b' ∈ text) :
    decodeBodyBase64 text = none := by
  have hmem : '\x7b' ∈ text.filter (!isWhitespace ·) := List.mem_filter.mpr ⟨h, by decide⟩
  have hnot : (text.filter (!isWhitespace ·)).all
      (fun c => c.isAlphanum || decide (c ∈ ['+', '/', '-', '_', '='])) = false :=
    List.all_eq_false.mpr ⟨_, hmem, by decide⟩
  unfold decodeBodyBase64
  dsimp only
  split
  · rfl
  · rw [hnot]
    rfl

omit [JsonWriter] [Build] in
/-- A text in braces is imported as it is. -/
theorem normalizedImportText_of_braces {text : Text} (hopens : text.head? = some '\x7b')
    (hcloses : text.getLast? = some '\x7d') : normalizedImportText text = text := by
  have htrim : trim text = text := by
    refine trimBy_eq_self (fun c hc => ?_) (fun c hc => ?_)
    · rw [hopens] at hc
      cases hc
      decide
    · rw [hcloses] at hc
      cases hc
      decide
  have hmark : startsWith text [Char.ofNat 0xFEFF] = false := by
    cases text with
    | nil => rfl
    | cons c text =>
        cases hopens
        rfl
  rw [normalizedImportText, htrim, removePrefix, hmark]
  exact htrim

/-! ### Reading it back -/

omit [Build] in
theorem bundleItems_encodeBundle (b : LocationBundleV4) :
    bundleItems (encodeBundle b) = some (b.locations.map fun e =>
      .object (JsonWriter.encodeEntry LocationTransportConfigSerializer.serialize e)) := by
  have hlast : lastValue (encodeBundle b) (txt "locations") = some (.array (b.locations.map fun e =>
      .object (JsonWriter.encodeEntry LocationTransportConfigSerializer.serialize e))) := by
    unfold encodeBundle
    cases b.activeLocationId <;> cases b.vpnDisclosureAcceptedAt <;>
      cases b.onboardingSeenAt <;> rfl
  rw [bundleItems, hlast]

theorem parseBundleItem_encodeEntry (h : ReadsBack b) (hclean : b.Clean) {e : LocationEntry}
    (he : e ∈ b.locations) :
    parseBundleItem none none
      (.object (JsonWriter.encodeEntry LocationTransportConfigSerializer.serialize e)) =
        some e := by
  have hdecode : decodeLocationEntry
      (JsonWriter.encodeEntry LocationTransportConfigSerializer.serialize e) none = some e := by
    rw [decodeLocationEntry, decodeEntry_encodeEntry h he, Option.map_some, isNullOrBlank,
      Bool.not_true, Bool.and_false, if_neg Bool.false_ne_true, hclean.settled e he,
      Option.filter_some, if_pos (hclean.isComplete he).2]
  simp only [parseBundleItem, JsonElement.fields?, bind, Option.bind_some, hdecode, Option.some_or,
    LocationMetadata.withSubscriptionInterval, pure]
  exact congrArg some (hclean.settled e he)

/-- What is read of a backup: its locations and its selection. -/
def readBackup (b : LocationBundleV4) : ParsedImport where
  bundle := { activeLocationId := b.activeLocationId, locations := b.locations }
  mode := .restore

theorem parseBundle_backup (h : ReadsBack b) (hclean : b.Clean) (hne : b.locations ≠ []) :
    parseBundle (encodeBundle b) none none = .ok (some (readBackup b).bundle) := by
  have hactive : ((encodeBundle b).string "active_location_id").or
      ((encodeBundle b).string "activeLocationId") = b.activeLocationId := by
    unfold encodeBundle
    cases b.activeLocationId <;> cases b.vpnDisclosureAcceptedAt <;>
      cases b.onboardingSeenAt <;> rfl
  obtain ⟨version, hversion⟩ : ∃ version, bundleVersion (encodeBundle b) = .ok version := by
    have hlast : lastValue (encodeBundle b) (txt "version") =
        some (.primitive (intText b.version)) := by
      unfold encodeBundle
      cases b.activeLocationId <;> cases b.vpnDisclosureAcceptedAt <;>
        cases b.onboardingSeenAt <;> rfl
    rw [bundleVersion, hlast]
    exact ⟨_, rfl⟩
  have hitems : (b.locations.map fun e => JsonElement.object
      (JsonWriter.encodeEntry LocationTransportConfigSerializer.serialize e)).filterMap
      (parseBundleItem none none) = b.locations := by
    rw [List.filterMap_map]
    refine Eq.trans ?_ List.filterMap_some
    exact List.filterMap_congr fun e he => parseBundleItem_encodeEntry h hclean he
  unfold parseBundle
  rw [bundleItems_encodeBundle]
  dsimp only
  rw [hitems, hversion, hactive]
  show (if version < 3 ∧ b.locations = [] then _ else _) = _
  rw [if_neg (fun hboth => hne hboth.2)]
  rfl

theorem parseImport_backup (h : ReadsBack b) (hclean : b.Clean) (hne : b.locations ≠ []) :
    parseImport (backupOf b) none none = .ok (some (readBackup b)) := by
  have hlines : parseLines (backupOf b) none none = none :=
    (parseLines_eq_none_iff _ _ _).mpr (importableLines_of_opensJson h.lines)
  have hbase64 : decodeBodyBase64 (backupOf b) = none :=
    decodeBodyBase64_of_brace (List.mem_of_mem_head? h.opens)
  have hroot : rootObject (backupOf b) = some (encodeBundle b) := by
    rw [rootObject, if_neg (by simp [h.opens, h.closes]), h.text]
    rfl
  unfold parseImport
  rw [hlines, hbase64]
  dsimp only [Option.none_or, Option.bind_none]
  rw [hroot]
  dsimp only
  rw [parseBundle_backup h hclean hne]
  rfl

/-- **A backup resolves to what was backed up.** -/
theorem resolve_backup (h : ReadsBack b) (hclean : b.Clean) (hne : b.locations ≠ []) (w : World) :
    resolveParsedImport w (backupOf b) none =
      .ok (some (.parsed { content := backupOf b } (readBackup b))) := by
  have hinput := normalizedImportText_of_braces h.opens h.closes
  have hopens : opensJson (backupOf b) = true := by
    rw [opensJson, h.opens]
    rfl
  have htrim : trim (backupOf b) = backupOf b := by
    rw [← hinput]
    exact trim_trim _
  have hblank : isBlank (backupOf b) = false := by
    rw [isBlank, List.all_eq_false]
    exact ⟨_, List.mem_of_mem_head? h.opens, by decide⟩
  have hpartner : isPartnerLink (backupOf b) = false := by
    rw [isPartnerLink, htrim]
    exact not_startsWith_of_opensJson hopens (by decide) (by decide)
  have hcrypt : isCryptLink (backupOf b) = false := by
    rw [isCryptLink, htrim]
    exact not_startsWith_of_opensJson hopens (by decide) (by decide)
  have hhttp : isHttpUrl (backupOf b) = false := by
    have hlower : opensJson (lowercase (backupOf b)) = true := by
      cases htext : backupOf b with
      | nil =>
          rw [htext] at hopens
          cases hopens
      | cons c rest =>
          have hc := h.opens
          rw [htext] at hc
          cases hc
          rfl
    rw [isHttpUrl, htrim, not_startsWith_of_opensJson hlower (by decide) (by decide),
      not_startsWith_of_opensJson hlower (by decide) (by decide)]
    rfl
  have hsource : resolveImportSource w (backupOf b) .identity = some { content := backupOf b } := by
    rw [resolveImportSource, hblank, hhttp, hinput]
    rfl
  have hstamp : ∀ e : LocationEntry, stamp w { content := backupOf b } none e = e := fun e => rfl
  have hparse : parseImportSource w { content := backupOf b } none none =
      .ok (some (readBackup b)) := by
    unfold parseImportSource
    dsimp only
    rw [hinput, show initialInterval { content := backupOf b } none = none from rfl,
      parseImport_backup h hclean hne]
    have hlocations : (readBackup b).bundle.locations.map (stamp w { content := backupOf b } none) =
        (readBackup b).bundle.locations :=
      (List.map_congr_left fun e _ => hstamp e).trans (List.map_id' _)
    show Except.ok (Option.map _ (some (readBackup b))) = _
    rw [Option.map_some, hlocations]
  have hresolve : resolvePartner w (backupOf b) = some (backupOf b) := by
    rw [resolvePartner, hpartner]
  have hdecrypt : decryptLink (backupOf b) = none := by
    rw [decryptLink, hcrypt]
    rfl
  unfold resolveParsedImport
  dsimp only
  rw [hinput, hblank, hpartner, hcrypt, hresolve]
  dsimp only
  rw [hdecrypt, Option.getD_none, hsource, hhttp]
  show (parseImportSource w { content := backupOf b } none none >>= _) = _
  rw [hparse]
  rfl

/-! ### Restoring -/

omit [JsonWriter] in
/-- What is selected in a bundle that was read is there. -/
theorem selected_of_read {s s₁ : Store} (hread : s.getBundleUnlocked = .ok (b, s₁)) {id : Text}
    (h : b.activeLocationId = some id) : LocationBundleV4.holds b.locations id = true := by
  cases Store.reads_of_getBundleUnlocked hread with
  | stored hb hne => exact (Store.wellFormed_stored hb).selected id h
  | @empty _ legacy hlegacy hnil hb hempty =>
      cases hstored : s.stored with
      | none =>
          rw [hstored, Option.getD_none] at hb
          exact hb ▸ LocationBundleV4.selected_normalized (hb ▸ h)
      | some b₀ =>
          rw [hstored, Option.getD_some] at hb
          exact hb ▸ (Store.wellFormed_stored hstored).selected id (hb ▸ h)
  | @adopted legacy hlegacy hempty hne =>
      rw [Store.locations_withLegacy]
      refine LocationBundleV4.selected_normalized ?_
      rw [← h]
      cases s.stored <;> rfl

omit [JsonWriter] in
/-- The selection of a bundle with locations and nothing withdrawn: what it says, or the first. -/
theorem active_normalized_of_clean (hclean : b.Clean) (hwithdrawn : b.selectionWithdrawn = false) :
    b.normalized.activeLocationId =
      (b.activeLocationId.filter (LocationBundleV4.holds b.locations)).or
        (b.locations.head?.map (·.storageId)) := by
  have hlocations := hclean.normalizedLocations_eq
  unfold LocationBundleV4.normalized
  simp only [hlocations, hwithdrawn, Bool.false_and, Bool.false_eq_true, if_false]

omit [JsonWriter] in
/-- A bundle saved with a selection that is there is stored with it. -/
theorem stored_save_selected {s : Store} {id : Text} (hclean : b.Clean)
    (hwithdrawn : b.selectionWithdrawn = false) (hactive : b.activeLocationId = some id)
    (hholds : LocationBundleV4.holds b.locations id = true) :
    (s.save b).locations = b.locations ∧
      (s.save b).stored.bind (·.activeLocationId) = some id := by
  have hlocations : b.normalized.locations = b.locations := hclean.normalizedLocations_eq
  have hfirst : b.normalized.activeLocationId = some id := by
    rw [active_normalized_of_clean hclean hwithdrawn, hactive, Option.filter_some, if_pos hholds,
      Option.some_or]
  have hclean' : b.normalized.Clean :=
    ⟨hlocations ▸ hclean.settled, hlocations ▸ hclean.kept, hlocations ▸ hclean.nodup⟩
  have hwithdrawn' : b.normalized.selectionWithdrawn = false := by
    show (b.selectionWithdrawn && _ && _) = false
    rw [hwithdrawn]
    rfl
  constructor
  · exact hclean'.normalizedLocations_eq.trans hlocations
  · show b.normalized.normalized.activeLocationId = some id
    rw [active_normalized_of_clean hclean' hwithdrawn', hfirst, Option.filter_some, hlocations,
      if_pos hholds, Option.some_or]

/-- **What a store without locations takes of a backup**: its entries, and its selection or
the first of them. -/
theorem importReport_backup {s s₁ : Store} {c : LocationBundleV4} (hclean : b.Clean)
    (hne : b.locations ≠ []) (hjson : ReadsBack b) (hread : s.getBundleUnlocked = .ok (c, s₁))
    (hempty : c.locations = []) (w : World) :
    ∃ s', s.importReport w (backupOf b) = .ok (s', { imported := true }) ∧
      s'.locations = b.locations ∧
      s'.stored.bind (·.activeLocationId) =
        (b.activeLocationId.filter (LocationBundleV4.holds b.locations)).or
          (b.locations.head?.map (·.storageId)) := by
  set imported := (readBackup b).bundle.normalized with himported
  have hlocations : imported.locations = b.locations := hclean.normalizedLocations_eq
  have hcurrent : c.normalized.locations = [] :=
    (Store.clean_getBundleUnlocked hread).normalizedLocations_eq.trans hempty
  set merged : LocationBundleV4 :=
    { c.normalized with
      activeLocationId := imported.activeLocationId
      locations := imported.locations }
    with hmerged
  have hrun : s.importReport w (backupOf b) = .ok (s₁.save merged, { imported := true }) := by
    have hmerge : Store.mergeImportedBundle c imported true = merged := by
      unfold Store.mergeImportedBundle
      dsimp only
      rw [if_pos hcurrent]
    unfold Store.importReport Store.change
    rw [resolve_backup hjson hclean hne]
    simp only [hread, bind, Except.bind, pure, Except.pure]
    rw [← hmerge]
    rfl
  have hmergedClean : merged.Clean :=
    ⟨hlocations.symm ▸ hclean.settled, hlocations.symm ▸ hclean.kept,
      hlocations.symm ▸ hclean.nodup⟩
  have hactive : imported.activeLocationId =
      (b.activeLocationId.filter (LocationBundleV4.holds b.locations)).or
        (b.locations.head?.map (·.storageId)) :=
    active_normalized_of_clean (b := (readBackup b).bundle)
      ⟨hclean.settled, hclean.kept, hclean.nodup⟩ rfl
  obtain ⟨id, hid, hholds⟩ : ∃ id, imported.activeLocationId = some id ∧
      LocationBundleV4.holds b.locations id = true := by
    cases hsome : imported.activeLocationId with
    | some id => exact ⟨id, rfl, hlocations ▸ LocationBundleV4.selected_normalized hsome⟩
    | none =>
        obtain ⟨e, rest, hlist⟩ := List.exists_cons_of_ne_nil hne
        rw [hactive, hlist, Option.or_eq_none_iff] at hsome
        cases hsome.2
  obtain ⟨hstored, hselected⟩ := stored_save_selected (s := s₁) (b := merged) hmergedClean
    (Store.withdrawn_of_empty hcurrent) hid (hlocations.symm ▸ hholds)
  exact ⟨_, hrun, hstored.trans hlocations, by rw [hselected, ← hid, hactive]⟩

/-- **A backup restores the store**, into one with no locations: every entry as it was,
in the same order, and the selection exactly when there was one. -/
theorem backup_restores_iff {s₀ s₀' s s₁ : Store} {c : LocationBundleV4} {text : Text}
    (hbundle : s₀.getBundleUnlocked = .ok (b, s₀')) (hexport : s₀.exportBundle = .ok (text, s₀'))
    (hne : b.locations ≠ []) (hjson : ReadsBack b) (hread : s.getBundleUnlocked = .ok (c, s₁))
    (hempty : c.locations = []) (w : World) :
    (∃ s' report, s.importReport w text = .ok (s', report) ∧ s'.locations = b.locations ∧
      s'.stored.bind (·.activeLocationId) = b.activeLocationId) ↔
    b.activeLocationId ≠ none := by
  obtain rfl : text = backupOf b := by
    rw [Store.exportBundle, hbundle] at hexport
    cases hexport
    rfl
  obtain ⟨s₂, hrun, hstored, hselected⟩ :=
    importReport_backup (Store.clean_getBundleUnlocked hbundle) hne hjson hread hempty w
  constructor
  · rintro ⟨s', report, hs', -, hsame⟩ hnone
    rw [hrun] at hs'
    cases hs'
    obtain ⟨e, rest, hlist⟩ := List.exists_cons_of_ne_nil hne
    rw [hselected, hnone, hlist] at hsame
    cases hsame
  · intro hsome
    refine ⟨_, _, hrun, hstored, ?_⟩
    obtain ⟨id, hid⟩ := Option.ne_none_iff_exists'.mp hsome
    rw [hselected, hid, Option.filter_some, if_pos (selected_of_read hbundle hid), Option.some_or]

end

/-! ### A selection, and a withdrawn one -/

section

/-- A link of one's own. -/
def homeLink : Text := txt "hy2://pw@home.example:443#Home"

def homeEntry : LocationEntry :=
  { storageId := txt "imported_home", name := txt "Home"
    endpoint := some { roomId := txt "home.example:443" }
    authProvider := some providerWbStream
    transport := some { type := transportVp8Channel, vp8 := some {} }
    kind := .hysteria2, rawLink := some homeLink }

/-- It is all that is left: the list the selected server came from refused this device. -/
def homeBundle (active : Option Text) (withdrawn : Bool) : LocationBundleV4 :=
  { activeLocationId := active, locations := [homeEntry]
    refusedLists :=
      [{ subscriptionUrl := someList, subscription := some { updateIntervalHours := some 24 } }]
    selectionWithdrawn := withdrawn }

def withdrawnBundle : LocationBundleV4 := homeBundle none true

def selectedBundle : LocationBundleV4 := homeBundle (some (txt "imported_home")) false

/-- A line of printed JSON. -/
def indented (depth : Nat) (t : Text) : Text := List.replicate (4 * depth) ' ' ++ t

/-- A field of printed JSON. -/
def field (depth : Nat) (key value : String) : Text :=
  indented depth ('"' :: txt key ++ '"' :: ':' :: ' ' :: txt value)

def backupHead : List Text := [txt "\x7b", field 1 "version" "5,"]

def backupSelection : List Text := [field 1 "active_location_id" "\"imported_home\","]

def backupBody : List Text :=
  [field 1 "locations" "[", indented 2 (txt "\x7b"), field 3 "storage_id" "\"imported_home\",",
    field 3 "name" "\"Home\",", field 3 "endpoint" "\x7b",
      field 4 "room_id" "\"home.example:443\",",
    field 4 "key" "\"\"", indented 3 (txt "\x7d,"), field 3 "failover_rooms" "[],",
    field 3 "auth_provider" "\"wbstream\",", field 3 "transport" "\x7b",
    field 4 "type" "\"vp8channel\",", field 4 "vp8" "\x7b", field 5 "fps" "60,",
    field 5 "batch" "64", indented 4 (txt "\x7d"), indented 3 (txt "\x7d,"),
    field 3 "kind" "\"hysteria2\",", field 3 "raw_link" "\"hy2://pw@home.example:443#Home\"",
    indented 2 (txt "\x7d"), indented 1 (txt "],"), field 1 "settings" "\x7b",
    field 2 "auto_select_lowest" "false,", field 2 "lowest_subscription_urls" "[],",
    field 2 "auto_update" "true,", field 2 "update_interval_hours" "1,",
    field 2 "notify_on_update" "true,", field 2 "refresh_on_open" "false,",
    field 2 "ping_on_launch" "false,", field 2 "connect_on_launch" "false,",
    field 2 "sort" "\"none\",", field 2 "prevent_duplicates" "true,", field 2 "collapsible" "true,",
    field 2 "smart_connect" "true,", field 2 "last_known_good_transport" "\x7b\x7d,",
    field 2 "folded_subscription_urls" "[],", field 2 "pinned_locations" "[]",
    indented 1 (txt "\x7d,"), field 1 "routing" "\x7b", field 2 "mode" "\"global\",",
    field 2 "verbose_debug_logs" "false,", field 2 "olcrtc_chrome_dtls" "false,",
    field 2 "direct_rules" "[],", field 2 "tunnel_rules" "[],", field 2 "kill_switch" "false",
    indented 1 (txt "\x7d,"), field 1 "refused_lists" "[", indented 2 (txt "\x7b"),
    field 3 "subscription_url" "\"https://host/list\",", field 3 "subscription" "\x7b",
    field 4 "update_interval_hours" "24", indented 3 (txt "\x7d,"),
    field 3 "refusal" "\"limit_reached\"", indented 2 (txt "\x7d"), indented 1 (txt "],")]

def printed (ls : List Text) : Text := ['\n'].intercalate ls

def withdrawnBackup : Text :=
  printed (backupHead ++ backupBody ++ [field 1 "selection_withdrawn" "true", txt "\x7d"])

def selectedBackup : Text :=
  printed (backupHead ++ backupSelection ++ backupBody ++
    [field 1 "selection_withdrawn" "false", txt "\x7d"])

/-- What the library writes of the two bundles. -/
@[reducible] def JsonWriter.ofHome : JsonWriter where
  encodeSurrogate s := [(txt "type", .primitive s.type),
    (txt "vp8", .object [(txt "fps", .primitive (txt "60")), (txt "batch", .primitive (txt "64"))])]
  decodeSurrogate _ := some { type := transportVp8Channel, vp8 := some {} }
  encodeEntry transport e := [(txt "storage_id", .primitive e.storageId),
    (txt "name", .primitive e.name),
    (txt "endpoint", .object [(txt "room_id", .primitive (txt "home.example:443")),
      (txt "key", .primitive [])]),
    (txt "failover_rooms", .array []), (txt "auth_provider", .primitive providerWbStream),
    (txt "transport", transport (e.transport.getD {})), (txt "kind", .primitive (txt "hysteria2")),
    (txt "raw_link", .primitive homeLink)]
  encodeSettings _ := .object []
  encodeRouting _ := .object []
  encodeRefused r := .object [(txt "subscription_url", .primitive r.subscriptionUrl)]
  encodeToString element :=
    match (element.fields?.getD []).string "active_location_id" with
    | some _ => selectedBackup
    | none => withdrawnBackup

attribute [local instance] JsonWriter.ofHome

/-- A build whose library reads the two texts. -/
@[reducible] def Build.readingBackups : Build where
  parseToJsonElement t :=
    if t = selectedBackup then some (.object (encodeBundle selectedBundle))
    else if t = withdrawnBackup then some (.object (encodeBundle withdrawnBundle))
    else none
  intOrNull _ := none
  decodeEntry _ := some homeEntry
  cryptCodec := none

attribute [local instance] Build.readingBackups

/-- The link is pasted and a list after it; the list's server is selected, and the list refused. -/
def withdrawingRun : List StoreEvent :=
  [.paste homeLink .failing, .paste someList (.serving (txt "hy2://pw@host:443#A")),
    .setActive (some (txt "imported_a")), .refresh none fun _ => .refusing]

/-- The store a run leaves. -/
def storeAfter (es : List StoreEvent) : Store := (run Store.step .empty es).getD .empty

theorem read_storeAfter {es : List StoreEvent} {b : LocationBundleV4}
    (h : (storeAfter es).stored = some b) (hne : b.locations ≠ []) :
    (storeAfter es).getBundleUnlocked = .ok (b, storeAfter es) :=
  Store.getBundleUnlocked_of_stored h hne

theorem stored_withdrawingRun : (storeAfter withdrawingRun).stored = some withdrawnBundle := by
  decide +kernel

theorem stored_selectingRun :
    (storeAfter (withdrawingRun ++ [.setActive (some (txt "imported_home"))])).stored =
      some selectedBundle := by
  decide +kernel

/-- The library reads back what it wrote of a bundle with that one entry. -/
theorem readsBack_home {b : LocationBundleV4} (hlocations : b.locations = [homeEntry])
    (htext : JsonReader.parseToJsonElement (backupOf b) = some (.object (encodeBundle b)))
    (hopens : (backupOf b).head? = some '\x7b') (hcloses : (backupOf b).getLast? = some '\x7d')
    (hlines : ∀ line ∈ lines (backupOf b), opensJson (normalizedImportText line) = true) :
    ReadsBack b where
  surrogate := by
    intro e he t ht
    rw [hlocations] at he
    rw [List.mem_singleton.mp he] at ht
    cases ht
    rfl
  entry := by
    intro e he _
    rw [hlocations] at he
    rw [List.mem_singleton.mp he]
    rfl
  text := htext
  opens := hopens
  closes := hcloses
  lines := hlines

theorem readsBack_selected : ReadsBack selectedBundle :=
  readsBack_home rfl (if_pos rfl) (by decide +kernel) (by decide +kernel) (by decide +kernel)

theorem readsBack_withdrawn : ReadsBack withdrawnBundle := by
  have hne : withdrawnBackup ≠ selectedBackup := by decide +kernel
  exact readsBack_home rfl ((if_neg hne).trans (if_pos rfl)) (by decide +kernel) (by decide +kernel)
    (by decide +kernel)

/-- A selection of one's own comes back. -/
theorem backup_restores_selected :
    ∃ s' report, Store.empty.importReport .failing selectedBackup = .ok (s', report) ∧
      s'.locations = [homeEntry] ∧
      s'.stored.bind (·.activeLocationId) = some (txt "imported_home") :=
  (backup_restores_iff
    (read_storeAfter stored_selectingRun (List.cons_ne_nil _ _))
    (by rw [Store.exportBundle, read_storeAfter stored_selectingRun (List.cons_ne_nil _ _)]; rfl)
    (List.cons_ne_nil _ _) readsBack_selected
    (show Store.empty.getBundleUnlocked = .ok ({}, .empty) from rfl) rfl .failing).mpr
    (Option.some_ne_none _)

/-- **A withdrawn selection does not**: the backup says that nothing is selected, and the
store it is restored into selects the first entry. -/
theorem withdrawn_backup_selects :
    run Store.step .empty withdrawingRun = some (storeAfter withdrawingRun) ∧
    (storeAfter withdrawingRun).exportBundle = .ok (withdrawnBackup, storeAfter withdrawingRun) ∧
    (storeAfter withdrawingRun).stored = some withdrawnBundle ∧
    withdrawnBundle.activeLocationId = none ∧ withdrawnBundle.selectionWithdrawn = true ∧
    ∃ s' report, Store.empty.importReport .failing withdrawnBackup = .ok (s', report) ∧
      s'.stored.bind (·.activeLocationId) = some (txt "imported_home") := by
  have hrun : (run Store.step .empty withdrawingRun).isSome = true := by decide +kernel
  obtain ⟨s, hs⟩ := Option.isSome_iff_exists.mp hrun
  refine ⟨by rw [storeAfter, hs, Option.getD_some], ?_, stored_withdrawingRun, rfl, rfl, ?_⟩
  · rw [Store.exportBundle, read_storeAfter stored_withdrawingRun (List.cons_ne_nil _ _)]
    rfl
  · have hread := read_storeAfter stored_withdrawingRun (List.cons_ne_nil _ _)
    obtain ⟨s', hs', -, hselected⟩ := importReport_backup (Store.clean_getBundleUnlocked hread)
      (List.cons_ne_nil _ _) readsBack_withdrawn (s := .empty) (c := {}) rfl rfl .failing
    exact ⟨s', _, hs', hselected⟩

end

end Ghostlane.App
