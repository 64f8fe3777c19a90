import Ghostlane.App.Fetch
import Ghostlane.App.ImportSound
import Ghostlane.Phone.RoomList
import Ghostlane.Lib.Fields

/-!
# Ghostlane.Across.FailoverRooms

The app reads the rooms of a location off a list's body (`parseOlcRtcText`), and so
does the phone's tunnel once the app is asleep (`RoomList.parse`). Each walks the
lines with its own notion of the current location: the app's is the last line it
accepted and the tunnel's the last that begins with `olcrtc://`; the app keeps the
last `##rooms` header of it and the tunnel all of them.
-/

namespace Ghostlane.Across

open Ghostlane.Lib Ghostlane.Phone

/-! ### Characters -/

/-- The characters one of the two languages breaks a line at or trims and the other
does not, and the byte order mark. -/
def isOdd (c : Char) : Bool :=
  let n := c.toNat
  n == 0x0B || n == 0x0C || (0x1C ≤ n && n ≤ 0x1F) || n == 0x85 || n == 0x2028 || n == 0x2029 ||
    n == 0xFEFF

/-- A line break to both. -/
def isBreak (c : Char) : Bool := c == '\n' || c == '\r'

theorem isBreak_iff {c : Char} : isBreak c = true ↔ c.toNat = 10 ∨ c.toNat = 13 := by
  rw [isBreak, Bool.or_eq_true, beq_iff_eq, beq_iff_eq, ← Char.toNat_inj, ← Char.toNat_inj]
  exact Iff.rfl

theorem isNewline_eq_isBreak {c : Char} (h : isOdd c = false) : isNewline c = isBreak c := by
  rw [Bool.eq_iff_iff, isBreak_iff]
  simp only [isOdd, Bool.or_eq_false_iff, Bool.and_eq_false_iff, decide_eq_false_iff_not,
    beq_eq_false_iff_ne] at h
  simp only [isNewline, Bool.or_eq_true, Bool.and_eq_true, decide_eq_true_eq, beq_iff_eq]
  omega

theorem whitespaces_eq {c : Char} (h : isOdd c = false) (hbreak : isBreak c = false) :
    whitespaces c = App.isWhitespace c := by
  have hnot : ¬ (c.toNat = 10 ∨ c.toNat = 13) := by
    rw [← isBreak_iff, hbreak]
    exact Bool.false_ne_true
  have htab : c = '\t' ↔ c.toNat = 9 := Char.toNat_inj.symm
  simp only [isOdd, Bool.or_eq_false_iff, Bool.and_eq_false_iff, decide_eq_false_iff_not,
    beq_eq_false_iff_ne] at h
  rw [Bool.eq_iff_iff]
  simp only [whitespaces, isSpaceSeparator, App.isWhitespace, Bool.or_eq_true, Bool.and_eq_true,
    decide_eq_true_eq, beq_iff_eq, htab]
  omega

section

variable [SwiftText]

/-- A line both languages see the same characters in. -/
structure AlikeLine (t : Text) : Prop where
  plain : ∀ c ∈ t, isOdd c = false
  unglued : Unglued t
  unbroken : ∀ c ∈ t, isBreak c = false

theorem AlikeLine.part {s t : Text} (h : AlikeLine t) (hs : s <:+: t) : AlikeLine s :=
  ⟨fun c hc => h.plain c (hs.subset hc), h.unglued.part hs, fun c hc => h.unbroken c (hs.subset hc)⟩

/-- The two trim a part of a line alike. -/
theorem AlikeLine.trim {t : Text} (h : AlikeLine t) : trimBy whitespaces t = App.trim t :=
  trimBy_congr fun c hc => whitespaces_eq (h.plain c hc) (h.unbroken c hc)

/-! ### Lines -/

/-- The lines of a body, as the app reads them one by one. -/
def importLines (body : Text) : List Text :=
  ((App.lines body).map App.normalizedImportText).filter (!App.isBlank ·)

omit [SwiftText] in
/-- The app breaks a text where there is a break, up to empty lines. -/
theorem lines_eq_splitOnP (t : Text) :
    ∃ first rest rest', App.lines t = first :: rest ∧ t.splitOnP isBreak = first :: rest' ∧
      rest.filter (!·.isEmpty) = rest'.filter (!·.isEmpty) := by
  have hsep : ∀ {c : Char} (t : Text), isBreak c = true →
      (c :: t).splitOnP isBreak = [] :: t.splitOnP isBreak := by
    intro c t hc
    rw [List.splitOnP_cons_eq_if_modifyHead, if_pos hc]
  induction t using App.lines.induct with
  | case1 => exact ⟨[], [], [], rfl, rfl, rfl⟩
  | case2 t ih =>
      obtain ⟨first, rest, rest', hlines, hsplit, hrest⟩ := ih
      refine ⟨[], first :: rest, [] :: first :: rest', ?_, ?_, ?_⟩
      · rw [App.lines, hlines]
      · rw [hsep _ rfl, hsep _ rfl, hsplit]
      · simp only [List.filter_cons, hrest]
        rfl
  | case3 c t hcrlf hbreak ih =>
      obtain ⟨first, rest, rest', hlines, hsplit, hrest⟩ := ih
      refine ⟨[], first :: rest, first :: rest', ?_, ?_, ?_⟩
      · rw [App.lines, if_pos hbreak, hlines]
        exact hcrlf
      · rw [hsep _ (by simpa [isBreak] using hbreak), hsplit]
      · simp only [List.filter_cons, hrest]
  | case4 c t hcrlf hbreak hnil ih =>
      obtain ⟨first, rest, rest', hlines, -, -⟩ := ih
      rw [hnil] at hlines
      cases hlines
  | case5 c t hcrlf hbreak line lines hlines₀ ih =>
      obtain ⟨first, rest, rest', hlines, hsplit, hrest⟩ := ih
      refine ⟨c :: first, rest, rest', ?_, ?_, hrest⟩
      · rw [App.lines, if_neg hbreak, hlines]
        exact hcrlf
      · rw [List.splitOnP_cons_eq_if_modifyHead, if_neg (by simpa [isBreak] using hbreak), hsplit]
        rfl

omit [SwiftText] in
theorem filter_lines (t : Text) : (App.lines t).filter (!·.isEmpty) = parts isBreak t := by
  obtain ⟨first, rest, rest', hlines, hsplit, hrest⟩ := lines_eq_splitOnP t
  rw [parts, hlines, hsplit, List.filter_cons, List.filter_cons, hrest]

/-- There is no byte order mark to remove. -/
theorem AlikeLine.normalizedImportText {t : Text} (h : AlikeLine t) :
    App.normalizedImportText t = App.trim t := by
  have hmark : App.startsWith (App.trim t) [Char.ofNat 0xFEFF] = false := by
    refine Bool.eq_false_iff.mpr fun hstart => ?_
    obtain ⟨rest, hrest⟩ := List.isPrefixOf_iff_prefix.mp hstart
    have hmem : Char.ofNat 0xFEFF ∈ App.trim t := by
      rw [← hrest]
      exact List.mem_cons_self ..
    have hodd := h.plain _ (mem_of_mem_trimBy hmem)
    cases hodd
  rw [App.normalizedImportText, App.removePrefix, hmark]
  exact App.trim_trim t

/-- Neither language reads anything in the line: it does not begin like a location or a header,
and no piece does where Swift breaks it once more. -/
structure PassedOver (line : Text) : Prop where
  whole : RoomList.begins (App.normalizedImportText line) = false
  pieces : ∀ piece ∈ parts isNewline line, RoomList.begins (trimBy whitespaces piece) = false

/-- The lines of a body that are read at all are read alike. -/
def ReadAlike (body : Text) : Prop := ∀ line ∈ parts isBreak body, PassedOver line ∨ AlikeLine line

omit [SwiftText] in
/-- A line that begins so holds more than white space. -/
theorem not_isBlank_of_begins {line : Text} (h : RoomList.begins line = true) :
    App.isBlank line = false := by
  cases line with
  | nil => cases h
  | cons c line =>
      have hc : App.isWhitespace c = false := by
        rw [RoomList.begins, Bool.or_eq_true, List.isPrefixOf_iff_prefix,
          List.isPrefixOf_iff_prefix] at h
        rcases h with ⟨rest, hrest⟩ | ⟨rest, hrest⟩ <;> rw [← (List.cons.inj hrest).1] <;> rfl
      exact List.all_eq_false.mpr ⟨c, List.mem_cons_self .., by rw [hc]; exact Bool.false_ne_true⟩

omit [SwiftText] in
/-- The app's lines that begin so, of the lines both break a body at. -/
theorem filter_importLines (body : Text) :
    (importLines body).filter RoomList.begins =
      (parts isBreak body).flatMap fun line =>
        [App.normalizedImportText line].filter RoomList.begins := by
  have hflat : ∀ ls : List Text, (ls.map App.normalizedImportText).filter RoomList.begins =
      ls.flatMap fun line => [App.normalizedImportText line].filter RoomList.begins := by
    intro ls
    rw [List.map_eq_flatMap, List.filter_flatMap]
  have hnonempty : ((App.lines body).map App.normalizedImportText).filter RoomList.begins =
      (((App.lines body).filter (!·.isEmpty)).map
        App.normalizedImportText).filter RoomList.begins := by
    rw [List.filter_map, List.filter_map, List.filter_filter]
    refine congrArg _ (List.filter_congr fun line _ => ?_)
    cases line with
    | nil => rfl
    | cons c line => exact (Bool.and_true _).symm
  have hblank : (importLines body).filter RoomList.begins =
      ((App.lines body).map App.normalizedImportText).filter RoomList.begins := by
    rw [importLines, List.filter_filter]
    refine List.filter_congr fun line _ => ?_
    cases hline : RoomList.begins line with
    | false => rfl
    | true => rw [not_isBlank_of_begins hline]; rfl
  rw [hblank, hnonempty, filter_lines, hflat]

/-- **The two read the same locations and headers.** -/
theorem filter_bodyLines {body : Text} (h : ReadAlike body) :
    (RoomList.bodyLines body).filter RoomList.begins =
      (importLines body).filter RoomList.begins := by
  have hbreak : ∀ c, isBreak c = true → isNewline c = true := by
    intro c hc
    rw [isBreak_iff] at hc
    simp only [isNewline, Bool.or_eq_true, Bool.and_eq_true, decide_eq_true_eq]
    omega
  rw [RoomList.bodyLines, parts_eq_flatMap hbreak, List.map_flatMap, List.filter_flatMap,
    filter_importLines]
  refine List.flatMap_congr fun line hline => ?_
  rcases h line hline with hpassed | halike
  · rw [List.filter_singleton, hpassed.whole]
    refine List.filter_eq_nil_iff.mpr fun trimmed htrimmed => ?_
    obtain ⟨piece, hpiece, rfl⟩ := List.mem_map.mp htrimmed
    rw [hpassed.pieces piece hpiece]
    exact Bool.false_ne_true
  · -- Swift breaks the line nowhere
    have hone : parts isNewline line = [line] := by
      have hsplit : line.splitOnP isNewline = [line] := List.splitOnP_eq_singleton fun c hc => by
        rw [isNewline_eq_isBreak (halike.plain c hc), halike.unbroken c hc]
      rw [parts, hsplit, List.filter_singleton, (List.mem_filter.mp hline).2]
      rfl
    rw [hone, List.map_singleton, halike.trim, halike.normalizedImportText]

theorem ReadAlike.importLine {body line : Text} (h : ReadAlike body)
    (hline : line ∈ importLines body) (hbegins : RoomList.begins line = true) : AlikeLine line := by
  have hmem : line ∈ (importLines body).filter RoomList.begins :=
    List.mem_filter.mpr ⟨hline, hbegins⟩
  rw [filter_importLines, List.mem_flatMap] at hmem
  obtain ⟨line₀, hline₀, hmem⟩ := hmem
  obtain rfl : line = App.normalizedImportText line₀ :=
    List.mem_singleton.mp (List.mem_filter.mp hmem).1
  rcases h line₀ hline₀ with hpassed | halike
  · rw [hpassed.whole] at hbegins
    cases hbegins
  · exact halike.part (App.infix_normalizedImportText line₀)

/-! ### A line of a location -/

/-- What is relied on of Swift's strings: only the empty one is empty in lower case or equal
to it, and the name of the header is recognised in every case. -/
structure SwiftLaws : Prop where
  lowercased_eq_nil : ∀ t : Text, SwiftText.lowercased t = [] ↔ t = []
  canonical_eq_nil : ∀ t : Text, SwiftText.canonical t = SwiftText.canonical [] → t = []
  lowercased_rooms : ∀ t : Text,
    SwiftText.canonical (SwiftText.lowercased t) = SwiftText.canonical (txt "rooms") ↔
      App.lowercase t = txt "rooms"

theorem AlikeLine.hasPrefix_uri {line : Text} (h : AlikeLine line) :
    Phone.hasPrefix line RoomList.uriPrefix = App.startsWith line App.olcrtcUriPrefix :=
  hasPrefix_eq h.unglued (m := '/') rfl (by decide)

theorem AlikeLine.hasPrefix_header {line : Text} (h : AlikeLine line) :
    Phone.hasPrefix line (txt "##") = App.startsWith line (txt "##") :=
  hasPrefix_eq h.unglued (m := '#') rfl (by decide)

/-- The carrier of a line is not empty. -/
theorem normalizedCarrier_nil (laws : SwiftLaws) : RoomList.normalizedCarrier [] = [] := by
  have hlower : SwiftText.lowercased (trimBy whitespacesAndNewlines []) = [] :=
    (laws.lowercased_eq_nil _).mpr rfl
  have hnone : ∀ names : List Text, names.all (!·.isEmpty) = true →
      names.any (same []) = false := by
    intro names hnames
    refine List.any_eq_false.mpr fun name hname hsame => ?_
    have hne := List.all_eq_true.mp hnames name hname
    rw [laws.canonical_eq_nil name (beq_iff_eq.mp hsame).symm] at hne
    cases hne
  unfold RoomList.normalizedCarrier
  dsimp only
  rw [hlower, hnone _ (by decide), hnone _ (by decide), hnone _ (by decide), hnone _ (by decide),
    hnone _ (by decide), hnone _ (by decide)]
  rfl

/-- Both cut a part of a line at the same place, and what is after it is such a part. -/
theorem AlikeLine.cut {t a b : Text} {m : Char} (h : AlikeLine t) (hm : isMark m = true)
    (hcut : cutCharacter (· == m) none t = some (a, b)) :
    App.cut m t = some (a, b) ∧ AlikeLine a ∧ AlikeLine b := by
  rw [cutCharacter_mark hm h.unglued] at hcut
  obtain ⟨rfl, -⟩ := cutFirst_eq_some_iff.mp hcut
  exact ⟨(App.cut_eq_cutFirst m _).trans hcut, h.part (List.prefix_append _ _).isInfix,
    h.part ((List.suffix_cons _ _).trans (List.suffix_append _ _)).isInfix⟩

section Reading

variable [App.JsonReader]

omit [App.JsonReader] in
/-- No part of a line it accepts is empty. -/
theorem fields_ne_nil {line : Text} {f : RoomList.Fields} (hf : RoomList.fields line = some f) :
    f.carrier ≠ [] ∧ f.room ≠ [] ∧ f.key ≠ [] := by
  simp only [RoomList.fields, Option.bind_eq_bind, Option.bind_eq_some_iff] at hf
  obtain ⟨_, -, _, -, _, -, hf⟩ := hf
  split at hf
  · cases hf
  · rename_i hne
    cases hf
    rw [not_or, not_or] at hne
    exact hne

/-- **A line the tunnel accepts the app accepts**, and reads the same room off it. -/
theorem parseOlcRtcUri_of_fields (laws : SwiftLaws) {line : Text} (h : AlikeLine line)
    (hstart : App.startsWith line App.olcrtcUriPrefix = true) {f : RoomList.Fields}
    (hf : RoomList.fields line = some f) :
    ∃ p, App.parseOlcRtcUri line = some p ∧ p.location.id = f.room := by
  have hpayload : App.removePrefix line App.olcrtcUriPrefix =
      line.drop RoomList.uriPrefix.length := by
    rw [App.removePrefix, if_pos hstart]
    rfl
  simp only [RoomList.fields, Option.bind_eq_bind, Option.bind_eq_some_iff] at hf
  obtain ⟨⟨provider, rest₁⟩, hcut₁, ⟨token, rest₂⟩, hcut₂, ⟨room, rest⟩, hcut₃, hf⟩ := hf
  obtain ⟨happ₁, hprovider, hrest₁⟩ := (h.part (List.drop_suffix _ _).isInfix).cut rfl hcut₁
  obtain ⟨happ₂, -, hrest₂⟩ := hrest₁.cut rfl hcut₂
  obtain ⟨happ₃, hroom, hrest⟩ := hrest₂.cut rfl hcut₃
  have hkey : ((cutCharacter (fun c => c == '%' || c == '$') none rest).map Prod.fst).getD rest =
      rest.takeWhile fun c => c != '%' && c != '$' := by
    have hmarks : ∀ c, (c == '%' || c == '$') = true → isMark c = true := by
      intro c hc
      rcases (Bool.or_eq_true ..).mp hc with hc | hc <;> rw [beq_iff_eq.mp hc] <;> rfl
    rw [cutCharacter_eq hmarks (b := none) hrest.unglued, getD_cutWhere]
    simp only [Bool.not_or]
    rfl
  rw [hkey] at hf
  split at hf
  · cases hf
  · rename_i hne
    rw [not_or, not_or] at hne
    obtain ⟨hcarrierNe, hroomNe, hkeyNe⟩ := hne
    cases hf
    have hproviderNe : provider ≠ [] := by
      rintro rfl
      exact hcarrierNe (normalizedCarrier_nil laws)
    rw [hroom.trim] at hroomNe
    rw [(hrest.part (List.takeWhile_prefix _).isInfix).trim] at hkeyNe
    have hblank : ∀ t : Text, App.trim t ≠ [] → App.isBlank (App.trim (App.trim t)) = false := by
      intro t ht
      rw [Bool.eq_false_iff, App.isBlank_trim, Ne, App.isBlank_trim_iff]
      exact ht
    unfold App.parseOlcRtcUri
    rw [hpayload, happ₁]
    simp only [Option.bind_eq_bind, Option.bind_some, if_neg hproviderNe, happ₂, happ₃]
    unfold App.olcRtcUriOf
    dsimp only
    rw [if_pos]
    · refine ⟨_, rfl, ?_⟩
      show App.trim (App.trim room) = _
      rw [App.trim_trim, hroom.trim]
    · show (!App.isBlank (App.trim (App.trim room)) && !App.isBlank (App.trim (App.trim
        (rest.takeWhile fun c => c != '%' && c != '$')))) = true
      rw [hblank _ hroomNe, hblank _ hkeyNe]
      rfl

/-! ### A header -/

/-- The value of a line the app reads as a `##rooms` header. -/
def roomsField (line : Text) : Option Text :=
  if App.startsWith line (txt "##") then
    ((App.parseSubscriptionField (App.removePrefix line (txt "##"))).filter
      (·.1 = txt "rooms")).map Prod.snd
  else none

/-- No room of a header holds white space; commas, spaces and tabs divide them. -/
def PlainRooms (value : Text) : Prop :=
  ∀ room ∈ App.parseFailoverRooms (some value), ∀ c ∈ room, App.isWhitespace c = false

omit [App.JsonReader] in
theorem parseFailoverRooms_eq {value : Text} (halike : AlikeLine value) (h : PlainRooms value) :
    App.parseFailoverRooms (some value) = parts dividesRooms value := by
  have hspace : ∀ c ∈ value, Phone.isWhitespace c = App.isWhitespace c := by
    intro c hc
    rw [Phone.isWhitespace, isNewline_eq_isBreak (halike.plain c hc), halike.unbroken c hc,
      Bool.or_false, whitespaces_eq (halike.plain c hc) (halike.unbroken c hc)]
  unfold PlainRooms at h
  rw [App.parseFailoverRooms] at h ⊢
  split
  · rename_i hblank
    refine (parts_eq_nil (List.all_eq_true.mpr fun c hc => ?_)).symm
    rw [dividesRooms, hspace c hc, List.all_eq_true.mp hblank c hc, Bool.or_true]
  · rename_i hblank
    rw [if_neg hblank, App.splitAll_eq_splitOnP] at h
    rw [App.splitAll_eq_splitOnP]
    set divides : Char → Bool := fun c => c == ',' || c == ' ' || c == '\t' with hdivides
    have hsub : ∀ c, divides c = true → dividesRooms c = true := by
      intro c hc
      simp only [hdivides, Bool.or_eq_true, beq_iff_eq] at hc
      rcases hc with (rfl | rfl) | rfl <;> rfl
    -- between two of the app's marks the tunnel finds the trimmed room
    have hpart : ∀ part ∈ value.splitOnP divides,
        parts dividesRooms part = [App.trim part].filter (!·.isEmpty) := by
      intro part hpart
      have hsame : ∀ c ∈ part, dividesRooms c = App.isWhitespace c := by
        intro c hc
        obtain ⟨hmem, hnot⟩ := mem_of_mem_splitOnP hpart c hc
        simp only [hdivides, Bool.or_eq_false_iff] at hnot
        rw [dividesRooms, hnot.1.1, Bool.false_or, hspace c hmem]
      rw [parts, splitOnP_congr hsame, ← parts]
      refine parts_eq_trimBy fun c hc => h _ (List.mem_filter.mpr
        ⟨List.mem_map_of_mem hpart, decide_eq_true fun hnil => ?_⟩) c hc
      rw [App.trim] at hnil
      rw [hnil] at hc
      cases hc
    have hparts : parts dividesRooms value =
        (value.splitOnP divides).flatMap (parts dividesRooms) := by
      rw [parts, splitOnP_eq_flatMap hsub, List.filter_flatMap]
      rfl
    rw [hparts, List.flatMap_congr hpart, ← List.filter_flatMap, ← List.map_eq_flatMap]
    refine List.filter_congr fun part _ => ?_
    cases part <;> simp

omit [App.JsonReader] in
/-- **The two read the same rooms off a header.** -/
theorem headerRooms_eq (laws : SwiftLaws) {line : Text} (h : AlikeLine line)
    (hrooms : ∀ value, roomsField line = some value → PlainRooms value) :
    RoomList.headerRooms line = ((roomsField line).map fun value =>
      App.parseFailoverRooms (some value)).getD [] := by
  unfold RoomList.headerRooms
  rw [h.hasPrefix_header]
  cases hstart : App.startsWith line (txt "##") with
  | false =>
      rw [roomsField, hstart]
      rfl
  | true =>
      have hfield : App.removePrefix line (txt "##") = line.drop 2 := by
        rw [App.removePrefix, if_pos hstart]
        rfl
      have hdrop : AlikeLine (line.drop 2) := h.part (List.drop_suffix _ _).isInfix
      rw [if_pos rfl]
      cases hcut : cutCharacter (· == ':') none (line.drop 2) with
      | none =>
          have happ : App.cut ':' (line.drop 2) = none := by
            rw [App.cut_eq_cutFirst, ← cutCharacter_mark rfl hdrop.unglued, hcut]
          rw [roomsField, if_pos hstart, hfield]
          simp [RoomList.roomsHeader, hcut, App.parseSubscriptionField, happ]
      | some found =>
          obtain ⟨name, value⟩ := found
          obtain ⟨happ, hname, hvalue⟩ := hdrop.cut rfl hcut
          have hsays : same (SwiftText.lowercased (trimBy whitespaces name)) (txt "rooms") = true ↔
              App.lowercase (App.trim name) = txt "rooms" := by
            rw [same, beq_iff_eq, laws.lowercased_rooms, hname.trim]
          have hheader : RoomList.roomsHeader line =
              if App.lowercase (App.trim name) = txt "rooms" then some value else none := by
            simp only [RoomList.roomsHeader, hcut, Option.bind_eq_bind, Option.bind_some, hsays]
          have hroomsField : roomsField line =
              if App.lowercase (App.trim name) = txt "rooms" then some (App.trim value)
              else none := by
            rw [roomsField, if_pos hstart, hfield]
            simp only [App.parseSubscriptionField, happ, Option.bind_eq_bind, Option.bind_some]
            by_cases hempty : name = []
            · subst hempty
              rfl
            · rw [if_neg hempty]
              by_cases hrooms' : App.lowercase (App.trim name) = txt "rooms" <;>
                simp [pure, Option.filter, hrooms']
          rw [hheader, hroomsField]
          split
          · rename_i hrooms'
            rw [hroomsField, if_pos hrooms'] at hrooms
            have hplain := hrooms _ rfl
            have htrimmed : AlikeLine (App.trim value) := hvalue.part (App.infix_of_trim value)
            have hnewline : ∀ c ∈ value, isNewline c = false := fun c hc => by
              rw [isNewline_eq_isBreak (hvalue.plain c hc), hvalue.unbroken c hc]
            rw [Option.map_some, Option.map_some, Option.getD_some, Option.getD_some,
              RoomList.splitRooms_eq hnewline hvalue.unglued, parseFailoverRooms_eq htrimmed hplain,
              ← hvalue.trim]
            refine (parts_trimBy fun c _ hc => ?_).symm
            rw [dividesRooms, Phone.isWhitespace, hc, Bool.true_or, Bool.or_true]
          · rfl

/-! ### What the app reads below a line -/

/-- The app makes a location of the line. -/
def accepts (line : Text) : Bool :=
  App.startsWith line App.olcrtcUriPrefix && (App.parseOlcRtcUri line).isSome

/-- The field of a line that begins with `##`. -/
def localField (line : Text) : Option (Text × Text) :=
  if App.startsWith line (txt "##") then
    App.parseSubscriptionField (App.removePrefix line (txt "##"))
  else none

omit [SwiftText] in
/-- A line that is no location gives its field to the last one. -/
theorem read_field {s : App.OlcRtcLines} {p : App.ParsedOlcRtcUri} {fields : List (Text × Text)}
    {older : List (App.ParsedOlcRtcUri × List (Text × Text))}
    (hs : s.locations = (p, fields) :: older) {line : Text} (hline : accepts line = false) :
    (s.read line).locations = (p, fields ++ (localField line).toList) :: older := by
  unfold App.OlcRtcLines.read
  cases hstart : App.startsWith line App.olcrtcUriPrefix with
  | true =>
      have hrefused : App.parseOlcRtcUri line = none := by
        rw [accepts, hstart, Bool.true_and, Option.isSome_eq_false_iff, Option.isNone_iff_eq_none]
          at hline
        exact hline
      have hheader : App.startsWith line (txt "##") = false := by
        obtain ⟨rest, rfl⟩ := List.isPrefixOf_iff_prefix.mp hstart
        rfl
      rw [if_pos rfl, hrefused, localField, hheader]
      simpa using hs
  | false =>
      rw [if_neg Bool.false_ne_true]
      cases hheader : App.startsWith line (txt "##") with
      | true =>
          have hmark : App.startsWith line (txt "#") = true := by
            obtain ⟨rest, rfl⟩ := List.isPrefixOf_iff_prefix.mp hheader
            rfl
          rw [if_pos hmark, hs, localField, if_pos hheader]
          cases App.parseSubscriptionField (App.removePrefix line (txt "##")) with
          | none => simpa using hs
          | some field => rfl
      | false =>
          have hkept : s.locations = (p, fields ++ (localField line).toList) :: older := by
            rw [localField, hheader]
            simpa using hs
          split
          · cases App.parseSubscriptionField (App.removePrefix line (txt "#")) with
            | none => exact hkept
            | some field => exact hkept
          · exact hkept

omit [SwiftText] in
theorem read_location {s : App.OlcRtcLines} {line : Text} (hline : accepts line = true) :
    ∃ p, App.parseOlcRtcUri line = some p ∧ (s.read line).locations = (p, []) :: s.locations := by
  rw [accepts, Bool.and_eq_true] at hline
  obtain ⟨p, hp⟩ := Option.isSome_iff_exists.mp hline.2
  refine ⟨p, hp, ?_⟩
  rw [App.OlcRtcLines.read, if_pos hline.1, hp]

omit [SwiftText] in
/-- What is below the last location stays. -/
theorem foldl_read_older {s : App.OlcRtcLines} {p : App.ParsedOlcRtcUri}
    {fields : List (Text × Text)} {older : List (App.ParsedOlcRtcUri × List (Text × Text))}
    (hs : s.locations = (p, fields) :: older) (ls : List Text) :
    ∃ newer, (ls.foldl App.OlcRtcLines.read s).locations = newer ++ older := by
  induction ls generalizing s p fields older with
  | nil => exact ⟨[(p, fields)], hs⟩
  | cons line ls ih =>
      rw [List.foldl_cons]
      cases hline : accepts line with
      | false => exact ih (read_field hs hline)
      | true =>
          obtain ⟨p', -, hread⟩ := read_location (s := s) hline
          obtain ⟨newer, hnewer⟩ := ih hread
          exact ⟨newer ++ [(p, fields)], by rw [hnewer, hs, List.append_assoc]; rfl⟩

omit [SwiftText] in
/-- **The fields of a location** are those below its line, up to the next the app accepts. -/
theorem foldl_read_fields {s : App.OlcRtcLines} {p : App.ParsedOlcRtcUri}
    {fields : List (Text × Text)} {older : List (App.ParsedOlcRtcUri × List (Text × Text))}
    (hs : s.locations = (p, fields) :: older) (ls : List Text) :
    ∃ newer, (ls.foldl App.OlcRtcLines.read s).locations =
      newer ++ (p, fields ++ (ls.takeWhile (!accepts ·)).filterMap localField) :: older := by
  induction ls generalizing s fields with
  | nil => exact ⟨[], by simpa using hs⟩
  | cons line ls ih =>
      rw [List.foldl_cons, List.takeWhile_cons]
      cases hline : accepts line with
      | true =>
          obtain ⟨p', -, hread⟩ := read_location (s := s) hline
          obtain ⟨newer, hnewer⟩ := foldl_read_older hread ls
          refine ⟨newer, ?_⟩
          rw [hnewer, hs]
          simp
      | false =>
          obtain ⟨newer, hnewer⟩ := ih (read_field hs hline)
          refine ⟨newer, ?_⟩
          rw [hnewer, Bool.not_false, if_pos rfl, List.filterMap_cons]
          cases localField line <;> simp

omit [SwiftText] [App.JsonReader] in
/-- The last `##rooms` of the fields. -/
theorem lastValue_rooms (ls : List Text) :
    App.lastValue (ls.filterMap localField) (txt "rooms") = (ls.filterMap roomsField).getLast? := by
  have hfield : ∀ line, roomsField line =
      ((localField line).filter (·.1 = txt "rooms")).map Prod.snd := by
    intro line
    unfold roomsField localField
    split <;> rfl
  have hrooms : ls.filterMap roomsField =
      ((ls.filterMap localField).filter (·.1 = txt "rooms")).map Prod.snd := by
    rw [List.filter_filterMap, List.map_filterMap]
    exact List.filterMap_congr fun line _ => hfield line
  rw [hrooms, List.getLast?_map, App.lastValue, ← List.head?_filter, List.filter_reverse,
    List.head?_reverse]

/-! ### The rooms of an entry -/

omit [SwiftText] [App.JsonReader] in
theorem failoverRooms_stored (c : App.LocationConfig) :
    c.stored.failoverRooms = c.failoverRooms := by
  unfold App.LocationConfig.stored
  split <;> rfl

omit [SwiftText] [App.JsonReader] in
/-- The rooms of a location whose rooms are trimmed: its own, then the others without it. -/
theorem failoverRooms_normalized {c : App.LocationConfig} (hid : App.isBlank c.id = false)
    (hrooms : ∀ room ∈ c.failoverRoomIds, App.trim room = room ∧ App.isBlank room = false) :
    c.normalized.failoverRooms = distinct (App.trim c.id :: c.failoverRoomIds) := by
  have hmap : c.failoverRoomIds.map App.trim = c.failoverRoomIds :=
    (List.map_congr_left fun room hroom => (hrooms room hroom).1).trans (List.map_id' _)
  have hfilter : c.failoverRoomIds.filter
      (fun room => !App.isBlank room && decide (room ≠ App.trim c.id)) =
      c.failoverRoomIds.filter (· ≠ App.trim c.id) := by
    refine List.filter_congr fun room hroom => ?_
    rw [(hrooms room hroom).2, Bool.not_false, Bool.true_and]
  set others := distinct (c.failoverRoomIds.filter (· ≠ App.trim c.id)) with hothers
  have hsub : ∀ room ∈ others, App.trim room = room ∧ App.isBlank room = false := fun room hroom =>
    hrooms room (List.mem_filter.mp ((distinctBy_sublist _).subset hroom)).1
  have hids : c.normalized.failoverRoomIds = others := by
    simp only [App.LocationConfig.normalized, hmap, hfilter, hothers]
  have hall : ((App.trim c.id :: others).map App.trim).filter (!App.isBlank ·) =
      App.trim c.id :: others := by
    have htrim : (App.trim c.id :: others).map App.trim = App.trim c.id :: others := by
      rw [List.map_cons, App.trim_trim]
      exact congrArg (_ :: ·)
        ((List.map_congr_left fun room hroom => (hsub room hroom).1).trans (List.map_id' _))
    rw [htrim, List.filter_eq_self]
    intro room hroom
    rcases List.mem_cons.mp hroom with rfl | hroom
    · rw [App.isBlank_trim, hid]
      rfl
    · rw [(hsub room hroom).2]
      rfl
  rw [App.LocationConfig.failoverRooms, hids, show c.normalized.id = App.trim c.id from rfl, hall]
  exact distinct_cons_distinct _ _

omit [SwiftText] [App.JsonReader] in
theorem trimmed_of_mem_parseFailoverRooms {value : Option Text} {room : Text}
    (h : room ∈ App.parseFailoverRooms value) :
    App.trim room = room ∧ App.isBlank room = false := by
  cases value with
  | none => cases h
  | some value =>
      rw [App.parseFailoverRooms] at h
      split at h
      · cases h
      · obtain ⟨hmem, hne⟩ := List.mem_filter.mp h
        obtain ⟨part, -, rfl⟩ := List.mem_map.mp hmem
        refine ⟨App.trim_trim part, ?_⟩
        rw [Bool.eq_false_iff, Ne, App.isBlank_trim_iff]
        exact of_decide_eq_true hne

omit [SwiftText] in
/-- **The rooms of the entries of a body**, in the order of their lines. -/
theorem parseOlcRtcText_failoverRooms (text : Text) (url : Option Text) (hours : Option Int)
    (hcontains : App.contains text App.olcrtcUriPrefix = true) :
    (App.entriesIn (App.parseOlcRtcText text url hours)).map (·.location.failoverRooms) =
      (App.readOlcRtcLines text).locations.reverse.map fun p =>
        distinct (p.1.location.id :: App.parseFailoverRooms (App.lastValue p.2 (txt "rooms"))) := by
  have hrooms : (App.readOlcRtcLines text).locations.reverse.map Prod.fst = App.roomUris text :=
    App.readOlcRtcLines_rooms text
  unfold App.parseOlcRtcText
  rw [hcontains]
  simp only [Bool.not_true, Bool.false_eq_true, if_false, App.entriesIn_bundleOf]
  refine (map_zipWith_left (k := fun p : App.LocationConfig × Option App.LocationMetadata =>
    p.1.normalized.failoverRooms) (by simp) fun p _ id => ?_).trans ?_
  · rw [App.LocationEntry.location_fromLocation, failoverRooms_stored]
  · rw [List.map_map]
    refine List.map_congr_left fun p hp => ?_
    obtain ⟨line, hline⟩ := App.mem_roomUris (hrooms ▸ List.mem_map_of_mem hp)
    obtain ⟨hnorm, hkind, hcomplete⟩ := App.parseOlcRtcUri_spec hline
    have hid : App.trim p.1.location.id = p.1.location.id := congrArg App.LocationConfig.id hnorm
    have hblank : App.isBlank p.1.location.id = false := by
      rw [App.LocationConfig.isComplete, hkind] at hcomplete
      simpa using ((Bool.and_eq_true ..).mp hcomplete).1
    show (App.LocationConfig.normalized (App.LocationConfig.normalized _)).failoverRooms = _
    rw [App.LocationConfig.normalized_normalized]
    refine (failoverRooms_normalized (c := { p.1.location with
      name := _, failoverRoomIds := App.parseFailoverRooms (App.lastValue p.2 (txt "rooms")) })
      hblank fun room => trimmed_of_mem_parseFailoverRooms).trans ?_
    dsimp only
    rw [hid]

/-! ### The two together -/

/-- The lines right below a line, up to the next that begins like a location. -/
def rightBelow (after : List Text) : List Text :=
  after.takeWhile (!App.startsWith · App.olcrtcUriPrefix)

/-- The lines the app counts to a line, up to the next it accepts. -/
def counted (after : List Text) : List Text := after.takeWhile (!accepts ·)

/-- The headers right below a line. -/
def headers (after : List Text) : List Text := (rightBelow after).filterMap roomsField

/-- The headers the app counts to a line below another that begins like a location and is none. -/
def strays (after : List Text) : List Text :=
  ((counted after).drop (rightBelow after).length).filterMap roomsField

/-- The rooms the headers right below a line name, one header after another. -/
def named (after : List Text) : List Text :=
  (headers after).flatMap fun value => App.parseFailoverRooms (some value)

/-- What a line's headers are asked for. -/
structure HeadersAgree (room : Text) (after : List Text) : Prop where
  /-- Of several headers right below, those above the last name what the last one begins with. -/
  repeated : strays after = [] → ∀ earlier value, headers after = earlier ++ [value] →
    distinct (room :: earlier.flatMap fun value => App.parseFailoverRooms (some value)) <+:
      distinct (room :: App.parseFailoverRooms (some value))
  /-- The last one below a line that is refused names the rooms of those right below. -/
  stray : ∀ value, (strays after).getLast? = some value →
    distinct (room :: App.parseFailoverRooms (some value)) = distinct (room :: named after)

/-- How the rooms in the headers are spelled. -/
structure PlainHeaders (room : Text) (after : List Text) : Prop where
  plain : ∀ value ∈ headers after, PlainRooms value
  /-- No room is another one spelled differently. -/
  spelled : ∀ a ∈ room :: named after, ∀ b ∈ room :: named after,
    SwiftText.canonical a = SwiftText.canonical b → a = b

omit [SwiftText] in
theorem counted_eq_append (after : List Text) :
    counted after = rightBelow after ++ (counted after).drop (rightBelow after).length := by
  have hprefix : rightBelow after <+: counted after := by
    induction after with
    | nil => exact List.prefix_rfl
    | cons line after ih =>
        unfold rightBelow counted at ih ⊢
        rw [List.takeWhile_cons, List.takeWhile_cons, accepts]
        cases App.startsWith line App.olcrtcUriPrefix with
        | true => exact List.nil_prefix
        | false => exact (List.prefix_cons_inj line).mpr ih
  obtain ⟨rest, hrest⟩ := hprefix
  rw [← hrest, List.drop_left]

omit [SwiftText] in
theorem filterMap_counted (after : List Text) :
    (counted after).filterMap roomsField = headers after ++ strays after := by
  rw [counted_eq_append, List.filterMap_append]
  rfl

omit [SwiftText] in
/-- **The headers agree** where those right below name the rooms of the last one counted. -/
theorem headersAgree_iff (room : Text) (after : List Text) :
    HeadersAgree room after ↔ distinct (room :: named after) = distinct (room ::
      App.parseFailoverRooms ((counted after).filterMap roomsField).getLast?) := by
  rw [filterMap_counted]
  rcases List.eq_nil_or_concat (strays after) with hstrays | ⟨above, value, hstrays⟩
  · rw [hstrays, List.append_nil]
    rcases List.eq_nil_or_concat (headers after) with hheaders | ⟨earlier, value, hheaders⟩
    · have hnamed : named after = [] := by rw [named, hheaders]; rfl
      rw [hheaders, hnamed]
      refine ⟨fun _ => rfl, fun _ => ⟨fun _ earlier value heq => ?_, fun value hvalue => ?_⟩⟩
      · rw [hheaders] at heq
        exact absurd heq.symm (List.append_ne_nil_of_right_ne_nil _ (List.cons_ne_nil _ _))
      · rw [hstrays] at hvalue
        cases hvalue
    · rw [List.concat_eq_append] at hheaders
      have hnamed : named after =
          (earlier.flatMap fun value => App.parseFailoverRooms (some value)) ++
          App.parseFailoverRooms (some value) := by
        rw [named, hheaders, List.flatMap_append, List.flatMap_singleton]
      rw [hheaders, hnamed, List.getLast?_concat, distinct_between_iff]
      constructor
      · intro h
        exact h.repeated hstrays earlier value hheaders
      · intro h
        refine ⟨fun _ earlier' value' heq => ?_, fun value' hvalue => ?_⟩
        · obtain ⟨rfl, hsame⟩ := List.append_inj' (hheaders.symm.trans heq) rfl
          cases hsame
          exact h
        · rw [hstrays] at hvalue
          cases hvalue
  · rw [List.concat_eq_append] at hstrays
    have hlast : (strays after).getLast? = some value := by rw [hstrays, List.getLast?_concat]
    rw [List.getLast?_append, hlast, Option.some_or]
    constructor
    · intro h
      exact (h.stray value hlast).symm
    · intro h
      refine ⟨fun hnone => ?_, fun value' hvalue => ?_⟩
      · rw [hnone] at hlast
        cases hlast
      · rw [hlast] at hvalue
        cases hvalue
        exact h.symm

omit [App.JsonReader] in
/-- The tunnel reads the headers right below a line. -/
theorem PlainHeaders.headerRooms {room : Text} {after : List Text} (h : PlainHeaders room after)
    (laws : SwiftLaws) (halike : ∀ line ∈ after, RoomList.begins line = true → AlikeLine line) :
    ((after.filter RoomList.begins).takeWhile (!Phone.hasPrefix · RoomList.uriPrefix)).flatMap
      RoomList.headerRooms = named after := by
  have heach : ∀ ls : List Text, (∀ line ∈ ls, RoomList.begins line = true → AlikeLine line) →
      (∀ value ∈ headers ls, PlainRooms value) →
      ((ls.filter RoomList.begins).takeWhile (!Phone.hasPrefix · RoomList.uriPrefix)).flatMap
        RoomList.headerRooms = named ls := by
    intro ls halike hplain
    induction ls with
    | nil => rfl
    | cons line ls ih =>
        have hrest := ih (fun l hl => halike l (List.mem_cons_of_mem line hl))
        unfold headers rightBelow at hplain
        unfold named headers rightBelow at hrest ⊢
        rw [List.takeWhile_cons] at hplain ⊢
        cases hbegins : RoomList.begins line with
        | false =>
            -- it is no location and no header to either
            rw [RoomList.begins, Bool.or_eq_false_iff] at hbegins
            have hstart : App.startsWith line App.olcrtcUriPrefix = false := hbegins.1
            have hfield : roomsField line = none := by
              rw [roomsField, App.startsWith, hbegins.2]
              rfl
            rw [hstart, Bool.not_false, if_pos rfl, List.filterMap_cons, hfield] at hplain ⊢
            rw [List.filter_cons_of_neg (by rw [RoomList.begins, hbegins.1, hbegins.2]; decide)]
            exact hrest hplain
        | true =>
            have hline := halike line (List.mem_cons_self ..) hbegins
            rw [List.filter_cons_of_pos hbegins, List.takeWhile_cons, hline.hasPrefix_uri]
            cases hstart : App.startsWith line App.olcrtcUriPrefix with
            | true => rfl
            | false =>
                rw [hstart, Bool.not_false, if_pos rfl, List.filterMap_cons] at hplain
                rw [Bool.not_false, if_pos rfl, if_pos rfl, List.flatMap_cons, List.filterMap_cons]
                have hrooms := headerRooms_eq laws hline fun value hvalue => hplain value (by
                  rw [hvalue]
                  exact List.mem_cons_self ..)
                cases hvalue : roomsField line with
                | none =>
                    rw [hvalue] at hplain hrooms
                    rw [hrooms, hrest hplain]
                    rfl
                | some value =>
                    rw [hvalue] at hplain hrooms
                    rw [hrooms, hrest fun v hv => hplain v (List.mem_cons_of_mem value hv)]
                    rfl
  exact heach after halike h.plain

omit [SwiftText] [App.JsonReader] in
theorem infix_of_mem_importLines {body line : Text} (h : line ∈ importLines body) :
    line <:+: body := by
  obtain ⟨line₀, hline₀, hnormal⟩ := List.mem_map.mp (List.mem_filter.mp h).1
  rw [← hnormal]
  exact (App.infix_normalizedImportText line₀).trans (App.infix_of_mem_lines hline₀)

omit [App.JsonReader] in
theorem begins_of_ours {key carrier line : Text} {f : RoomList.Fields}
    (h : RoomList.ours key carrier line = some f) : RoomList.begins line = true := by
  unfold RoomList.ours at h
  split at h
  · rename_i hstart
    rw [Phone.hasPrefix, Bool.and_eq_true] at hstart
    rw [RoomList.begins, hstart.1, Bool.true_or]
  · cases h

omit [App.JsonReader] in
/-- A line of the tunnel's own has fields, and they name its carrier and its key. -/
theorem AlikeLine.ours {key carrier line : Text} {f : RoomList.Fields} (h : AlikeLine line)
    (hours : RoomList.ours key carrier line = some f) :
    App.startsWith line App.olcrtcUriPrefix = true ∧ RoomList.fields line = some f ∧
      RoomList.isOurs key carrier f = true := by
  unfold RoomList.ours at hours
  split at hours
  · rename_i hstart
    exact ⟨h.hasPrefix_uri ▸ hstart, Option.filter_eq_some_iff.mp hours⟩
  · cases hours

/-- What the tunnel takes for its own the app accepts, with the same room. -/
theorem AlikeLine.accepts (laws : SwiftLaws) {key carrier line : Text} {f : RoomList.Fields}
    (h : AlikeLine line) (hours : RoomList.ours key carrier line = some f) :
    Across.accepts line = true ∧
      ∃ p, App.parseOlcRtcUri line = some p ∧ p.location.id = f.room := by
  obtain ⟨hstart, hf, -⟩ := h.ours hours
  obtain ⟨p, hp, hid⟩ := parseOlcRtcUri_of_fields laws h hstart hf
  refine ⟨?_, p, hp, hid⟩
  rw [Across.accepts, hstart, hp]
  rfl

omit [SwiftText] in
/-- **The rooms the app keeps of a line** it accepts: the line's own, then those of the last header
counted to it. -/
theorem entry_failoverRooms {body line : Text} {before after : List Text}
    {p : App.ParsedOlcRtcUri} (hlines : importLines body = before ++ line :: after)
    (haccepts : accepts line = true) (hp : App.parseOlcRtcUri line = some p) (url : Option Text)
    (interval : Option Int) :
    ∃ bundle entry, App.parseOlcRtcText body url interval = some bundle ∧
      bundle.locations[(before.filter accepts).length]? = some entry ∧
      entry.location.failoverRooms = distinct (p.location.id ::
        App.parseFailoverRooms ((counted after).filterMap roomsField).getLast?) := by
  have hstart : App.startsWith line App.olcrtcUriPrefix = true :=
    ((Bool.and_eq_true ..).mp haccepts).1
  set older := (before.foldl App.OlcRtcLines.read {}).locations with holder
  -- the line's own fields are those counted to it
  obtain ⟨newer, hread⟩ : ∃ newer, (App.readOlcRtcLines body).locations =
      newer ++ (p, (counted after).filterMap localField) :: older := by
    obtain ⟨p', hp', hhead⟩ := read_location (s := before.foldl App.OlcRtcLines.read {}) haccepts
    rw [hp] at hp'
    cases hp'
    obtain ⟨newer, hnewer⟩ := foldl_read_fields hhead after
    refine ⟨newer, ?_⟩
    rw [show App.readOlcRtcLines body = (importLines body).foldl App.OlcRtcLines.read {} from rfl,
      hlines, List.foldl_append, List.foldl_cons, hnewer, List.nil_append]
    rfl
  have hindex : older.length = (before.filter accepts).length := by
    have hlocations := congrArg List.length (App.foldl_read_locations before {})
    rw [List.length_map, List.length_reverse, List.length_append, List.length_filterMap_eq_countP]
      at hlocations
    rw [holder, hlocations, ← List.countP_eq_length_filter]
    refine (Nat.zero_add _).trans (List.countP_congr fun l _ => ?_)
    unfold accepts
    cases App.startsWith l App.olcrtcUriPrefix <;> simp
  have hcontains : App.contains body App.olcrtcUriPrefix = true := by
    refine App.contains_of_part ((List.isPrefixOf_iff_prefix.mp hstart).isInfix.trans ?_)
    refine infix_of_mem_importLines ?_
    rw [hlines]
    exact List.mem_append_right before (List.mem_cons_self ..)
  have hentry : ((App.entriesIn (App.parseOlcRtcText body url interval)).map
      (·.location.failoverRooms))[(before.filter accepts).length]? =
      some (distinct (p.location.id ::
        App.parseFailoverRooms ((counted after).filterMap roomsField).getLast?)) := by
    rw [parseOlcRtcText_failoverRooms body url interval hcontains, hread, ← hindex,
      List.reverse_append, List.reverse_cons, List.append_assoc, List.map_append,
      List.getElem?_append_right (by simp)]
    simp only [List.length_map, List.length_reverse, Nat.sub_self, List.singleton_append,
      List.map_cons, List.getElem?_cons_zero]
    rw [lastValue_rooms]
  rw [List.getElem?_map, Option.map_eq_some_iff] at hentry
  obtain ⟨entry, hentry, hfailover⟩ := hentry
  cases hbundle : App.parseOlcRtcText body url interval with
  | none =>
      rw [hbundle] at hentry
      cases hentry
  | some bundle =>
      rw [hbundle] at hentry
      exact ⟨bundle, entry, rfl, hentry, hfailover⟩

omit [App.JsonReader] in
/-- A body with a line of fields is no Base64 to the tunnel. -/
theorem decodeBody_of_fields {body line : Text} {f : RoomList.Fields} (h : AlikeLine line)
    (hstart : App.startsWith line App.olcrtcUriPrefix = true) (hf : RoomList.fields line = some f)
    (hinBody : line <:+: body) : RoomList.decodeBody body = body := by
  obtain ⟨y, payload, hpayload⟩ : ∃ y payload, line = App.olcrtcUriPrefix ++ y :: payload := by
    obtain ⟨payload, rfl⟩ := List.isPrefixOf_iff_prefix.mp hstart
    cases payload with
    | nil =>
        rw [List.append_nil] at hf
        cases hf
    | cons y payload => exact ⟨y, payload, rfl⟩
  have hheld : 'c' :: (txt "://" ++ [y]) <:+: line := by
    have hprefix : App.olcrtcUriPrefix = txt "olcrt" ++ 'c' :: txt "://" := by decide
    refine ⟨txt "olcrt", payload, ?_⟩
    rw [hpayload, hprefix, List.append_assoc, List.append_assoc, List.cons_append,
      List.cons_append, List.append_assoc, List.singleton_append]
  -- neither character beside the mark is drawn into it
  have hbefore : SwiftText.prepends 'c' = false :=
    (h.unglued 'c' ':' (List.IsInfix.trans ⟨[], '/' :: '/' :: [y], rfl⟩ hheld)).2 rfl
  have hafter : SwiftText.combines y = false :=
    (h.unglued '/' y (List.IsInfix.trans ⟨['c', ':', '/'], [], rfl⟩ hheld)).1 rfl
  rw [RoomList.decodeBody, if_pos (containsText_of_between hbefore hafter (by decide)
    (hheld.trans hinBody) none)]

omit [App.JsonReader] in
theorem wanted_ne_nil (laws : SwiftLaws) {keyHex carrier line : Text} {f : RoomList.Fields}
    (hf : RoomList.fields line = some f)
    (hmine : RoomList.isOurs (RoomList.wantedKey keyHex) (RoomList.normalizedCarrier carrier) f =
      true) :
    RoomList.wantedKey keyHex ≠ [] ∧ RoomList.normalizedCarrier carrier ≠ [] := by
  obtain ⟨hsameKey, hsameCarrier⟩ := (Bool.and_eq_true ..).mp hmine
  constructor
  · intro hnil
    rw [hnil] at hsameKey
    exact (fields_ne_nil hf).2.2
      ((laws.lowercased_eq_nil _).mp (laws.canonical_eq_nil _ (beq_iff_eq.mp hsameKey)))
  · intro hnil
    rw [hnil] at hsameCarrier
    exact (fields_ne_nil hf).1 (laws.canonical_eq_nil _ (beq_iff_eq.mp hsameCarrier))

end Reading

end

/-! ### A header below its own line, and one below a line that is refused -/

section

/-- Swift's strings on ASCII text. -/
@[reducible] def asciiText : SwiftText where
  combines _ := false
  prepends _ := false
  canonical t := t
  lowercased := App.lowercase
  base64Decoded _ := none

attribute [local instance] asciiText App.Build.plain

theorem asciiText_laws : SwiftLaws where
  lowercased_eq_nil := by
    intro t
    cases t with
    | nil => exact ⟨fun _ => rfl, fun _ => rfl⟩
    | cons c t =>
        refine ⟨fun h => ?_, fun h => by cases h⟩
        have hnil : App.lowercaseChar c = [] := (List.append_eq_nil_iff.mp h).1
        unfold App.lowercaseChar at hnil
        split_ifs at hnil
  canonical_eq_nil := fun t h => h
  lowercased_rooms := fun t => Iff.rfl

def ownLine : Text := txt "olcrtc://telemost?vp8channel@R1#aaaa$Israel"
def otherLine : Text := txt "olcrtc://telemost?vp8channel@R9#bbbb"
def shareLine : Text := txt "vless://x"

/-- The line of a location with two headers, one of another kind between them, and another
location; Swift breaks the comment once more. -/
def groupLines : List Text :=
  [txt "#name: Tel\u0085Aviv", ownLine, txt "##rooms: R2", shareLine, txt "##rooms: R2, R3 R1",
    otherLine, txt "##rooms: R8"]

def groupBody : Text := ['\n'].intercalate groupLines

def ownAfter : List Text :=
  [txt "##rooms: R2", shareLine, txt "##rooms: R2, R3 R1", otherLine, txt "##rooms: R8"]

theorem ownAfter_plainHeaders : PlainHeaders (txt "R1") ownAfter where
  plain := by
    have hall : (headers ownAfter).all (fun value => (App.parseFailoverRooms (some value)).all
        fun room => room.all fun c => !App.isWhitespace c) = true := by decide
    intro value hvalue room hroom c hc
    have hc' := List.all_eq_true.mp (List.all_eq_true.mp
      (List.all_eq_true.mp hall value hvalue) room hroom) c hc
    rwa [Bool.not_eq_true'] at hc'
  spelled := fun _ _ _ _ h => h

theorem ownAfter_headersAgree : HeadersAgree (txt "R1") ownAfter :=
  (headersAgree_iff _ _).mpr (by decide)

theorem groupBody_readAlike : ReadAlike groupBody := by
  have hpassed : PassedOver (txt "#name: Tel\u0085Aviv") := ⟨by decide, by decide⟩
  have hall : (groupLines.drop 1).all (fun line =>
      line.all fun c => !isOdd c && !isBreak c) = true := by decide
  intro line hline
  rw [show parts isBreak groupBody = groupLines by decide] at hline
  rcases List.mem_cons.mp hline with rfl | hline
  · exact .inl hpassed
  · have hplain : ∀ c ∈ line, isOdd c = false ∧ isBreak c = false := fun c hc => by
      simpa using List.all_eq_true.mp (List.all_eq_true.mp hall line hline) c hc
    exact .inr ⟨fun c hc => (hplain c hc).1, fun _ _ _ => ⟨fun _ => rfl, fun _ => rfl⟩,
      fun c hc => (hplain c hc).2⟩

/-- A location, a line that names no room, and a header below it. -/
def refusedBody : Text :=
  ['\n'].intercalate [ownLine, txt "olcrtc://telemost?vp8channel@#aaaa", txt "##rooms: R8"]

end

end Ghostlane.Across
