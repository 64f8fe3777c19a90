import Ghostlane.App.Fetch
import Ghostlane.App.Share
import Ghostlane.Cli.Olcrtc

/-!
# Ghostlane.Across.SharedRooms

The app shares a room as a link (`ConfigShareService.olcRtcUri`) and the command
line reads one (`ParseOlcrtc`). The two agree on where the parts of a link stand.
They do not agree on the options of a transport, which the one writes in brackets
and the other reads after an `&`, nor on whether U+0085 is white space.
-/

namespace Ghostlane.Across

open Ghostlane.Lib

/-! ### White space -/

/-- U+0085: white space to Go, a character of its own to Kotlin. -/
def nextLine : Char := Char.ofNat 0x85

/-- The character is at neither end. -/
def KeepsEnds (t : Text) : Prop := t.head? ≠ some nextLine ∧ t.getLast? ≠ some nextLine

instance (t : Text) : Decidable (KeepsEnds t) := inferInstanceAs (Decidable (_ ∧ _))

theorem isSpace_iff_of_not_isWhitespace {c : Char} (h : App.isWhitespace c = false) :
    Cli.isSpace c = true ↔ c = nextLine := by
  constructor
  · intro hspace
    have hval : c.toNat = 0x85 := by
      simp only [App.isWhitespace, Bool.or_eq_false_iff, Bool.and_eq_false_iff,
        decide_eq_false_iff_not, beq_eq_false_iff_ne] at h
      simp only [Cli.isSpace, Bool.or_eq_true, Bool.and_eq_true, decide_eq_true_eq,
        beq_iff_eq] at hspace
      omega
    rw [← Char.ofNat_toNat c, hval]
    rfl
  · rintro rfl
    rfl

theorem isWhitespace_of_isHexDigit {c : Char} (h : Cli.isHexDigit c = true) :
    App.isWhitespace c = false := by
  have hval := Cli.toNat_of_isHexDigit h
  simp only [App.isWhitespace, Bool.or_eq_false_iff, Bool.and_eq_false_iff, decide_eq_false_iff_not,
    beq_eq_false_iff_ne]
  omega

/-- Go trims what Kotlin has trimmed exactly when that character is at an end. -/
theorem trimSpace_eq_self_iff {t : Text} (h : App.trim t = t) :
    Cli.trimSpace t = t ↔ KeepsEnds t := by
  have hhead : ∀ c, t.head? = some c → App.isWhitespace c = false := by
    intro c hc
    exact head?_trimBy c (h.symm ▸ hc)
  have hlast : ∀ c, t.getLast? = some c → App.isWhitespace c = false := by
    intro c hc
    exact getLast?_trimBy c (h.symm ▸ hc)
  constructor
  · intro hself
    refine ⟨fun hnext => ?_, fun hnext => ?_⟩
    · have hspace : Cli.isSpace nextLine = false := head?_trimBy _ (hself.symm ▸ hnext)
      cases hspace
    · have hspace : Cli.isSpace nextLine = false := getLast?_trimBy _ (hself.symm ▸ hnext)
      cases hspace
  · rintro ⟨hfirst, hend⟩
    refine trimBy_eq_self (fun c hc => ?_) (fun c hc => ?_)
    · rw [← Bool.not_eq_true, isSpace_iff_of_not_isWhitespace (hhead c hc)]
      exact fun heq => hfirst (heq ▸ hc)
    · rw [← Bool.not_eq_true, isSpace_iff_of_not_isWhitespace (hlast c hc)]
      exact fun heq => hend (heq ▸ hc)

/-! ### Names both sides know -/

/-- The carriers of a location. -/
theorem normalizeProvider_mem (value : Text) :
    App.normalizeProvider value ∈ [App.providerTelemost, App.providerWbStream, App.providerJitsi,
      App.providerSaluteJazz, App.providerVkCalls, App.providerMtsLink] := by
  unfold App.normalizeProvider App.defaultBypassProvider
  dsimp only
  split_ifs <;> simp

/-- What the writer and the reader need of a carrier's name. -/
theorem carrier_facts (value rest : Text) :
    Cli.normalizeProvider (App.normalizeProvider value) = some (App.normalizeProvider value) ∧
      '?' ∉ App.normalizeProvider value ∧ App.normalizeProvider value ≠ [] ∧
      Cli.hasPrefix (App.normalizeProvider value ++ '?' :: rest) (txt "crypt1/") = false := by
  have hmem := normalizeProvider_mem value
  simp only [List.mem_cons, List.not_mem_nil, or_false] at hmem
  rcases hmem with h | h | h | h | h | h <;> rw [h] <;>
    exact ⟨by decide, by decide, by decide, rfl⟩

/-- The transports of a location. -/
theorem normalizeTransport_mem (value provider : Text) :
    App.normalizeTransport value provider ∈
      [App.transportDataChannel, App.transportVp8Channel, App.transportSeiChannel] := by
  have hsupported : ∀ t ∈ App.supportedTransportsForProvider provider, t ∈
      [App.transportDataChannel, App.transportVp8Channel, App.transportSeiChannel] := by
    unfold App.supportedTransportsForProvider
    dsimp only
    split_ifs <;> decide
  unfold App.normalizeTransport
  dsimp only
  split_ifs with h
  · exact hsupported _ h
  · cases hlist : App.supportedTransportsForProvider provider with
    | nil => decide
    | cons t ts => exact hsupported t (hlist ▸ List.mem_cons_self ..)

/-- The transport a location has once normalized. -/
def runsOver (c : App.LocationConfig) : Text :=
  App.normalizeTransport c.transport (App.normalizeProvider c.bypassProvider)

theorem transport_normalized (c : App.LocationConfig) : c.normalized.transport = runsOver c := by
  simp only [App.LocationConfig.normalized, runsOver]

/-! ### The link -/

open App.ConfigShareService

/-- What stands after the key. -/
def labelPart (label : Option Text) : Text := label.elim [] ('$' :: ·)

/-- The label a link is given: the name, where it is not the room. -/
def writtenLabel (c : App.LocationConfig) : Option Text :=
  if !App.isBlank c.displayName && c.displayName ≠ c.id then some c.displayName else none

/-- The name a room is shown under is trimmed, and there is one. -/
theorem displayName_normalized {c : App.LocationConfig} (hroom : App.isBlank c.id = false) :
    App.trim c.normalized.displayName = c.normalized.displayName ∧
      App.isBlank c.normalized.displayName = false := by
  rw [show c.normalized.displayName = App.ifBlank (App.trim c.name) (App.trim c.id) from rfl,
    App.ifBlank]
  split
  · exact ⟨App.trim_trim _, by rw [App.isBlank_trim, hroom]⟩
  · rename_i hsays
    exact ⟨App.trim_trim _, by simpa using hsays⟩

theorem olcRtcUri_eq (c : App.LocationConfig) :
    olcRtcUri c = Cli.olcrtcPrefix ++ (c.normalized.bypassProvider ++ '?' ::
      (transportToken c.normalized ++ '@' :: (c.normalized.id ++ '#' ::
        (c.normalized.key ++ labelPart (writtenLabel c.normalized))))) := by
  have hlabel : (if !App.isBlank c.normalized.displayName &&
      c.normalized.displayName ≠ c.normalized.id then '$' :: c.normalized.displayName else []) =
      labelPart (writtenLabel c.normalized) := by
    unfold writtenLabel
    split <;> rfl
  unfold olcRtcUri
  dsimp only
  rw [hlabel]
  simp only [List.append_assoc, List.cons_append]
  rfl

theorem intText_plain (n : Int) : '@' ∉ App.intText n := by
  have hdigits : ∀ m : Nat, '@' ∉ Nat.toDigits 10 m := by
    intro m hmem
    exact absurd (Nat.isDigit_of_mem_toDigits (by decide) (by decide) hmem) (by decide)
  unfold App.intText
  split
  · rw [List.mem_cons, not_or]
    exact ⟨by decide, hdigits _⟩
  · exact hdigits _

/-- Nothing that is written for a transport ends it early. -/
theorem transportToken_free (c : App.LocationConfig) : '@' ∉ transportToken c.normalized := by
  have hmem : c.normalized.transport ∈
      [App.transportDataChannel, App.transportVp8Channel, App.transportSeiChannel] := by
    rw [transport_normalized]
    exact normalizeTransport_mem ..
  unfold transportToken
  split
  · simp only [List.mem_append, not_or]
    exact ⟨⟨⟨⟨by decide, intText_plain _⟩, by decide⟩, intText_plain _⟩, by decide⟩
  · split
    · decide
    · have hfree : ∀ t ∈ [App.transportDataChannel, App.transportVp8Channel,
          App.transportSeiChannel], '@' ∉ t := by decide
      exact hfree _ hmem

/-- Trimming a link trims the end of its label. -/
theorem trimSpace_link {x key : Text} (hkey : Cli.isHex64 key = true) (label : Option Text) :
    Cli.trimSpace (Cli.olcrtcPrefix ++ (x ++ (key ++ labelPart label))) =
      Cli.olcrtcPrefix ++ (x ++ (key ++ labelPart (label.map (·.rdropWhile Cli.isSpace)))) := by
  have hhead : ∀ (t : Text) (c : Char), (Cli.olcrtcPrefix ++ t).head? = some c →
      Cli.isSpace c = false := by
    intro t c hc
    cases hc
    rfl
  cases label with
  | some name =>
      have happend : ∀ name : Text, Cli.olcrtcPrefix ++ (x ++ (key ++ labelPart (some name))) =
          (Cli.olcrtcPrefix ++ (x ++ key)) ++ '$' :: name := by
        intro name
        simp only [labelPart, Option.elim_some, List.append_assoc]
      rw [Option.map_some, happend, happend]
      exact trimBy_append_cons (hhead _) (List.append_ne_nil_of_left_ne_nil (by decide) _) rfl name
  | none =>
      refine trimBy_eq_self (hhead _) fun c hc => ?_
      have hmem : c ∈ key := by
        rw [labelPart, Option.elim_none, List.append_nil, ← List.append_assoc,
          List.getLast?_append_of_ne_nil _ (Cli.isHex64_ne_nil hkey)] at hc
        exact List.mem_of_mem_getLast? hc
      exact Cli.isSpace_of_isHexDigit (Cli.isHexDigit_of_isHex64 hkey c hmem)

/-- **How a shared link is read**: its parts are where the app put them. -/
theorem parseOlcrtc_olcRtcUri {c : App.LocationConfig} (hkey : Cli.isHex64 c.key = true)
    (hroom : '#' ∉ c.id) :
    Cli.parseOlcrtc (olcRtcUri c) =
      Cli.readRoom c.normalized.bypassProvider (transportToken c.normalized) c.normalized.id
        (c.key ++ labelPart ((writtenLabel c.normalized).map (·.rdropWhile Cli.isSpace))) := by
  have hnormal : c.normalized.key = c.key :=
    trimBy_of_forall fun d hd => isWhitespace_of_isHexDigit (Cli.isHexDigit_of_isHex64 hkey d hd)
  have hid : '#' ∉ c.normalized.id := fun hd => hroom (mem_of_mem_trimBy hd)
  obtain ⟨-, hcarrier, hne, hcrypt⟩ := carrier_facts c.bypassProvider
    (transportToken c.normalized ++ '@' :: (c.normalized.id ++ '#' ::
      (c.key ++ labelPart ((writtenLabel c.normalized).map (·.rdropWhile Cli.isSpace)))))
  refine Cli.parseOlcrtc_of_payload ?_ hcrypt
    (Cli.olcrtcParts_append hne hcarrier (transportToken_free c) hid _)
  have happend : ∀ t : Text, c.normalized.bypassProvider ++ '?' :: (transportToken c.normalized ++
      '@' :: (c.normalized.id ++ '#' :: (c.key ++ t))) =
      (c.normalized.bypassProvider ++ '?' :: (transportToken c.normalized ++
        '@' :: (c.normalized.id ++ ['#']))) ++ (c.key ++ t) := by
    intro t
    simp only [List.append_assoc, List.cons_append, List.nil_append]
  rw [olcRtcUri_eq, hnormal, happend, trimSpace_link hkey, ← happend]
  rfl

/-- The label that is read. -/
theorem labelOf_labelPart {key : Text} (hkey : Cli.isHex64 key = true) (label : Option Text) :
    Cli.labelOf (key ++ labelPart (label.map (·.rdropWhile Cli.isSpace))) =
      Cli.trimSpace (label.getD []) := by
  cases label with
  | none =>
      rw [Option.map_none, labelPart, Option.elim_none, List.append_nil]
      exact Cli.labelOf_of_isHex64 hkey
  | some name =>
      rw [Option.map_some, labelPart, Option.elim_some, Cli.labelOf_append hkey]
      exact trimBy_rdropWhile name

theorem keyOf_labelPart {key : Text} (hkey : Cli.isHex64 key = true) (label : Option Text) :
    Cli.keyOf (key ++ labelPart label) = key := by
  refine Cli.keyOf_append hkey ?_
  cases label <;> rfl

/-- **A room on the data channel is read** with its ends trimmed once more. -/
theorem parse_shared_dataChannel {c : App.LocationConfig} (hkey : Cli.isHex64 c.key = true)
    (hroom : '#' ∉ c.id) (hdata : c.normalized.transport = App.transportDataChannel) :
    Cli.parseOlcrtc (olcRtcUri c) =
      if Cli.trimSpace c.normalized.id = [] then .error .emptyRoom
      else .ok
        { provider := c.normalized.bypassProvider, transport := App.transportDataChannel
          room := Cli.trimSpace c.normalized.id, key := c.key
          label := if Cli.trimSpace ((writtenLabel c.normalized).getD []) = [] then
              Cli.trimSpace c.normalized.id
            else Cli.trimSpace ((writtenLabel c.normalized).getD []) } := by
  have htoken : transportToken c.normalized = App.transportDataChannel := by
    unfold transportToken
    rw [hdata]
    rfl
  have hcarrier : Cli.normalizeProvider c.normalized.bypassProvider =
      some c.normalized.bypassProvider := (carrier_facts c.bypassProvider []).1
  rw [parseOlcrtc_olcRtcUri hkey hroom, htoken,
    Cli.readRoom_of_plain hcarrier (by decide)
      (show Cli.normalizeTransport App.transportDataChannel =
        some App.transportDataChannel by decide)
      (keyOf_labelPart hkey _) hkey, labelOf_labelPart hkey]

/-- **A room on any other transport is refused.** -/
theorem parse_shared_options {c : App.LocationConfig} (hkey : Cli.isHex64 c.key = true)
    (hroom : '#' ∉ c.id) (hoptions : c.normalized.transport ≠ App.transportDataChannel) :
    ∃ token, Cli.parseOlcrtc (olcRtcUri c) = .error (.unknownTransport token) := by
  have hmem : c.normalized.transport ∈
      [App.transportDataChannel, App.transportVp8Channel, App.transportSeiChannel] := by
    rw [transport_normalized]
    exact normalizeTransport_mem ..
  obtain ⟨name, options, htoken, hname⟩ : ∃ name options,
      transportToken c.normalized = name ++ '<' :: options ∧ '&' ∉ name := by
    simp only [List.mem_cons, List.not_mem_nil, or_false] at hmem
    unfold transportToken
    rcases hmem with h | h | h
    · exact absurd h hoptions
    · rw [h, if_pos rfl]
      exact ⟨txt "vp8channel", txt "vp8-fps=" ++ App.intText c.normalized.vp8Fps ++
        txt "&vp8-batch=" ++ App.intText c.normalized.vp8Batch ++ txt ">", rfl, by decide⟩
    · rw [h, if_neg (by decide), if_pos rfl]
      exact ⟨txt "seichannel", txt "fps=60&batch=64&frag=900&ack-ms=2000>", rfl, by decide⟩
  rw [parseOlcrtc_olcRtcUri hkey hroom, htoken]
  exact Cli.readRoom_of_bracket (carrier_facts c.bypassProvider []).1 hname

/-! ### What is read -/

/-- The line says what the location does. -/
structure ReadsAs (c : App.LocationConfig) (l : Cli.OlcrtcLine) : Prop where
  provider : l.provider = c.bypassProvider
  transport : l.transport = c.transport
  room : l.room = c.id
  key : l.key = c.key
  label : l.label = c.displayName
  vp8 : c.transport = App.transportVp8Channel → l.vp8FPS = c.vp8Fps ∧ l.vp8Batch = c.vp8Batch

/-- **The command line reads a room the app shares** exactly when it runs over the data
channel, whose name is written without options, and neither the room nor the name ends in
the one character only Go trims. -/
theorem cli_reads_shared_iff [App.JsonReader] {c : App.LocationConfig} (hkind : c.kind = .olcrtc)
    (hcomplete : c.isComplete = true) (hkey : Cli.isHex64 c.key = true) (hroom : '#' ∉ c.id) :
    (∃ l, Cli.parseOlcrtc (olcRtcUri c) = .ok l ∧ ReadsAs c.normalized l) ↔
      runsOver c = App.transportDataChannel ∧ KeepsEnds (App.trim c.id) ∧
        KeepsEnds c.normalized.displayName := by
  have hnormal : c.normalized.key = c.key :=
    trimBy_of_forall fun d hd => isWhitespace_of_isHexDigit (Cli.isHexDigit_of_isHex64 hkey d hd)
  have hblank : App.isBlank c.id = false := by
    unfold App.LocationConfig.isComplete at hcomplete
    rw [hkind] at hcomplete
    simpa using ((Bool.and_eq_true ..).mp hcomplete).1
  have hne : App.trim c.id ≠ [] := fun hnil => by
    rw [App.trim_eq_nil_iff, hblank] at hnil
    cases hnil
  have hname := displayName_normalized hblank
  have hwritten : writtenLabel c.normalized =
      if c.normalized.displayName = c.normalized.id then none
      else some c.normalized.displayName := by
    unfold writtenLabel
    rw [hname.2]
    by_cases heq : c.normalized.displayName = c.normalized.id <;> simp [heq]
  have hroomEnds := trimSpace_eq_self_iff (App.trim_trim c.id)
  have hnameEnds := trimSpace_eq_self_iff hname.1
  have hid : c.normalized.id = App.trim c.id := rfl
  rw [← transport_normalized]
  by_cases hdata : c.normalized.transport = App.transportDataChannel
  · rw [parse_shared_dataChannel hkey hroom hdata, hwritten, ← hroomEnds, ← hnameEnds, hid]
    constructor
    · rintro ⟨l, hl, hreads⟩
      split at hl
      · cases hl
      · cases hl
        have hsame : Cli.trimSpace (App.trim c.id) = App.trim c.id := hreads.room
        refine ⟨hdata, hsame, ?_⟩
        have hlabel := hreads.label
        dsimp only at hlabel
        by_cases heq : c.normalized.displayName = App.trim c.id
        · rw [heq, hsame]
        · rw [if_neg heq, Option.getD_some] at hlabel
          split at hlabel
          · exact absurd (hlabel.symm.trans hsame) heq
          · exact hlabel
    · rintro ⟨-, hsame, hlabel⟩
      rw [if_neg (by rw [hsame]; exact hne), hsame]
      refine ⟨_, rfl, ⟨rfl, hdata.symm, rfl, hnormal.symm, ?_, fun hvp8 => ?_⟩⟩
      · dsimp only
        by_cases heq : c.normalized.displayName = App.trim c.id
        · rw [if_pos heq, heq]
          rfl
        · rw [if_neg heq, Option.getD_some, hlabel, if_neg fun hnil => ?_]
          rw [hnil] at hname
          cases hname.2
      · rw [hdata] at hvp8
        exact absurd hvp8 (by decide)
  · obtain ⟨token, hrefused⟩ := parse_shared_options hkey hroom hdata
    refine iff_of_false ?_ fun hall => hdata hall.1
    rintro ⟨l, hl, -⟩
    rw [hrefused] at hl
    cases hl

/-! ### A room of each kind -/

section

attribute [local instance] App.Build.plain

def someKey : Text := (List.replicate 4 (txt "0123456789abcdef")).flatten

/-- A room on the data channel. -/
def jazzRoom : App.LocationConfig :=
  { name := txt "CA", id := txt "53a942:cb3gjji2", key := someKey
    bypassProvider := App.providerSaluteJazz, transport := App.transportDataChannel }

theorem cli_reads_shared_jazzRoom :
    ∃ l, Cli.parseOlcrtc (olcRtcUri jazzRoom) = .ok l ∧ ReadsAs jazzRoom.normalized l :=
  (cli_reads_shared_iff rfl (by decide) (by decide) (by decide)).mpr
    (by decide)

/-- A room as the app makes it by default. -/
def videoRoom : App.LocationConfig := { name := txt "CA", id := txt "room_z9", key := someKey }

/-- **The default transport is not read back**: its name comes with a bracket. -/
theorem cli_refuses_shared_videoRoom :
    videoRoom.kind = .olcrtc ∧ videoRoom.isComplete = true ∧ Cli.isHex64 videoRoom.key = true ∧
      '#' ∉ videoRoom.id ∧ '\n' ∉ videoRoom.name ∧ '\r' ∉ videoRoom.name ∧
      Cli.parseOlcrtc (olcRtcUri videoRoom) =
        .error (.unknownTransport (txt "vp8channel<vp8-fps=60")) := by
  decide

end

end Ghostlane.Across
