import Ghostlane.Cli.Links
import Ghostlane.Lib.Bytes
import Ghostlane.Lib.Cut

/-!
# Ghostlane.Cli.Olcrtc

A line that names a room, as the daemon reads it (`internal/links/olcrtc.go`):
`olcrtc://<provider>?<transport>[&k=v…]@<room>#<key>[%<client>][$<label>]`.

A string of Go is bytes and a line is text here: every byte the reader looks for is
an ASCII one, which no other character's encoding holds.
-/

namespace Ghostlane.Cli

open Ghostlane.Lib

/-! ### Go's text functions -/

/-- `unicode.ToLower`, as far as ASCII on the other side can tell: the kelvin sign
and the dotted capital I have an ASCII lower case. -/
def toLowerChar (c : Char) : Char :=
  if c.toNat == 0x212A then 'k' else if c.toNat == 0x130 then 'i' else c.toLower

/-- `strings.ToLower`. -/
def toLower (t : Text) : Text := t.map toLowerChar

/-- `strings.Cut`, whose second part is empty when there is nothing to cut at. -/
def cutAt (c : Char) (t : Text) : Text × Text := (cutFirst c t).getD (t, [])

/-! ### Names -/

/-- The carrier a name stands for. -/
def normalizeProvider (s : Text) : Option Text :=
  let v := toLower (trimSpace s)
  if v ∈ [txt "telemost", txt "yandex", txt "yandex_telemost"] then some (txt "telemost")
  else if v ∈ [txt "wbstream", txt "wb-stream", txt "wb_stream", txt "wildberries"] then
    some (txt "wbstream")
  else if v ∈ [txt "jitsi", txt "jitsi-meet", txt "jitsi_meet", txt "meet"] then some (txt "jitsi")
  else if v ∈ [txt "salutejazz", txt "jazz", txt "sberjazz", txt "sber_jazz"] then
    some (txt "salutejazz")
  else if v ∈ [txt "vkcalls", txt "vk", txt "vkcall", txt "vk_calls", txt "vk-calls"] then
    some (txt "vkcalls")
  else if v ∈ [txt "mtslink", txt "mts", txt "mts-link", txt "mts_link"] then some (txt "mtslink")
  else none

/-- The transport a name stands for. -/
def normalizeTransport (s : Text) : Option Text :=
  let v := toLower (trimSpace s)
  if v ∈ [txt "datachannel", txt "data", txt "dc"] then some (txt "datachannel")
  else if v ∈ [txt "vp8channel", txt "vp8", txt "video_vp8", txt "video-vp8"] then
    some (txt "vp8channel")
  else if v ∈ [txt "seichannel", txt "sei"] then some (txt "seichannel")
  else if v ∈ [txt "videochannel", txt "video"] then some (txt "videochannel")
  else none

def isHexDigit (c : Char) : Bool :=
  ('0' ≤ c && c ≤ '9') || ('a' ≤ c && c ≤ 'f') || ('A' ≤ c && c ≤ 'F')

/-- Its length is counted in bytes. -/
def isHex64 (s : Text) : Bool := (utf8 s).length == 64 && s.all isHexDigit

/-! ### A line -/

structure OlcrtcLine where
  provider : Text
  transport : Text
  room : Text := []
  key : Text := []
  /-- What is after the `$`, else the room. -/
  label : Text := []
  /-- Zero is the engine's default, here and below. -/
  vp8FPS : Int := 0
  vp8Batch : Int := 0
  deriving DecidableEq, Repr

inductive OlcrtcError
  | notOlcrtc
  | crypt1
  | malformed
  | unknownCarrier (name : Text)
  | unknownTransport (name : Text)
  | emptyRoom
  | badKey
  deriving DecidableEq, Repr

def olcrtcPrefix : Text := txt "olcrtc://"

/-- The parts between the markers: the carrier, the transport with its options, the
room, and the key with what follows it. Each marker is the first after the one before
it, and the carrier is not empty. -/
def olcrtcParts (payload : Text) : Option (Text × Text × Text × Text) := do
  let (carrier, rest) ← cutFirst '?' payload
  if carrier = [] then none
  let (options, rest) ← cutFirst '@' rest
  let (room, rest) ← cutFirst '#' rest
  return (carrier, options, room, rest)

/-- One option of a transport. -/
def readOption (out : OlcrtcLine) (kv : Text) : OlcrtcLine :=
  let (name, value) := cutAt '=' kv
  match atoi (trimSpace value) with
  | none => out
  | some n =>
      if n ≤ 0 then out
      else if toLower (trimSpace name) ∈ [txt "fps", txt "vp8-fps"] then { out with vp8FPS := n }
      else if toLower (trimSpace name) ∈ [txt "batch", txt "vp8-batch"] then
        { out with vp8Batch := n }
      else out

/-- The key ends where the client or the label begins. -/
def keyOf (rest : Text) : Text := trimSpace (rest.takeWhile fun c => c != '%' && c != '$')

def labelOf (rest : Text) : Text := trimSpace (((cutFirst '$' rest).map Prod.snd).getD [])

/-- What is read of the parts. -/
def readRoom (carrier options room rest : Text) : Except OlcrtcError OlcrtcLine := do
  let some provider := normalizeProvider carrier | throw (.unknownCarrier carrier)
  let tokens := options.splitOn '&'
  let name := tokens.head?.getD []
  let some transport := normalizeTransport name | throw (.unknownTransport name)
  let out := tokens.tail.foldl readOption { provider, transport }
  let room := trimSpace room
  let key := keyOf rest
  if room = [] then throw .emptyRoom
  if !isHex64 key then throw .badKey
  let label := labelOf rest
  return { out with room, key, label := if label = [] then room else label }

def parseOlcrtc (line : Text) : Except OlcrtcError OlcrtcLine := do
  let line := trimSpace line
  if !hasPrefix line olcrtcPrefix then throw .notOlcrtc
  let payload := line.drop olcrtcPrefix.length
  if hasPrefix payload (txt "crypt1/") then throw .crypt1
  let some (carrier, options, room, rest) := olcrtcParts payload | throw .malformed
  readRoom carrier options room rest

/-! ### What a line of parts is read as -/

/-- The markers of a line are found where they were put. -/
theorem olcrtcParts_append {carrier options room : Text} (hne : carrier ≠ [])
    (hcarrier : '?' ∉ carrier) (hoptions : '@' ∉ options) (hroom : '#' ∉ room) (rest : Text) :
    olcrtcParts (carrier ++ '?' :: (options ++ '@' :: (room ++ '#' :: rest))) =
      some (carrier, options, room, rest) := by
  simp only [olcrtcParts, cutFirst_append hcarrier, cutFirst_append hoptions, cutFirst_append hroom,
    bind, Option.bind_some, if_neg hne, pure]

theorem parseOlcrtc_of_payload {line payload carrier options room rest : Text}
    (hline : trimSpace line = olcrtcPrefix ++ payload)
    (hcrypt : hasPrefix payload (txt "crypt1/") = false)
    (hparts : olcrtcParts payload = some (carrier, options, room, rest)) :
    parseOlcrtc line = readRoom carrier options room rest := by
  have hstarts : hasPrefix (olcrtcPrefix ++ payload) olcrtcPrefix = true :=
    List.isPrefixOf_iff_prefix.mpr (List.prefix_append _ _)
  unfold parseOlcrtc
  simp only [hline, hstarts, List.drop_left, hcrypt, hparts]
  rfl

/-! ### The parts -/

theorem ne_marker_of_isHexDigit {c : Char} (h : isHexDigit c = true) : c ≠ '%' ∧ c ≠ '$' := by
  refine ⟨?_, ?_⟩ <;> rintro rfl <;> exact absurd h (by decide)

theorem toNat_of_isHexDigit {c : Char} (h : isHexDigit c = true) :
    48 ≤ c.toNat ∧ c.toNat ≤ 102 := by
  simp only [isHexDigit, Bool.or_eq_true, Bool.and_eq_true, decide_eq_true_eq, Char.le_def,
    UInt32.le_iff_toNat_le] at h
  have hval : '0'.val.toNat = 48 ∧ '9'.val.toNat = 57 ∧ 'a'.val.toNat = 97 ∧ 'f'.val.toNat = 102 ∧
      'A'.val.toNat = 65 ∧ 'F'.val.toNat = 70 := by decide
  unfold Char.toNat
  omega

theorem isSpace_of_isHexDigit {c : Char} (h : isHexDigit c = true) : isSpace c = false := by
  have hval := toNat_of_isHexDigit h
  simp only [isSpace, Bool.or_eq_false_iff, Bool.and_eq_false_iff, decide_eq_false_iff_not,
    beq_eq_false_iff_ne]
  omega

theorem isHex64_ne_nil {key : Text} (h : isHex64 key = true) : key ≠ [] := by
  rintro rfl
  cases h

theorem isHexDigit_of_isHex64 {key : Text} (h : isHex64 key = true) :
    ∀ c ∈ key, isHexDigit c = true :=
  List.all_eq_true.mp ((Bool.and_eq_true ..).mp h).2

/-- A key is read up to the label. -/
theorem keyOf_append {key tail : Text} (h : isHex64 key = true)
    (htail : tail.head?.all (· == '$') = true) : keyOf (key ++ tail) = key := by
  have hhex := isHexDigit_of_isHex64 h
  have hplain : ∀ c ∈ key, (c != '%' && c != '$') = true := by
    intro c hc
    obtain ⟨hclient, hlabel⟩ := ne_marker_of_isHexDigit (hhex c hc)
    simp [hclient, hlabel]
  have hstop : tail.takeWhile (fun c => c != '%' && c != '$') = [] := by
    cases tail with
    | nil => rfl
    | cons c tail =>
        rw [List.head?_cons, Option.all_some, beq_iff_eq] at htail
        rw [htail]
        rfl
  rw [keyOf, List.takeWhile_append_of_pos hplain, hstop, List.append_nil]
  exact trimBy_of_forall fun c hc => isSpace_of_isHexDigit (hhex c hc)

theorem labelOf_append {key : Text} (h : isHex64 key = true) (name : Text) :
    labelOf (key ++ '$' :: name) = trimSpace name := by
  have hnot : '$' ∉ key := fun hc =>
    (ne_marker_of_isHexDigit (isHexDigit_of_isHex64 h _ hc)).2 rfl
  rw [labelOf, cutFirst_append hnot]
  rfl

theorem labelOf_of_isHex64 {key : Text} (h : isHex64 key = true) : labelOf key = [] := by
  have hnot : '$' ∉ key := fun hc =>
    (ne_marker_of_isHexDigit (isHexDigit_of_isHex64 h _ hc)).2 rfl
  rw [labelOf, cutFirst_eq_none_iff.mpr hnot]
  rfl

/-- A transport without options. -/
theorem readRoom_of_plain {carrier options room rest provider transport key : Text}
    (hprovider : normalizeProvider carrier = some provider)
    (hoptions : options.splitOn '&' = [options])
    (htransport : normalizeTransport options = some transport) (hkeyOf : keyOf rest = key)
    (hkey : isHex64 key = true) :
    readRoom carrier options room rest =
      if trimSpace room = [] then .error .emptyRoom
      else .ok { provider, transport, room := trimSpace room, key,
                 label := if labelOf rest = [] then trimSpace room else labelOf rest } := by
  unfold readRoom
  simp only [hprovider, hoptions, List.head?_cons, Option.getD_some, htransport, List.tail_cons,
    List.foldl_nil, hkeyOf, hkey, Bool.not_true]
  split <;> rfl

/-- No transport has a bracket in its name. -/
theorem normalizeTransport_of_bracket {s : Text} (h : '<' ∈ s) : normalizeTransport s = none := by
  have hmem : '<' ∈ toLower (trimSpace s) :=
    List.mem_map.mpr ⟨'<', mem_trimBy h (by decide), by decide⟩
  have hnot : ∀ names : List Text, names.all (!·.contains '<') = true →
      toLower (trimSpace s) ∉ names := by
    intro names hnames hin
    have hname := List.all_eq_true.mp hnames _ hin
    rw [Bool.not_eq_true', ← Bool.not_eq_true, List.contains_iff_mem] at hname
    exact hname hmem
  unfold normalizeTransport
  dsimp only
  rw [if_neg (hnot _ (by decide)), if_neg (hnot _ (by decide)), if_neg (hnot _ (by decide)),
    if_neg (hnot _ (by decide))]

/-- **A transport with its options in brackets is not read.** -/
theorem readRoom_of_bracket {carrier name options room rest provider : Text}
    (hprovider : normalizeProvider carrier = some provider) (hname : '&' ∉ name) :
    ∃ token, readRoom carrier (name ++ '<' :: options) room rest =
      .error (.unknownTransport token) := by
  refine ⟨((name ++ '<' :: options).splitOn '&').head?.getD [], ?_⟩
  have hmem : '<' ∈ ((name ++ '<' :: options).splitOn '&').head?.getD [] := by
    have hall : ∀ c ∈ name, (c != '&') = true := fun c hc =>
      bne_iff_ne.mpr fun heq => hname (heq ▸ hc)
    rw [head?_splitOn, Option.getD_some, List.takeWhile_append_of_pos hall]
    simp
  unfold readRoom
  simp only [hprovider, normalizeTransport_of_bracket hmem]
  rfl

end Ghostlane.Cli
