import Ghostlane.Cli.Share

/-!
# Ghostlane.Cli.Lines

A list's body as the lines it holds, and each line as what is shown of it (`DecodeBodyWith`,
`Entries` and `fragmentLabel` in `internal/links/list.go`). Which of a line's texts drive a
terminal is told by the line (`readLine_clean_iff`).

The ids of entries are not shown, and left out.
-/

namespace Ghostlane.Cli.Lines

open Ghostlane.Lib Ghostlane.Lib.Bytes Ghostlane.Cli.Share

/-! ### A body -/

/-- `strings.Contains`. -/
def contains (t needle : Bytes) : Bool := t.tails.any (starts · needle)

/-- The body without line ends and blanks; a byte that is part of no character becomes the
replacement character. -/
def compact (body : Bytes) : Bytes :=
  utf8 ((Strings.chars body).filter fun c => c ∉ ['\n', '\r', ' ', '\t'])

/-- Every `\r\n` a line feed. -/
def unixLines : Bytes → Bytes
  | [] => []
  | b :: t => if b = byte '\r' ∧ t.head? = some (byte '\n') then unixLines t else b :: unixLines t

/-- `Decryptor`. -/
abbrev Decryptor := Bytes → Option Bytes

/-- The text of a body: itself where a scheme is in it, else decrypted, else decoded. -/
def bodyText (body : Bytes) (decrypt : Option Decryptor) : Bytes :=
  if contains body (ascii "://") then body
  else match decrypt.bind (· (compact body)) with
    | some plain => plain
    | none =>
        match Fetch.tryBase64 (compact body) with
        | some decoded => if contains decoded (ascii "://") then decoded else body
        | none => body

/-- `DecodeBodyWith`. -/
def decodeBodyWith (body : Bytes) (decrypt : Option Decryptor) : List Bytes :=
  (((unixLines (bodyText body decrypt)).splitOn (byte '\n')).map Strings.trimSpace).filter (· ≠ [])

/-! ### A line -/

structure Entry where
  label : Text
  /-- Empty when the label names none. -/
  country : Text := countryOf label
  kind : Kind
  raw : Bytes
  olcrtc : Option OlcrtcLine := none
  vless : Option VlessLine := none
  hy2 : Option Hy2Line := none
  /-- Why the line cannot be connected. -/
  problem : Text := []
  deriving DecidableEq, Repr

def Entry.connectable (e : Entry) : Bool :=
  e.problem == [] && (e.olcrtc.isSome || e.vless.isSome || e.hy2.isSome)

/-- The label after the last `#`, the line where there is none. -/
def fragmentLabel (raw : Bytes) : Bytes :=
  match cutLast (byte '#') raw with
  | some (_, frag) =>
      let l := Strings.trimSpace (unescaped .path frag)
      if l ≠ [] then l else raw
  | none => raw

section Reading

variable [Unicode]

/-- What is wrong with a room's line. The names it quotes are quoted from the bytes. -/
def olcrtcProblem (raw : Bytes) : OlcrtcError → Text
  | .notOlcrtc => txt "not an olcrtc:// line"
  | .crypt1 => txt "olcrtc://crypt1 lists need a build secret and are not supported by this version"
  | .malformed => txt "olcrtc line: expected provider?transport@room#key"
  | .unknownCarrier _ =>
      let payload := (Strings.trimSpace raw).drop olcrtcPrefix.length
      txt "olcrtc line: unknown carrier " ++ quote (before (byte '?') payload)
  | .unknownTransport _ =>
      let payload := (Strings.trimSpace raw).drop olcrtcPrefix.length
      let options := before (byte '@') (after (byte '?') payload)
      txt "olcrtc line: unknown transport " ++ quote (before (byte '&') options)
  | .emptyRoom => txt "olcrtc line: empty room"
  | .badKey => txt "olcrtc line: key must be 64 hex characters"

/-- One line of `Entries`. -/
def readLine (raw : Bytes) : Entry :=
  if starts raw (ascii "olcrtc://") then
    match parseOlcrtc (Strings.chars raw) with
    | .error e =>
        { kind := .unsupported, problem := olcrtcProblem raw e, label := Strings.chars raw, raw }
    | .ok l => { kind := .olcrtc, olcrtc := some l, label := l.label, raw }
  else if starts raw (ascii "vless://") then
    match parseVless raw with
    | .error e =>
        { kind := .vless, label := Strings.chars (fragmentLabel raw), problem := e.text, raw }
    | .ok l => { kind := .vless, vless := some l, label := Strings.chars l.label, raw }
  else if starts raw (ascii "hysteria2://") || starts raw (ascii "hy2://") then
    match parseHy2 raw with
    | .error e =>
        { kind := .hysteria2, label := Strings.chars (fragmentLabel raw), problem := e.text, raw }
    | .ok l => { kind := .hysteria2, hy2 := some l, label := Strings.chars l.label, raw }
  else
    { kind := .unsupported, label := Strings.chars raw
      problem := beforeScheme (Strings.chars raw) ++ txt ":// is not supported", raw }

/-- `Entries`. -/
def entries (lines : List Bytes) : List Entry := lines.map readLine

/-! ### What is shown of a line -/

/-- The carrier that is shown of an entry. -/
def Entry.carrier (e : Entry) : Text := (e.olcrtc.map OlcrtcLine.provider).getD []

/-- The texts that are shown of an entry drive nothing. -/
structure Entry.Harmless (e : Entry) : Prop where
  label : Clean e.label
  country : Clean e.country
  carrier : Clean e.carrier
  problem : Clean e.problem

/-- The text a line shows of itself drives nothing: the name of a line that is read; else the line,
or its fragment; and the transport of a VLESS line that is not supported. -/
def Quiet (raw : Bytes) : Prop :=
  if starts raw (ascii "olcrtc://") then
    match parseOlcrtc (Strings.chars raw) with
    | .ok l => Clean l.label
    | .error _ => Clean (Strings.chars raw)
  else if starts raw (ascii "vless://") then
    match splitShare (Strings.trimSpace raw) (ascii "vless://") with
    | .ok p =>
        if (transportOf p.query).isSome then Clean (Strings.chars p.label)
        else Clean (Strings.chars (fragmentLabel raw)) ∧
          Clean (Strings.chars (Strings.trimSpace (p.query.get "type")))
    | .error _ => Clean (Strings.chars (fragmentLabel raw))
  else
    match hy2Scheme raw with
    | some scheme =>
        match splitShare (Strings.trimSpace raw) scheme with
        | .ok p => Clean (Strings.chars p.label)
        | .error _ => Clean (Strings.chars (fragmentLabel raw))
    | none => Clean (Strings.chars raw)

end Reading

/-! ### Texts that drive nothing -/

/-- A country is two letters. -/
theorem countryOf_clean (label : Text) : Clean (countryOf label) := by
  have hupper : ∀ c, isUpper c = true → Fetch.clean c = true := by
    intro c hc
    simp only [isUpper, Bool.and_eq_true, decide_eq_true_eq, Char.le_def,
      UInt32.le_iff_toNat_le] at hc
    have hA : 'A'.val.toNat = 65 := rfl
    have hZ : 'Z'.val.toNat = 90 := rfl
    have hval : c.toNat = c.val.toNat := rfl
    simp only [Fetch.clean, Fetch.isControl, Fetch.directional, Bool.and_eq_true,
      Bool.not_eq_true', Bool.or_eq_false_iff, Bool.and_eq_false_iff, decide_eq_false_iff_not,
      beq_eq_false_iff_ne]
    omega
  unfold countryOf
  dsimp only
  split
  · split
    · rename_i a b _ hboth
      obtain ⟨ha, hb⟩ := Bool.and_eq_true_iff.mp hboth
      exact .cons (hupper a ha) (.cons (hupper b hb) (List.forall_mem_nil _))
    · exact List.forall_mem_nil _
  · exact List.forall_mem_nil _

theorem normalizeProvider_clean {s provider : Text} (h : normalizeProvider s = some provider) :
    Clean provider := by
  unfold normalizeProvider at h
  dsimp only at h
  repeat'
    split at h
    · cases h
      decide
  cases h

theorem readOption_provider (out : OlcrtcLine) (kv : Text) :
    (readOption out kv).provider = out.provider := by
  unfold readOption
  dsimp only
  split
  · rfl
  · split
    · rfl
    · split
      · rfl
      · split <;> rfl

theorem foldl_readOption_provider (tokens : List Text) (out : OlcrtcLine) :
    (tokens.foldl readOption out).provider = out.provider := by
  induction tokens generalizing out with
  | nil => rfl
  | cons kv tokens ih => rw [List.foldl_cons, ih, readOption_provider]

theorem provider_of_readRoom {carrier options room rest : Text} {l : OlcrtcLine}
    (h : readRoom carrier options room rest = .ok l) :
    normalizeProvider carrier = some l.provider := by
  unfold readRoom at h
  cases hprovider : normalizeProvider carrier with
  | none =>
      rw [hprovider] at h
      cases h
  | some provider =>
      rw [hprovider] at h
      dsimp only at h
      cases htransport : normalizeTransport ((options.splitOn '&').head?.getD []) with
      | none =>
          rw [htransport] at h
          cases h
      | some transport =>
          rw [htransport] at h
          dsimp only at h
          split at h
          · cases h
          · split at h
            · cases h
            · cases h
              rw [foldl_readOption_provider]

theorem provider_of_parseOlcrtc {line : Text} {l : OlcrtcLine} (h : parseOlcrtc line = .ok l) :
    ∃ carrier, normalizeProvider carrier = some l.provider := by
  unfold parseOlcrtc at h
  dsimp only at h
  split at h
  · cases h
  · split at h
    · cases h
    · cases hparts : olcrtcParts ((trimSpace line).drop olcrtcPrefix.length) with
      | none =>
          rw [hparts] at h
          cases h
      | some parts =>
          obtain ⟨carrier, options, room, rest⟩ := parts
          rw [hparts] at h
          exact ⟨carrier, provider_of_readRoom h⟩

theorem beforeScheme_clean {t : Text} (h : Clean t) : Clean (beforeScheme t) := by
  induction t with
  | nil => exact h
  | cons c t ih =>
      unfold beforeScheme
      split
      · exact List.forall_mem_nil _
      · exact .cons (h c List.mem_cons_self) (ih fun d hd => h d (List.mem_cons_of_mem c hd))

section Harmless

variable [Unicode]

theorem olcrtcProblem_clean (raw : Bytes) (e : OlcrtcError) : Clean (olcrtcProblem raw e) := by
  cases e with
  | unknownCarrier name => exact .append (by decide) (quote_clean _)
  | unknownTransport name => exact .append (by decide) (quote_clean _)
  | notOlcrtc => exact (by decide : Clean (txt "not an olcrtc:// line"))
  | crypt1 =>
      exact (by decide : Clean
        (txt "olcrtc://crypt1 lists need a build secret and are not supported by this version"))
  | malformed => exact (by decide : Clean (txt "olcrtc line: expected provider?transport@room#key"))
  | emptyRoom => exact (by decide : Clean (txt "olcrtc line: empty room"))
  | badKey => exact (by decide : Clean (txt "olcrtc line: key must be 64 hex characters"))

/-- The transport a line names drives nothing exactly when the value does. -/
theorem typeOf_clean_iff (q : Values) :
    Clean (typeOf q) ↔ Clean (Strings.chars (Strings.trimSpace (q.get "type"))) := by
  have hlowered : Clean (lowered (q.get "type")) ↔
      Clean (Strings.chars (Strings.trimSpace (q.get "type"))) := by
    rw [lowered, Clean, List.forall_mem_map]
    simp only [Unicode.clean_toLower]
  unfold typeOf
  split
  · rename_i hnil
    refine iff_of_true (by decide) (hlowered.mp ?_)
    rw [hnil]
    exact List.forall_mem_nil _
  · exact hlowered

omit [Unicode] in
/-- Without a room an entry is harmless as its label and its problem are. -/
theorem harmless_iff {e : Entry} (hcountry : e.country = countryOf e.label) (h : e.olcrtc = none) :
    e.Harmless ↔ Clean e.label ∧ Clean e.problem := by
  constructor
  · intro hharmless
    exact ⟨hharmless.label, hharmless.problem⟩
  · rintro ⟨hlabel, hproblem⟩
    refine ⟨hlabel, ?_, ?_, hproblem⟩
    · rw [hcountry]
      exact countryOf_clean _
    · rw [Entry.carrier, h]
      exact List.forall_mem_nil _

omit [Unicode] in
theorem hy2Scheme_isSome (raw : Bytes) : (hy2Scheme raw).isSome =
    (starts raw (ascii "hysteria2://") || starts raw (ascii "hy2://")) := by
  unfold hy2Scheme
  cases starts raw (ascii "hysteria2://") <;> cases starts raw (ascii "hy2://") <;> rfl

omit [Unicode] in
/-- The scheme of a Hysteria2 line stays when the line is trimmed. -/
theorem hy2Scheme_trimSpace {raw scheme : Bytes} (h : hy2Scheme raw = some scheme) :
    hy2Scheme (Strings.trimSpace raw) = some scheme := by
  unfold hy2Scheme at h
  split at h
  · rename_i hlong
    cases h
    exact if_pos (Strings.starts_trimSpace (by decide) (by decide +kernel) hlong)
  · split at h
    · rename_i hshort
      cases h
      have hkept : starts (Strings.trimSpace raw) (ascii "hy2://") = true :=
        Strings.starts_trimSpace (by decide) (by decide +kernel) hshort
      obtain ⟨rest, hrest⟩ := List.isPrefixOf_iff_prefix.mp hkept
      rw [← hrest]
      rfl
    · cases h

/-- **What is shown of a line drives nothing exactly when** the line is quiet. -/
theorem readLine_harmless_iff (raw : Bytes) : (readLine raw).Harmless ↔ Quiet raw := by
  unfold readLine Quiet
  by_cases holcrtc : starts raw (ascii "olcrtc://") = true
  · rw [if_pos holcrtc, if_pos holcrtc]
    cases hread : parseOlcrtc (Strings.chars raw) with
    | error e =>
        exact (harmless_iff rfl rfl).trans (and_iff_left (olcrtcProblem_clean raw e))
    | ok l =>
        obtain ⟨carrier, hcarrier⟩ := provider_of_parseOlcrtc hread
        refine ⟨fun h => h.label, fun h => ⟨h, countryOf_clean _, ?_, List.forall_mem_nil _⟩⟩
        exact normalizeProvider_clean hcarrier
  · rw [if_neg holcrtc, if_neg holcrtc]
    by_cases hvless : starts raw (ascii "vless://") = true
    · rw [if_pos hvless, if_pos hvless, parseVless]
      dsimp only
      rw [if_pos (Strings.starts_trimSpace (by decide) (by decide +kernel) hvless)]
      cases splitShare (Strings.trimSpace raw) (ascii "vless://") with
      | error e =>
          refine (harmless_iff rfl rfl).trans (and_iff_left ?_)
          exact (VlessError.text_clean_iff (.share e)).mpr fun _ heq => nomatch heq
      | ok p =>
          dsimp only
          cases htransport : transportOf p.query with
          | some transport =>
              exact (harmless_iff rfl rfl).trans (and_iff_left (List.forall_mem_nil _))
          | none =>
              refine (harmless_iff rfl rfl).trans (and_congr_right fun _ => ?_)
              refine (VlessError.text_clean_iff (.transport (typeOf p.query))).trans ?_
              rw [← typeOf_clean_iff]
              exact ⟨fun h => h _ rfl, fun h typ heq => (by cases heq; exact h)⟩
    · rw [if_neg hvless, if_neg hvless]
      rw [← hy2Scheme_isSome]
      cases hscheme : hy2Scheme raw with
      | some scheme =>
          rw [if_pos Option.isSome_some, parseHy2]
          dsimp only
          rw [hy2Scheme_trimSpace hscheme]
          dsimp only
          cases splitShare (Strings.trimSpace raw) scheme with
          | error e =>
              exact (harmless_iff rfl rfl).trans (and_iff_left (Hy2Error.text_clean (.share e)))
          | ok p => exact (harmless_iff rfl rfl).trans (and_iff_left (List.forall_mem_nil _))
      | none =>
          rw [if_neg (by simp)]
          refine (harmless_iff rfl rfl).trans (and_iff_left_of_imp fun h => ?_)
          exact .append (beforeScheme_clean h) (by decide)

end Harmless

end Ghostlane.Cli.Lines
