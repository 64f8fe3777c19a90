import Ghostlane.App.Decoding
import Ghostlane.App.ImportSound
import Ghostlane.Cli.Crypt1
import Ghostlane.Cli.Lines
import Ghostlane.Phone.RoomList
import Mathlib.Data.List.Infix

/-!
# Ghostlane.Across.SubscriptionBody

A list's body as its three readers see it: the command line (`DecodeBody`), the app
(`SubscriptionBodyCodec`) and the phone's tunnel (`RoomList.decodeBody`). Each decodes a
body in Base64 when what comes out has `://` in it, and the tunnel asks for that as
characters: a combining mark behind the slashes makes the last one another character.
-/

namespace Ghostlane.Across

open Ghostlane.Lib Ghostlane.Phone
open Ghostlane.App (symbolChar symbols base64Symbol base64Decode)

/-! ### What the readers see -/

/-- Where a list has its links. -/
def schemeMark : Text := txt "://"

/-- The trimmed lines of a text that are not empty. -/
def trimmedLines (b : Bytes) : List Bytes :=
  (((Cli.Lines.unixLines b).splitOn (byte '\n')).map Cli.Strings.trimSpace).filter (· ≠ [])

/-- A text in Base64, with blanks and line breaks anywhere. -/
structure Wrapped (e : Base64) (t w : Text) : Prop where
  alphabet : e.alphabet = .std ∨ e.alphabet = .url
  digits : w.filter (· ∉ [' ', '\t', '\n', '\r']) = App.inBase64 e (utf8 t)
  long : 16 ≤ (App.inBase64 e (utf8 t)).length

section

variable [SwiftText]

/-- All three see the text in a body. -/
structure SeenAlike (t w : Text) : Prop where
  cli : Cli.Lines.decodeBodyWith (utf8 w) none = trimmedLines (utf8 t)
  app : App.decodeBodyBase64 w = some t
  phone : RoomList.decodeBody w = t

/-- Two of them take a body with links in it as it is. -/
structure TakenAsIs : Prop where
  cli : ∀ body : Bytes, Cli.Lines.contains body (utf8 schemeMark) = true →
    Cli.Lines.decodeBodyWith body none = trimmedLines body
  phone : ∀ body : Text, schemeMark <:+: body → RoomList.decodeBody body = body

/-- What `Data(base64Encoded:)` is documented to do: padded digits of the standard alphabet are
read as their bytes. -/
def ReadsBase64 : Prop :=
  ∀ t, SwiftText.base64Decoded (App.inBase64 ⟨.std, true⟩ (utf8 t)) = some t

end

/-! ### The body before it is decoded -/

namespace Wrapped

variable {e : Base64} {t w : Text} (h : Wrapped e t w)

include h

theorem mem_or {c : Char} (hc : c ∈ w) :
    c ∈ [' ', '\t', '\n', '\r'] ∨ c ∈ App.inBase64 e (utf8 t) := by
  by_cases hblank : c ∈ [' ', '\t', '\n', '\r']
  · exact .inl hblank
  · right
    rw [← h.digits, List.mem_filter]
    exact ⟨hc, decide_eq_true hblank⟩

theorem colon_notMem : ':' ∉ w := by
  intro hc
  rcases h.mem_or hc with hblank | hdigit
  · exact absurd hblank (by decide)
  · rw [App.inBase64_eq] at hdigit
    exact App.not_mem_symbols h.alphabet (Base64.digits_lt _) _ (by decide) hdigit

/-- Leaving out all white space leaves out no more than blanks and line breaks. -/
theorem filter_isWhitespace {p : Char → Bool} (hp : ∀ c, c ∈ [' ', '\t', '\n', '\r'] → p c = true)
    (hkept : ∀ c ∈ App.inBase64 e (utf8 t), p c = false) :
    w.filter (!p ·) = App.inBase64 e (utf8 t) := by
  rw [← h.digits]
  refine List.filter_congr fun c hc => ?_
  rcases h.mem_or hc with hblank | hdigit
  · rw [hp c hblank, decide_eq_false (not_not.mpr hblank)]
    rfl
  · have hnot : c ∉ [' ', '\t', '\n', '\r'] :=
      fun hblank => Bool.false_ne_true ((hkept c hdigit).symm.trans (hp c hblank))
    rw [hkept c hdigit, decide_eq_true hnot]
    rfl

end Wrapped

/-! ### The command line -/

theorem valid_utf8 (t : Text) : Cli.Strings.valid (utf8 t) = true := by
  rw [Cli.Strings.valid, runes_utf8, List.all_map, List.all_eq_true]
  exact fun _ _ => rfl

theorem mem_encodings {e : Base64} (h : e.alphabet = .std ∨ e.alphabet = .url) :
    e ∈ Cli.Fetch.encodings := by
  obtain ⟨a, padded⟩ := e
  rcases h with rfl | rfl
  · cases padded
    · exact List.mem_cons_of_mem _ List.mem_cons_self
    · exact List.mem_cons_self
  · cases padded
    · exact List.mem_cons_of_mem _ (List.mem_cons_of_mem _
        (List.mem_cons_of_mem _ List.mem_cons_self))
    · exact List.mem_cons_of_mem _ (List.mem_cons_of_mem _ List.mem_cons_self)

/-- Whichever decoder takes a text first, it is what was encoded. -/
theorem tryBase64_encode {e : Base64} (he : e.alphabet = .std ∨ e.alphabet = .url) {t : Text}
    (hne : e.encode (utf8 t) ≠ []) : Cli.Fetch.tryBase64 (e.encode (utf8 t)) = some (utf8 t) := by
  rw [Cli.Fetch.tryBase64, if_neg hne]
  cases hfound : Cli.Fetch.encodings.findSome? fun e' =>
      (e'.decode (e.encode (utf8 t))).filter Cli.Strings.valid with
  | none =>
      rw [List.findSome?_eq_none_iff] at hfound
      have hnone := hfound e (mem_encodings he)
      rw [Base64.decode_encode, Option.filter_some, if_pos (valid_utf8 t)] at hnone
      cases hnone
  | some b =>
      obtain ⟨e', he', hb⟩ := List.exists_of_findSome?_eq_some hfound
      have hdecoded := (Option.filter_eq_some_iff.mp hb).1
      have halphabet : ∀ e' ∈ Cli.Fetch.encodings, e'.alphabet = .std ∨ e'.alphabet = .url := by
        simp [Cli.Fetch.encodings]
      rw [Base64.quanta_agree (fun c n n' => Alphabet.value_agree (halphabet e' he') he) _ hdecoded
        (Base64.decode_encode e (utf8 t))]

theorem contains_utf8 {t : Text} (h : schemeMark <:+: t) :
    Cli.Lines.contains (utf8 t) (utf8 schemeMark) = true := by
  obtain ⟨a, b, rfl⟩ := h
  rw [Cli.Lines.contains, List.any_eq_true]
  refine ⟨utf8 (schemeMark ++ b), ?_, ?_⟩
  · rw [List.mem_tails, List.append_assoc, utf8_append a]
    exact List.suffix_append _ _
  · rw [utf8_append]
    exact List.isPrefixOf_iff_prefix.mpr (List.prefix_append _ _)

theorem contains_of_colon_notMem {t : Text} (h : ':' ∉ t) :
    Cli.Lines.contains (utf8 t) (utf8 schemeMark) = false := by
  have hbyte : byte ':' ∉ utf8 t := fun hmem => h ((byte_mem_utf8 (by decide)).mp hmem)
  rw [Cli.Lines.contains, List.any_eq_false]
  intro u hu hstarts
  obtain ⟨rest, rfl⟩ := List.isPrefixOf_iff_prefix.mp hstarts
  exact hbyte (((List.mem_tails _ _).mp hu).subset List.mem_cons_self)

theorem bodyText_self {body : Bytes} (h : Cli.Lines.contains body (utf8 schemeMark) = true) :
    Cli.Lines.bodyText body none = body :=
  if_pos h

namespace Wrapped

variable {e : Base64} {t w : Text} (h : Wrapped e t w)

include h

theorem ne_nil : e.encode (utf8 t) ≠ [] := by
  intro hnil
  have hlong := h.long
  rw [App.inBase64, hnil] at hlong
  exact absurd hlong (by decide)

theorem compact_eq : Cli.Lines.compact (utf8 w) = e.encode (utf8 t) := by
  have hascii : ∀ b ∈ e.encode (utf8 t), b < 0x80 := by
    have hall : ∀ a : Alphabet, a = .std ∨ a = .url → ∀ c ∈ a.digits, c < 0x80 := by
      rintro a (rfl | rfl) <;> decide +kernel
    intro b hb
    rcases Base64.mem_encode _ hb with hdigit | rfl
    · exact hall _ h.alphabet b hdigit
    · decide
  rw [Cli.Lines.compact, Cli.Strings.chars_utf8]
  have hdigits : w.filter (fun c => c ∉ ['\n', '\r', ' ', '\t']) = App.inBase64 e (utf8 t) := by
    rw [← h.digits]
    refine List.filter_congr fun c _ => ?_
    simp only [List.mem_cons, List.not_mem_nil, or_false, decide_eq_decide]
    tauto
  rw [hdigits, App.inBase64, utf8_ofUInt8 hascii]

/-- The command line has the lines of the text. -/
theorem cli_eq (hmark : schemeMark <:+: t) :
    Cli.Lines.decodeBodyWith (utf8 w) none = trimmedLines (utf8 t) := by
  have htext : Cli.Lines.bodyText (utf8 w) none = utf8 t := by
    have hnone := contains_of_colon_notMem h.colon_notMem
    have hsome := contains_utf8 hmark
    rw [Cli.Lines.bodyText]
    change (if Cli.Lines.contains (utf8 w) (utf8 schemeMark) = true then _ else _) = _
    rw [hnone, if_neg Bool.false_ne_true, h.compact_eq]
    dsimp only [Option.bind_none]
    rw [tryBase64_encode h.alphabet h.ne_nil]
    exact if_pos hsome
  rw [Cli.Lines.decodeBodyWith, htext, trimmedLines]

end Wrapped

/-! ### The app -/

/-- What the readers ask of a digit. -/
structure IsDigit (a : Alphabet) (d : Nat) : Prop where
  gate : (symbolChar a d).isAlphanum = true ∨ symbolChar a d ∈ ['+', '/', '-', '_', '=']
  kept : Phone.isWhitespace (symbolChar a d) = false
  /-- A decoder for either alphabet reads the digit, or no digit. -/
  value : ∀ urlSafe, base64Symbol urlSafe (symbolChar a d) = none ∨
    base64Symbol urlSafe (symbolChar a d) = some d

instance (a : Alphabet) (d : Nat) : Decidable (IsDigit a d) :=
  decidable_of_iff (_ ∧ _ ∧ _) ⟨fun h => ⟨h.1, h.2.1, h.2.2⟩, fun h => ⟨h.1, h.2, h.3⟩⟩

theorem isDigit {a : Alphabet} (ha : a = .std ∨ a = .url) {d : Nat} (hd : d < 64) :
    IsDigit a d := by
  have hstd : ∀ d ∈ List.range 64, IsDigit .std d := by decide
  have hurl : ∀ d ∈ List.range 64, IsDigit .url d := by decide
  rcases ha with rfl | rfl
  · exact hstd d (List.mem_range.mpr hd)
  · exact hurl d (List.mem_range.mpr hd)

/-- A decoder for one alphabet reads the digits of a text, or refuses it. -/
theorem mapM_base64Symbol {a : Alphabet} (ha : a = .std ∨ a = .url) {ds : List Nat}
    (h : ∀ d ∈ ds, d < 64) (urlSafe : Bool) :
    (ds.map (symbolChar a)).mapM (base64Symbol urlSafe) = none ∨
      (ds.map (symbolChar a)).mapM (base64Symbol urlSafe) = some ds := by
  induction ds with
  | nil => exact .inr rfl
  | cons d ds ih =>
      obtain ⟨hd, hds⟩ := List.forall_mem_cons.mp h
      rw [List.map_cons, List.mapM_cons]
      rcases (isDigit ha hd).value urlSafe with hnone | hsome
      · exact .inl (by rw [hnone]; rfl)
      · rw [hsome]
        rcases ih hds with hnone | hsome
        · exact .inl (by rw [hnone]; rfl)
        · exact .inr (by rw [hsome]; rfl)

/-- One of the two decoders has the alphabet. -/
theorem exists_mapM_base64Symbol {a : Alphabet} (ha : a = .std ∨ a = .url) {ds : List Nat}
    (h : ∀ d ∈ ds, d < 64) :
    ∃ urlSafe, (ds.map (symbolChar a)).mapM (base64Symbol urlSafe) = some ds := by
  have hof : ∀ urlSafe, (∀ d ∈ List.range 64, base64Symbol urlSafe (symbolChar a d) = some d) →
      (ds.map (symbolChar a)).mapM (base64Symbol urlSafe) = some ds := by
    intro urlSafe hall
    rw [mapM_eq_some_iff, List.forall₂_map_left_iff, List.forall₂_same]
    exact fun d hd => hall d (List.mem_range.mpr (h d hd))
  rcases ha with rfl | rfl
  · exact ⟨false, hof false (by decide)⟩
  · exact ⟨true, hof true (by decide)⟩

namespace Wrapped

variable {e : Base64} {t w : Text} (h : Wrapped e t w)

include h

omit h in
theorem digits_eq :
    App.inBase64 e (utf8 t) = symbols e.alphabet (Base64.digits (utf8 t)) (e.fill (utf8 t)) :=
  App.inBase64_eq e (utf8 t)

omit h in
theorem forall_digits {p : Char → Prop} (hdigit : ∀ d < 64, p (symbolChar e.alphabet d))
    (hpad : p '=') : ∀ c ∈ App.inBase64 e (utf8 t), p c := by
  rw [digits_eq]
  refine List.forall_mem_append.mpr ⟨fun c hc => ?_, fun c hc => ?_⟩
  · obtain ⟨d, hd, rfl⟩ := List.mem_map.mp hc
    exact hdigit d (Base64.digits_lt _ d hd)
  · rwa [List.eq_of_mem_replicate hc]

/-- The check before decoding lets the digits pass. -/
theorem gate_eq : (App.inBase64 e (utf8 t)).all
    (fun c => c.isAlphanum || decide (c ∈ ['+', '/', '-', '_', '='])) = true := by
  rw [List.all_eq_true]
  refine forall_digits (fun d hd => ?_) (by decide)
  rw [Bool.or_eq_true, decide_eq_true_eq]
  exact (isDigit h.alphabet hd).gate

theorem base64Decode_eq (urlSafe : Bool) :
    base64Decode urlSafe (App.inBase64 e (utf8 t)) =
      (((Base64.digits (utf8 t)).map (symbolChar e.alphabet)).mapM (base64Symbol urlSafe)).bind
        App.base64Bytes := by
  rw [digits_eq, App.base64Decode_of_symbols h.alphabet (Base64.digits_lt _)]
  simp only [if_pos (App.fill_fits e (utf8 t))]

/-- The app has the text. -/
theorem app_eq (hmark : schemeMark <:+: t) : App.decodeBodyBase64 w = some t := by
  have hlt := Base64.digits_lt (utf8 t)
  have hcompact : w.filter (!App.isWhitespace ·) = App.inBase64 e (utf8 t) := by
    refine h.filter_isWhitespace (by decide) ?_
    rw [digits_eq]
    exact App.shown_symbols h.alphabet hlt _
  unfold App.decodeBodyBase64
  dsimp only
  rw [hcompact, if_neg (Nat.not_lt.mpr h.long), h.gate_eq, Bool.not_true, if_neg Bool.false_ne_true]
  cases hfound : [false, true].findSome? fun urlSafe =>
      ((base64Decode urlSafe (App.inBase64 e (utf8 t))).map App.decodeToString).filter
        (App.contains · (txt "://")) with
  | none =>
      obtain ⟨urlSafe, hsome⟩ := exists_mapM_base64Symbol h.alphabet hlt
      rw [List.findSome?_eq_none_iff] at hfound
      have hnone := hfound urlSafe (by cases urlSafe <;> decide)
      have hcontains : App.contains t (txt "://") = true := App.contains_of_part hmark
      rw [h.base64Decode_eq, hsome, Option.bind_some, App.base64Bytes_digits, Option.map_some,
        App.decodeToString_utf8, Option.filter_some, if_pos hcontains] at hnone
      cases hnone
  | some u =>
      obtain ⟨urlSafe, -, hu⟩ := List.exists_of_findSome?_eq_some hfound
      have hread := (Option.filter_eq_some_iff.mp hu).1
      rw [h.base64Decode_eq] at hread
      rcases mapM_base64Symbol h.alphabet hlt urlSafe with hnone | hsome
      · rw [hnone] at hread
        cases hread
      · rw [hsome, Option.bind_some, App.base64Bytes_digits, Option.map_some,
          App.decodeToString_utf8] at hread
        exact hread.symm

end Wrapped

/-! ### The phone -/

/-- The digits filled up to a whole quantum. -/
def refilled (t : Text) : Text := t ++ List.replicate ((4 - t.length % 4) % 4) '='

/-- Digits filled up already stay as they are. -/
theorem refilled_symbols (e : Base64) (b : Bytes) :
    refilled (symbols .std (Base64.digits b) (e.fill b)) = App.inBase64 ⟨.std, true⟩ b := by
  have hfull : (⟨.std, true⟩ : Base64).fill b = (3 - b.length % 3) % 3 := rfl
  rw [App.inBase64_eq, refilled, symbols, symbols, List.append_assoc,
    List.replicate_append_replicate, List.length_append, List.length_map, List.length_replicate,
    Base64.length_digits, hfull, Base64.fill]
  congr 2
  have hmod : b.length % 3 = 0 ∨ b.length % 3 = 1 ∨ b.length % 3 = 2 := by omega
  rcases hmod with hmod | hmod | hmod <;> rw [hmod] <;> split <;> omega

section

variable [SwiftText]

theorem infix_of_containsText {needle t : Text} {b : Option Char}
    (h : containsText needle b t = true) : needle <:+: t := by
  induction t generalizing b with
  | nil => cases h
  | cons c t ih =>
      rw [containsText, Bool.or_eq_true, Bool.and_eq_true, hasPrefix, Bool.and_eq_true,
        List.isPrefixOf_iff_prefix] at h
      rcases h with h | h
      · exact h.1.1.isInfix
      · exact (ih h).trans (List.suffix_cons c t).isInfix

/-- A text with a colon in it is not taken for Base64. -/
theorem decodeBody_of_colon {body : Text} (h : ':' ∈ body) : RoomList.decodeBody body = body := by
  have hkept : ':' ∈ body.filter (!Phone.isWhitespace ·) := List.mem_filter.mpr ⟨h, rfl⟩
  unfold RoomList.decodeBody
  split
  · rfl
  · dsimp only
    rw [if_pos]
    rw [Bool.or_eq_true, Bool.not_eq_true']
    exact .inr (List.all_eq_false.mpr ⟨':', hkept, by decide⟩)

/-- The tunnel has the text where it finds the mark of a link in it, and else the body. -/
theorem Wrapped.phone_eq {e : Base64} {t w : Text} (h : Wrapped e t w) (hreads : ReadsBase64) :
    RoomList.decodeBody w = if containsText schemeMark none t then t else w := by
  have hlt := Base64.digits_lt (utf8 t)
  have hcompact : w.filter (!Phone.isWhitespace ·) = App.inBase64 e (utf8 t) :=
    h.filter_isWhitespace (by decide)
      (forall_digits (fun d hd => (isDigit h.alphabet hd).kept) (by decide))
  have hclosed : containsText schemeMark none w = false := by
    rw [← Bool.not_eq_true]
    exact fun hmark => h.colon_notMem ((infix_of_containsText hmark).subset List.mem_cons_self)
  unfold RoomList.decodeBody
  change (if containsText schemeMark none w = true then _ else _) = _
  rw [hclosed, if_neg Bool.false_ne_true]
  dsimp only
  rw [hcompact, h.gate_eq, Bool.not_true, Bool.or_false, if_neg (by simpa using h.long)]
  change ((SwiftText.base64Decoded
    (refilled ((App.inBase64 e (utf8 t)).map App.standardChar))).filter
      (containsText schemeMark none)).getD w = _
  rw [digits_eq, App.standard_symbols h.alphabet hlt, refilled_symbols, hreads t,
    Option.filter_some]
  split <;> rfl

/-- The readers of a body see the same text exactly where the tunnel finds the mark of a link in
it. -/
theorem seenAlike_iff (hreads : ReadsBase64) {e : Base64} {t w : Text} (h : Wrapped e t w)
    (hmark : schemeMark <:+: t) :
    SeenAlike t w ∧ TakenAsIs ↔ containsText schemeMark none t = true := by
  constructor
  · rintro ⟨hseen, -⟩
    by_contra hfound
    have hphone := hseen.phone
    rw [h.phone_eq hreads, if_neg hfound] at hphone
    rw [← hphone] at hmark
    exact h.colon_notMem (hmark.subset List.mem_cons_self)
  · intro hfound
    refine ⟨⟨h.cli_eq hmark, h.app_eq hmark, ?_⟩, ?_, ?_⟩
    · rw [h.phone_eq hreads, if_pos hfound]
    · intro body hbody
      rw [Cli.Lines.decodeBodyWith, bodyText_self hbody, trimmedLines]
    · exact fun body hbody => decodeBody_of_colon (hbody.subset List.mem_cons_self)

end

/-! ### A mark behind the slashes -/

/-- Texts whose only combining scalars are the diacritical marks. -/
@[reducible] def markedText : SwiftText where
  combines c := 0x300 ≤ c.toNat && c.toNat ≤ 0x36F
  prepends _ := false
  canonical t := t
  lowercased := App.lowercase
  base64Decoded t := (base64Decode false t).map App.decodeToString

attribute [local instance] markedText

theorem markedText_reads : ReadsBase64 := by
  intro t
  change (base64Decode false _).map App.decodeToString = some t
  rw [App.inBase64_eq, App.base64Decode_symbols (Base64.digits_lt _),
    if_pos (App.fill_fits ⟨.std, true⟩ (utf8 t)), App.base64Bytes_digits, Option.map_some,
    App.decodeToString_utf8]

theorem seenAlike_link :
    SeenAlike (txt "vless://id@host") (txt "dmxlc3M6\nLy9pZEBob3N0") ∧ TakenAsIs :=
  (seenAlike_iff markedText_reads (e := ⟨.url, false⟩)
    ⟨.inr rfl, by decide, by decide⟩ ⟨txt "vless", txt "id@host", rfl⟩).mpr (by decide)

def markedLink : Text := txt "vless://\u0301id@host"

/-- The tunnel keeps the Base64 of a link with a mark behind its slashes. -/
theorem marked_link_unseen :
    ReadsBase64 ∧ ¬ ∀ (e : Base64) (t w : Text), Wrapped e t w → schemeMark <:+: t →
      SeenAlike t w ∧ TakenAsIs := by
  refine ⟨markedText_reads, fun hall => ?_⟩
  have hphone := (hall ⟨.std, true⟩ markedLink (App.inBase64 ⟨.std, true⟩ (utf8 markedLink))
    ⟨.inl rfl, by decide, by decide⟩ ⟨txt "vless", txt "\u0301id@host", rfl⟩).1.phone
  exact absurd hphone (by decide)

end Ghostlane.Across
