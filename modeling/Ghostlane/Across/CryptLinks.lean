import Ghostlane.App.CryptCodec
import Ghostlane.Lib.Fields

/-!
# Ghostlane.Across.CryptLinks

Encrypted lists as the command line and the app read them. Both are written to one format, and the
app is the stricter reader: what it opens the command line opens to the same bytes, and the command
line alone opens the other alphabet, a broken line and a last digit with bits over
(`app_opens_iff`). A key is the same to both, however it is spelt (`same_key`).
-/

namespace Ghostlane.Across

open Ghostlane.Lib Cli.Crypt1
open Ghostlane.App (inBase64 symbols symbolChar trim)
open Ghostlane.App.CryptCodec

/-- Base64 is ASCII. -/
theorem utf8_inBase64 {e : Base64} (he : e.alphabet = .std ∨ e.alphabet = .url) (b : Bytes) :
    utf8 (inBase64 e b) = e.encode b := by
  have hall : ∀ a : Alphabet, a = .std ∨ a = .url → ∀ c ∈ a.digits, c < 0x80 := by
    rintro a (rfl | rfl)
    · decide +kernel
    · decide +kernel
  apply utf8_ofUInt8
  intro x hx
  rcases Base64.mem_encode _ hx with hdigit | rfl
  · exact hall _ he x hdigit
  · decide

/-- What is written url-safe is in Base64 to the command line. -/
theorem isBase64_inBase64 (padded : Bool) (b : Bytes) :
    IsBase64 (utf8 (inBase64 ⟨.url, padded⟩ b)) b := by
  rw [utf8_inBase64 (.inr rfl)]
  cases padded with
  | true => exact ⟨.url, Base64.decode_encode ⟨.url, true⟩ b⟩
  | false => exact ⟨.rawUrl, Base64.decode_encode ⟨.url, false⟩ b⟩

section

variable [Platform]

/-- **What the app opens the command line opens.** With the same blanks around it for both, the app
opens a blob exactly where the command line does and the blob is spelt as an encoder spells it, in
the url-safe alphabet; but for a blob without a ciphertext, which is nothing to the command line. -/
theorem app_opens_iff (master : Key) {blob : Text}
    (hblank : Cli.Strings.trimSpace (utf8 blob) = utf8 (trim blob)) (p : Bytes) :
    decryptBlob master blob = some p ↔
      (decrypt master (utf8 blob) = .ok (some p) ∧
        ∃ padded raw, trim blob = inBase64 ⟨.url, padded⟩ raw) ∨
        (Platform.nothingDecrypted = some p ∧ ∃ padded, ∃ iv : Octets 16, trim blob =
          inBase64 ⟨.url, padded⟩
            (iv.bytes ++ (Primitives.hmac (macKeyOf master) iv.bytes).bytes)) := by
  rw [decryptBlob_eq_some_iff]
  constructor
  · rintro ⟨padded, raw, htext, hsealed | ⟨hnothing, iv, rfl⟩⟩
    · left
      refine ⟨decrypt_eq_some_iff.mpr ⟨raw, ?_, hsealed⟩, padded, raw, htext⟩
      rw [hblank, htext]
      exact isBase64_inBase64 padded raw
    · exact .inr ⟨hnothing, padded, iv, htext⟩
  · rintro (⟨hopened, padded, raw, htext⟩ | ⟨hnothing, padded, iv, htext⟩)
    · obtain ⟨raw', hraw', hsealed⟩ := decrypt_eq_some_iff.mp hopened
      rw [hblank, htext] at hraw'
      obtain rfl := hraw'.unique (isBase64_inBase64 padded raw)
      exact ⟨padded, raw', htext, .inl hsealed⟩
    · exact ⟨padded, _, htext, .inr ⟨hnothing, iv, rfl⟩⟩

end

/-- Primitives that hide nothing. -/
@[reducible] def openPlatform : Platform where
  sha256 _ _ := 0
  hmac _ _ _ := 0
  aes _ := Equiv.refl _
  nothingDecrypted := none

attribute [local instance] openPlatform

/-- A list's address, encrypted. -/
def encryptedAddress : Text :=
  inBase64 ⟨.url, false⟩
    (encrypt (fun _ => 7) (fun _ => 9) (utf8 (txt "https://lists.example.org/s")))

theorem app_opens_encryptedAddress :
    decrypt (fun _ => 7) (utf8 encryptedAddress) =
      .ok (some (utf8 (txt "https://lists.example.org/s"))) := by
  have htrim : trim encryptedAddress = encryptedAddress := trim_inBase64 (.inr rfl) _
  have hblank : Cli.Strings.trimSpace (utf8 encryptedAddress) = utf8 (trim encryptedAddress) := by
    rw [htrim, encryptedAddress, utf8_inBase64 (.inr rfl)]
    exact trimSpace_encode .rawUrl _
  have hopened : decryptBlob (fun _ => 7) encryptedAddress =
      some (utf8 (txt "https://lists.example.org/s")) :=
    decryptBlob_eq_some_iff.mpr ⟨false, _, htrim, .inl (sealed_encrypt _ _ _)⟩
  rcases (app_opens_iff (fun _ => 7) hblank _).mp hopened with h | ⟨hnothing, -⟩
  · exact h.1
  · cases hnothing

/-- Either alphabet, in the url-safe one. -/
def urlChar (c : Char) : Char := if c = '+' then '-' else if c = '/' then '_' else c

theorem map_urlChar {e : Base64} (he : e.alphabet = .std ∨ e.alphabet = .url) (b : Bytes) :
    (inBase64 e b).map urlChar = inBase64 ⟨.url, e.padded⟩ b := by
  have hdigit : ∀ a : Alphabet, a = .std ∨ a = .url → ∀ d ∈ List.range 64,
      urlChar (symbolChar a d) = symbolChar .url d := by
    rintro a (rfl | rfl)
    · decide +kernel
    · decide +kernel
  rw [App.inBase64_eq, App.inBase64_eq, symbols, symbols, List.map_append, List.map_map,
    List.map_replicate]
  congr 1
  exact List.map_congr_left fun d hd => hdigit _ he d (List.mem_range.mpr (Base64.digits_lt b d hd))

/-- **A key is the same to both**, in either alphabet, padded or not. -/
theorem same_key (e : Encoding) (k : Key) :
    parseKey (e.base64.encode k.bytes) = some k ∧
      decodeMaster (inBase64 e.base64 k.bytes) = some k := by
  refine ⟨parseKey_encode e k, ?_⟩
  have hlength : k.bytes.length = 32 := Octets.length_bytes k
  have hback := Octets.ofBytes_bytes_append k []
  rw [List.append_nil] at hback
  have htrim := trim_inBase64 e.alphabet k.bytes
  have hshown : App.isBlank (inBase64 e.base64 k.bytes) = false := by
    rw [Bool.eq_false_iff, ne_eq, ← App.trim_eq_nil_iff, htrim]
    exact inBase64_ne_nil _ (by omega)
  have hraw : base64UrlDecode ((inBase64 e.base64 k.bytes).map urlChar) = some k.bytes :=
    base64UrlDecode_eq_some_iff.mpr ⟨e.base64.padded, by
      rw [map_urlChar e.alphabet]
      exact trim_inBase64 (.inr rfl) k.bytes⟩
  have hread : decodeMaster (inBase64 e.base64 k.bytes) =
      (base64UrlDecode ((trim (inBase64 e.base64 k.bytes)).map urlChar)).bind fun bytes =>
        if bytes.length = 32 then some (Octets.ofBytes 32 bytes) else none := by
    rw [decodeMaster, hshown]
    rfl
  rw [hread, htrim, hraw, Option.bind_some, if_pos hlength, hback]

end Ghostlane.Across
