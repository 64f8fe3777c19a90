import Ghostlane.App.Decoding
import Ghostlane.App.Fetch
import Ghostlane.Cli.Crypt1

/-!
# Ghostlane.App.CryptCodec

The app's reader of encrypted links and bodies (`crypt/CryptCodec.kt`, `crypt/Base64Url.kt`), over
the primitives of `Cli.Crypt1`. Its Base64 is the strict one: it reads the two spellings that are
written of a string of bytes and no other text (`base64Decode_eq_some_iff`). So
`decryptBody_eq_some_iff` says which texts are opened, and `decrypt_undoes_encrypt` that those are
the ones the format's encryption gives.
-/

namespace Ghostlane.App.CryptCodec

open Ghostlane.Lib Cli.Crypt1

/-! ### The code -/

/-- `PlatformCrypto`. What the platforms make of no ciphertext at all is not the same. -/
class Platform extends Primitives where
  nothingDecrypted : Option Bytes

/-- `Base64Url.decode`. -/
def base64UrlDecode (s : Text) : Option Bytes :=
  (base64Decode true (trim s)).map (·.map UInt8.ofNat)

/-- `constantTimeEquals`. -/
def constantTimeEquals (a b : Bytes) : Bool :=
  a.length == b.length && (List.zipWith (· ^^^ ·) a b).foldl (· ||| ·) 0 == 0

/-- The padding that fills the last block up, taken off. -/
def unpadded (b : Bytes) : Option Bytes :=
  match b.getLast? with
  | none => none
  | some last =>
      let n := last.toNat
      if 0 < n ∧ n ≤ 16 ∧ n ≤ b.length ∧ b.drop (b.length - n) = List.replicate n last then
        some (b.take (b.length - n))
      else none

section

variable [Platform]

/-- `PlatformCrypto.aesCbcDecrypt`. -/
def aesCbcDecrypt (key : Key) (iv ciphertext : Bytes) : Option Bytes :=
  if ciphertext = [] then Platform.nothingDecrypted
  else if ciphertext.length % 16 ≠ 0 then none
  else unpadded (cbcBytes (Primitives.aes key) (Octets.ofBytes 16 iv) ciphertext)

def decryptBlob (master : Key) (blob : Text) : Option Bytes := do
  let raw ← base64UrlDecode blob
  if raw.length < 16 + 32 then none
  else
    let iv := raw.take 16
    let tag := raw.drop (raw.length - 32)
    let ct := (raw.take (raw.length - 32)).drop 16
    let expected := (Primitives.hmac (keys master).2 (iv ++ ct)).bytes
    if !constantTimeEquals expected tag then none
    else aesCbcDecrypt (keys master).1 iv ct

def decryptLink (master : Key) (text : Text) : Option Text :=
  if !startsWith (trim text) cryptLinkPrefix then none
  else (decryptBlob master (removePrefix (trim text) cryptLinkPrefix)).map fun b =>
    decodeToString (b.map UInt8.toNat)

def decryptBody (master : Key) (text : Text) : Option Text :=
  (decryptBlob master (trim text)).map fun b => decodeToString (b.map UInt8.toNat)

end

def decodeMaster (b64 : Text) : Option Key :=
  if isBlank b64 then none
  else
    let urlsafe := (trim b64).map fun c => if c = '+' then '-' else if c = '/' then '_' else c
    (base64UrlDecode urlsafe).bind fun bytes =>
      if bytes.length = 32 then some (Octets.ofBytes 32 bytes) else none

/-! ### Strict Base64 -/

theorem base64Symbol_ascii : ∀ n ∈ List.range 0x80, (base64Symbol true (Char.ofNat n)).all (fun d =>
    decide (d < 64) && symbolChar .url d == Char.ofNat n) = true := by
  decide +kernel

/-- A character with a value is the digit of that value. -/
theorem symbolChar_of_base64Symbol {c : Char} {d : Nat} (h : base64Symbol true c = some d) :
    d < 64 ∧ symbolChar .url d = c := by
  have hascii : c.toNat < 0x80 := by
    unfold base64Symbol at h
    by_contra hnot
    have hdash : c ≠ '-' ∧ c ≠ '_' := by
      constructor <;> rintro rfl <;> exact hnot (by decide)
    dsimp only at h
    rw [if_neg (by omega), if_neg (by omega), if_neg (by omega), if_neg (by simpa using hdash.1),
      if_neg (by simpa using hdash.2)] at h
    cases h
  have hread := base64Symbol_ascii c.toNat (List.mem_range.mpr hascii)
  rw [Char.ofNat_toNat, h] at hread
  simpa using hread

theorem map_symbolChar_of_mapM {t : Text} {ds : List Nat}
    (h : t.mapM (base64Symbol true) = some ds) :
    (∀ d ∈ ds, d < 64) ∧ t = ds.map (symbolChar .url) := by
  induction t generalizing ds with
  | nil =>
      obtain rfl := Option.some.inj h
      exact ⟨List.forall_mem_nil _, rfl⟩
  | cons c t ih =>
      rw [List.mapM_cons] at h
      obtain ⟨d, hd, h⟩ := Option.bind_eq_some_iff.mp h
      obtain ⟨rest, hrest, h⟩ := Option.bind_eq_some_iff.mp h
      obtain rfl := Option.some.inj h
      obtain ⟨hlt, hc⟩ := symbolChar_of_base64Symbol hd
      obtain ⟨hlts, ht⟩ := ih hrest
      exact ⟨List.forall_mem_cons.mpr ⟨hlt, hlts⟩, by rw [List.map_cons, hc, ← ht]⟩

/-- Digits whose last has no bits over are the digits of bytes. -/
theorem digits_of_base64Bytes {ds bs : List Nat} (hlt : ∀ d ∈ ds, d < 64)
    (h : base64Bytes ds = some bs) :
    ∃ b : Bytes, ds = Base64.digits b ∧ bs = b.map UInt8.toNat := by
  have hbyte : ∀ {n : Nat}, n < 256 → (UInt8.ofNat n).toNat = n := by
    intro n hn
    rw [UInt8.toNat_ofNat', Nat.mod_eq_of_lt hn]
  fun_induction base64Bytes ds generalizing bs with
  | case1 =>
      obtain rfl := Option.some.inj h
      exact ⟨[], rfl, rfl⟩
  | case2 => cases h
  | case3 a b hlow =>
      obtain rfl := Option.some.inj h
      simp only [List.forall_mem_cons] at hlt
      refine ⟨[UInt8.ofNat (a * 4 + b / 16)], ?_, ?_⟩
      · simp only [Base64.digits, firstDigit, secondDigit, UInt8.toNat_zero, List.cons.injEq,
          and_true]
        rw [hbyte (by omega)]
        omega
      · rw [List.map_singleton, hbyte (by omega)]
  | case4 => cases h
  | case5 a b c hlow =>
      obtain rfl := Option.some.inj h
      simp only [List.forall_mem_cons] at hlt
      refine ⟨[UInt8.ofNat (a * 4 + b / 16), UInt8.ofNat (b % 16 * 16 + c / 4)], ?_, ?_⟩
      · simp only [Base64.digits, firstDigit, secondDigit, thirdDigit, UInt8.toNat_zero,
          List.cons.injEq, and_true]
        rw [hbyte (by omega), hbyte (by omega)]
        omega
      · rw [List.map_cons, List.map_singleton, hbyte (by omega), hbyte (by omega)]
  | case6 => cases h
  | case7 a b c d rest ih =>
      simp only [List.forall_mem_cons] at hlt
      obtain ⟨bs', hbs', rfl⟩ := Option.map_eq_some_iff.mp h
      obtain ⟨bytes, rfl, rfl⟩ := ih hlt.2.2.2.2 hbs'
      refine ⟨UInt8.ofNat (a * 4 + b / 16) :: UInt8.ofNat (b % 16 * 16 + c / 4) ::
        UInt8.ofNat (c % 4 * 64 + d) :: bytes, ?_, ?_⟩
      · simp only [Base64.digits, firstDigit, secondDigit, thirdDigit, fourthDigit, List.cons.injEq,
          and_true]
        rw [hbyte (by omega), hbyte (by omega), hbyte (by omega)]
        omega
      · rw [List.map_cons, List.map_cons, List.map_cons, hbyte (by omega), hbyte (by omega),
          hbyte (by omega)]

theorem mapM_symbolChar {ds : List Nat} (hlt : ∀ d ∈ ds, d < 64) :
    (ds.map (symbolChar .url)).mapM (base64Symbol true) = some ds := by
  have hdigit : ∀ d ∈ List.range 64, base64Symbol true (symbolChar .url d) = some d := by decide
  rw [mapM_eq_some_iff, List.forall₂_map_left_iff, List.forall₂_same]
  exact fun d hd => hdigit d (List.mem_range.mpr (hlt d hd))

/-- **Strict Base64** reads what is written, with its padding or without, and nothing else. -/
theorem base64Decode_eq_some_iff {t : Text} {bs : List Nat} :
    base64Decode true t = some bs ↔
      ∃ padded b, t = inBase64 ⟨.url, padded⟩ b ∧ bs = b.map UInt8.toNat := by
  constructor
  · intro h
    rw [base64Decode] at h
    obtain ⟨ds, hds, h⟩ := Option.bind_eq_some_iff.mp h
    obtain ⟨hlt, hbody⟩ := map_symbolChar_of_mapM hds
    split at h
    · rename_i hpadding
      obtain ⟨b, rfl, rfl⟩ := digits_of_base64Bytes hlt h
      obtain ⟨padding, ht⟩ := List.takeWhile_prefix (p := (· != '=')) (l := t)
      have hdrop : t.drop (t.takeWhile (· != '=')).length = padding := by
        calc t.drop (t.takeWhile (· != '=')).length
            = (t.takeWhile (· != '=') ++ padding).drop (t.takeWhile (· != '=')).length := by rw [ht]
          _ = padding := List.drop_left
      have hlength := Base64.length_digits b
      have hcount : (t.takeWhile (· != '=')).length = (Base64.digits b).length := by
        rw [hbody, List.length_map]
      rw [hdrop, hcount] at hpadding
      rw [hbody] at ht
      refine ⟨!padding.isEmpty, b, ?_, rfl⟩
      rw [inBase64_eq, symbols, ← ht]
      -- the padding there is fills the last four up
      rcases hpadding with rfl | ⟨hmod, rfl⟩ | ⟨hmod, rfl⟩
      · rfl
      · have hfill : (Base64.fill ⟨.url, true⟩ b) = 2 := by
          simp only [Base64.fill, if_true]
          omega
        rw [show Base64.fill ⟨.url, !(['=', '='] : Text).isEmpty⟩ b = 2 from hfill]
        rfl
      · have hfill : (Base64.fill ⟨.url, true⟩ b) = 1 := by
          simp only [Base64.fill, if_true]
          omega
        rw [show Base64.fill ⟨.url, !(['='] : Text).isEmpty⟩ b = 1 from hfill]
        rfl
    · cases h
  · rintro ⟨padded, b, rfl, rfl⟩
    rw [inBase64_eq, base64Decode_of_symbols (.inr rfl) (Base64.digits_lt b),
      mapM_symbolChar (Base64.digits_lt b), Option.bind_some, if_pos (fill_fits _ b),
      base64Bytes_digits]

theorem base64UrlDecode_eq_some_iff {s : Text} {raw : Bytes} :
    base64UrlDecode s = some raw ↔ ∃ padded, trim s = inBase64 ⟨.url, padded⟩ raw := by
  have hback : ∀ b : Bytes, (b.map UInt8.toNat).map UInt8.ofNat = b := by
    intro b
    rw [List.map_map]
    exact (List.map_congr_left fun x _ => UInt8.ofNat_toNat).trans (List.map_id b)
  unfold base64UrlDecode
  constructor
  · intro h
    obtain ⟨bs, hbs, rfl⟩ := Option.map_eq_some_iff.mp h
    obtain ⟨padded, b, ht, rfl⟩ := base64Decode_eq_some_iff.mp hbs
    exact ⟨padded, by rw [ht, hback]⟩
  · rintro ⟨padded, ht⟩
    rw [base64Decode_eq_some_iff.mpr ⟨padded, raw, ht, rfl⟩, Option.map_some, hback]

/-! ### Equality in constant time -/

theorem foldl_or_eq_zero {xs : List UInt8} {x : UInt8} :
    xs.foldl (· ||| ·) x = 0 ↔ x = 0 ∧ ∀ y ∈ xs, y = 0 := by
  induction xs generalizing x with
  | nil => simp
  | cons y xs ih =>
      rw [List.foldl_cons, ih, UInt8.or_eq_zero_iff, and_assoc, List.forall_mem_cons]

theorem constantTimeEquals_iff {a b : Bytes} : constantTimeEquals a b = true ↔ a = b := by
  rw [constantTimeEquals, Bool.and_eq_true, beq_iff_eq, beq_iff_eq, foldl_or_eq_zero]
  constructor
  · rintro ⟨hlen, -, hzero⟩
    induction a generalizing b with
    | nil => exact (List.length_eq_zero_iff.mp hlen.symm).symm
    | cons x a ih =>
        cases b with
        | nil => cases hlen
        | cons y b =>
            rw [List.zipWith_cons_cons, List.forall_mem_cons] at hzero
            rw [UInt8.xor_eq_zero_iff.mp hzero.1, ih (by simpa using hlen) hzero.2]
  · rintro rfl
    refine ⟨rfl, rfl, ?_⟩
    intro y hy
    obtain ⟨i, hi, rfl⟩ := List.mem_iff_getElem.mp hy
    simp

/-! ### What is opened -/

theorem unpadded_eq_some_iff {b p : Bytes} (h : 16 ∣ b.length) :
    unpadded b = some p ↔ b = pkcs7 16 p := by
  constructor
  · intro hread
    unfold unpadded at hread
    split at hread
    · cases hread
    · rename_i last hlast
      dsimp only at hread
      split at hread
      · rename_i hpad
        obtain ⟨hpos, hle, hlen, hdrop⟩ := hpad
        obtain rfl := Option.some.inj hread
        have hsplit := List.take_append_drop (b.length - last.toNat) b
        rw [hdrop] at hsplit
        have hcount : (b.take (b.length - last.toNat)).length + last.toNat = b.length := by
          rw [List.length_take_of_le (by omega)]
          omega
        have hfill := eq_fill hpos hle (p := b.take (b.length - last.toNat)) (by rwa [hcount])
        rw [pkcs7, ← hfill, UInt8.ofNat_toNat, hsplit]
      · cases hread
  · rintro rfl
    obtain ⟨hpos, hle⟩ := fill_bounds (n := 16) (by decide) p
    obtain ⟨init, hinit⟩ := last_pkcs7 p
    have hlast : (pkcs7 16 p).getLast? = some (UInt8.ofNat (fill 16 p)) := by
      rw [hinit, List.getLast?_concat]
    have hlength : (pkcs7 16 p).length - fill 16 p = p.length := by
      rw [length_pkcs7]
      omega
    unfold unpadded
    rw [hlast]
    dsimp only
    rw [toNat_fill, hlength]
    have htake : (pkcs7 16 p).take p.length = p := List.take_left
    have hdrop : (pkcs7 16 p).drop p.length =
        List.replicate (fill 16 p) (UInt8.ofNat (fill 16 p)) :=
      List.drop_left
    rw [htake, hdrop, if_pos ⟨hpos, hle, by rw [length_pkcs7]; omega, rfl⟩]

section

variable [Platform]

/-- What a string of bytes opens to: what is sealed in it, or with no ciphertext at all what the
platform makes of none. -/
def Opens (master : Key) (raw p : Bytes) : Prop :=
  Sealed master raw p ∨
    Platform.nothingDecrypted = some p ∧
      ∃ iv : Octets 16, raw = iv.bytes ++ (Primitives.hmac (macKeyOf master) iv.bytes).bytes

/-- What becomes of the three parts of a string. -/
theorem decryptBlob_of_parts {master : Key} {blob : Text} {iv : Octets 16} {ct : Bytes}
    {tag : Octets 32} (hraw : base64UrlDecode blob = some (iv.bytes ++ (ct ++ tag.bytes))) :
    decryptBlob master blob =
      if (Primitives.hmac (macKeyOf master) (iv.bytes ++ ct)).bytes = tag.bytes then
        aesCbcDecrypt (encKeyOf master) iv.bytes ct
      else none := by
  have hlength : (iv.bytes ++ (ct ++ tag.bytes)).length = 48 + ct.length := by
    simp only [List.length_append, Octets.length_bytes]
    omega
  have hkept : (iv.bytes ++ (ct ++ tag.bytes)).length - 32 = (iv.bytes ++ ct).length := by
    rw [hlength, List.length_append, Octets.length_bytes]
    omega
  have hiv : (iv.bytes ++ (ct ++ tag.bytes)).take 16 = iv.bytes := by
    have hleft := @List.take_left _ iv.bytes (ct ++ tag.bytes)
    rwa [Octets.length_bytes] at hleft
  have htag : (iv.bytes ++ (ct ++ tag.bytes)).drop (iv.bytes ++ ct).length = tag.bytes := by
    rw [← List.append_assoc, List.drop_left]
  have hct : ((iv.bytes ++ (ct ++ tag.bytes)).take (iv.bytes ++ ct).length).drop 16 = ct := by
    rw [← List.append_assoc, List.take_left]
    have hleft := @List.drop_left _ iv.bytes ct
    rwa [Octets.length_bytes] at hleft
  rw [decryptBlob, hraw]
  simp only [Option.bind_eq_bind, Option.bind_some, hkept, hiv, htag, hct, keys_eq]
  rw [if_neg (by omega)]
  by_cases hequal : (Primitives.hmac (macKeyOf master) (iv.bytes ++ ct)).bytes = tag.bytes
  · rw [constantTimeEquals_iff.mpr hequal, if_pos hequal]
    rfl
  · have hdiffer := Bool.eq_false_iff.mpr (mt constantTimeEquals_iff.mp hequal)
    rw [hdiffer, if_neg hequal]
    rfl

omit [Platform] in
/-- A string that is long enough comes apart into the three parts. -/
theorem exists_parts_of_le {raw : Bytes} (h : 48 ≤ raw.length) :
    ∃ (iv : Octets 16) (ct : Bytes) (tag : Octets 32), raw = iv.bytes ++ (ct ++ tag.bytes) := by
  obtain ⟨iv, hiv⟩ := Octets.exists_bytes_eq (n := 16) (b := raw.take 16) (by
    rw [List.length_take]; omega)
  obtain ⟨tag, htag⟩ :=
    Octets.exists_bytes_eq (n := 32) (b := (raw.drop 16).drop (raw.length - 48)) (by
      rw [List.length_drop, List.length_drop]; omega)
  exact ⟨iv, (raw.drop 16).take (raw.length - 48), tag, by
    rw [hiv, htag, List.take_append_drop, List.take_append_drop]⟩

theorem aesCbcDecrypt_eq_some_iff {key : Key} {iv : Octets 16} {ct p : Bytes} :
    aesCbcDecrypt key iv.bytes ct = some p ↔
      (ct = [] ∧ Platform.nothingDecrypted = some p) ∨
        (ct ≠ [] ∧ 16 ∣ ct.length ∧ cbcBytes (Primitives.aes key) iv ct = pkcs7 16 p) := by
  have hiv := Octets.ofBytes_bytes_append iv []
  rw [List.append_nil] at hiv
  unfold aesCbcDecrypt
  by_cases hnil : ct = []
  · simp [hnil]
  · rw [if_neg hnil, hiv]
    by_cases hdvd : 16 ∣ ct.length
    · rw [if_neg (not_not.mpr (Nat.mod_eq_zero_of_dvd hdvd)),
        unpadded_eq_some_iff (by rwa [length_cbcBytes hdvd])]
      simp [hnil, hdvd]
    · rw [if_pos (mt Nat.dvd_of_mod_eq_zero hdvd)]
      simp [hnil, hdvd]

/-- A blob is opened exactly where it is the strict Base64 of what opens. -/
theorem decryptBlob_eq_some_iff {master : Key} {blob : Text} {p : Bytes} :
    decryptBlob master blob = some p ↔
      ∃ padded raw, trim blob = inBase64 ⟨.url, padded⟩ raw ∧ Opens master raw p := by
  constructor
  · intro h
    cases hraw : base64UrlDecode blob with
    | none =>
        rw [decryptBlob, hraw] at h
        cases h
    | some raw =>
        obtain ⟨padded, hblob⟩ := base64UrlDecode_eq_some_iff.mp hraw
        by_cases hshort : raw.length < 48
        · rw [decryptBlob, hraw] at h
          simp only [Option.bind_eq_bind, Option.bind_some] at h
          rw [if_pos (by omega)] at h
          cases h
        · obtain ⟨iv, ct, tag, rfl⟩ := exists_parts_of_le (Nat.le_of_not_lt hshort)
          rw [decryptBlob_of_parts hraw] at h
          split at h
          · rename_i htag
            refine ⟨padded, _, hblob, ?_⟩
            rw [← htag]
            rcases aesCbcDecrypt_eq_some_iff.mp h with ⟨rfl, hnothing⟩ | ⟨hne, hdvd, hplain⟩
            · exact .inr ⟨hnothing, iv, by rw [List.append_nil, List.nil_append]⟩
            · exact .inl ⟨iv, ct, hne, hdvd, rfl, hplain⟩
          · cases h
  · rintro ⟨padded, raw, hblob, hopens⟩
    have hraw := base64UrlDecode_eq_some_iff.mpr ⟨padded, hblob⟩
    rcases hopens with ⟨iv, ct, hne, hdvd, rfl, hplain⟩ | ⟨hnothing, iv, rfl⟩
    · rw [decryptBlob_of_parts hraw, if_pos rfl]
      exact aesCbcDecrypt_eq_some_iff.mpr (.inr ⟨hne, hdvd, hplain⟩)
    · have hparts : base64UrlDecode blob = some (iv.bytes ++ ([] ++
          (Primitives.hmac (macKeyOf master) iv.bytes).bytes)) := hraw
      rw [decryptBlob_of_parts hparts, List.append_nil, if_pos rfl]
      exact aesCbcDecrypt_eq_some_iff.mpr (.inl ⟨rfl, hnothing⟩)

omit [Platform] in
theorem trim_inBase64 {e : Base64} (he : e.alphabet = .std ∨ e.alphabet = .url) (b : Bytes) :
    trim (inBase64 e b) = inBase64 e b := by
  rw [inBase64_eq]
  exact trimBy_of_forall (shown_symbols he (Base64.digits_lt b) _)

omit [Platform] in
theorem inBase64_ne_nil (e : Base64) {b : Bytes} (h : 0 < b.length) : inBase64 e b ≠ [] := by
  have hlength := Base64.length_digits b
  rw [inBase64_eq, symbols, ne_eq, List.append_eq_nil_iff, List.map_eq_nil_iff,
    ← List.length_eq_zero_iff]
  omega

theorem decryptBody_eq_some_iff {master : Key} {text out : Text} :
    decryptBody master text = some out ↔
      ∃ padded raw p, trim text = inBase64 ⟨.url, padded⟩ raw ∧ Opens master raw p ∧
        decodeToString (p.map UInt8.toNat) = out := by
  rw [decryptBody, Option.map_eq_some_iff]
  constructor
  · rintro ⟨p, hp, hout⟩
    obtain ⟨padded, raw, htext, hopens⟩ := decryptBlob_eq_some_iff.mp hp
    rw [trim_trim] at htext
    exact ⟨padded, raw, p, htext, hopens, hout⟩
  · rintro ⟨padded, raw, p, htext, hopens, hout⟩
    refine ⟨p, decryptBlob_eq_some_iff.mpr ⟨padded, raw, ?_, hopens⟩, hout⟩
    rw [trim_trim, htext]

/-- A link is opened as the blob behind its marker is. -/
theorem decryptLink_append {master : Key} {blob : Text} (hblob : trim blob = blob)
    (hne : blob ≠ []) :
    decryptLink master (cryptLinkPrefix ++ blob) = decryptBody master blob := by
  have htrim : trim (cryptLinkPrefix ++ blob) = cryptLinkPrefix ++ blob := by
    refine trimBy_eq_self ?_ ?_
    · intro c hc
      obtain rfl : 'o' = c := Option.some.inj hc
      decide
    · intro c hc
      rw [List.getLast?_append_of_ne_nil _ hne, ← hblob] at hc
      exact getLast?_trimBy c hc
  have hstarts : startsWith (cryptLinkPrefix ++ blob) cryptLinkPrefix = true :=
    List.isPrefixOf_iff_prefix.mpr (List.prefix_append _ _)
  rw [decryptLink, htrim, hstarts, Bool.not_true, if_neg Bool.false_ne_true, removePrefix, hstarts,
    if_pos rfl, List.drop_left, decryptBody, hblob]

/-- **What the app opens.** A body is opened exactly where it is the Base64, url-safe and strict, of
what is sealed with the key; and what the format's encryption gives is opened to the text that was
encrypted, as a body and as a link. -/
theorem decrypt_undoes_encrypt (master : Key) :
    (∀ text out, decryptBody master text = some out ↔
      ∃ padded raw p, trim text = inBase64 ⟨.url, padded⟩ raw ∧ Opens master raw p ∧
        decodeToString (p.map UInt8.toNat) = out) ∧
      ∀ padded iv plain,
        (∀ body, trim body = inBase64 ⟨.url, padded⟩ (encrypt master iv (utf8 plain)) →
          decryptBody master body = some plain) ∧
        decryptLink master
          (cryptLinkPrefix ++ inBase64 ⟨.url, padded⟩ (encrypt master iv (utf8 plain))) =
          some plain := by
  have hbody : ∀ padded iv plain body, trim body =
      inBase64 ⟨.url, padded⟩ (encrypt master iv (utf8 plain)) →
      decryptBody master body = some plain := by
    intro padded iv plain body hbody
    exact decryptBody_eq_some_iff.mpr ⟨padded, _, utf8 plain, hbody,
      .inl (sealed_encrypt master iv (utf8 plain)),
      decodeToString_utf8 plain⟩
  refine ⟨fun text out => decryptBody_eq_some_iff,
    fun padded iv plain => ⟨hbody padded iv plain, ?_⟩⟩
  have htrim := trim_inBase64 (e := ⟨.url, padded⟩) (.inr rfl) (encrypt master iv (utf8 plain))
  have hne : inBase64 ⟨.url, padded⟩ (encrypt master iv (utf8 plain)) ≠ [] := by
    refine inBase64_ne_nil _ ?_
    rw [encrypt, List.length_append, Octets.length_bytes]
    omega
  rw [decryptLink_append htrim hne]
  exact hbody padded iv plain _ htrim

/-- A build with a key reads links and bodies by it. -/
theorem build_with_key [Build] {master : Key} (hkey : Build.cryptCodec = some fun blob =>
      (decryptBlob master blob).map fun b => decodeToString (b.map UInt8.toNat)) :
    (∀ text, App.decryptLink text = decryptLink master text) ∧
      ∀ url content, contains url (txt "crypt=1") = true →
        bodyOf url content =
          (decryptBody master (normalizedImportText content)).getD
            (normalizedImportText content) := by
  constructor
  · intro text
    rw [App.decryptLink, decryptLink, isCryptLink, hkey, Option.bind_some]
    cases startsWith (trim text) cryptLinkPrefix with
    | true => rw [if_pos rfl, Bool.not_true, if_neg Bool.false_ne_true]
    | false => rw [if_neg Bool.false_ne_true, Bool.not_false, if_pos rfl]
  · intro url content hmarked
    rw [bodyOf, if_pos hmarked, hkey, Option.bind_some, decryptBody]

end

end Ghostlane.App.CryptCodec
