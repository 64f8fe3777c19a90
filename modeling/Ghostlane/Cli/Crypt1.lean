import Ghostlane.Cli.Strings
import Ghostlane.Lib.Base64
import Ghostlane.Lib.BlockCipher
import Ghostlane.Lib.Outcomes

/-!
# Ghostlane.Cli.Crypt1

The app's encrypted links and bodies (`internal/crypt1/crypt1.go`): base64 of an
initialisation vector, a ciphertext and a tag over both. `Primitives` stands for the
cryptography behind them.

Taking a part of a string and reading one of its bytes panic outside it, and so does
decrypting a part of a block; `Decrypt` comes to none of that (`decrypt_isOk`).
-/

namespace Ghostlane.Cli.Crypt1

open Ghostlane.Lib

abbrev Key := Octets 32

/-- AES-256 is a permutation of the blocks for each key, and nothing more is said of it. -/
class Primitives where
  sha256 : Bytes → Octets 32
  hmac : Key → Bytes → Octets 32
  aes : Key → Equiv.Perm (Octets 16)

/-! ### Where Go panics -/

inductive Panic
  | indexOutOfRange
  | sliceOutOfRange
  | notFullBlocks
  deriving DecidableEq, Repr

/-- `b[i]`. -/
def index (b : Bytes) (i : Int) : Except Panic UInt8 :=
  if 0 ≤ i ∧ i < b.length then .ok (b.getD i.toNat 0) else .error .indexOutOfRange

/-- `b[lo:hi]`. What lies behind the end of `b` in memory is outside it here. -/
def slice (b : Bytes) (lo hi : Int) : Except Panic Bytes :=
  if 0 ≤ lo ∧ lo ≤ hi ∧ hi ≤ b.length then .ok ((b.take hi.toNat).drop lo.toNat)
  else .error .sliceOutOfRange

/-! ### The code -/

def linkPrefix : Bytes := ascii "olcrtc://crypt1/"

def ivLen : Nat := 16
def tagLen : Nat := 32
/-- `aes.BlockSize`. -/
def blockSize : Nat := 16

def isLink (s : Bytes) : Bool := Bytes.starts s linkPrefix

/-- The four decoders of `encoding/base64`, in the order they are tried. -/
inductive Encoding
  | rawUrl
  | url
  | rawStd
  | std
  deriving DecidableEq, Repr

def Encoding.base64 : Encoding → Base64
  | rawUrl => ⟨.url, false⟩
  | url => ⟨.url, true⟩
  | rawStd => ⟨.std, false⟩
  | std => ⟨.std, true⟩

def encodings : List Encoding := [.rawUrl, .url, .rawStd, .std]

def decodeBase64 (s : Bytes) : Option Bytes :=
  if s = [] then none else encodings.findSome? fun e => e.base64.decode s

def unpad (b : Bytes) : Except Panic (Option Bytes) := do
  if b.length = 0 then return none
  let n := (← index b (b.length - 1)).toNat
  if n = 0 ∨ n > blockSize ∨ n > b.length then return none
  if (← slice b (b.length - n) b.length).any (·.toNat ≠ n) then return none
  return some (← slice b 0 (b.length - n))

/-- `NewCBCDecrypter(block, iv).CryptBlocks`. -/
def cryptBlocks (block : Equiv.Perm (Octets 16)) (iv src : Bytes) : Except Panic Bytes :=
  if iv.length ≠ blockSize ∨ src.length % blockSize ≠ 0 then .error .notFullBlocks
  else
    .ok <| Octets.flat <| cbcDecrypt Octets.xor block (Octets.ofBytes 16 iv)
      (Octets.cutInto 16 (src.length / blockSize) src)

section

variable [Primitives]

/-- The keys of encryption and of the tag. -/
def keys (master : Key) : Key × Key :=
  (Primitives.sha256 (ascii "olcrtc-crypt-v1-enc" ++ master.bytes),
    Primitives.sha256 (ascii "olcrtc-crypt-v1-mac" ++ master.bytes))

/-- `Decrypt`; nothing where it returns false. -/
def decrypt (master : Key) (blob : Bytes) : Except Panic (Option Bytes) :=
  match decodeBase64 (Strings.trimSpace blob) with
  | none => return none
  | some raw => do
      if raw.length < ivLen + blockSize + tagLen then return none
      let iv ← slice raw 0 ivLen
      let ct ← slice raw ivLen (raw.length - tagLen)
      let tag ← slice raw (raw.length - tagLen) raw.length
      if ct.length % blockSize ≠ 0 then return none
      let (encKey, macKey) := keys master
      if (Primitives.hmac macKey (iv ++ ct)).bytes ≠ tag then return none
      let plain ← cryptBlocks (Primitives.aes encKey) iv ct
      unpad plain

def decryptLink (master : Key) (link : Bytes) : Except Panic (Option Bytes) :=
  if isLink link then decrypt master (link.drop linkPrefix.length) else return none

/-- `ParseKey`. -/
def parseKey (s : Bytes) : Option Key :=
  match decodeBase64 (Strings.trimSpace s) with
  | none => none
  | some raw => if raw.length = 32 then some (Octets.ofBytes 32 raw) else none

end

/-! ### Inside the string -/

theorem index_last {b : Bytes} {x : UInt8} : index (b ++ [x]) ((b ++ [x]).length - 1) = .ok x := by
  have hlength : ((b ++ [x]).length : Int) - 1 = b.length := by
    rw [List.length_append, List.length_singleton]
    omega
  rw [hlength, index, if_pos ⟨by omega, by rw [List.length_append, List.length_singleton]; omega⟩]
  simp

/-- The middle of three parts. -/
theorem slice_append (a b c : Bytes) {lo hi : Int} (hlo : lo = a.length)
    (hhi : hi = a.length + b.length) : slice (a ++ (b ++ c)) lo hi = .ok b := by
  have hbounds : 0 ≤ lo ∧ lo ≤ hi ∧ hi ≤ (a ++ (b ++ c)).length := by
    rw [List.length_append, List.length_append]
    omega
  have hto : hi.toNat = (a ++ b).length := by
    rw [List.length_append]
    omega
  rw [slice, if_pos hbounds, ← List.append_assoc, hto, List.take_left, hlo, Int.toNat_natCast,
    List.drop_left]

/-! ### Base64 of a string -/

/-- The text is base64 of the bytes, url-safe or standard, padded or not. -/
def IsBase64 (s raw : Bytes) : Prop := ∃ e : Encoding, e.base64.decode s = some raw

theorem mem_encodings (e : Encoding) : e ∈ encodings := by
  cases e <;> decide

theorem Encoding.alphabet (e : Encoding) :
    e.base64.alphabet = .std ∨ e.base64.alphabet = .url := by
  cases e
  · exact .inr rfl
  · exact .inr rfl
  · exact .inl rfl
  · exact .inl rfl

/-- A text is base64 of one string at most. -/
theorem IsBase64.unique {s raw raw' : Bytes} (h : IsBase64 s raw) (h' : IsBase64 s raw') :
    raw = raw' := by
  obtain ⟨e, he⟩ := h
  obtain ⟨e', he'⟩ := h'
  exact Base64.quanta_agree (fun c n n' => Alphabet.value_agree e.alphabet e'.alphabet) _ he he'

/-- The decoders come to the string the text is base64 of. -/
theorem decodeBase64_eq_some_iff {s raw : Bytes} :
    decodeBase64 s = some raw ↔ s ≠ [] ∧ IsBase64 s raw := by
  unfold decodeBase64
  by_cases hs : s = []
  · simp [hs]
  · rw [if_neg hs]
    constructor
    · intro h
      obtain ⟨e, -, he⟩ := List.exists_of_findSome?_eq_some h
      exact ⟨hs, e, he⟩
    · rintro ⟨-, h⟩
      obtain ⟨e, he⟩ := h
      cases hfound : encodings.findSome? fun e => e.base64.decode s with
      | none =>
          rw [List.findSome?_eq_none_iff] at hfound
          rw [hfound e (mem_encodings e)] at he
          cases he
      | some raw' =>
          obtain ⟨e', -, he'⟩ := List.exists_of_findSome?_eq_some hfound
          rw [IsBase64.unique ⟨e', he'⟩ ⟨e, he⟩]

/-- Base64 begins and ends with no white space. -/
theorem trimSpace_encode (e : Encoding) (b : Bytes) :
    Strings.trimSpace (e.base64.encode b) = e.base64.encode b := by
  refine Strings.trimSpace_of_forall fun x hx => ?_
  have hall : ∀ a : Alphabet, a = .std ∨ a = .url → ∀ c ∈ a.digits,
      c < 0x80 ∧ isSpace (Char.ofUInt8 c) = false := by
    rintro a (rfl | rfl)
    · decide +kernel
    · decide +kernel
  rcases Base64.mem_encode _ hx with hdigit | rfl
  · exact hall _ e.alphabet x hdigit
  · decide

/-- A key is read back from any of its spellings. -/
theorem parseKey_encode (e : Encoding) (k : Key) : parseKey (e.base64.encode k.bytes) = some k := by
  have hbase : IsBase64 (Strings.trimSpace (e.base64.encode k.bytes)) k.bytes := by
    refine ⟨e, ?_⟩
    rw [trimSpace_encode]
    exact Base64.decode_encode _ _
  have hne : Strings.trimSpace (e.base64.encode k.bytes) ≠ [] := by
    intro hnil
    obtain ⟨e', he'⟩ := hbase
    rw [hnil] at he'
    have hlength := Octets.length_bytes k
    rw [← Option.some.inj he'] at hlength
    cases hlength
  have hback := Octets.ofBytes_bytes_append k []
  rw [List.append_nil] at hback
  rw [parseKey, decodeBase64_eq_some_iff.mpr ⟨hne, hbase⟩]
  dsimp only
  rw [if_pos (Octets.length_bytes k), hback]

/-! ### Padding -/

theorem last_pkcs7 (p : Bytes) :
    ∃ init, pkcs7 16 p = init ++ [UInt8.ofNat (fill 16 p)] := by
  obtain ⟨hpos, -⟩ := fill_bounds (n := 16) (by decide) p
  refine ⟨p ++ List.replicate (fill 16 p - 1) (UInt8.ofNat (fill 16 p)), ?_⟩
  rw [pkcs7, List.append_assoc, ← List.replicate_succ', Nat.sub_add_cancel hpos]

theorem toNat_fill (p : Bytes) : (UInt8.ofNat (fill 16 p)).toNat = fill 16 p := by
  obtain ⟨-, hle⟩ := fill_bounds (n := 16) (by decide) p
  rw [UInt8.toNat_ofNat', Nat.mod_eq_of_lt]
  omega

/-- The padding is looked at as far as its last byte says. -/
theorem unpad_append {a c : Bytes} {x : UInt8} (hc : c.length = x.toNat)
    (hx : 0 < x.toNat ∧ x.toNat ≤ 16) (hlast : ∃ init, a ++ c = init ++ [x]) :
    unpad (a ++ c) = .ok (if c.any (·.toNat ≠ x.toNat) then none else some a) := by
  obtain ⟨init, hinit⟩ := hlast
  have hlength : (a ++ c).length = a.length + x.toNat := by rw [List.length_append, hc]
  have hindex : index (a ++ c) ((a ++ c).length - 1) = .ok x := by
    rw [hinit]
    exact index_last
  have hpad : slice (a ++ c) ((a ++ c).length - x.toNat) (a ++ c).length = .ok c := by
    have hend : slice (a ++ (c ++ [])) ((a ++ c).length - x.toNat) (a ++ c).length = .ok c :=
      slice_append a c [] (by omega) (by omega)
    rwa [List.append_nil] at hend
  have hrest : slice (a ++ c) 0 ((a ++ c).length - x.toNat) = .ok a :=
    slice_append [] a c (by simp) (by rw [List.length_nil]; omega)
  have hbounds : ¬ (x.toNat = 0 ∨ x.toNat > blockSize ∨ x.toNat > (a ++ c).length) := by
    unfold blockSize
    omega
  rw [unpad, if_neg (by omega), hindex]
  simp only [bind, Except.bind, hbounds, hpad, hrest, if_false]
  split <;> rfl

theorem of_some_eq_ite {α : Type*} {c : Bool} {a b : α} (h : some a = if c then none else some b) :
    c = false ∧ a = b := by
  cases c with
  | true => cases h
  | false => exact ⟨rfl, Option.some.inj h⟩

/-- Nothing comes of a string whose last byte says no length of a padding in it. -/
theorem unpad_cases (b : Bytes) :
    unpad b = .ok none ∨ ∃ a c x, b = a ++ c ∧ c.length = x.toNat ∧
      (0 < x.toNat ∧ x.toNat ≤ 16) ∧ ∃ init, a ++ c = init ++ [x] := by
  rcases List.eq_nil_or_concat' b with rfl | ⟨init, x, rfl⟩
  · exact .inl rfl
  by_cases hx : x.toNat = 0 ∨ x.toNat > blockSize ∨ x.toNat > (init ++ [x]).length
  · left
    rw [unpad, if_neg (by simp), index_last]
    simp only [bind, Except.bind, hx, if_true]
    rfl
  · right
    unfold blockSize at hx
    have hsplit := List.take_append_drop ((init ++ [x]).length - x.toNat) (init ++ [x])
    refine ⟨_, _, x, hsplit.symm, ?_, by omega, init, hsplit⟩
    rw [List.length_drop]
    omega

theorem unpad_isOk (b : Bytes) : ∃ r, unpad b = .ok r := by
  rcases unpad_cases b with h | ⟨a, c, x, rfl, hc, hx, hlast⟩
  · exact ⟨_, h⟩
  · exact ⟨_, unpad_append hc hx hlast⟩

/-- Whole blocks give what was filled up to them, and nothing else does. -/
theorem unpad_eq_some_iff {b p : Bytes} (h : 16 ∣ b.length) :
    unpad b = .ok (some p) ↔ b = pkcs7 16 p := by
  constructor
  · intro hunpad
    rcases unpad_cases b with hnone | ⟨a, c, x, rfl, hc, hx, hlast⟩
    · cases hnone.symm.trans hunpad
    rw [unpad_append hc hx hlast] at hunpad
    -- The bytes behind `a` are as many as each of them says.
    obtain ⟨hall, rfl⟩ := of_some_eq_ite (Except.ok.inj hunpad).symm
    have hsame : ∀ y ∈ c, y = x := by
      intro y hy
      have hne := List.any_eq_false.mp hall y hy
      rw [decide_eq_true_eq, not_not] at hne
      exact UInt8.toNat_inj.mp hne
    have hfill : x.toNat = fill 16 p := by
      refine eq_fill hx.1 hx.2 ?_
      rwa [← hc, ← List.length_append]
    rw [pkcs7, ← hfill, UInt8.ofNat_toNat, ← hc, ← List.eq_replicate_of_mem hsame]
  · rintro rfl
    obtain ⟨hpos, hle⟩ := fill_bounds (n := 16) (by decide) p
    have heq := unpad_append (a := p) (x := UInt8.ofNat (fill 16 p))
      (c := List.replicate (fill 16 p) (UInt8.ofNat (fill 16 p)))
      (by rw [List.length_replicate, toNat_fill]) (by rw [toNat_fill]; omega) (last_pkcs7 p)
    have hall : (List.replicate (fill 16 p) (UInt8.ofNat (fill 16 p))).any
        (·.toNat ≠ (UInt8.ofNat (fill 16 p)).toNat) = false := by
      simp
    rw [hall] at heq
    exact heq

/-! ### What was encrypted -/

/-- CBC decryption of whole blocks. -/
def cbcBytes (block : Equiv.Perm (Octets 16)) (iv : Octets 16) (ct : Bytes) : Bytes :=
  Octets.flat (cbcDecrypt Octets.xor block iv (Octets.cutInto 16 (ct.length / 16) ct))

theorem length_cbcBytes {block : Equiv.Perm (Octets 16)} {iv : Octets 16} {ct : Bytes}
    (h : 16 ∣ ct.length) : (cbcBytes block iv ct).length = ct.length := by
  rw [cbcBytes, Octets.length_flat, length_cbcDecrypt, Octets.length_cutInto, Nat.mul_div_cancel' h]

theorem cryptBlocks_of_dvd (block : Equiv.Perm (Octets 16)) (iv : Octets 16) {ct : Bytes}
    (h : 16 ∣ ct.length) : cryptBlocks block iv.bytes ct = .ok (cbcBytes block iv ct) := by
  have hiv := Octets.ofBytes_bytes_append iv []
  rw [List.append_nil] at hiv
  have hfull : ¬ (iv.bytes.length ≠ blockSize ∨ ct.length % blockSize ≠ 0) := by
    rw [Octets.length_bytes]
    unfold blockSize
    omega
  rw [cryptBlocks, if_neg hfull, hiv]
  rfl

/-- A string that is long enough comes apart into the three parts. -/
theorem exists_parts {raw : Bytes} (h : 64 ≤ raw.length) :
    ∃ (iv : Octets 16) (ct : Bytes) (tag : Octets 32), ct ≠ [] ∧
      raw = iv.bytes ++ (ct ++ tag.bytes) := by
  obtain ⟨iv, hiv⟩ := Octets.exists_bytes_eq (n := 16) (b := raw.take 16) (by
    rw [List.length_take]; omega)
  obtain ⟨tag, htag⟩ :=
    Octets.exists_bytes_eq (n := 32) (b := (raw.drop 16).drop (raw.length - 48)) (by
      rw [List.length_drop, List.length_drop]; omega)
  refine ⟨iv, (raw.drop 16).take (raw.length - 48), tag, ?_, ?_⟩
  · rw [← List.length_pos_iff, List.length_take, List.length_drop]
    omega
  · rw [hiv, htag, List.take_append_drop, List.take_append_drop]

section

variable [Primitives]

/-- The format's key of encryption: the hash of its label and the master key. -/
def encKeyOf (master : Key) : Key :=
  Primitives.sha256 (ascii "olcrtc-crypt-v1-enc" ++ master.bytes)

/-- The format's key of the tag. -/
def macKeyOf (master : Key) : Key :=
  Primitives.sha256 (ascii "olcrtc-crypt-v1-mac" ++ master.bytes)

theorem keys_eq (master : Key) : keys master = (encKeyOf master, macKeyOf master) := rfl

/-- The bytes are a vector, a ciphertext of whole blocks, at least one, and the tag of both,
and what is encrypted is the text with its padding. -/
def Sealed (master : Key) (raw p : Bytes) : Prop :=
  ∃ (iv : Octets 16) (ct : Bytes), ct ≠ [] ∧ 16 ∣ ct.length ∧
    raw = iv.bytes ++ (ct ++ (Primitives.hmac (macKeyOf master) (iv.bytes ++ ct)).bytes) ∧
    cbcBytes (Primitives.aes (encKeyOf master)) iv ct = pkcs7 16 p

/-- The format's encryption: what `Decrypt` is to invert. -/
def encrypt (master : Key) (iv : Octets 16) (p : Bytes) : Bytes :=
  let padded := pkcs7 16 p
  let ct := Octets.flat (cbcEncrypt Octets.xor (Primitives.aes (encKeyOf master)) iv
    (Octets.cutInto 16 (padded.length / 16) padded))
  iv.bytes ++ (ct ++ (Primitives.hmac (macKeyOf master) (iv.bytes ++ ct)).bytes)

theorem sealed_encrypt (master : Key) (iv : Octets 16) (p : Bytes) :
    Sealed master (encrypt master iv p) p := by
  have hdvd := dvd_length_pkcs7 (n := 16) (by decide) p
  obtain ⟨hpos, -⟩ := fill_bounds (n := 16) (by decide) p
  set blocks := Octets.cutInto 16 ((pkcs7 16 p).length / 16) (pkcs7 16 p) with hblocks
  set ct := Octets.flat
    (cbcEncrypt Octets.xor (Primitives.aes (encKeyOf master)) iv blocks) with hct
  have hcount : blocks.length = (pkcs7 16 p).length / 16 := Octets.length_cutInto _ _
  have hlength : ct.length = (pkcs7 16 p).length := by
    rw [hct, Octets.length_flat, length_cbcEncrypt, hcount, Nat.mul_div_cancel' hdvd]
  refine ⟨iv, ct, ?_, hlength ▸ hdvd, rfl, ?_⟩
  · intro hnil
    rw [hnil, List.length_nil, length_pkcs7] at hlength
    omega
  · rw [cbcBytes, hlength, ← hcount, hct]
    have hback := Octets.cutInto_flat
      (cbcEncrypt Octets.xor (Primitives.aes (encKeyOf master)) iv blocks)
    rw [length_cbcEncrypt] at hback
    rw [hback, cbcDecrypt_cbcEncrypt _ _ Octets.xor_xor_cancel, hblocks]
    exact Octets.flat_cutInto (Nat.mul_div_cancel' hdvd).symm

/-! ### `Decrypt` -/

/-- What becomes of the three parts. -/
theorem decrypt_of_raw {master : Key} {blob : Bytes} {iv : Octets 16} {ct : Bytes}
    {tag : Octets 32} (hraw : decodeBase64 (Strings.trimSpace blob) =
      some (iv.bytes ++ (ct ++ tag.bytes))) (hct : ct ≠ []) :
    decrypt master blob =
      if ct.length % 16 ≠ 0 then .ok none
      else if (Primitives.hmac (macKeyOf master) (iv.bytes ++ ct)).bytes ≠ tag.bytes then .ok none
      else unpad (cbcBytes (Primitives.aes (encKeyOf master)) iv ct) := by
  set raw := iv.bytes ++ (ct ++ tag.bytes) with hdef
  have hlength : raw.length = 48 + ct.length := by
    rw [hdef, List.length_append, List.length_append, Octets.length_bytes, Octets.length_bytes]
    omega
  have hiv : slice raw 0 ivLen = .ok iv.bytes :=
    slice_append [] iv.bytes (ct ++ tag.bytes) rfl (by rw [Octets.length_bytes]; rfl)
  have hmiddle : slice raw ivLen (raw.length - tagLen) = .ok ct := by
    refine slice_append iv.bytes ct tag.bytes (by rw [Octets.length_bytes]; rfl) ?_
    rw [hlength, Octets.length_bytes]
    unfold tagLen
    omega
  have htag : slice raw (raw.length - tagLen) raw.length = .ok tag.bytes := by
    have hend : slice ((iv.bytes ++ ct) ++ (tag.bytes ++ [])) (raw.length - tagLen) raw.length =
        .ok tag.bytes := by
      refine slice_append _ _ _ ?_ ?_
      · rw [hlength, List.length_append, Octets.length_bytes]
        unfold tagLen
        omega
      · rw [hlength, List.length_append, Octets.length_bytes, Octets.length_bytes]
        omega
    rwa [List.append_nil, List.append_assoc] at hend
  rw [decrypt, hraw]
  dsimp only
  by_cases hshort : raw.length < ivLen + blockSize + tagLen
  · have hpart : ct.length % 16 ≠ 0 := by
      have hpos := List.length_pos_iff.mpr hct
      unfold ivLen blockSize tagLen at hshort
      omega
    rw [if_pos hshort, if_pos hpart]
    rfl
  · rw [if_neg hshort, hiv, hmiddle, htag]
    by_cases hpart : ct.length % 16 = 0
    · have hcrypt := cryptBlocks_of_dvd (Primitives.aes (encKeyOf master)) iv
        (Nat.dvd_of_mod_eq_zero hpart)
      have hblocks : ct.length % blockSize = 0 := hpart
      simp only [bind, Except.bind, hblocks, hpart, keys_eq, hcrypt, ne_eq, not_true_eq_false,
        if_false]
      rfl
    · rw [if_pos hpart]
      have hblocks : ct.length % blockSize ≠ 0 := hpart
      simp only [bind, Except.bind, hblocks, ne_eq, not_false_eq_true, if_true]
      rfl

theorem decrypt_of_short {master : Key} {blob raw : Bytes}
    (hraw : decodeBase64 (Strings.trimSpace blob) = some raw) (hshort : raw.length < 64) :
    decrypt master blob = .ok none := by
  rw [decrypt, hraw]
  exact if_pos hshort

/-- `Decrypt` never reads outside the blob. -/
theorem decrypt_isOk (master : Key) (blob : Bytes) : ∃ r, decrypt master blob = .ok r := by
  cases hraw : decodeBase64 (Strings.trimSpace blob) with
  | none => exact ⟨none, by rw [decrypt, hraw]; rfl⟩
  | some raw =>
      by_cases hshort : raw.length < 64
      · exact ⟨none, decrypt_of_short hraw hshort⟩
      · obtain ⟨iv, ct, tag, hct, rfl⟩ := exists_parts (Nat.le_of_not_lt hshort)
        rw [decrypt_of_raw hraw hct]
        split
        · exact ⟨_, rfl⟩
        · split
          · exact ⟨_, rfl⟩
          · exact unpad_isOk _

/-- `Decrypt` returns a text exactly when the blob is base64 of what seals it. -/
theorem decrypt_eq_some_iff {master : Key} {blob p : Bytes} :
    decrypt master blob = .ok (some p) ↔
      ∃ raw, IsBase64 (Strings.trimSpace blob) raw ∧ Sealed master raw p := by
  constructor
  · intro h
    cases hraw : decodeBase64 (Strings.trimSpace blob) with
    | none =>
        rw [decrypt, hraw] at h
        cases h
    | some raw =>
        have hlong : 64 ≤ raw.length := by
          by_contra hshort
          rw [decrypt_of_short hraw (Nat.lt_of_not_le hshort)] at h
          cases h
        obtain ⟨iv, ct, tag, hct, rfl⟩ := exists_parts hlong
        rw [decrypt_of_raw hraw hct] at h
        split at h
        · cases h
        · rename_i hblocks
          have hdvd : 16 ∣ ct.length := Nat.dvd_of_mod_eq_zero (not_not.mp hblocks)
          split at h
          · cases h
          · rename_i htag
            refine ⟨_, (decodeBase64_eq_some_iff.mp hraw).2, iv, ct, hct, hdvd, ?_, ?_⟩
            · rw [not_not.mp htag]
            · exact (unpad_eq_some_iff (by rwa [length_cbcBytes hdvd])).mp h
  · rintro ⟨raw, hbase, iv, ct, hct, hdvd, rfl, hplain⟩
    have hne : Strings.trimSpace blob ≠ [] := by
      intro hnil
      obtain ⟨e, he⟩ := hbase
      rw [hnil] at he
      have hlength := congrArg List.length (Option.some.inj (he.symm.trans rfl : some _ = some []))
      rw [List.length_append, Octets.length_bytes, List.length_nil] at hlength
      omega
    have hraw := decodeBase64_eq_some_iff.mpr ⟨hne, hbase⟩
    rw [decrypt_of_raw hraw hct, if_neg (not_not.mpr (Nat.mod_eq_zero_of_dvd hdvd)),
      if_neg (not_not.mpr rfl)]
    exact (unpad_eq_some_iff (by rwa [length_cbcBytes hdvd])).mpr hplain

/-- A link is the marker and the blob. -/
theorem decryptLink_append (master : Key) (blob : Bytes) :
    decryptLink master (linkPrefix ++ blob) = decrypt master blob := by
  have hlink : isLink (linkPrefix ++ blob) = true :=
    List.isPrefixOf_iff_prefix.mpr (List.prefix_append _ _)
  rw [decryptLink, if_pos hlink, List.drop_left]

/-- **crypt1 decrypts exactly what was encrypted**: `Decrypt` reads inside the blob, returns a
text exactly when the blob is base64 of what seals it, and so inverts the encryption of every
text, with any vector and in any of the four encodings. -/
theorem decrypt_inverts_encrypt (master : Key) :
    (∀ blob, ∃ r, decrypt master blob = .ok r) ∧
      (∀ blob p, decrypt master blob = .ok (some p) ↔
        ∃ raw, IsBase64 (Strings.trimSpace blob) raw ∧ Sealed master raw p) ∧
      ∀ (e : Encoding) (iv : Octets 16) (p : Bytes),
        decrypt master (e.base64.encode (encrypt master iv p)) = .ok (some p) := by
  refine ⟨decrypt_isOk master, fun blob p => decrypt_eq_some_iff, fun e iv p => ?_⟩
  refine decrypt_eq_some_iff.mpr ⟨encrypt master iv p, ⟨e, ?_⟩, sealed_encrypt master iv p⟩
  rw [trimSpace_encode]
  exact Base64.decode_encode _ _

end

end Ghostlane.Cli.Crypt1
