import Ghostlane.App.LinkParser
import Ghostlane.Lib.Base64
import Ghostlane.Lib.Outcomes
import Ghostlane.Lib.Utf8

/-!
# Ghostlane.App.Decoding

The decoders of the link reader, against what they undo: UTF-8 (`decodeToString_utf8`), Base64 in
either alphabet (`decodeBase64_encode`) and percent-encoding (`urlDecode_percentEncoded`).
-/

namespace Ghostlane.App

open Ghostlane.Lib

/-! ### UTF-8 -/

theorem utf8From_lead {s : Utf8State} (h : s.needed = 0) (b : Nat) (bs : List Nat) :
    utf8From s (b :: bs) = (utf8Lead b).1 ++ utf8From (utf8Lead b).2 bs := by
  rw [utf8From, if_pos h]

theorem utf8From_next {s : Utf8State} (h : 1 < s.needed) {b : Nat} (hlo : s.lower ≤ b)
    (hhi : b ≤ s.upper) (bs : List Nat) : utf8From s (b :: bs) =
      utf8From { needed := s.needed - 1, bits := s.bits * 64 + (b - 0x80) } bs := by
  rw [utf8From, if_neg (by omega), if_neg (by omega)]
  exact if_neg (by omega)

theorem utf8From_last {s : Utf8State} (h : s.needed = 1) {b : Nat} (hlo : s.lower ≤ b)
    (hhi : b ≤ s.upper) (bs : List Nat) : utf8From s (b :: bs) =
      Char.ofNat (s.bits * 64 + (b - 0x80)) :: utf8From {} bs := by
  rw [utf8From, if_neg (by omega), if_neg (by omega)]
  exact if_pos h

theorem utf8Lead_two {b : Nat} (h : 0xC2 ≤ b ∧ b ≤ 0xDF) :
    utf8Lead b = ([], { needed := 1, bits := b - 0xC0 }) := by
  rw [utf8Lead, if_neg (by omega), if_pos h]

theorem utf8Lead_three {b : Nat} (h : 0xE0 ≤ b ∧ b ≤ 0xEF) :
    utf8Lead b =
      ([], { needed := 2, bits := b - 0xE0, lower := if b = 0xE0 then 0xA0 else 0x80,
             upper := if b = 0xED then 0x9F else 0xBF }) := by
  rw [utf8Lead, if_neg (by omega), if_neg (by omega), if_pos h]

theorem utf8Lead_four {b : Nat} (h : 0xF0 ≤ b ∧ b ≤ 0xF4) :
    utf8Lead b =
      ([], { needed := 3, bits := b - 0xF0, lower := if b = 0xF0 then 0x90 else 0x80,
             upper := if b = 0xF4 then 0x8F else 0xBF }) := by
  rw [utf8Lead, if_neg (by omega), if_neg (by omega), if_neg (by omega), if_pos h]

/-- A character is read back from its bytes. -/
theorem utf8From_char (c : Char) (bs : List Nat) :
    utf8From {} ((String.utf8EncodeChar c).map UInt8.toNat ++ bs) = c :: utf8From {} bs := by
  have hvalid : c.toNat < 0xD800 ∨ 0xDFFF < c.toNat ∧ c.toNat < 0x110000 := c.valid
  have hback : ∀ {n : Nat}, n = c.toNat → Char.ofNat n = c := by
    rintro n rfl
    exact Char.ofNat_toNat c
  have hbyte : ∀ {n : Nat}, n < 256 → (UInt8.ofNat n).toNat = n := by
    intro n hn
    rw [UInt8.toNat_ofNat', Nat.mod_eq_of_lt hn]
  have hval : c.val.toNat = c.toNat := rfl
  unfold String.utf8EncodeChar
  dsimp only
  rw [hval]
  split
  · rename_i h
    rw [List.map_cons, List.map_nil, hbyte (by omega), List.singleton_append, utf8From_lead rfl,
      utf8Lead, if_pos (by omega), hback rfl]
    rfl
  · split
    · rw [List.map_cons, List.map_cons, List.map_nil, hbyte (by omega), hbyte (by omega),
        List.cons_append, utf8From_lead rfl, utf8Lead_two (by omega), List.nil_append,
        List.cons_append, utf8From_last rfl (by dsimp only; omega) (by dsimp only; omega),
        hback (by dsimp only; omega)]
      rfl
    · split
      · rw [List.map_cons, List.map_cons, List.map_cons, List.map_nil, hbyte (by omega),
          hbyte (by omega), hbyte (by omega), List.cons_append, utf8From_lead rfl,
          utf8Lead_three (by omega), List.nil_append, List.cons_append,
          utf8From_next (by dsimp only; omega) (by dsimp only; split <;> omega)
            (by dsimp only; split <;> omega),
          List.cons_append, utf8From_last rfl (by dsimp only; omega) (by dsimp only; omega),
          hback (by dsimp only; omega)]
        rfl
      · rw [List.map_cons, List.map_cons, List.map_cons, List.map_cons, List.map_nil,
          hbyte (by omega), hbyte (by omega), hbyte (by omega), hbyte (by omega),
          List.cons_append, utf8From_lead rfl, utf8Lead_four (by omega), List.nil_append,
          List.cons_append,
          utf8From_next (by dsimp only; omega) (by dsimp only; split <;> omega)
            (by dsimp only; split <;> omega),
          List.cons_append, utf8From_next (by dsimp only; omega) (by dsimp only; omega)
            (by dsimp only; omega),
          List.cons_append, utf8From_last rfl (by dsimp only; omega) (by dsimp only; omega),
          hback (by dsimp only; omega)]
        rfl

/-- **UTF-8 is undone.** -/
theorem decodeToString_utf8 (t : Text) : decodeToString ((utf8 t).map UInt8.toNat) = t := by
  rw [decodeToString]
  induction t with
  | nil => rfl
  | cons c t ih =>
      rw [utf8, List.flatMap_cons, List.map_append, utf8From_char]
      exact congrArg (c :: ·) ih

/-! ### What is not UTF-8 -/

theorem utf8Size_le {v k : Nat} (hk : 1 ≤ k)
    (h : v < 0x80 ∨ (v < 0x800 ∧ 2 ≤ k) ∨ (v < 0x10000 ∧ 3 ≤ k) ∨ 4 ≤ k) :
    (Char.ofNat v).utf8Size ≤ k := by
  have hle : (Char.ofNat v).val.toNat ≤ v := by
    by_cases hv : v.isValidChar
    · rw [Char.ofNat, dif_pos hv]
      exact le_rfl
    · rw [Char.ofNat, dif_neg hv]
      exact Nat.zero_le v
  unfold Char.utf8Size
  dsimp only
  simp only [UInt32.le_iff_toNat_le, UInt32.toNat_ofNatLT]
  split_ifs <;> omega

/-- So many bytes of a character are read, and it will not be larger than they and those it
needs. -/
def Begun (s : Utf8State) (k : Nat) : Prop :=
  s.upper ≤ 0xBF ∧ ((s.needed = 0 ∧ k = 0) ∨ (s.needed = 1 ∧ k = 1 ∧ s.bits < 0x20) ∨
    (s.needed = 2 ∧ k = 1 ∧ s.bits < 0x10) ∨ (s.needed = 1 ∧ k = 2 ∧ s.bits < 0x400) ∨
      (1 ≤ s.needed ∧ 1 ≤ k ∧ 4 ≤ k + s.needed))

theorem begun_nothing : Begun {} 0 := ⟨le_rfl, .inl ⟨rfl, rfl⟩⟩

/-- A first byte is a character of its own, or begins one, or neither. -/
theorem utf8Lead_cases (b : Nat) :
    (∃ c, utf8Lead b = ([c], {}) ∧ (c = replacement ∨ c.utf8Size ≤ 1)) ∨
      ∃ s, utf8Lead b = ([], s) ∧ Begun s 1 := by
  by_cases hascii : b < 0x80
  · exact .inl ⟨Char.ofNat b, if_pos hascii, .inr (utf8Size_le le_rfl (.inl hascii))⟩
  · by_cases htwo : 0xC2 ≤ b ∧ b ≤ 0xDF
    · exact .inr ⟨_, utf8Lead_two htwo, le_rfl, by dsimp only; omega⟩
    · by_cases hthree : 0xE0 ≤ b ∧ b ≤ 0xEF
      · exact .inr ⟨_, utf8Lead_three hthree, by dsimp only; split <;> omega, by dsimp only; omega⟩
      · by_cases hfour : 0xF0 ≤ b ∧ b ≤ 0xF4
        · exact .inr ⟨_, utf8Lead_four hfour, by dsimp only; split <;> omega, by dsimp only; omega⟩
        · refine .inl ⟨replacement, ?_, .inl rfl⟩
          rw [utf8Lead, if_neg hascii, if_neg htwo, if_neg hthree, if_neg hfour]

theorem length_utf8_cons (c : Char) (t : Text) :
    (utf8 (c :: t)).length = c.utf8Size + (utf8 t).length := by
  rw [utf8, List.flatMap_cons, List.length_append, String.length_utf8EncodeChar]
  rfl

theorem length_utf8From {s : Utf8State} {k : Nat} (hs : Begun s k) {bs : List Nat}
    (h : replacement ∉ utf8From s bs) : (utf8 (utf8From s bs)).length ≤ k + bs.length := by
  induction bs generalizing s k with
  | nil =>
      unfold utf8From at h ⊢
      split at h
      · rename_i hzero
        rw [if_pos hzero]
        exact Nat.zero_le _
      · exact absurd (List.mem_singleton_self _) h
  | cons b bs ih =>
      rw [List.length_cons]
      by_cases hzero : s.needed = 0
      · rw [utf8From_lead hzero] at h ⊢
        rcases utf8Lead_cases b with ⟨c, hlead, hc⟩ | ⟨s', hlead, hbegun⟩
        · rw [hlead, List.singleton_append, List.mem_cons, not_or] at h
          rw [hlead, List.singleton_append, length_utf8_cons]
          dsimp only
          have hsize := hc.resolve_left (Ne.symm h.1)
          have hrest := ih begun_nothing h.2
          omega
        · rw [hlead, List.nil_append] at h ⊢
          have hrest := ih hbegun h
          dsimp only
          omega
      · by_cases hout : b < s.lower ∨ s.upper < b
        · rw [utf8From, if_neg hzero, if_pos hout] at h
          exact absurd List.mem_cons_self h
        · rw [not_or, not_lt, not_lt] at hout
          obtain ⟨hupper, hbegun⟩ := hs
          by_cases hone : s.needed = 1
          · rw [utf8From_last hone hout.1 hout.2] at h ⊢
            have hrest := ih begun_nothing fun hmem => h (List.mem_cons_of_mem _ hmem)
            have hsize : (Char.ofNat (s.bits * 64 + (b - 0x80))).utf8Size ≤ k + 1 :=
              utf8Size_le (by omega) (by omega)
            rw [length_utf8_cons]
            omega
          · rw [utf8From_next (by omega) hout.1 hout.2] at h ⊢
            have hnext : Begun { needed := s.needed - 1, bits := s.bits * 64 + (b - 0x80) }
                (k + 1) :=
              ⟨le_rfl, by dsimp only; omega⟩
            have hrest := ih hnext h
            omega

/-- Without a replacement no byte is lost: each character takes its bytes. -/
theorem length_utf8_decodeToString {bs : List Nat} (h : replacement ∉ decodeToString bs) :
    (utf8 (decodeToString bs)).length ≤ bs.length := by
  have hlength := length_utf8From begun_nothing h
  rwa [Nat.zero_add] at hlength

/-! ### Base64 -/

/-- The character a digit is written with. -/
def symbolChar (a : Alphabet) (d : Nat) : Char := Char.ofUInt8 (a.digit d)

/-- Either alphabet, in the standard one. -/
def standardChar (c : Char) : Char := if c = '-' then '+' else if c = '_' then '/' else c

/-- What is known of a digit: what it is in the standard alphabet, and what it is not. -/
structure IsSymbol (a : Alphabet) (d : Nat) : Prop where
  standard : standardChar (symbolChar a d) = symbolChar .std d
  value : base64Symbol false (symbolChar .std d) = some d
  no_mark : symbolChar a d ∉ ['=', '%', ' ', '\n', '\r', '@', ':', '#', '?']
  shown : isWhitespace (symbolChar a d) = false
  slash : symbolChar a d = '/' → d = 63

instance (a : Alphabet) (d : Nat) : Decidable (IsSymbol a d) :=
  decidable_of_iff (standardChar (symbolChar a d) = symbolChar .std d ∧
      base64Symbol false (symbolChar .std d) = some d ∧
      symbolChar a d ∉ ['=', '%', ' ', '\n', '\r', '@', ':', '#', '?'] ∧
      isWhitespace (symbolChar a d) = false ∧
      (symbolChar a d = '/' → d = 63))
    ⟨fun h => ⟨h.1, h.2.1, h.2.2.1, h.2.2.2.1, h.2.2.2.2⟩, fun h => ⟨h.1, h.2, h.3, h.4, h.5⟩⟩

theorem isSymbol {a : Alphabet} (ha : a = .std ∨ a = .url) {d : Nat} (hd : d < 64) :
    IsSymbol a d := by
  have hstd : ∀ d ∈ List.range 64, IsSymbol .std d := by decide
  have hurl : ∀ d ∈ List.range 64, IsSymbol .url d := by decide
  rcases ha with rfl | rfl
  · exact hstd d (List.mem_range.mpr hd)
  · exact hurl d (List.mem_range.mpr hd)

/-- Digits and what fills up the last quantum. -/
def symbols (a : Alphabet) (ds : List Nat) (fill : Nat) : Text :=
  ds.map (symbolChar a) ++ List.replicate fill '='

/-- Bytes in Base64, as a text. -/
def inBase64 (e : Base64) (b : Bytes) : Text := (e.encode b).map Char.ofUInt8

theorem inBase64_eq (e : Base64) (b : Bytes) :
    inBase64 e b = symbols e.alphabet (Base64.digits b) (e.fill b) := by
  rw [inBase64, e.encode_eq, List.map_append, List.map_map, List.map_replicate]
  rfl

theorem base64Bytes_digits (b : Bytes) :
    base64Bytes (Base64.digits b) = some (b.map UInt8.toNat) := by
  fun_induction Base64.digits b with
  | case1 => rfl
  | case2 x =>
      have hx := x.toNat_lt
      have hlow : secondDigit x 0 % 16 = 0 := by
        simp only [secondDigit, UInt8.toNat_zero]
        omega
      rw [base64Bytes, if_pos hlow]
      simp only [firstDigit, secondDigit, UInt8.toNat_zero, List.map_cons, List.map_nil,
        Option.some.injEq, List.cons.injEq, and_true]
      omega
  | case3 x y =>
      have hx := x.toNat_lt
      have hy := y.toNat_lt
      have hlow : thirdDigit y 0 % 4 = 0 := by
        simp only [thirdDigit, UInt8.toNat_zero]
        omega
      rw [base64Bytes, if_pos hlow]
      simp only [firstDigit, secondDigit, thirdDigit, UInt8.toNat_zero, List.map_cons,
        List.map_nil, Option.some.injEq, List.cons.injEq, and_true]
      omega
  | case4 x y z t ih =>
      have hx := x.toNat_lt
      have hy := y.toNat_lt
      have hz := z.toNat_lt
      rw [base64Bytes, ih, Option.map_some]
      simp only [firstDigit, secondDigit, thirdDigit, fourthDigit, List.map_cons,
        Option.some.injEq, List.cons.injEq, and_true]
      omega

theorem length_base64Bytes {ds bs : List Nat} (h : base64Bytes ds = some bs) :
    bs.length = ds.length * 3 / 4 := by
  fun_induction base64Bytes ds generalizing bs with
  | case1 =>
      cases h
      rfl
  | case2 => cases h
  | case3 a b hlow =>
      cases h
      simp only [List.length_cons, List.length_nil]
  | case4 => cases h
  | case5 a b c hlow =>
      cases h
      simp only [List.length_cons, List.length_nil]
  | case6 => cases h
  | case7 a b c d rest ih =>
      obtain ⟨bs', hbs', rfl⟩ := Option.map_eq_some_iff.mp h
      simp only [List.length_cons, ih hbs']
      omega

theorem symbolChar_std_eq_plus_iff {d : Nat} (hd : d < 64) : symbolChar .std d = '+' ↔ d = 62 := by
  have hall : ∀ d ∈ List.range 64, symbolChar .std d = '+' ↔ d = 62 := by decide
  exact hall d (List.mem_range.mpr hd)

theorem symbolChar_url_ne_plus {d : Nat} (hd : d < 64) : symbolChar .url d ≠ '+' := by
  have hall : ∀ d ∈ List.range 64, symbolChar .url d ≠ '+' := by decide
  exact hall d (List.mem_range.mpr hd)

/-- The digits end where what fills them up begins. -/
theorem base64Decode_of_symbols {a : Alphabet} (ha : a = .std ∨ a = .url) {ds : List Nat}
    (h : ∀ d ∈ ds, d < 64) (fill : Nat) (urlSafe : Bool) :
    base64Decode urlSafe (symbols a ds fill) =
      ((ds.map (symbolChar a)).mapM (base64Symbol urlSafe)).bind fun values =>
        if fill = 0 ∨ (ds.length % 4 = 2 ∧ fill = 2) ∨ (ds.length % 4 = 3 ∧ fill = 1) then
          base64Bytes values
        else none := by
  have hbody : (symbols a ds fill).takeWhile (· != '=') = ds.map (symbolChar a) := by
    have hdigits : ∀ c ∈ ds.map (symbolChar a), (c != '=') = true := by
      intro c hc
      obtain ⟨d, hd, rfl⟩ := List.mem_map.mp hc
      rw [bne_iff_ne]
      exact fun heq => (isSymbol ha (h d hd)).no_mark (heq ▸ List.mem_cons_self)
    have hfill : (List.replicate fill '=').takeWhile (· != '=') = [] := by
      cases fill <;> rfl
    rw [symbols, List.takeWhile_append_of_pos hdigits, hfill, List.append_nil]
  have hpadding : (symbols a ds fill).drop (ds.map (symbolChar a)).length =
      List.replicate fill '=' := List.drop_left
  have hnil : List.replicate fill '=' = [] ↔ fill = 0 := List.replicate_eq_nil_iff _
  have htwo : List.replicate fill '=' = ['=', '='] ↔ fill = 2 :=
    ⟨fun h => (List.length_replicate).symm.trans (congrArg List.length h), fun h => by rw [h]; rfl⟩
  have hone : List.replicate fill '=' = ['='] ↔ fill = 1 :=
    ⟨fun h => (List.length_replicate).symm.trans (congrArg List.length h), fun h => by rw [h]; rfl⟩
  rw [base64Decode, hbody, hpadding]
  dsimp only [Option.bind_eq_bind]
  rw [List.length_map]
  simp only [hnil, htwo, hone]

/-- What is read of digits and what fills them up. -/
theorem base64Decode_symbols {ds : List Nat} (h : ∀ d ∈ ds, d < 64) (fill : Nat) :
    base64Decode false (symbols .std ds fill) =
      if fill = 0 ∨ (ds.length % 4 = 2 ∧ fill = 2) ∨ (ds.length % 4 = 3 ∧ fill = 1) then
        base64Bytes ds
      else none := by
  have hsymbols : (ds.map (symbolChar .std)).mapM (base64Symbol false) = some ds := by
    rw [mapM_eq_some_iff, List.forall₂_map_left_iff, List.forall₂_same]
    exact fun d hd => (isSymbol (.inl rfl) (h d hd)).value
  rw [base64Decode_of_symbols (.inl rfl) h, hsymbols, Option.bind_some]

/-- The digits of a text in either alphabet, as the reader has them before it decodes. -/
theorem standard_symbols {a : Alphabet} (ha : a = .std ∨ a = .url) {ds : List Nat}
    (h : ∀ d ∈ ds, d < 64) (fill : Nat) :
    (symbols a ds fill).map standardChar = symbols .std ds fill := by
  rw [symbols, List.map_append, List.map_map, List.map_replicate, symbols]
  congr 1
  exact List.map_congr_left fun d hd => (isSymbol ha (h d hd)).standard

theorem not_mem_symbols {a : Alphabet} (ha : a = .std ∨ a = .url) {ds : List Nat}
    (h : ∀ d ∈ ds, d < 64) (fill : Nat) {c : Char}
    (hc : c ∈ ['%', ' ', '\n', '\r', '@', ':', '#', '?']) : c ∉ symbols a ds fill := by
  intro hmem
  rcases List.mem_append.mp hmem with hmem | hmem
  · obtain ⟨d, hd, rfl⟩ := List.mem_map.mp hmem
    exact (isSymbol ha (h d hd)).no_mark (List.mem_cons_of_mem '=' hc)
  · rw [List.eq_of_mem_replicate hmem] at hc
    exact absurd hc (by decide)

theorem shown_symbols {a : Alphabet} (ha : a = .std ∨ a = .url) {ds : List Nat}
    (h : ∀ d ∈ ds, d < 64) (fill : Nat) : ∀ c ∈ symbols a ds fill, isWhitespace c = false := by
  refine List.forall_mem_append.mpr ⟨fun c hc => ?_, fun c hc => ?_⟩
  · obtain ⟨d, hd, rfl⟩ := List.mem_map.mp hc
    exact (isSymbol ha (h d hd)).shown
  · rw [List.eq_of_mem_replicate hc]
    decide

/-- What `decodeBase64` leaves out. -/
def isKept (c : Char) : Bool := !(c == '\n' || c == '\r' || c == ' ')

/-- A text of digits, and of what is left out, is read as its digits. -/
theorem decodeBase64_symbols {a : Alphabet} (ha : a = .std ∨ a = .url) {ds : List Nat}
    (h : ∀ d ∈ ds, d < 64) {fill : Nat} {t : Text}
    (hkept : (trim t).filter isKept = symbols a ds fill) :
    decodeBase64 t = if symbols a ds fill = [] then none else
      (if fill = 0 ∨ (ds.length % 4 = 2 ∧ fill = 2) ∨ (ds.length % 4 = 3 ∧ fill = 1) then
        base64Bytes ds
      else none).map decodeToString := by
  have hstandard : ((trim t).filter isKept).map standardChar = symbols .std ds fill := by
    rw [hkept, standard_symbols ha h]
  have hunfold : decodeBase64 t = if (trim t).filter isKept = [] then none
      else (base64Decode false (((trim t).filter isKept).map standardChar)).map decodeToString :=
        rfl
  rw [hunfold, hstandard, base64Decode_symbols h, hkept]

/-- What fills up the last quantum fits the digits before it. -/
theorem fill_fits (e : Base64) (b : Bytes) : e.fill b = 0 ∨
    ((Base64.digits b).length % 4 = 2 ∧ e.fill b = 2) ∨
      ((Base64.digits b).length % 4 = 3 ∧ e.fill b = 1) := by
  have hlength := Base64.length_digits b
  unfold Base64.fill
  split
  · have hmod : b.length % 3 = 0 ∨ b.length % 3 = 1 ∨ b.length % 3 = 2 := by omega
    rcases hmod with hmod | hmod | hmod
    · exact .inl (by rw [hmod])
    · exact .inr (.inl ⟨by omega, by rw [hmod]⟩)
    · exact .inr (.inr ⟨by omega, by rw [hmod]⟩)
  · exact .inl rfl

/-- **Base64 is undone,** in either alphabet and padded or not. -/
theorem decodeBase64_inBase64 {e : Base64} (he : e.alphabet = .std ∨ e.alphabet = .url) {t : Text}
    (hne : t ≠ []) : decodeBase64 (inBase64 e (utf8 t)) = some t := by
  have hbytes : utf8 t ≠ [] := by
    obtain ⟨c, u, rfl⟩ := List.exists_cons_of_ne_nil hne
    rw [utf8, List.flatMap_cons]
    exact List.append_ne_nil_of_left_ne_nil (utf8EncodeChar_ne_nil c) _
  have hlt := Base64.digits_lt (utf8 t)
  have hlength := Base64.length_digits (utf8 t)
  have hdigits : symbols e.alphabet (Base64.digits (utf8 t)) (e.fill (utf8 t)) ≠ [] := by
    have hpos := List.length_pos_iff.mpr hbytes
    rw [← List.length_pos_iff, symbols, List.length_append, List.length_map]
    omega
  have hfill := fill_fits e (utf8 t)
  have htrim : trim (symbols e.alphabet (Base64.digits (utf8 t)) (e.fill (utf8 t))) =
      symbols e.alphabet (Base64.digits (utf8 t)) (e.fill (utf8 t)) :=
    trimBy_of_forall (shown_symbols he hlt _)
  have hkept : (symbols e.alphabet (Base64.digits (utf8 t)) (e.fill (utf8 t))).filter isKept =
      symbols e.alphabet (Base64.digits (utf8 t)) (e.fill (utf8 t)) := by
    rw [List.filter_eq_self]
    intro c hc
    have hmarks : ∀ d ∈ [' ', '\n', '\r'], d ∈ ['%', ' ', '\n', '\r', '@', ':', '#', '?'] := by
      decide
    have hblank : ∀ d ∈ [' ', '\n', '\r'], c ≠ d := by
      rintro d hd rfl
      exact not_mem_symbols he hlt _ (hmarks c hd) hc
    simp [isKept, hblank]
  rw [inBase64_eq, decodeBase64_symbols he hlt (by rw [htrim, hkept]), if_neg hdigits,
    if_pos hfill, base64Bytes_digits, Option.map_some, decodeToString_utf8]

/-! ### Percent-encoding -/

/-- What the decoder makes of a character that stands for itself. -/
def blanked (c : Char) : Char := if c = '+' then ' ' else c

theorem urlDecodeFrom_raw {c : Char} (hc : c ≠ '%') (pending : List Nat) (t : Text) :
    urlDecodeFrom pending (c :: t) =
      decodeToString pending ++ blanked c :: urlDecodeFrom [] t := by
  rw [urlDecodeFrom.eq_def]
  split
  · rename_i heq
    cases heq
  · rename_i heq
    cases heq
    exact absurd rfl hc
  · rename_i heq
    cases heq
    rfl

/-- Without escapes only the plus signs are decoded. -/
theorem urlDecode_of_notMem {t : Text} (h : '%' ∉ t) : urlDecode t = t.map blanked := by
  rw [urlDecode]
  induction t with
  | nil => rfl
  | cons c t ih =>
      rw [List.mem_cons, not_or] at h
      rw [urlDecodeFrom_raw (Ne.symm h.1), ih h.2]
      rfl

/-- A hexadecimal digit with this value. -/
def Hex (d : Nat) (c : Char) : Prop := c.toNat < 0x80 ∧ digitOf 16 c = some d

/-- Each byte as an escape. -/
inductive Escaped : Bytes → Text → Prop
  | nil : Escaped [] []
  | cons {b : UInt8} {bs : Bytes} {high low : Char} {t : Text} (hhigh : Hex (b.toNat / 16) high)
      (hlow : Hex (b.toNat % 16) low) (h : Escaped bs t) :
      Escaped (b :: bs) ('%' :: high :: low :: t)

/-- The characters that may stand for themselves before the host of a URL. -/
def rawChars : Text :=
  txt "ABCDEFGHIJKLMNOPQRSTUVWXYZabcdefghijklmnopqrstuvwxyz0123456789-._~!$&'()*+,;=:"

/-- A text percent-encoded, any of its characters escaped and the others as they are. -/
inductive PercentEncoded : Text → Text → Prop
  | nil : PercentEncoded [] []
  | raw {c : Char} {t u : Text} (hc : c ∈ rawChars) (h : PercentEncoded t u) :
      PercentEncoded (c :: t) (c :: u)
  | escaped {c : Char} {t e u : Text} (he : Escaped (String.utf8EncodeChar c) e)
      (h : PercentEncoded t u) : PercentEncoded (c :: t) (e ++ u)

theorem toIntOrNull_hex_pair {a b : Nat} {high low : Char} (ha : a < 16) (hb : b < 16)
    (hhigh : Hex a high) (hlow : Hex b low) :
    toIntOrNull 16 [high, low] = some ((a * 16 + b : Nat) : Int) := by
  have hsign : high ≠ '-' ∧ high ≠ '+' := by
    constructor
    · rintro rfl
      cases (show digitOf 16 '-' = none by decide).symm.trans hhigh.2
    · rintro rfl
      cases (show digitOf 16 '+' = none by decide).symm.trans hhigh.2
  have hvalue : digitsValue 16 [high, low] = some (a * 16 + b) := by
    rw [digitsValue, if_neg (List.cons_ne_nil _ _), List.foldlM_cons, hhigh.2]
    simp [hlow.2]
  unfold toIntOrNull
  split
  · rename_i heq
    cases heq
    exact absurd rfl hsign.1
  · rename_i heq
    cases heq
    exact absurd rfl hsign.2
  · rw [hvalue, Option.bind_some, if_pos (by omega)]

theorem urlDecodeFrom_escaped {bs : Bytes} {e : Text} (h : Escaped bs e) (pending : List Nat)
    (u : Text) :
    urlDecodeFrom pending (e ++ u) = urlDecodeFrom (pending ++ bs.map UInt8.toNat) u := by
  induction h generalizing pending with
  | nil => rw [List.map_nil, List.append_nil, List.nil_append]
  | @cons b bs high low t hhigh hlow h ih =>
      have hb := b.toNat_lt
      have hbyte : ((b.toNat / 16 * 16 + b.toNat % 16 : Nat) : Int) % 256 = (b.toNat : Int) := by
        omega
      rw [List.cons_append, List.cons_append, List.cons_append, urlDecodeFrom,
        toIntOrNull_hex_pair (by omega) (by omega) hhigh hlow]
      dsimp only
      rw [hbyte, Int.toNat_natCast, ih, List.map_cons, List.append_assoc, List.singleton_append]

theorem not_mem_escaped {bs : Bytes} {e : Text} (h : Escaped bs e) {c : Char}
    (hc : c = '%' ∨ (digitOf 16 c).isSome = true → False) : c ∉ e := by
  induction h with
  | nil => exact List.not_mem_nil
  | cons hhigh hlow h ih =>
      simp only [List.mem_cons, not_or]
      refine ⟨fun heq => hc (.inl heq), fun heq => hc (.inr ?_), fun heq => hc (.inr ?_), ih⟩
      · rw [heq, hhigh.2]
        rfl
      · rw [heq, hlow.2]
        rfl

/-- One character, or a blank for a plus sign. -/
def Blanks (c d : Char) : Prop := d = c ∨ c = '+' ∧ d = ' '

/-- **Percent-encoding is undone,** but for the plus signs that stand for themselves. -/
theorem urlDecode_percentEncoded {t u : Text} (h : PercentEncoded t u) :
    List.Forall₂ Blanks t (urlDecode u) ∧ (urlDecode u = t ↔ '+' ∉ u) := by
  have hpending : ∀ p : Text, ∃ t', urlDecodeFrom ((utf8 p).map UInt8.toNat) u = p ++ t' ∧
      List.Forall₂ Blanks t t' ∧ (t' = t ↔ '+' ∉ u) := by
    induction h with
    | nil =>
        intro p
        refine ⟨[], ?_, .nil, iff_of_true rfl List.not_mem_nil⟩
        rw [urlDecodeFrom, decodeToString_utf8, List.append_nil]
    | @raw c t u hc h ih =>
        intro p
        obtain ⟨t', ht', hblanks, hsame⟩ := ih []
        have hnot : c ≠ '%' := by
          rintro rfl
          exact absurd hc (by decide)
        refine ⟨blanked c :: t', ?_, .cons ?_ hblanks, ?_⟩
        · rw [urlDecodeFrom_raw hnot, decodeToString_utf8]
          exact congrArg (fun rest => p ++ blanked c :: rest) ht'
        · rw [blanked]
          split
          · rename_i hplus
            exact .inr ⟨hplus, rfl⟩
          · exact .inl rfl
        · rw [List.cons.injEq, hsame, List.mem_cons, not_or, blanked]
          refine and_congr_left' ?_
          split
          · rename_i hplus
            rw [hplus]
            decide
          · rename_i hplus
            exact iff_of_true rfl (Ne.symm hplus)
    | @escaped c t e u he h ih =>
        intro p
        obtain ⟨t', ht', hblanks, hsame⟩ := ih (p ++ [c])
        refine ⟨c :: t', ?_, .cons (.inl rfl) hblanks, ?_⟩
        · rw [urlDecodeFrom_escaped he]
          rw [utf8, List.flatMap_append, List.map_append, List.flatMap_singleton] at ht'
          rw [utf8, ht', List.append_assoc, List.singleton_append]
        · have hplus : '+' ∉ e := not_mem_escaped he (by decide)
          rw [List.cons.injEq, hsame, List.mem_append, not_or]
          exact ⟨fun h => ⟨hplus, h.2⟩, fun h => ⟨rfl, h.2⟩⟩
  obtain ⟨t', ht', hblanks, hsame⟩ := hpending []
  have hdecoded : urlDecode u = t' := ht'
  rw [hdecoded]
  exact ⟨hblanks, hsame⟩

end Ghostlane.App
