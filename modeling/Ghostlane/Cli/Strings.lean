import Ghostlane.Cli.Olcrtc
import Ghostlane.Lib.Fields
import Ghostlane.Lib.Utf8

/-!
# Ghostlane.Cli.Strings

Functions of Go's `strings` over what a string of Go is, bytes. Where a function reads
characters, a byte that is part of none is one of its own.
-/

namespace Ghostlane.Cli.Strings

open Ghostlane.Lib

/-- White space, as `unicode.IsSpace` has it; a byte that is part of no character is none. -/
def isSpaceRune : Rune → Bool
  | .char c => isSpace c
  | .stray _ => false

/-- `strings.TrimSpace`. -/
def trimSpace (b : Bytes) : Bytes := bytesOf (trimBy isSpaceRune (runes b))

/-- The characters a loop over a string sees. -/
def chars (b : Bytes) : Text := (runes b).map Rune.shown

/-- `utf8.Valid`. -/
def valid (b : Bytes) : Bool := (runes b).all fun
  | .char _ => true
  | .stray _ => false

/-- `strings.EqualFold` against ASCII. -/
def equalFold (b : Bytes) (ascii : Text) : Bool := Cli.equalFold (chars b) ascii

/-- `strings.ToLower` compared with ASCII. -/
def lowersTo (b : Bytes) (ascii : Text) : Bool := (chars b).map toLowerChar == ascii

/-- `strconv.Atoi`, and `ParseInt` to base 10 of 64 bits. No byte above ASCII is a digit. -/
def atoi (b : Bytes) : Option Int := Cli.atoi (b.map Char.ofUInt8)

/-- A text of ASCII without white space is trimmed. -/
theorem trimSpace_of_forall {b : Bytes}
    (h : ∀ x ∈ b, x < 0x80 ∧ isSpace (Char.ofUInt8 x) = false) : trimSpace b = b := by
  have hnone : ∀ r ∈ runes b, isSpaceRune r = false := by
    intro r hr
    rw [runes_ascii fun x hx => (h x hx).1] at hr
    obtain ⟨x, hx, rfl⟩ := List.mem_map.mp hr
    exact (h x hx).2
  rw [trimSpace, trimBy_of_forall hnone, bytes_runes]

/-- A prefix of ASCII without white space is not trimmed. -/
theorem starts_trimSpace {raw scheme : Bytes} (hne : scheme ≠ [])
    (hascii : ∀ x ∈ scheme, x < 0x80 ∧ isSpace (Char.ofUInt8 x) = false)
    (h : Bytes.starts raw scheme = true) : Bytes.starts (trimSpace raw) scheme = true := by
  obtain ⟨rest, rfl⟩ := List.isPrefixOf_iff_prefix.mp h
  have hread := runes_ascii_append (fun x hx => (hascii x hx).1) rest
  have hkept : ∀ r ∈ scheme.map (fun x => Rune.char (Char.ofUInt8 x)), isSpaceRune r = false := by
    intro r hr
    obtain ⟨x, hx, rfl⟩ := List.mem_map.mp hr
    exact (hascii x hx).2
  obtain ⟨t, ht⟩ := trimBy_append_of_forall hkept (by simpa using hne) (runes rest)
  have hback : bytesOf (scheme.map fun x => Rune.char (Char.ofUInt8 x)) = scheme := by
    rw [← runes_ascii fun x hx => (hascii x hx).1, bytes_runes]
  rw [trimSpace, hread, ht, bytesOf, List.flatMap_append]
  refine List.isPrefixOf_iff_prefix.mpr ⟨bytesOf t, ?_⟩
  exact congrArg (· ++ bytesOf t) hback.symm

/-- A character that is neither a digit nor a sign is in no number. -/
theorem atoi_eq_none_of_mem {t : Text} {c : Char} (hc : c ∈ t) (hdigit : c.isDigit = false)
    (hsign : c ≠ '-' ∧ c ≠ '+') : Cli.atoi t = none := by
  have hnone : ∀ ds : Text, c ∈ ds → digits ds = none := by
    intro ds hmem
    refine if_neg fun h => ?_
    rw [List.all_eq_true.mp h.2 c hmem] at hdigit
    cases hdigit
  unfold Cli.atoi
  split
  · rw [hnone _ ((List.mem_cons.mp hc).resolve_left hsign.1)]
    rfl
  · rw [hnone _ ((List.mem_cons.mp hc).resolve_left hsign.2)]
    rfl
  · rw [hnone _ hc]
    rfl

/-! ### Of a text in UTF-8 -/

@[simp] theorem chars_utf8 (t : Text) : chars (utf8 t) = t := by
  rw [chars, runes_utf8, List.map_map]
  exact List.map_id t

@[simp] theorem trimSpace_utf8 (t : Text) : trimSpace (utf8 t) = utf8 (Cli.trimSpace t) := by
  have hbytes : ∀ u : Text, bytesOf (u.map .char) = utf8 u := fun u => List.flatMap_map ..
  rw [trimSpace, runes_utf8, trimBy_map, hbytes]
  rfl

@[simp] theorem lowersTo_utf8 (t ascii : Text) :
    lowersTo (utf8 t) ascii = (t.map toLowerChar == ascii) := by
  rw [lowersTo, chars_utf8]

@[simp] theorem atoi_utf8 (t : Text) : atoi (utf8 t) = Cli.atoi t := by
  by_cases h : ∀ c ∈ t, c.toNat < 0x80
  · have hmap : (utf8 t).map Char.ofUInt8 = t := by
      induction t with
      | nil => rfl
      | cons c t ih =>
          have hc := h c List.mem_cons_self
          rw [utf8_cons, utf8EncodeChar_ascii hc, List.singleton_append, List.map_cons,
            ih fun d hd => h d (List.mem_cons_of_mem c hd)]
          refine congrArg (· :: t) (Char.toNat_inj.mp ?_)
          exact toNat_byte hc
    rw [atoi, hmap]
  · -- a character outside ASCII is in no number, nor are its bytes
    obtain ⟨c, hc, hbig⟩ : ∃ c ∈ t, 0x80 ≤ c.toNat := by
      simpa using h
    have hnumber : ∀ d : Char, 0x80 ≤ d.toNat → d.isDigit = false ∧ d ≠ '-' ∧ d ≠ '+' := by
      intro d hd
      refine ⟨?_, ?_, ?_⟩
      · by_contra hdigit
        simp only [Char.isDigit, Bool.not_eq_false, Bool.and_eq_true, decide_eq_true_eq,
          UInt32.le_iff_toNat_le] at hdigit
        have hnine : '9'.val.toNat = 57 := rfl
        have hval : d.val.toNat = d.toNat := rfl
        omega
      · rintro rfl
        exact absurd hd (by decide)
      · rintro rfl
        exact absurd hd (by decide)
    obtain ⟨b, hb⟩ := List.exists_mem_of_ne_nil _ (utf8EncodeChar_ne_nil c)
    have hbyte : 0x80 ≤ (Char.ofUInt8 b).toNat := le_of_mem_utf8EncodeChar hbig hb
    have hmem : Char.ofUInt8 b ∈ (utf8 t).map Char.ofUInt8 :=
      List.mem_map_of_mem (List.mem_flatMap.mpr ⟨c, hc, hb⟩)
    rw [atoi, atoi_eq_none_of_mem hmem (hnumber _ hbyte).1 (hnumber _ hbyte).2,
      atoi_eq_none_of_mem hc (hnumber c hbig).1 (hnumber c hbig).2]

/-! ### Parts of a string -/

theorem bytesOf_append (r s : List Rune) : bytesOf (r ++ s) = bytesOf r ++ bytesOf s :=
  List.flatMap_append

/-- No character goes past an ASCII byte. -/
theorem runes_append_byte {c : Char} (hc : c.toNat < 0x80) (a b : Bytes) :
    runes (a ++ byte c :: b) = runes a ++ .char c :: runes b := by
  induction a using runes_induction with
  | nil =>
      rw [List.nil_append, runes_nil, List.nil_append, ← runes_char_append, utf8EncodeChar_ascii hc]
      rfl
  | char d t ih =>
      rw [List.append_assoc, runes_char_append, runes_char_append, ih]
      rfl
  | stray x t hread ih =>
      have hnone : decodeRune (x :: (t ++ byte c :: b)) = none := by
        by_contra hsome
        obtain ⟨d, hd⟩ := Option.ne_none_iff_exists'.mp hsome
        obtain ⟨rest, hrest⟩ := exists_of_decodeRune hd
        rw [← List.cons_append] at hrest
        rcases List.append_eq_append_iff.mp hrest with ⟨u, hu, hb⟩ | ⟨u, hu, -⟩
        · cases u with
          | nil =>
              rw [List.append_nil] at hu
              have hself := decodeRune_append d []
              rw [hu, List.append_nil, hread] at hself
              cases hself
          | cons y u =>
              obtain ⟨rfl, -⟩ := List.cons.inj hb
              have hdc : d = c := (byte_mem_utf8EncodeChar hc).mp (by rw [hu]; simp)
              have hlength := congrArg List.length hu
              rw [hdc, utf8EncodeChar_ascii hc] at hlength
              simp at hlength
        · rw [hu, decodeRune_append] at hread
          cases hread
      rw [List.cons_append, runes_stray hnone, runes_stray hread, ih]
      rfl

/-- The runes a string begins with are read without what follows. -/
theorem runes_bytesOf_left {b : Bytes} {r s : List Rune} (h : runes b = r ++ s) :
    runes (bytesOf r) = r := by
  induction b using runes_induction generalizing r with
  | nil =>
      rw [runes_nil] at h
      rw [(List.append_eq_nil_iff.mp h.symm).1]
      rfl
  | char c t ih =>
      cases r with
      | nil => rfl
      | cons x r =>
          rw [runes_char_append, List.cons_append] at h
          obtain ⟨rfl, ht⟩ := List.cons.inj h
          exact (runes_char_append c (bytesOf r)).trans (congrArg _ (ih ht))
  | stray x t hread ih =>
      cases r with
      | nil => rfl
      | cons y r =>
          rw [runes_stray hread, List.cons_append] at h
          obtain ⟨rfl, ht⟩ := List.cons.inj h
          have hnone : decodeRune (x :: bytesOf r) = none := by
            by_contra hsome
            obtain ⟨d, hd⟩ := Option.ne_none_iff_exists'.mp hsome
            obtain ⟨rest, hrest⟩ := exists_of_decodeRune hd
            have hbytes := bytes_runes t
            rw [ht, bytesOf_append] at hbytes
            rw [← hbytes, ← List.cons_append, hrest, List.append_assoc, decodeRune_append] at hread
            cases hread
          exact (runes_stray hnone).trans (congrArg _ (ih ht))

/-- The runes a string ends with are read without what stands before. -/
theorem runes_bytesOf_right {b : Bytes} {r s : List Rune} (h : runes b = r ++ s) :
    runes (bytesOf s) = s := by
  induction b using runes_induction generalizing r with
  | nil =>
      rw [runes_nil] at h
      rw [(List.append_eq_nil_iff.mp h.symm).2]
      rfl
  | char c t ih =>
      cases r with
      | nil =>
          rw [List.nil_append] at h
          rw [← h, bytes_runes]
      | cons x r =>
          rw [runes_char_append, List.cons_append] at h
          exact ih (List.cons.inj h).2
  | stray x t hread ih =>
      cases r with
      | nil =>
          rw [List.nil_append] at h
          rw [← h, bytes_runes]
      | cons y r =>
          rw [runes_stray hread, List.cons_append] at h
          exact ih (List.cons.inj h).2

/-- What trimming leaves off, with what it leaves. -/
theorem exists_trimSpace (b : Bytes) : ∃ r s, runes b = r ++ trimBy isSpaceRune (runes b) ++ s ∧
    r.all isSpaceRune = true ∧ s.all isSpaceRune = true := by
  refine ⟨(runes b).takeWhile isSpaceRune, ((runes b).dropWhile isSpaceRune).rtakeWhile isSpaceRune,
    ?_, ?_, ?_⟩
  · rw [trimBy, List.append_assoc, List.rdropWhile_append_rtakeWhile,
      List.takeWhile_append_dropWhile]
  · exact List.all_eq_true.mpr fun _ => List.mem_takeWhile_imp
  · exact List.all_eq_true.mpr fun _ => List.mem_rtakeWhile_imp

@[simp] theorem runes_trimSpace (b : Bytes) :
    runes (trimSpace b) = trimBy isSpaceRune (runes b) := by
  obtain ⟨r, s, hsplit, -, -⟩ := exists_trimSpace b
  have hfront := runes_bytesOf_left hsplit
  exact runes_bytesOf_right hfront

theorem bytes_trimSpace (b : Bytes) : bytesOf (trimBy isSpaceRune (runes b)) = trimSpace b := rfl

/-- Trimming takes no ASCII byte but white space. -/
theorem count_trimSpace {c : Char} (hc : c.toNat < 0x80) (hspace : isSpace c = false) (b : Bytes) :
    (trimSpace b).count (byte c) = b.count (byte c) := by
  have hnone : ∀ r : List Rune, r.all isSpaceRune = true → (bytesOf r).count (byte c) = 0 := by
    intro r hr
    refine List.count_eq_zero_of_not_mem fun hmem => ?_
    obtain ⟨x, hx, hbyte⟩ := List.mem_flatMap.mp hmem
    have hblank := List.all_eq_true.mp hr x hx
    cases x with
    | char d =>
        rw [(byte_mem_utf8EncodeChar hc).mp hbyte] at hblank
        exact Bool.false_ne_true (hspace.symm.trans hblank)
    | stray x => exact Bool.false_ne_true hblank
  obtain ⟨r, s, hsplit, hr, hs⟩ := exists_trimSpace b
  have hbytes := congrArg bytesOf hsplit
  rw [bytes_runes, bytesOf_append, bytesOf_append, bytes_trimSpace] at hbytes
  conv_rhs => rw [hbytes, List.count_append, List.count_append, hnone r hr, hnone s hs]
  omega

theorem length_trimSpace_le (b : Bytes) : (trimSpace b).length ≤ b.length := by
  obtain ⟨r, s, hsplit, -, -⟩ := exists_trimSpace b
  have hbytes := congrArg (List.length ∘ bytesOf) hsplit
  simp only [Function.comp_apply, bytes_runes, bytesOf_append, bytes_trimSpace,
    List.length_append] at hbytes
  omega

end Ghostlane.Cli.Strings
