import Ghostlane.Lib.Bytes

/-!
# Ghostlane.Lib.Utf8

A string of bytes read as UTF-8, one character after another. A byte that is part of
no character stands for itself (`Rune.stray`), so nothing is lost: `bytes_runes`.
-/

namespace Ghostlane.Lib

/-- The character the bytes begin with. -/
def decodeRune (b : Bytes) : Option Char := (b.take 4).toByteArray.utf8DecodeChar? 0

/-- What a reader of bytes sees in one step. -/
inductive Rune
  | char (c : Char)
  | stray (b : UInt8)
  deriving DecidableEq, Repr

namespace Rune

def bytes : Rune → Bytes
  | char c => String.utf8EncodeChar c
  | stray b => [b]

/-- The replacement character stands for a byte that is part of none. -/
def shown : Rune → Char
  | char c => c
  | stray _ => Char.ofNat 0xFFFD

end Rune

/-- The runes of the bytes after the next `skip`. -/
def runesFrom : (skip : Nat) → Bytes → List Rune
  | _, [] => []
  | skip + 1, _ :: t => runesFrom skip t
  | 0, b :: t =>
      match decodeRune (b :: t) with
      | some c => .char c :: runesFrom (c.utf8Size - 1) t
      | none => .stray b :: runesFrom 0 t

def runes (b : Bytes) : List Rune := runesFrom 0 b

/-- The bytes of runes, in order. -/
def bytesOf (r : List Rune) : Bytes := r.flatMap Rune.bytes

theorem toByteArray_append (a b : Bytes) :
    (a ++ b).toByteArray = a.toByteArray ++ b.toByteArray := by
  simp

theorem utf8EncodeChar_ne_nil (c : Char) : String.utf8EncodeChar c ≠ [] := by
  intro hnil
  have hlength := String.length_utf8EncodeChar c
  rw [hnil] at hlength
  exact absurd hlength (Nat.ne_of_lt c.utf8Size_pos)

/-- A character is read back from its bytes. -/
@[simp] theorem decodeRune_append (c : Char) (t : Bytes) :
    decodeRune (String.utf8EncodeChar c ++ t) = some c := by
  have hlength : (String.utf8EncodeChar c).length ≤ 4 := by
    rw [String.length_utf8EncodeChar]
    exact c.utf8Size_le_four
  rw [decodeRune, List.take_append, List.take_of_length_le hlength, toByteArray_append]
  have hone : [c].utf8Encode = (String.utf8EncodeChar c).toByteArray := by
    simp [List.utf8Encode]
  rw [← hone]
  exact List.utf8DecodeChar?_utf8Encode_singleton_append

/-- What is read as a character is its bytes. -/
theorem exists_of_decodeRune {b : Bytes} {c : Char} (h : decodeRune b = some c) :
    ∃ t, b = String.utf8EncodeChar c ++ t := by
  obtain ⟨l, hl⟩ := ByteArray.exists_of_utf8DecodeChar?_eq_some h
  have htake : b.take 4 = String.utf8EncodeChar c ++ l.data.toList := by
    have hdata := congrArg (fun x : ByteArray => x.data.toList) hl
    simpa using hdata
  exact ⟨l.data.toList ++ b.drop 4, by
    rw [← List.append_assoc, ← htake, List.take_append_drop]⟩

theorem runesFrom_eq_drop (n : Nat) (b : Bytes) : runesFrom n b = runes (b.drop n) := by
  induction n generalizing b with
  | zero => rfl
  | succ n ih =>
      cases b with
      | nil => rfl
      | cons x t => exact ih t

@[simp] theorem runes_nil : runes [] = [] := rfl

@[simp] theorem runes_char_append (c : Char) (t : Bytes) :
    runes (String.utf8EncodeChar c ++ t) = .char c :: runes t := by
  obtain ⟨x, rest, hx⟩ := List.exists_cons_of_ne_nil (utf8EncodeChar_ne_nil c)
  have hlength : rest.length + 1 = c.utf8Size := by
    rw [← String.length_utf8EncodeChar c, hx, List.length_cons]
  have hread : decodeRune (x :: (rest ++ t)) = some c := by
    rw [← List.cons_append, ← hx]
    exact decodeRune_append c t
  rw [runes, hx, List.cons_append, runesFrom, hread]
  dsimp only
  rw [runesFrom_eq_drop, ← hlength, Nat.add_sub_cancel, List.drop_left]

theorem runes_stray {b : UInt8} {t : Bytes} (h : decodeRune (b :: t) = none) :
    runes (b :: t) = .stray b :: runes t := by
  rw [runes, runesFrom, h]
  rfl

/-- Reading bytes ends with fewer of them. -/
theorem runes_induction {motive : Bytes → Prop} (nil : motive [])
    (char : ∀ c t, motive t → motive (String.utf8EncodeChar c ++ t))
    (stray : ∀ b t, decodeRune (b :: t) = none → motive t → motive (b :: t)) (b : Bytes) :
    motive b := by
  induction hn : b.length using Nat.strong_induction_on generalizing b with
  | _ n ih =>
      cases b with
      | nil => exact nil
      | cons x t =>
          cases hread : decodeRune (x :: t) with
          | none => exact stray x t hread (ih t.length (by rw [← hn]; simp) t rfl)
          | some c =>
              obtain ⟨rest, hrest⟩ := exists_of_decodeRune hread
              have hpos := c.utf8Size_pos
              have hlength : rest.length < n := by
                rw [← hn, hrest, List.length_append, String.length_utf8EncodeChar]
                omega
              rw [hrest]
              exact char c rest (ih rest.length hlength rest rfl)

/-- **Nothing is lost.** -/
@[simp] theorem bytes_runes (b : Bytes) : bytesOf (runes b) = b := by
  induction b using runes_induction with
  | nil => rfl
  | char c t ih =>
      rw [runes_char_append, bytesOf, List.flatMap_cons]
      exact congrArg (String.utf8EncodeChar c ++ ·) ih
  | stray x t hread ih =>
      rw [runes_stray hread, bytesOf, List.flatMap_cons]
      exact congrArg (x :: ·) ih

@[simp] theorem runes_utf8 (t : Text) : runes (utf8 t) = t.map .char := by
  induction t with
  | nil => rfl
  | cons c t ih =>
      rw [utf8, List.flatMap_cons, runes_char_append]
      exact congrArg (Rune.char c :: ·) ih

theorem utf8EncodeChar_ofUInt8 {x : UInt8} (h : x < 0x80) :
    String.utf8EncodeChar (Char.ofUInt8 x) = [x] := by
  have hall : ∀ n < 0x80, String.utf8EncodeChar (Char.ofUInt8 (UInt8.ofNat n)) =
      [UInt8.ofNat n] := by
    decide
  have hx := hall x.toNat (UInt8.lt_iff_toNat_lt.mp h)
  rwa [UInt8.ofNat_toNat] at hx

/-- The bytes of ASCII characters are those characters in UTF-8. -/
theorem utf8_ofUInt8 {b : Bytes} (h : ∀ x ∈ b, x < 0x80) : utf8 (b.map Char.ofUInt8) = b := by
  induction b with
  | nil => rfl
  | cons x b ih =>
      rw [List.map_cons, utf8, List.flatMap_cons, utf8EncodeChar_ofUInt8 (h x List.mem_cons_self)]
      exact congrArg (x :: ·) (ih fun y hy => h y (List.mem_cons_of_mem x hy))

/-- ASCII bytes are read one by one, whatever follows. -/
theorem runes_ascii_append {a : Bytes} (h : ∀ x ∈ a, x < 0x80) (b : Bytes) :
    runes (a ++ b) = a.map (fun x => .char (Char.ofUInt8 x)) ++ runes b := by
  induction a with
  | nil => rfl
  | cons x a ih =>
      have hx := utf8EncodeChar_ofUInt8 (h x List.mem_cons_self)
      rw [List.cons_append, List.map_cons, List.cons_append,
        ← ih fun y hy => h y (List.mem_cons_of_mem x hy), ← runes_char_append, hx]
      rfl

theorem runes_ascii {b : Bytes} (h : ∀ x ∈ b, x < 0x80) :
    runes b = b.map fun x => .char (Char.ofUInt8 x) := by
  have hread := runes_ascii_append h []
  rwa [List.append_nil, runes_nil, List.append_nil] at hread

end Ghostlane.Lib
