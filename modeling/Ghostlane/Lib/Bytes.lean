import Ghostlane.Lib.Text

/-!
# Ghostlane.Lib.Bytes

Strings as bytes, with the ASCII classes the parsers of URLs ask about. A text
becomes bytes through UTF-8; not every string of bytes comes from a text.
-/

namespace Ghostlane.Lib

abbrev Bytes := List UInt8

/-- The byte of an ASCII character. -/
abbrev byte (c : Char) : UInt8 := c.toUInt8

/-- The bytes of an ASCII literal. -/
def ascii (s : String) : Bytes := s.toList.map byte

/-- A text in UTF-8. -/
def utf8 (t : Text) : Bytes := t.flatMap String.utf8EncodeChar

/-- What holds of every number of a byte holds of every byte. -/
theorem forall_byte {p : UInt8 → Prop} (h : ∀ n < 256, p (UInt8.ofNat n)) (b : UInt8) : p b := by
  have hone := h b.toNat b.toNat_lt
  rwa [UInt8.ofNat_toNat] at hone

namespace Bytes

def isDigit (b : UInt8) : Bool := byte '0' ≤ b && b ≤ byte '9'

def isLetter (b : UInt8) : Bool :=
  (byte 'a' ≤ b && b ≤ byte 'z') || (byte 'A' ≤ b && b ≤ byte 'Z')

def isHex (b : UInt8) : Bool :=
  isDigit b || (byte 'a' ≤ b && b ≤ byte 'f') || (byte 'A' ≤ b && b ≤ byte 'F')

/-- The value of a hexadecimal digit. -/
def hexValue (b : UInt8) : UInt8 :=
  if isDigit b then b - byte '0'
  else if byte 'a' ≤ b then b - byte 'a' + 10
  else b - byte 'A' + 10

/-- An ASCII letter in lower case, any other byte as it is. -/
def lower (b : UInt8) : UInt8 := if byte 'A' ≤ b && b ≤ byte 'Z' then b + 32 else b

/-- What stands before the first `c`, all of it when there is none. -/
def before (c : UInt8) (t : Bytes) : Bytes := t.takeWhile (· != c)

/-- What stands after the first `c`, nothing when there is none. -/
def after (c : UInt8) (t : Bytes) : Bytes := (t.dropWhile (· != c)).drop 1

/-- What stands before the last `c` and after it. -/
def cutLast (c : UInt8) (t : Bytes) : Option (Bytes × Bytes) :=
  if c ∈ t then
    some (((t.reverse.dropWhile (· != c)).drop 1).reverse, (t.reverse.takeWhile (· != c)).reverse)
  else none

def starts (t needle : Bytes) : Bool := needle.isPrefixOf t

theorem before_of_not_mem {c : UInt8} {t : Bytes} (h : c ∉ t) : before c t = t := by
  rw [before, List.takeWhile_eq_self_iff]
  intro x hx
  rw [bne_iff_ne]
  rintro rfl
  exact h hx

theorem after_of_not_mem {c : UInt8} {t : Bytes} (h : c ∉ t) : after c t = [] := by
  have hall : t.dropWhile (· != c) = [] := by
    rw [List.dropWhile_eq_nil_iff]
    intro x hx
    rw [bne_iff_ne]
    rintro rfl
    exact h hx
  rw [after, hall]
  rfl

theorem before_isPrefix (c : UInt8) (t : Bytes) : before c t <+: t := List.takeWhile_prefix _

theorem after_isSuffix (c : UInt8) (t : Bytes) : after c t <:+ t :=
  (List.drop_suffix 1 _).trans (List.dropWhile_suffix _)

end Bytes

end Ghostlane.Lib
