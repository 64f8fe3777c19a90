import Ghostlane.Lib.Bytes
import Mathlib.Data.List.GetD
import Mathlib.Data.List.Nodup
import Mathlib.Tactic.Common

/-!
# Ghostlane.Lib.Base64

Base64 over an alphabet, padded or not. The reader is as lenient as the usual ones: line
breaks are skipped, and the bits of a last digit that make no byte are not looked at. So it
reads more than the writer writes, and what the writer writes comes back
(`decode_encode`).
-/

namespace Ghostlane.Lib

/-- The digits of an encoding by their values. None of them is the padding or a line break. -/
structure Alphabet where
  digits : Bytes
  length_digits : digits.length = 64
  nodup_digits : digits.Nodup
  no_marks : ∀ c ∈ digits, c ≠ byte '=' ∧ c ≠ byte '\n' ∧ c ≠ byte '\r'

namespace Alphabet

def std : Alphabet where
  digits := ascii "ABCDEFGHIJKLMNOPQRSTUVWXYZabcdefghijklmnopqrstuvwxyz0123456789+/"
  length_digits := by decide
  nodup_digits := by decide
  no_marks := by decide +kernel

def url : Alphabet where
  digits := ascii "ABCDEFGHIJKLMNOPQRSTUVWXYZabcdefghijklmnopqrstuvwxyz0123456789-_"
  length_digits := by decide
  nodup_digits := by decide
  no_marks := by decide +kernel

variable (a : Alphabet)

def digit (n : Nat) : UInt8 := a.digits.getD n 0

def value (c : UInt8) : Option Nat := if c ∈ a.digits then some (a.digits.idxOf c) else none

theorem digit_mem {n : Nat} (h : n < 64) : a.digit n ∈ a.digits := by
  have hn : n < a.digits.length := by rw [a.length_digits]; exact h
  rw [digit, List.getD_eq_getElem _ _ hn]
  exact List.getElem_mem hn

@[simp] theorem value_digit {n : Nat} (h : n < 64) : a.value (a.digit n) = some n := by
  have hn : n < a.digits.length := by rw [a.length_digits]; exact h
  rw [value, if_pos (a.digit_mem h), digit, List.getD_eq_getElem _ _ hn,
    a.nodup_digits.idxOf_getElem]

theorem value_pad : a.value (byte '=') = none :=
  if_neg fun hmem => (a.no_marks _ hmem).1 rfl

theorem digit_ne_pad {n : Nat} (h : n < 64) : a.digit n ≠ byte '=' :=
  (a.no_marks _ (a.digit_mem h)).1

theorem std_agree {c : UInt8} {n n' : Nat} (h : std.value c = some n) (h' : url.value c = some n') :
    n = n' := by
  have hboth : ∀ c ∈ std.digits, url.value c = std.value c ∨ url.value c = none := by
    decide +kernel
  by_cases hmem : c ∈ std.digits
  · rcases hboth c hmem with hsame | hnone
    · rw [hsame, h] at h'
      exact Option.some.inj h'
    · rw [hnone] at h'
      cases h'
  · rw [value, if_neg hmem] at h
    cases h

/-- The two alphabets never read a digit in two ways. -/
theorem value_agree {a a' : Alphabet} (ha : a = std ∨ a = url) (ha' : a' = std ∨ a' = url)
    {c : UInt8} {n n' : Nat} (h : a.value c = some n) (h' : a'.value c = some n') : n = n' := by
  rcases ha with rfl | rfl <;> rcases ha' with rfl | rfl
  · exact Option.some.inj (h.symm.trans h')
  · exact std_agree h h'
  · exact (std_agree h' h).symm
  · exact Option.some.inj (h.symm.trans h')

end Alphabet

/-! ### Three bytes in four digits -/

/-- The bytes four digits stand for. -/
def firstByte (v₀ v₁ : Nat) : UInt8 := UInt8.ofNat (v₀ * 4 + v₁ / 16)
def secondByte (v₁ v₂ : Nat) : UInt8 := UInt8.ofNat (v₁ * 16 + v₂ / 4)
def thirdByte (v₂ v₃ : Nat) : UInt8 := UInt8.ofNat (v₂ * 64 + v₃)

/-- The four digits of three bytes. -/
def firstDigit (x : UInt8) : Nat := x.toNat / 4
def secondDigit (x y : UInt8) : Nat := x.toNat % 4 * 16 + y.toNat / 16
def thirdDigit (y z : UInt8) : Nat := y.toNat % 16 * 4 + z.toNat / 64
def fourthDigit (z : UInt8) : Nat := z.toNat % 64

section Digits

variable (x y z : UInt8)

theorem firstDigit_lt : firstDigit x < 64 := by
  have := x.toNat_lt
  unfold firstDigit
  omega

theorem secondDigit_lt : secondDigit x y < 64 := by
  have := y.toNat_lt
  unfold secondDigit
  omega

theorem thirdDigit_lt : thirdDigit y z < 64 := by
  have := z.toNat_lt
  unfold thirdDigit
  omega

theorem fourthDigit_lt : fourthDigit z < 64 := by
  unfold fourthDigit
  omega

theorem ofNat_eq_of_mod {n : Nat} {b : UInt8} (h : n % 256 = b.toNat) : UInt8.ofNat n = b := by
  rw [← UInt8.toNat_inj, UInt8.toNat_ofNat']
  exact h

@[simp] theorem firstByte_digits : firstByte (firstDigit x) (secondDigit x y) = x := by
  refine ofNat_eq_of_mod ?_
  have hx := x.toNat_lt
  have hy := y.toNat_lt
  unfold firstDigit secondDigit
  omega

@[simp] theorem secondByte_digits : secondByte (secondDigit x y) (thirdDigit y z) = y := by
  refine ofNat_eq_of_mod ?_
  have hy := y.toNat_lt
  have hz := z.toNat_lt
  unfold secondDigit thirdDigit
  omega

@[simp] theorem thirdByte_digits : thirdByte (thirdDigit y z) (fourthDigit z) = z := by
  refine ofNat_eq_of_mod ?_
  have hz := z.toNat_lt
  unfold thirdDigit fourthDigit
  omega

end Digits

/-! ### Reading and writing -/

/-- An alphabet, and whether a last quantum is filled up with `=`. -/
structure Base64 where
  alphabet : Alphabet
  padded : Bool

namespace Base64

/-- The bytes of the digits, four at a time. -/
def quanta (e : Base64) : Bytes → Option Bytes
  | [] => some []
  | [_] => none
  | [c₀, c₁] =>
      if e.padded then none
      else do return [firstByte (← e.alphabet.value c₀) (← e.alphabet.value c₁)]
  | [c₀, c₁, c₂] =>
      if e.padded then none
      else do
        let v₀ ← e.alphabet.value c₀
        let v₁ ← e.alphabet.value c₁
        let v₂ ← e.alphabet.value c₂
        return [firstByte v₀ v₁, secondByte v₁ v₂]
  | c₀ :: c₁ :: c₂ :: c₃ :: t => do
      let v₀ ← e.alphabet.value c₀
      let v₁ ← e.alphabet.value c₁
      if e.padded ∧ c₂ = byte '=' then
        if c₃ = byte '=' ∧ t = [] then return [firstByte v₀ v₁] else none
      else
        let v₂ ← e.alphabet.value c₂
        if e.padded ∧ c₃ = byte '=' then
          if t = [] then return [firstByte v₀ v₁, secondByte v₁ v₂] else none
        else
          let v₃ ← e.alphabet.value c₃
          return firstByte v₀ v₁ :: secondByte v₁ v₂ :: thirdByte v₂ v₃ :: (← quanta e t)

def isLineBreak (c : UInt8) : Bool := c == byte '\n' || c == byte '\r'

/-- Line breaks may stand anywhere. -/
def decode (e : Base64) (s : Bytes) : Option Bytes := e.quanta (s.filter (!isLineBreak ·))

def padding (e : Base64) (n : Nat) : Bytes := if e.padded then .replicate n (byte '=') else []

def encode (e : Base64) : Bytes → Bytes
  | [] => []
  | [x] =>
      e.alphabet.digit (firstDigit x) :: e.alphabet.digit (secondDigit x 0) :: e.padding 2
  | [x, y] =>
      e.alphabet.digit (firstDigit x) :: e.alphabet.digit (secondDigit x y) ::
        e.alphabet.digit (thirdDigit y 0) :: e.padding 1
  | x :: y :: z :: t =>
      e.alphabet.digit (firstDigit x) :: e.alphabet.digit (secondDigit x y) ::
        e.alphabet.digit (thirdDigit y z) :: e.alphabet.digit (fourthDigit z) :: encode e t

/-- The digits of bytes. The bits a last digit has over are zeros. -/
def digits : Bytes → List Nat
  | [] => []
  | [x] => [firstDigit x, secondDigit x 0]
  | [x, y] => [firstDigit x, secondDigit x y, thirdDigit y 0]
  | x :: y :: z :: t =>
      firstDigit x :: secondDigit x y :: thirdDigit y z :: fourthDigit z :: digits t

theorem digits_lt (b : Bytes) : ∀ d ∈ digits b, d < 64 := by
  fun_induction digits b with
  | case1 => exact List.forall_mem_nil _
  | case2 x => simp [firstDigit_lt, secondDigit_lt]
  | case3 x y => simp [firstDigit_lt, secondDigit_lt, thirdDigit_lt]
  | case4 x y z t ih =>
      simp only [List.forall_mem_cons]
      exact ⟨firstDigit_lt x, secondDigit_lt x y, thirdDigit_lt y z, fourthDigit_lt z, ih⟩

theorem length_digits (b : Bytes) : (digits b).length = (4 * b.length + 2) / 3 := by
  fun_induction digits b with
  | case1 => rfl
  | case2 x => simp only [List.length_cons, List.length_nil]
  | case3 x y => simp only [List.length_cons, List.length_nil]
  | case4 x y z t ih =>
      simp only [List.length_cons, ih]
      omega

/-- The last digit of a text tells the last byte's low bits, or less. -/
theorem getLast?_digits {b : Bytes} {x : UInt8} (h : b.getLast? = some x) {d : Nat}
    (hd : (digits b).getLast? = some d) :
    d = x.toNat % 64 ∨ d = x.toNat % 4 * 16 ∨ d = x.toNat % 16 * 4 := by
  fun_induction digits b with
  | case1 => cases h
  | case2 y =>
      cases h
      cases hd
      exact .inr (.inl rfl)
  | case3 y z =>
      cases h
      cases hd
      exact .inr (.inr rfl)
  | case4 y z w t ih =>
      cases t with
      | nil =>
          cases h
          cases hd
          exact .inl rfl
      | cons v t =>
          have hne : digits (v :: t) ≠ [] := by
            rw [← List.length_pos_iff, length_digits, List.length_cons]
            omega
          refine ih ?_ ?_
          · rwa [List.getLast?_cons_cons, List.getLast?_cons_cons, List.getLast?_cons_cons] at h
          · rw [← hd]
            obtain ⟨u, us, hus⟩ := List.exists_cons_of_ne_nil hne
            rw [hus, List.getLast?_cons_cons, List.getLast?_cons_cons, List.getLast?_cons_cons,
              List.getLast?_cons_cons]

variable (e : Base64)

/-- How many marks fill up the last quantum. -/
def fill (b : Bytes) : Nat := if e.padded then (3 - b.length % 3) % 3 else 0

theorem encode_eq (b : Bytes) :
    e.encode b = (digits b).map e.alphabet.digit ++ List.replicate (e.fill b) (byte '=') := by
  fun_induction encode e b with
  | case1 => cases hpad : e.padded <;> simp [digits, fill, hpad]
  | case2 x => cases hpad : e.padded <;> simp [digits, fill, padding, hpad]
  | case3 x y => cases hpad : e.padded <;> simp [digits, fill, padding, hpad]
  | case4 x y z t ih =>
      have hfill : e.fill (x :: y :: z :: t) = e.fill t := by
        simp only [fill, List.length_cons]
        congr 2
        omega
      rw [ih, hfill]
      rfl

/-- A quantum of four digits is three bytes. -/
theorem quanta_four {d₀ d₁ d₂ d₃ : Nat} (h₀ : d₀ < 64) (h₁ : d₁ < 64) (h₂ : d₂ < 64)
    (h₃ : d₃ < 64) (t : Bytes) :
    e.quanta (e.alphabet.digit d₀ :: e.alphabet.digit d₁ :: e.alphabet.digit d₂ ::
        e.alphabet.digit d₃ :: t) =
      (e.quanta t).map fun bs =>
        firstByte d₀ d₁ :: secondByte d₁ d₂ :: thirdByte d₂ d₃ :: bs := by
  rw [quanta]
  simp only [e.alphabet.value_digit h₀, e.alphabet.value_digit h₁, e.alphabet.value_digit h₂,
    e.alphabet.value_digit h₃, e.alphabet.digit_ne_pad h₂, e.alphabet.digit_ne_pad h₃, and_false,
    if_false, Option.bind_eq_bind, Option.bind_some]
  cases e.quanta t <;> rfl

theorem quanta_encode (b : Bytes) : e.quanta (e.encode b) = some b := by
  fun_induction encode e b with
  | case1 => rfl
  | case2 x =>
      have h₀ := firstDigit_lt x
      have h₁ := secondDigit_lt x 0
      cases hpad : e.padded with
      | false => simp [padding, hpad, quanta, h₀, h₁]
      | true =>
          simp [padding, hpad, quanta, h₀, h₁, List.replicate]
  | case3 x y =>
      have h₀ := firstDigit_lt x
      have h₁ := secondDigit_lt x y
      have h₂ := thirdDigit_lt y 0
      cases hpad : e.padded with
      | false => simp [padding, hpad, quanta, h₀, h₁, h₂]
      | true => simp [padding, hpad, quanta, h₀, h₁, h₂, List.replicate, e.alphabet.digit_ne_pad h₂]
  | case4 x y z t ih =>
      rw [e.quanta_four (firstDigit_lt x) (secondDigit_lt x y) (thirdDigit_lt y z)
        (fourthDigit_lt z), ih]
      simp

/-- A byte of an encoded text is a digit or the padding. -/
theorem mem_encode {b : Bytes} {c : UInt8} (h : c ∈ e.encode b) :
    c ∈ e.alphabet.digits ∨ c = byte '=' := by
  have hpadding : ∀ n, c ∈ e.padding n → c = byte '=' := by
    intro n hn
    unfold padding at hn
    split at hn
    · exact List.eq_of_mem_replicate hn
    · cases hn
  fun_induction encode e b with
  | case1 => cases h
  | case2 x =>
      simp only [List.mem_cons] at h
      rcases h with rfl | rfl | h
      · exact .inl (e.alphabet.digit_mem (firstDigit_lt x))
      · exact .inl (e.alphabet.digit_mem (secondDigit_lt x 0))
      · exact .inr (hpadding _ h)
  | case3 x y =>
      simp only [List.mem_cons] at h
      rcases h with rfl | rfl | rfl | h
      · exact .inl (e.alphabet.digit_mem (firstDigit_lt x))
      · exact .inl (e.alphabet.digit_mem (secondDigit_lt x y))
      · exact .inl (e.alphabet.digit_mem (thirdDigit_lt y 0))
      · exact .inr (hpadding _ h)
  | case4 x y z t ih =>
      simp only [List.mem_cons] at h
      rcases h with rfl | rfl | rfl | rfl | h
      · exact .inl (e.alphabet.digit_mem (firstDigit_lt x))
      · exact .inl (e.alphabet.digit_mem (secondDigit_lt x y))
      · exact .inl (e.alphabet.digit_mem (thirdDigit_lt y z))
      · exact .inl (e.alphabet.digit_mem (fourthDigit_lt z))
      · exact ih h

/-- **What is written is read back.** -/
@[simp] theorem decode_encode (b : Bytes) : e.decode (e.encode b) = some b := by
  have hkept : (e.encode b).filter (!isLineBreak ·) = e.encode b := by
    refine List.filter_eq_self.mpr fun c hc => ?_
    rcases e.mem_encode hc with hdigit | rfl
    · obtain ⟨-, hnl, hcr⟩ := e.alphabet.no_marks c hdigit
      simp [isLineBreak, hnl, hcr]
    · decide
  rw [decode, hkept, e.quanta_encode]

/-- Two encodings whose alphabets agree read no text in two ways. -/
theorem quanta_agree {e e' : Base64} (hagree : ∀ c n n', e.alphabet.value c = some n →
    e'.alphabet.value c = some n' → n = n') :
    ∀ (s : Bytes) {b b' : Bytes}, e.quanta s = some b → e'.quanta s = some b' → b = b'
  | [], b, b', h, h' => by
      cases h
      cases h'
      rfl
  | [_], b, b', h, _ => by cases h
  | [c₀, c₁], b, b', h, h' => by
      cases hp : e.padded <;> cases hp' : e'.padded <;>
        simp [quanta, hp, hp', Option.bind_eq_some_iff] at h h'
      obtain ⟨v₀, hv₀, v₁, hv₁, rfl⟩ := h
      obtain ⟨v₀', hv₀', v₁', hv₁', rfl⟩ := h'
      rw [hagree c₀ v₀ v₀' hv₀ hv₀', hagree c₁ v₁ v₁' hv₁ hv₁']
  | [c₀, c₁, c₂], b, b', h, h' => by
      cases hp : e.padded <;> cases hp' : e'.padded <;>
        simp [quanta, hp, hp', Option.bind_eq_some_iff] at h h'
      obtain ⟨v₀, hv₀, v₁, hv₁, v₂, hv₂, rfl⟩ := h
      obtain ⟨v₀', hv₀', v₁', hv₁', v₂', hv₂', rfl⟩ := h'
      rw [hagree c₀ v₀ v₀' hv₀ hv₀', hagree c₁ v₁ v₁' hv₁ hv₁', hagree c₂ v₂ v₂' hv₂ hv₂']
  | c₀ :: c₁ :: c₂ :: c₃ :: t, b, b', h, h' => by
      simp only [quanta, Option.bind_eq_bind, Option.bind_eq_some_iff] at h h'
      obtain ⟨v₀, hv₀, v₁, hv₁, h⟩ := h
      obtain ⟨v₀', hv₀', v₁', hv₁', h'⟩ := h'
      obtain rfl := hagree c₀ v₀ v₀' hv₀ hv₀'
      obtain rfl := hagree c₁ v₁ v₁' hv₁ hv₁'
      by_cases h₂ : c₂ = byte '='
      · -- only a padded encoding takes the mark, and it ends there
        cases hp : e.padded <;> cases hp' : e'.padded <;>
          simp [hp, hp', h₂, Alphabet.value_pad] at h h'
        rw [← h.2, ← h'.2]
      · simp only [h₂, and_false, if_false, Option.bind_eq_some_iff] at h h'
        obtain ⟨v₂, hv₂, h⟩ := h
        obtain ⟨v₂', hv₂', h'⟩ := h'
        obtain rfl := hagree c₂ v₂ v₂' hv₂ hv₂'
        by_cases h₃ : c₃ = byte '='
        · cases hp : e.padded <;> cases hp' : e'.padded <;>
            simp [hp, hp', h₃, Alphabet.value_pad] at h h'
          rw [← h.2, ← h'.2]
        · simp only [h₃, and_false, if_false, Option.bind_eq_some_iff] at h h'
          obtain ⟨v₃, hv₃, r, hr, h⟩ := h
          obtain ⟨v₃', hv₃', r', hr', h'⟩ := h'
          cases h
          cases h'
          rw [hagree c₃ v₃ v₃' hv₃ hv₃', quanta_agree hagree t hr hr']

end Base64

end Ghostlane.Lib
