import Ghostlane.Lib.Bytes
import Mathlib.Data.List.GetD
import Mathlib.Data.List.OfFn
import Mathlib.Logic.Equiv.Defs
import Mathlib.Tactic.Common

/-!
# Ghostlane.Lib.BlockCipher

What is built around a block cipher: strings of a fixed width (`Octets`), a string of bytes
cut into them, chaining (CBC) over any permutation of any blocks, and the padding that fills
the last block up.
-/

namespace Ghostlane.Lib

/-! ### Strings of a fixed width -/

/-- A string of `n` bytes. -/
abbrev Octets (n : Nat) : Type := Fin n → UInt8

namespace Octets

variable {n : Nat}

def bytes (x : Octets n) : Bytes := List.ofFn x

/-- The first `n` bytes of a string that has so many. -/
def ofBytes (n : Nat) (b : Bytes) : Octets n := fun i => b.getD i 0

@[simp] theorem length_bytes (x : Octets n) : x.bytes.length = n := List.length_ofFn

theorem getElem_bytes (x : Octets n) {i : Nat} (hi : i < x.bytes.length) :
    x.bytes[i] = x ⟨i, length_bytes x ▸ hi⟩ := List.getElem_ofFn hi

@[simp] theorem ofBytes_bytes_append (x : Octets n) (t : Bytes) : ofBytes n (x.bytes ++ t) = x := by
  funext i
  have hi : (i : Nat) < x.bytes.length := by
    rw [length_bytes]
    exact i.isLt
  rw [ofBytes, List.getD_append _ _ _ _ hi, List.getD_eq_getElem _ _ hi, getElem_bytes]

theorem bytes_ofBytes_append {b : Bytes} (h : b.length = n) (t : Bytes) :
    (ofBytes n (b ++ t)).bytes = b := by
  refine List.ext_getElem (by rw [length_bytes, h]) fun i _ hi => ?_
  rw [getElem_bytes, ofBytes, List.getD_append _ _ _ _ hi, List.getD_eq_getElem _ _ hi]

theorem exists_bytes_eq {b : Bytes} (h : b.length = n) : ∃ x : Octets n, x.bytes = b := by
  have hb := bytes_ofBytes_append h []
  exact ⟨_, hb⟩

/-- Byte by byte. -/
def xor (x y : Octets n) : Octets n := fun i => x i ^^^ y i

@[simp] theorem xor_xor_cancel (x y : Octets n) : (x.xor y).xor y = x := by
  funext i
  show x i ^^^ y i ^^^ y i = x i
  rw [UInt8.xor_assoc, UInt8.xor_self, UInt8.xor_zero]

/-- The bytes of strings, in order. -/
def flat (xs : List (Octets n)) : Bytes := xs.flatMap bytes

/-- The first `k` strings of `n` bytes. -/
def cutInto (n : Nat) : (k : Nat) → Bytes → List (Octets n)
  | 0, _ => []
  | k + 1, b => ofBytes n b :: cutInto n k (b.drop n)

theorem length_flat (xs : List (Octets n)) : (flat xs).length = n * xs.length := by
  induction xs with
  | nil => rfl
  | cons x xs ih =>
      rw [flat, List.flatMap_cons, List.length_append, length_bytes]
      change n + (flat xs).length = _
      rw [ih, List.length_cons, Nat.mul_succ, Nat.add_comm]

@[simp] theorem cutInto_flat (xs : List (Octets n)) : cutInto n xs.length (flat xs) = xs := by
  induction xs with
  | nil => rfl
  | cons x xs ih =>
      have hdrop : (flat (x :: xs)).drop n = flat xs := by
        rw [flat, List.flatMap_cons, List.drop_append_of_le_length (length_bytes x).ge,
          List.drop_eq_nil_of_le (length_bytes x).le]
        rfl
      rw [List.length_cons, cutInto, hdrop, ih, flat, List.flatMap_cons, ofBytes_bytes_append]

theorem flat_cutInto {k : Nat} {b : Bytes} (h : b.length = n * k) : flat (cutInto n k b) = b := by
  induction k generalizing b with
  | zero => exact (List.length_eq_zero_iff.mp h).symm
  | succ k ih =>
      rw [Nat.mul_succ] at h
      have htake : (b.take n).length = n := by
        rw [List.length_take, h]
        omega
      have hdrop : (b.drop n).length = n * k := by
        rw [List.length_drop, h]
        omega
      have hfirst := bytes_ofBytes_append htake (b.drop n)
      rw [List.take_append_drop] at hfirst
      rw [cutInto, flat, List.flatMap_cons, hfirst]
      change b.take n ++ flat (cutInto n k (b.drop n)) = b
      rw [ih hdrop, List.take_append_drop]

@[simp] theorem length_cutInto (k : Nat) (b : Bytes) : (cutInto n k b).length = k := by
  induction k generalizing b with
  | zero => rfl
  | succ k ih => rw [cutInto, List.length_cons, ih]

end Octets

/-! ### Chaining -/

section Chaining

variable {B : Type*} (xor : B → B → B) (E : Equiv.Perm B)

/-- Each block is mixed with the one before it, the first with `iv`, and then encrypted. -/
def cbcEncrypt : (iv : B) → List B → List B
  | _, [] => []
  | iv, p :: ps => E (xor p iv) :: cbcEncrypt (E (xor p iv)) ps

def cbcDecrypt : (iv : B) → List B → List B
  | _, [] => []
  | iv, c :: cs => xor (E.symm c) iv :: cbcDecrypt c cs

@[simp] theorem length_cbcEncrypt (iv : B) (ps : List B) :
    (cbcEncrypt xor E iv ps).length = ps.length := by
  induction ps generalizing iv with
  | nil => rfl
  | cons p ps ih => exact congrArg (· + 1) (ih _)

@[simp] theorem length_cbcDecrypt (iv : B) (cs : List B) :
    (cbcDecrypt xor E iv cs).length = cs.length := by
  induction cs generalizing iv with
  | nil => rfl
  | cons c cs ih => exact congrArg (· + 1) (ih _)

/-- Decryption inverts encryption where mixing twice is nothing. -/
theorem cbcDecrypt_cbcEncrypt (hcancel : ∀ x y, xor (xor x y) y = x) (iv : B) (ps : List B) :
    cbcDecrypt xor E iv (cbcEncrypt xor E iv ps) = ps := by
  induction ps generalizing iv with
  | nil => rfl
  | cons p ps ih => rw [cbcEncrypt, cbcDecrypt, ih, Equiv.symm_apply_apply, hcancel]

end Chaining

/-! ### Padding -/

/-- How many bytes fill a string up to whole blocks of `n`: one at least, a whole block when
it has no room. -/
def fill (n : Nat) (p : Bytes) : Nat := n - p.length % n

/-- A string filled up with bytes that say how many there are of them. -/
def pkcs7 (n : Nat) (p : Bytes) : Bytes :=
  p ++ List.replicate (fill n p) (UInt8.ofNat (fill n p))

section Padding

variable {n : Nat} {p : Bytes}

theorem fill_bounds (hn : 0 < n) (p : Bytes) : 0 < fill n p ∧ fill n p ≤ n := by
  have hmod := Nat.mod_lt p.length hn
  unfold fill
  omega

theorem length_pkcs7 (p : Bytes) : (pkcs7 n p).length = p.length + fill n p := by
  rw [pkcs7, List.length_append, List.length_replicate]

theorem dvd_length_pkcs7 (hn : 0 < n) (p : Bytes) : n ∣ (pkcs7 n p).length := by
  have hmod := Nat.mod_lt p.length hn
  have hdiv := Nat.div_add_mod p.length n
  refine ⟨p.length / n + 1, ?_⟩
  rw [length_pkcs7, fill, Nat.mul_succ]
  omega

/-- How many bytes of padding there are is what whole blocks leave open. -/
theorem eq_fill {k : Nat} (hpos : 0 < k) (hle : k ≤ n) (h : n ∣ p.length + k) : k = fill n p := by
  obtain ⟨m, hm⟩ := h
  have hdiv := Nat.div_add_mod p.length n
  have hmod := Nat.mod_lt p.length (Nat.lt_of_lt_of_le hpos hle)
  have hcancel : n * m = n * (p.length / n) + (p.length % n + k) := by omega
  have hdvd : n ∣ p.length % n + k :=
    (Nat.dvd_add_right (Nat.dvd_mul_right n (p.length / n))).mp (hcancel ▸ Nat.dvd_mul_right n m)
  obtain ⟨j, hj⟩ := hdvd
  have hone : j = 1 := by
    rcases j with _ | _ | j
    · rw [Nat.mul_zero] at hj
      omega
    · rfl
    · rw [Nat.mul_add, Nat.mul_add] at hj
      omega
  rw [hone, Nat.mul_one] at hj
  unfold fill
  omega

end Padding

end Ghostlane.Lib
