import Ghostlane.Lib.Cut
import Mathlib.Tactic.Ring

/-!
# Ghostlane.Lib.Punycode

Punycode (RFC 3492), as its decoder defines it. A text is the label's ASCII characters, a delimiter,
and numbers of variable length: each says how far to go on, first round the places of the label and
then up the code points, to the next that is inserted. The threshold of a digit, and with it how
many numbers end there, follows a bias that adapts to the numbers read so far.

`writeNumber` is what a number is written as. `decodeFrom_number` and `insert_of_distance` are how
an encoder is followed: a number that spells a code point's distance inserts it where it belongs.
-/

namespace Ghostlane.Lib.Punycode

/-! ### Parameters -/

def threshold (bias k : Nat) : Nat :=
  if k ≤ bias then 1 else if bias + 26 ≤ k then 26 else k - bias

theorem one_le_threshold (bias k : Nat) : 1 ≤ threshold bias k := by
  unfold threshold
  split_ifs <;> omega

theorem threshold_le (bias k : Nat) : threshold bias k ≤ 26 := by
  unfold threshold
  split_ifs <;> omega

def adaptFrom (k delta : Nat) : Nat :=
  if 455 < delta then adaptFrom (k + 36) (delta / 35) else k + 36 * delta / (delta + 38)
termination_by delta

def adapt (delta points : Nat) (first : Bool) : Nat :=
  let d := if first then delta / 700 else delta / 2
  adaptFrom 0 (d + d / points)

/-! ### Digits -/

/-- The value of a digit, in either case. -/
def digitValue (c : Char) : Option Nat :=
  let n := c.toNat
  if 0x61 ≤ n ∧ n ≤ 0x7A then some (n - 0x61)
  else if 0x41 ≤ n ∧ n ≤ 0x5A then some (n - 0x41)
  else if 0x30 ≤ n ∧ n ≤ 0x39 then some (n - 0x30 + 26)
  else none

def digit (d : Nat) : Char :=
  if d < 26 then Char.ofNat ('a'.toNat + d) else Char.ofNat ('0'.toNat + (d - 26))

theorem digit_spec {d : Nat} (h : d < 36) :
    digitValue (digit d) = some d ∧ digit d ≠ '-' ∧ (digit d).toNat < 0x80 := by
  have hall : ∀ e ∈ List.range 36,
      digitValue (digit e) = some e ∧ digit e ≠ '-' ∧ (digit e).toNat < 0x80 := by decide
  exact hall d (List.mem_range.mpr h)

/-! ### The decoder -/

/-- A number and what is behind it: `i` and the weight `w` of the digit at `k` go along. -/
def readNumber (bias i w k : Nat) : Text → Option (Nat × Text)
  | [] => none
  | c :: t =>
      match digitValue c with
      | none => none
      | some d =>
          if d < threshold bias k then some (i + d * w, t)
          else readNumber bias (i + d * w) (w * (36 - threshold bias k)) (k + 36) t

theorem length_readNumber {bias i w k : Nat} {t rest : Text} {j : Nat}
    (h : readNumber bias i w k t = some (j, rest)) : rest.length < t.length := by
  induction t generalizing i w k with
  | nil => cases h
  | cons c t ih =>
      rw [readNumber] at h
      split at h
      · cases h
      · split at h
        · cases h
          exact Nat.lt_succ_self _
        · exact Nat.lt_succ_of_lt (ih h)

/-- Between two numbers: the code point and the place that are next, and what is decoded. -/
structure Decoder where
  n : Nat
  i : Nat
  bias : Nat
  output : List Nat

/-- A code point is inserted, where the number read says. -/
def Decoder.insert (d : Decoder) (i : Nat) : Decoder :=
  let points := d.output.length + 1
  { n := d.n + i / points
    i := i % points + 1
    bias := adapt (i - d.i) points (d.i == 0)
    output := d.output.insertIdx (i % points) (d.n + i / points) }

def decodeFrom (d : Decoder) (t : Text) : Option (List Nat) :=
  if t = [] then some d.output
  else
    match _hread : readNumber d.bias d.i 1 36 t with
    | none => none
    | some (i, rest) => decodeFrom (d.insert i) rest
termination_by t.length
decreasing_by exact length_readNumber _hread

/-- The code points of a text. Its last delimiter, where anything stands before it, ends what is
copied. -/
def decode (t : Text) : Option (List Nat) :=
  match cutFirst '-' t.reverse with
  | some (digits, c :: basic) =>
      if (c :: basic).all (·.toNat < 0x80) then
        decodeFrom ⟨128, 0, 72, ((c :: basic).reverse).map Char.toNat⟩ digits.reverse
      else none
  | _ => decodeFrom ⟨128, 0, 72, []⟩ t

/-! ### What a number is written as -/

def writeNumber (bias k q : Nat) : Text :=
  if q < threshold bias k then [digit q]
  else
    digit (threshold bias k + (q - threshold bias k) % (36 - threshold bias k)) ::
      writeNumber bias (k + 36) ((q - threshold bias k) / (36 - threshold bias k))
termination_by q
decreasing_by
  have hpositive := one_le_threshold bias k
  have hdiv := Nat.div_le_self (q - threshold bias k) (36 - threshold bias k)
  omega

theorem writeNumber_ne_nil (bias k q : Nat) : writeNumber bias k q ≠ [] := by
  rw [writeNumber]
  split
  · exact List.cons_ne_nil _ _
  · exact List.cons_ne_nil _ _

/-- Each digit of a number is one. -/
theorem forall_mem_writeNumber {p : Char → Prop} (hp : ∀ d < 36, p (digit d)) (bias k q : Nat) :
    ∀ c ∈ writeNumber bias k q, p c := by
  induction q using Nat.strong_induction_on generalizing k with
  | _ q ih =>
      have hpositive := one_le_threshold bias k
      have hupper := threshold_le bias k
      rw [writeNumber]
      split
      · refine List.forall_mem_singleton.mpr (hp q ?_)
        omega
      · have hmod := Nat.mod_lt (q - threshold bias k) (show 0 < 36 - threshold bias k by omega)
        have hdiv := Nat.div_le_self (q - threshold bias k) (36 - threshold bias k)
        refine List.forall_mem_cons.mpr ⟨hp _ ?_, ih _ ?_ _⟩
        · omega
        · omega

/-- A number is read back. -/
theorem readNumber_writeNumber (bias q i w k : Nat) (rest : Text) :
    readNumber bias i w k (writeNumber bias k q ++ rest) = some (i + q * w, rest) := by
  induction q using Nat.strong_induction_on generalizing i w k with
  | _ q ih =>
      have hpositive := one_le_threshold bias k
      have hupper := threshold_le bias k
      rw [writeNumber]
      split
      · rename_i hlast
        rw [List.singleton_append, readNumber, (digit_spec (by omega)).1]
        exact if_pos hlast
      · rename_i hmore
        generalize ht : threshold bias k = t at *
        have hmod := Nat.mod_lt (q - t) (show 0 < 36 - t by omega)
        have hdiv := Nat.div_le_self (q - t) (36 - t)
        rw [List.cons_append, readNumber, (digit_spec (by omega)).1, ht]
        dsimp only
        rw [if_neg (by omega), ih _ (by omega)]
        have hvalue : t + (q - t) % (36 - t) + (q - t) / (36 - t) * (36 - t) = q := by
          have hsum := Nat.mod_add_div' (q - t) (36 - t)
          omega
        have hweight : (t + (q - t) % (36 - t)) * w + (q - t) / (36 - t) * (w * (36 - t)) =
            q * w := by
          calc (t + (q - t) % (36 - t)) * w + (q - t) / (36 - t) * (w * (36 - t))
              = (t + (q - t) % (36 - t) + (q - t) / (36 - t) * (36 - t)) * w := by ring
            _ = q * w := by rw [hvalue]
        rw [Nat.add_assoc, hweight]

/-! ### How a decoder follows -/

theorem decodeFrom_nil (d : Decoder) : decodeFrom d [] = some d.output := by
  rw [decodeFrom, if_pos rfl]

/-- A number that is read inserts a code point. -/
theorem decodeFrom_number (d : Decoder) (q : Nat) (rest : Text) :
    decodeFrom d (writeNumber d.bias 36 q ++ rest) = decodeFrom (d.insert (d.i + q)) rest := by
  have hne : writeNumber d.bias 36 q ++ rest ≠ [] := by
    intro h
    exact writeNumber_ne_nil _ _ _ (List.append_eq_nil_iff.mp h).1
  have hread := readNumber_writeNumber d.bias q d.i 1 36 rest
  rw [Nat.mul_one] at hread
  rw [decodeFrom, if_neg hne]
  split
  · rename_i hnone
    rw [hread] at hnone
    cases hnone
  · rename_i i rest' hsome
    rw [hread] at hsome
    cases hsome
    rfl

theorem insertIdx_length_append {α : Type} (left right : List α) (a : α) :
    (left ++ right).insertIdx left.length a = left ++ a :: right := by
  induction left with
  | nil => rfl
  | cons b left ih => rw [List.cons_append, List.length_cons, List.insertIdx_succ_cons, ih]; rfl

/-- A number that spells the distance to a code point and its place inserts it there. -/
theorem insert_of_distance {d : Decoder} {m q : Nat} {left right : List Nat} (hle : d.n ≤ m)
    (houtput : d.output = left ++ right)
    (hq : d.i + q = (m - d.n) * (d.output.length + 1) + left.length) :
    d.insert (d.i + q) = ⟨m, left.length + 1, adapt q (d.output.length + 1) (d.i == 0),
      left ++ m :: right⟩ := by
  have hlt : left.length < d.output.length + 1 := by
    rw [houtput, List.length_append]
    omega
  have hdiv : (d.i + q) / (d.output.length + 1) = m - d.n := by
    rw [hq, Nat.add_comm, Nat.add_mul_div_right _ _ (Nat.succ_pos _), Nat.div_eq_of_lt hlt,
      Nat.zero_add]
  have hmod : (d.i + q) % (d.output.length + 1) = left.length := by
    rw [hq, Nat.add_comm, Nat.add_mul_mod_self_right, Nat.mod_eq_of_lt hlt]
  have hm : d.n + (m - d.n) = m := by omega
  have hinsert : d.output.insertIdx left.length m = left ++ m :: right := by
    rw [houtput, insertIdx_length_append]
  rw [Decoder.insert]
  simp only [hdiv, hmod, hm, hinsert, Nat.add_sub_cancel_left]

/-- The ASCII characters of a label come first. -/
theorem decode_basic {basic digits : Text} (hbasic : ∀ c ∈ basic, c.toNat < 0x80)
    (hdigits : '-' ∉ digits) :
    decode (basic ++ (if basic = [] then [] else ['-']) ++ digits) =
      decodeFrom ⟨128, 0, 72, basic.map Char.toNat⟩ digits := by
  cases hreverse : basic.reverse with
  | nil =>
      rw [List.reverse_eq_nil_iff] at hreverse
      subst hreverse
      rw [if_pos rfl, List.nil_append, List.nil_append, decode, cutFirst_eq_none_iff.mpr]
      · rfl
      · rwa [List.mem_reverse]
  | cons c t =>
      have hne : basic ≠ [] := by
        rintro rfl
        cases hreverse
      have hall : (c :: t).all (·.toNat < 0x80) = true := by
        rw [← hreverse, List.all_reverse]
        exact List.all_eq_true.mpr fun d hd => decide_eq_true (hbasic d hd)
      have hwhole : (basic ++ ['-'] ++ digits).reverse = digits.reverse ++ '-' :: c :: t := by
        rw [List.reverse_append, List.reverse_append, hreverse]
        rfl
      rw [if_neg hne, decode, hwhole, cutFirst_append (by rwa [List.mem_reverse])]
      dsimp only
      rw [if_pos hall, ← hreverse, List.reverse_reverse, List.reverse_reverse]

end Ghostlane.Lib.Punycode
