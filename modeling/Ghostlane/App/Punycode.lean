import Ghostlane.App.Strings
import Ghostlane.Lib.Punycode

/-!
# Ghostlane.App.Punycode

The encoder of domain labels (`Punycode` of `net/RoutingRule.kt`): the code points of a label in
ascending order, each written as the distance from the one before. What it writes is followed by
RFC 3492's decoder, point by point (`Follows`), so every label is read back (`toAscii_decodes`).

The numbers of the source are `Int` and `Long`. Each result that is kept goes through `int` or
`long`, which have no value where it would leave its range.
-/

namespace Ghostlane.App.Punycode

open Ghostlane.Lib Ghostlane.Lib.Punycode

/-! ### The encoder -/

/-- Why there is no text. -/
inductive Stop
  /-- The source returns null. -/
  | null
  /-- A number is out of its range. -/
  | range
  deriving DecidableEq, Repr

def int (n : Nat) : Except Stop Nat := if n < 2 ^ 31 then .ok n else .error .range

def long (n : Nat) : Except Stop Nat := if n < 2 ^ 63 then .ok n else .error .range

def base : Nat := 36
def tmin : Nat := 1
def tmax : Nat := 26
def skew : Nat := 38
def damp : Nat := 700
def initialBias : Nat := 72
def initialN : Nat := 128

/-- The loop of `adapt`, and what follows it. -/
def adaptLoop (k d : Nat) : Except Stop Nat :=
  if (base - tmin) * tmax / 2 < d then
    int (k + base) >>= fun k => adaptLoop k (d / (base - tmin))
  else do
    let scaled ← long ((base - tmin + 1) * d)
    let skewed ← long (d + skew)
    int (k + scaled / skewed)
termination_by d
decreasing_by exact Nat.div_lt_self (by omega) (by decide)

def adapt (delta points : Nat) (first : Bool) : Except Stop Nat := do
  let d := if first then delta / damp else delta / 2
  adaptLoop 0 (← long (d + d / points))

/-- The digit's threshold, the `when` of `encode`. -/
def digitThreshold (bias k : Nat) : Nat :=
  if k ≤ bias then tmin else if bias + tmax ≤ k then tmax else k - bias

theorem digitThreshold_eq (bias k : Nat) : digitThreshold bias k = threshold bias k := rfl

/-- The inner loop of `encode`, and the digit behind it. -/
def encodeDelta (bias k q : Nat) : Except Stop Text :=
  let t := digitThreshold bias k
  int (bias + tmax) >>= fun _ =>
    if q < t then (int q).map fun d => [digit d]
    else do
      let d ← int (t + (q - t) % (base - t))
      let _ ← int (k + base)
      return digit d :: (← encodeDelta bias (k + base) ((q - t) / (base - t)))
termination_by q
decreasing_by
  have hpositive : 1 ≤ digitThreshold bias k := one_le_threshold bias k
  have hdiv := Nat.div_le_self (q - digitThreshold bias k) (base - digitThreshold bias k)
  omega

/-- What `encode` keeps between two code points. -/
structure Encoder where
  output : Text
  delta : Nat
  bias : Nat
  handled : Nat

/-- The body of `encode`'s inner `for`. -/
def encodePoint (basic n : Nat) (e : Encoder) (point : Nat) : Except Stop Encoder := do
  let delta ← if point < n then long (e.delta + 1) else pure e.delta
  if point = n then
    let digits ← encodeDelta e.bias base delta
    let handled ← int (e.handled + 1)
    let bias ← adapt delta handled (e.handled == basic)
    return { output := e.output ++ digits, delta := 0, bias, handled }
  else return { e with delta }

theorem length_filter_succ {input : List Nat} {n m : Nat}
    (h : (input.filter (n ≤ ·)).min? = some m) :
    (input.filter (m + 1 ≤ ·)).length < (input.filter (n ≤ ·)).length := by
  have hmem := List.min?_mem h
  have hsub : (input.filter (m + 1 ≤ ·)) = (input.filter (n ≤ ·)).filter (m + 1 ≤ ·) := by
    rw [List.filter_filter]
    refine List.filter_congr fun p _ => ?_
    have hn : n ≤ m := of_decide_eq_true (List.mem_filter.mp hmem).2
    rw [Bool.eq_iff_iff, Bool.and_eq_true, decide_eq_true_eq, decide_eq_true_eq]
    omega
  rw [hsub]
  refine List.length_filter_lt_length_iff_exists.mpr ⟨m, hmem, ?_⟩
  rw [decide_eq_true_eq]
  omega

/-- The outer loop of `encode`. -/
def encodeLoop (input : List Nat) (basic n : Nat) (e : Encoder) : Except Stop Text :=
  if e.handled < input.length then
    match _hmin : (input.filter (n ≤ ·)).min? with
    | none => .error .null
    | some m => do
        let rounds ← int (e.handled + 1)
        let delta ← long (e.delta + (← long ((m - n) * rounds)))
        let e ← input.foldlM (encodePoint basic m) { e with delta }
        let delta ← long (e.delta + 1)
        let _ ← int (m + 1)
        encodeLoop input basic (m + 1) { e with delta }
  else .ok e.output
termination_by (input.filter (n ≤ ·)).length
decreasing_by exact length_filter_succ _hmin

def encode (input : List Nat) : Except Stop Text :=
  let basic := (input.filter (· < initialN)).map Char.ofNat
  encodeLoop input basic.length initialN
    { output := basic ++ (if basic = [] then [] else ['-']), delta := 0, bias := initialBias
      handled := basic.length }

/-! ### Labels as they are stored -/

/-- The UTF-16 units of a text. -/
def utf16 (t : Text) : List Nat :=
  t.flatMap fun c =>
    if c.toNat < 0x10000 then [c.toNat]
    else [0xD800 + (c.toNat - 0x10000) / 0x400, 0xDC00 + (c.toNat - 0x10000) % 0x400]

def isHighSurrogate (u : Nat) : Bool := 0xD800 ≤ u && u ≤ 0xDBFF

def isLowSurrogate (u : Nat) : Bool := 0xDC00 ≤ u && u ≤ 0xDFFF

def codePoints : List Nat → Option (List Nat)
  | [] => some []
  | high :: us =>
      if isHighSurrogate high then
        match us with
        | low :: us =>
            if isLowSurrogate low then
              (codePoints us).map
                ((((high - 0xD800) <<< 10) + (low - 0xDC00) + 0x10000) :: ·)
            else none
        | [] => none
      else if isLowSurrogate high then none
      else (codePoints us).map (high :: ·)

def toAscii (label : List Nat) : Except Stop Text :=
  if label.all (· < initialN) then .ok (label.map Char.ofNat)
  else
    match codePoints label with
    | none => .error .null
    | some points => (encode points).map (txt "xn--" ++ ·)

/-! ### Within range -/

theorem ok_bind {α β : Type} (a : α) (f : α → Except Stop β) : (Except.ok a >>= f) = f a := rfl

theorem int_eq {n : Nat} (h : n < 2 ^ 31) : int n = .ok n := if_pos h

theorem long_eq {n : Nat} (h : n < 2 ^ 63) : long n = .ok n := if_pos h

/-- The bias is computed within range. -/
theorem adaptLoop_eq (j : Nat) {k d : Nat} (hd : d < 35 ^ j) (hk : k + 36 * j + 36 < 2 ^ 31) :
    adaptLoop k d = .ok (adaptFrom k d) ∧ adaptFrom k d < k + 36 * j + 36 := by
  induction j generalizing k d with
  | zero =>
      have hzero : d = 0 := by omega
      subst hzero
      rw [adaptLoop, adaptFrom, if_neg (by decide), if_neg (by decide)]
      refine ⟨int_eq ?_, ?_⟩
      · change k + 0 < 2 ^ 31
        omega
      · change k + 0 < k + 36 * 0 + 36
        omega
  | succ j ih =>
      have hbound : (base - tmin) * tmax / 2 = 455 := rfl
      rw [adaptLoop, adaptFrom, hbound]
      by_cases hmore : 455 < d
      · rw [if_pos hmore, if_pos hmore]
        have hk' : k + base < 2 ^ 31 := by
          have hbase : base = 36 := rfl
          omega
        have hd' : d / 35 < 35 ^ j := by
          rw [pow_succ] at hd
          exact Nat.div_lt_of_lt_mul (by rwa [Nat.mul_comm])
        obtain ⟨heq, hlt⟩ := ih (k := k + 36) hd' (by omega)
        rw [int_eq hk']
        refine ⟨heq, ?_⟩
        omega
      · rw [if_neg hmore, if_neg hmore]
        have hscaled : (base - tmin + 1) * d < 2 ^ 63 := by
          have hfactor : base - tmin + 1 = 36 := rfl
          rw [hfactor]
          omega
        have hskewed : d + skew < 2 ^ 63 := by
          have hskew : skew = 38 := rfl
          omega
        have hlt : 36 * d / (d + 38) < 36 := Nat.div_lt_of_lt_mul (by omega)
        rw [long_eq hscaled, long_eq hskewed]
        refine ⟨int_eq ?_, ?_⟩
        · change k + 36 * d / (d + 38) < 2 ^ 31
          omega
        · omega

/-- What a distance below `2 ^ 29` makes of the bias. -/
theorem adapt_eq {delta : Nat} (h : delta < 2 ^ 29) (points : Nat) (first : Bool) :
    adapt delta points first = .ok (Lib.Punycode.adapt delta points first) ∧
      Lib.Punycode.adapt delta points first < 2 ^ 30 := by
  have hd : (if first then delta / damp else delta / 2) < 2 ^ 29 := by
    split
    · exact lt_of_le_of_lt (Nat.div_le_self _ _) h
    · exact lt_of_le_of_lt (Nat.div_le_self _ _) h
  have hsum : ∀ d < 2 ^ 29, d + d / points < 2 ^ 30 := by
    intro d hd
    have hdiv := Nat.div_le_self d points
    omega
  have hbound := hsum _ hd
  obtain ⟨heq, hlt⟩ := adaptLoop_eq 6 (k := 0)
    (d := (if first then delta / damp else delta / 2) +
      (if first then delta / damp else delta / 2) / points) (by omega) (by omega)
  refine ⟨?_, ?_⟩
  · rw [adapt]
    rw [long_eq (by omega)]
    exact heq
  · exact lt_of_lt_of_le hlt (by omega)

/-- A distance is written within range. -/
theorem encodeDelta_eq (j : Nat) {bias k q : Nat} (hq : q < 10 ^ j) (hk : k + 36 * j < 2 ^ 31)
    (hbias : bias + 26 < 2 ^ 31) : encodeDelta bias k q = .ok (writeNumber bias k q) := by
  have htmax : int (bias + tmax) = .ok (bias + 26) := int_eq hbias
  have hbase : base = 36 := rfl
  induction j generalizing k q with
  | zero =>
      have hpositive := one_le_threshold bias k
      have hlast : q < threshold bias k := by omega
      rw [encodeDelta, writeNumber, digitThreshold_eq, htmax, ok_bind, if_pos hlast, if_pos hlast,
        int_eq (by omega)]
      rfl
  | succ j ih =>
      have hpositive := one_le_threshold bias k
      have hupper := threshold_le bias k
      rw [encodeDelta, writeNumber, digitThreshold_eq, htmax, ok_bind]
      by_cases hlast : q < threshold bias k
      · rw [if_pos hlast, if_pos hlast, int_eq (by omega)]
        rfl
      · have hmod := Nat.mod_lt (q - threshold bias k) (show 0 < 36 - threshold bias k by omega)
        have hq' : (q - threshold bias k) / (36 - threshold bias k) < 10 ^ j := by
          rw [pow_succ] at hq
          refine Nat.div_lt_of_lt_mul (lt_of_lt_of_le (lt_of_le_of_lt (Nat.sub_le _ _) hq) ?_)
          rw [Nat.mul_comm]
          exact Nat.mul_le_mul_right _ (by omega)
        rw [if_neg hlast, if_neg hlast, hbase,
          int_eq (n := threshold bias k + (q - threshold bias k) % (36 - threshold bias k))
            (by omega), int_eq (n := k + 36) (by omega), ih hq' (by omega)]
        rfl

/-! ### Followed by the decoder -/

/-- An encoder at code point `m`, with `pre` of the label behind it and `post` before it, and the
decoder that has read its digits. What the decoder has are the points that are handled; the distance
counted so far leads from where it stands to where the encoder does. -/
structure Follows (start : Text) (first : Decoder) (m : Nat) (pre post : List Nat) (e : Encoder)
    (digits : Text) (d : Decoder) : Prop where
  output : e.output = start ++ digits
  plain : ∀ c ∈ digits, c ≠ '-' ∧ c.toNat < 0x80
  reads : ∀ rest, decodeFrom first (digits ++ rest) = decodeFrom d rest
  decoded : d.output = pre.filter (· ≤ m) ++ post.filter (· < m)
  handled : e.handled = d.output.length
  bias : e.bias = d.bias
  small : d.bias < 2 ^ 30
  behind : d.n ≤ m
  distance : d.i + e.delta = (m - d.n) * (e.handled + 1) + (pre.filter (· ≤ m)).length
  fresh : (e.handled == first.output.length) = (d.i == 0)
  more : first.output.length ≤ e.handled

/-- What the lengths and the code points of a label bound. -/
theorem Follows.delta_lt {start : Text} {first : Decoder} {m : Nat} {pre post : List Nat}
    {e : Encoder} {digits : Text} {d : Decoder} (h : Follows start first m pre post e digits d)
    (hm : m < 0x110000) (hlength : (pre ++ post).length ≤ 253) :
    e.delta + 1 < 2 ^ 29 ∧ e.handled ≤ 253 := by
  have hpre := List.length_filter_le (· ≤ m) pre
  have hpost := List.length_filter_le (· < m) post
  have hhandled := h.handled
  rw [h.decoded, List.length_append] at hhandled
  rw [List.length_append] at hlength
  have hrounds : (m - d.n) * (e.handled + 1) ≤ 0x110000 * 254 :=
    Nat.mul_le_mul (by omega) (by omega)
  have hdistance := h.distance
  constructor <;> omega

theorem filter_concat {q : Nat → Bool} (pre : List Nat) (p : Nat) :
    (pre ++ [p]).filter q = pre.filter q ++ if q p then [p] else [] := by
  rw [List.filter_append, List.filter_cons, List.filter_nil]

/-- The point that is next. -/
theorem encodePoint_self {basic n : Nat} {e : Encoder} {digits : Text} {handled bias : Nat}
    (hdigits : encodeDelta e.bias base e.delta = .ok digits)
    (hhandled : int (e.handled + 1) = .ok handled)
    (hbias : adapt e.delta handled (e.handled == basic) = .ok bias) :
    encodePoint basic n e n = .ok ⟨e.output ++ digits, 0, bias, handled⟩ := by
  simp only [encodePoint, lt_self_iff_false, if_false, pure_bind, if_true, hdigits, hhandled]
  rw [ok_bind, ok_bind, hbias, ok_bind]
  rfl

/-- **A step is followed.** -/
theorem encodePoint_follows {start : Text} {first : Decoder} {m p : Nat} {pre post : List Nat}
    {e : Encoder} {digits : Text} {d : Decoder}
    (h : Follows start first m pre (p :: post) e digits d) (hm : m < 0x110000)
    (hlength : (pre ++ p :: post).length ≤ 253) :
    ∃ e' digits' d', encodePoint first.output.length m e p = .ok e' ∧
      Follows start first m (pre ++ [p]) post e' digits' d' := by
  obtain ⟨hdelta, hhandled⟩ := h.delta_lt hm hlength
  rcases Nat.lt_trichotomy p m with hlt | hsame | hgt
  · -- The place is one further on.
    refine ⟨{ e with delta := e.delta + 1 }, digits, d, ?_, ?_⟩
    · rw [encodePoint, if_pos hlt, long_eq (by omega)]
      exact if_neg (by omega)
    · have hpre : (pre ++ [p]).filter (· ≤ m) = pre.filter (· ≤ m) ++ [p] := by
        rw [filter_concat, if_pos (by simpa using hlt.le)]
      refine { h with decoded := ?_, distance := ?_ }
      · rw [h.decoded, hpre, List.filter_cons_of_pos (by simpa using hlt), List.append_assoc]
        rfl
      · rw [hpre, List.length_append, List.length_singleton]
        have hdistance := h.distance
        dsimp only
        omega
  · -- The point is the one that is next: its distance is written.
    subst hsame
    have hpost : (p :: post).filter (· < p) = post.filter (· < p) :=
      List.filter_cons_of_neg (by simp)
    have hpre : (pre ++ [p]).filter (· ≤ p) = pre.filter (· ≤ p) ++ [p] := by
      rw [filter_concat, if_pos (by simp)]
    have hdistance := h.distance
    rw [h.handled] at hdistance
    have hinsert := insert_of_distance h.behind (h.decoded.trans (by rw [hpost])) hdistance
    have hdelta : e.delta < 2 ^ 29 := by omega
    obtain ⟨hadapt, hsmall⟩ := adapt_eq hdelta (e.handled + 1)
      (e.handled == first.output.length)
    have hbias := h.small
    have hwritten : encodeDelta e.bias base e.delta = .ok (writeNumber e.bias base e.delta) :=
      encodeDelta_eq 9 (by omega) (by decide) (by rw [h.bias]; omega)
    refine ⟨{ output := e.output ++ writeNumber d.bias 36 e.delta, delta := 0
              bias := Lib.Punycode.adapt e.delta (e.handled + 1)
                (e.handled == first.output.length)
              handled := e.handled + 1 }, digits ++ writeNumber d.bias 36 e.delta,
      d.insert (d.i + e.delta), ?_, ?_⟩
    · rw [h.bias] at hwritten
      exact encodePoint_self (by rw [h.bias]; exact hwritten) (int_eq (by omega)) hadapt
    · rw [hinsert]
      refine { output := ?_, plain := ?_, reads := ?_, decoded := ?_, handled := ?_, bias := ?_
               small := ?_, behind := le_rfl, distance := ?_, fresh := ?_, more := ?_ }
      · rw [h.output, List.append_assoc]
      · exact List.forall_mem_append.mpr ⟨h.plain, forall_mem_writeNumber
          (fun d hd => (digit_spec hd).2) _ _ _⟩
      · intro rest
        rw [List.append_assoc, h.reads, decodeFrom_number, hinsert]
      · rw [hpre, List.append_assoc]
        rfl
      · rw [h.handled, h.decoded, hpost]
        simp only [List.length_append, List.length_cons]
        omega
      · rw [h.handled, ← h.fresh, h.handled]
      · rwa [h.fresh, h.handled] at hsmall
      · rw [hpre, List.length_append, List.length_singleton, Nat.sub_self, Nat.zero_mul]
        dsimp only
        omega
      · have hmore := h.more
        dsimp only
        rw [beq_eq_false_iff_ne.mpr (by omega), beq_eq_false_iff_ne.mpr (Nat.succ_ne_zero _)]
      · exact Nat.le_succ_of_le h.more
  · -- The point is for later.
    refine ⟨e, digits, d, ?_, ?_⟩
    · rw [encodePoint, if_neg (by omega)]
      exact if_neg (by omega)
    · have hpre : (pre ++ [p]).filter (· ≤ m) = pre.filter (· ≤ m) := by
        rw [filter_concat, if_neg (by simpa using hgt), List.append_nil]
      refine { h with decoded := ?_, distance := ?_ }
      · rw [h.decoded, hpre, List.filter_cons_of_neg (by simpa using hgt.le)]
      · rw [hpre, h.distance]

/-- A round over the label is followed. -/
theorem foldlM_follows {start : Text} {first : Decoder} {m : Nat} {pre post : List Nat}
    {e : Encoder} {digits : Text} {d : Decoder} (h : Follows start first m pre post e digits d)
    (hm : m < 0x110000) (hlength : (pre ++ post).length ≤ 253) :
    ∃ e' digits' d', post.foldlM (encodePoint first.output.length m) e = .ok e' ∧
      Follows start first m (pre ++ post) [] e' digits' d' := by
  induction post generalizing pre e digits d with
  | nil => exact ⟨e, digits, d, rfl, by rwa [List.append_nil]⟩
  | cons p post ih =>
      obtain ⟨e₁, digits₁, d₁, hstep, h₁⟩ := encodePoint_follows h hm hlength
      have happend : pre ++ p :: post = (pre ++ [p]) ++ post := by simp
      rw [happend] at hlength
      obtain ⟨e₂, digits₂, d₂, hrest, h₂⟩ := ih h₁ hlength
      refine ⟨e₂, digits₂, d₂, ?_, by rwa [happend]⟩
      rw [List.foldlM_cons, hstep]
      exact hrest

/-- Up to the next code point of the label. -/
theorem Follows.raise {start : Text} {first : Decoder} {n m : Nat} {input : List Nat}
    {e : Encoder} {digits : Text} {d : Decoder} (h : Follows start first n [] input e digits d)
    (hmin : (input.filter (n ≤ ·)).min? = some m) :
    Follows start first m [] input
      { e with delta := e.delta + (m - n) * (e.handled + 1) } digits d := by
  have hmem := List.min?_mem hmin
  have hn : n ≤ m := of_decide_eq_true (List.mem_filter.mp hmem).2
  have hsame : input.filter (· < n) = input.filter (· < m) := by
    refine List.filter_congr fun p hp => ?_
    have hleast : n ≤ p → m ≤ p := fun hnp =>
      (List.min?_eq_some_iff.mp hmin).2 p (List.mem_filter.mpr ⟨hp, decide_eq_true hnp⟩)
    rw [Bool.eq_iff_iff, decide_eq_true_eq, decide_eq_true_eq]
    omega
  have hdistance := h.distance
  have hbehind := h.behind
  refine { h with decoded := ?_, behind := hbehind.trans hn, distance := ?_ }
  · rw [h.decoded, List.filter_nil, List.filter_nil, hsame]
  · have hsum : (m - d.n) * (e.handled + 1) =
        (n - d.n) * (e.handled + 1) + (m - n) * (e.handled + 1) := by
      rw [← Nat.add_mul]
      congr 1
      omega
    simp only [List.filter_nil, List.length_nil] at hdistance ⊢
    omega

/-- On to the code point after. -/
theorem Follows.next {start : Text} {first : Decoder} {m : Nat} {input : List Nat} {e : Encoder}
    {digits : Text} {d : Decoder} (h : Follows start first m input [] e digits d) :
    Follows start first (m + 1) [] input { e with delta := e.delta + 1 } digits d := by
  have hsame : input.filter (· ≤ m) = input.filter (· < m + 1) :=
    List.filter_congr fun p _ => by rw [decide_eq_decide]; omega
  have hdistance := h.distance
  have hbehind := h.behind
  have hhandled := h.handled
  rw [h.decoded, List.filter_nil, List.append_nil] at hhandled
  refine { h with decoded := ?_, behind := Nat.le_succ_of_le hbehind, distance := ?_ }
  · rw [h.decoded, List.filter_nil, List.filter_nil, hsame, List.append_nil, List.nil_append]
  · have hround : (m + 1 - d.n) * (e.handled + 1) =
        (m - d.n) * (e.handled + 1) + (e.handled + 1) := by
      rw [← Nat.succ_mul]
      congr 1
      omega
    simp only [List.filter_nil, List.length_nil]
    omega

/-- **The loop ends and is followed to its end.** -/
theorem encodeLoop_follows {start : Text} {first : Decoder} {input : List Nat}
    (hpoints : ∀ p ∈ input, p < 0x110000) (hlength : input.length ≤ 253) {n : Nat} {e : Encoder}
    {digits : Text} {d : Decoder} (h : Follows start first n [] input e digits d) :
    ∃ digits', encodeLoop input first.output.length n e = .ok (start ++ digits') ∧
      (∀ c ∈ digits', c ≠ '-' ∧ c.toNat < 0x80) ∧ decodeFrom first digits' = some input := by
  induction hcount : (input.filter (n ≤ ·)).length using Nat.strong_induction_on
    generalizing n e digits d with
  | _ count ih =>
      subst hcount
      have hhandled := h.handled
      rw [h.decoded, List.filter_nil, List.nil_append] at hhandled
      rw [encodeLoop]
      split
      · rename_i hmore
        split
        · -- A point is left.
          rename_i hnone
          rw [List.min?_eq_none_iff, List.filter_eq_nil_iff] at hnone
          have hall : input.filter (· < n) = input := by
            refine List.filter_eq_self.mpr fun p hp => ?_
            have hnot := hnone p hp
            rw [decide_eq_true_eq] at hnot ⊢
            omega
          rw [hall] at hhandled
          omega
        · rename_i m hmin
          have hm : m < 0x110000 := hpoints m (List.mem_filter.mp (List.min?_mem hmin)).1
          have hraised := h.raise hmin
          obtain ⟨hdelta, hbound⟩ := hraised.delta_lt hm hlength
          dsimp only at hdelta hbound
          obtain ⟨e₁, digits₁, d₁, hfold, h₁⟩ := foldlM_follows hraised hm hlength
          rw [List.nil_append] at h₁
          obtain ⟨hdelta₁, -⟩ := h₁.delta_lt hm (by rwa [List.append_nil])
          obtain ⟨digits', hloop, hplain, hdecode⟩ :=
            ih _ (length_filter_succ hmin) h₁.next rfl
          refine ⟨digits', ?_, hplain, hdecode⟩
          rw [int_eq (by omega), ok_bind, long_eq (n := (m - n) * (e.handled + 1)) (by omega),
            ok_bind, long_eq (by omega), ok_bind, hfold, ok_bind, long_eq (by omega), ok_bind,
            int_eq (by omega), ok_bind]
          exact hloop
      · -- Every point is handled.
        rename_i hdone
        have hall : input.filter (· < n) = input := by
          refine List.filter_eq_self.mpr ?_
          rw [← List.length_filter_eq_length_iff]
          have hle := List.length_filter_le (· < n) input
          omega
        refine ⟨digits, ?_, h.plain, ?_⟩
        · rw [h.output]
        · have hreads := h.reads []
          rw [List.append_nil, decodeFrom_nil, h.decoded, List.filter_nil, List.nil_append,
            hall] at hreads
          exact hreads

theorem toNat_ofNat_of_lt {n : Nat} (h : n < initialN) : (Char.ofNat n).toNat = n := by
  rw [Char.ofNat, dif_pos (Or.inl (lt_of_lt_of_le h (by decide)))]
  rfl

/-- **An encoding is read back.** -/
theorem encode_decodes {input : List Nat} (hpoints : ∀ p ∈ input, p < 0x110000)
    (hlength : input.length ≤ 253) : ∃ encoded, encode input = .ok encoded ∧
      (∀ c ∈ encoded, c.toNat < 0x80) ∧ decode encoded = some input := by
  have hback : ∀ p ∈ input.filter (· < initialN), (Char.ofNat p).toNat = p := fun p hp =>
    toNat_ofNat_of_lt (of_decide_eq_true (List.mem_filter.mp hp).2)
  generalize hbasic : (input.filter (· < initialN)).map Char.ofNat = basic
  have hcopied : basic.map Char.toNat = input.filter (· < initialN) := by
    rw [← hbasic, List.map_map]
    exact (List.map_congr_left hback).trans (List.map_id _)
  have hascii : ∀ c ∈ basic, c.toNat < 0x80 := by
    intro c hc
    rw [← hbasic] at hc
    obtain ⟨p, hp, rfl⟩ := List.mem_map.mp hc
    rw [hback p hp]
    exact of_decide_eq_true (List.mem_filter.mp hp).2
  have hfollows : Follows (basic ++ if basic = [] then [] else ['-'])
      ⟨128, 0, 72, basic.map Char.toNat⟩ 128 [] input
      ⟨basic ++ (if basic = [] then [] else ['-']), 0, initialBias, basic.length⟩ []
      ⟨128, 0, 72, basic.map Char.toNat⟩ := by
    refine { output := (List.append_nil _).symm, plain := List.forall_mem_nil _
             reads := fun _ => rfl, decoded := ?_, handled := ?_, bias := rfl, small := ?_
             behind := le_rfl, distance := ?_, fresh := ?_, more := ?_ }
    · rw [hcopied]
      rfl
    · rw [List.length_map]
    · exact show 72 < 2 ^ 30 by decide
    · simp
    · rw [List.length_map, beq_self_eq_true, beq_self_eq_true]
    · rw [List.length_map]
  obtain ⟨digits, hloop, hplain, hdecode⟩ := encodeLoop_follows hpoints hlength hfollows
  rw [List.length_map] at hloop
  refine ⟨basic ++ (if basic = [] then [] else ['-']) ++ digits, ?_, ?_, ?_⟩
  · rw [encode, hbasic]
    exact hloop
  · refine List.forall_mem_append.mpr ⟨List.forall_mem_append.mpr ⟨hascii, ?_⟩,
      fun c hc => (hplain c hc).2⟩
    split
    · exact List.forall_mem_nil _
    · decide
  · rw [decode_basic hascii fun hmem => (hplain _ hmem).1 rfl]
    exact hdecode

/-! ### Labels -/

theorem codePoints_utf16 (t : Text) : codePoints (utf16 t) = some (t.map Char.toNat) := by
  induction t with
  | nil => rfl
  | cons c t ih =>
      have hvalid : c.toNat < 0xD800 ∨ 0xDFFF < c.toNat ∧ c.toNat < 0x110000 := c.valid
      rw [utf16, List.flatMap_cons, List.map_cons]
      change codePoints (_ ++ utf16 t) = _
      split
      · have hhigh : isHighSurrogate c.toNat = false := by
          rw [isHighSurrogate, Bool.and_eq_false_iff, decide_eq_false_iff_not,
            decide_eq_false_iff_not]
          omega
        have hlow : isLowSurrogate c.toNat = false := by
          rw [isLowSurrogate, Bool.and_eq_false_iff, decide_eq_false_iff_not,
            decide_eq_false_iff_not]
          omega
        rw [List.singleton_append, codePoints.eq_def]
        dsimp only
        rw [hhigh, hlow, if_neg Bool.false_ne_true, if_neg Bool.false_ne_true, ih]
        rfl
      · -- Ten bits of the rest in each of the two.
        have hhigh : isHighSurrogate (0xD800 + (c.toNat - 0x10000) / 0x400) = true := by
          rw [isHighSurrogate, Bool.and_eq_true, decide_eq_true_eq, decide_eq_true_eq]
          omega
        have hlow : isLowSurrogate (0xDC00 + (c.toNat - 0x10000) % 0x400) = true := by
          rw [isLowSurrogate, Bool.and_eq_true, decide_eq_true_eq, decide_eq_true_eq]
          omega
        have hpoint : ((0xD800 + (c.toNat - 0x10000) / 0x400 - 0xD800) <<< 10) +
            (0xDC00 + (c.toNat - 0x10000) % 0x400 - 0xDC00) + 0x10000 = c.toNat := by
          rw [Nat.shiftLeft_eq]
          omega
        rw [List.cons_append, List.singleton_append, codePoints.eq_def]
        dsimp only
        rw [if_pos hhigh, if_pos hlow, ih, hpoint]
        rfl

theorem length_le_length_utf16 (t : Text) : t.length ≤ (utf16 t).length := by
  induction t with
  | nil => exact le_rfl
  | cons c t ih =>
      rw [utf16, List.flatMap_cons, List.length_append, List.length_cons, Nat.add_comm]
      refine Nat.add_le_add ?_ ih
      split
      · exact le_rfl
      · exact Nat.le_succ 1

/-- **Every label is read back.** What `toAscii` makes of a label that is not ASCII is told apart
from what it makes of any other, and no number on the way is out of its range. -/
theorem toAscii_decodes {label : Text} (hlength : (utf16 label).length ≤ 253)
    (hforeign : ∃ c ∈ label, initialN ≤ c.toNat) :
    ∃ encoded, toAscii (utf16 label) = .ok (txt "xn--" ++ encoded) ∧
      decode encoded = some (label.map Char.toNat) ∧
      ∀ other : Text, (utf16 other).length ≤ 253 → (∃ c ∈ other, initialN ≤ c.toNat) →
        toAscii (utf16 other) = toAscii (utf16 label) → other = label := by
  have hencoded : ∀ t : Text, (utf16 t).length ≤ 253 → (∃ c ∈ t, initialN ≤ c.toNat) →
      ∃ encoded, toAscii (utf16 t) = .ok (txt "xn--" ++ encoded) ∧
        decode encoded = some (t.map Char.toNat) := by
    intro t hlength hforeign
    have hnot : (utf16 t).all (· < initialN) = false := by
      obtain ⟨c, hc, hlarge⟩ := hforeign
      rw [List.all_eq_false]
      by_cases hplane : c.toNat < 0x10000
      · refine ⟨c.toNat, List.mem_flatMap.mpr ⟨c, hc, ?_⟩, ?_⟩
        · rw [if_pos hplane]
          exact List.mem_singleton_self _
        · rw [decide_eq_true_eq]
          omega
      · refine ⟨0xD800 + (c.toNat - 0x10000) / 0x400, List.mem_flatMap.mpr ⟨c, hc, ?_⟩, ?_⟩
        · rw [if_neg hplane]
          exact List.mem_cons_self
        · rw [decide_eq_true_eq, initialN]
          omega
    have hpoints : ∀ p ∈ t.map Char.toNat, p < 0x110000 := by
      intro p hp
      obtain ⟨c, -, rfl⟩ := List.mem_map.mp hp
      have hvalid : c.toNat < 0xD800 ∨ 0xDFFF < c.toNat ∧ c.toNat < 0x110000 := c.valid
      omega
    have hshort : (t.map Char.toNat).length ≤ 253 := by
      rw [List.length_map]
      exact (length_le_length_utf16 t).trans hlength
    obtain ⟨encoded, hok, -, hdecode⟩ := encode_decodes hpoints hshort
    refine ⟨encoded, ?_, hdecode⟩
    rw [toAscii, hnot, codePoints_utf16]
    dsimp only
    rw [if_neg Bool.false_ne_true, hok]
    rfl
  obtain ⟨encoded, hok, hdecode⟩ := hencoded label hlength hforeign
  refine ⟨encoded, hok, hdecode, fun other hlength' hforeign' hsame => ?_⟩
  obtain ⟨encoded', hok', hdecode'⟩ := hencoded other hlength' hforeign'
  rw [hok, hok', Except.ok.injEq, List.append_cancel_left_eq] at hsame
  rw [hsame, hdecode, Option.some.injEq] at hdecode'
  exact List.map_injective_iff.mpr (Function.LeftInverse.injective Char.ofNat_toNat) hdecode'.symm

/-- A name in Cyrillic. -/
theorem toAscii_decodes_cyrillic : ∃ encoded,
    toAscii (utf16 (txt "пример")) = .ok (txt "xn--" ++ encoded) ∧
      decode encoded = some ((txt "пример").map Char.toNat) ∧
      ∀ other : Text, (utf16 other).length ≤ 253 → (∃ c ∈ other, initialN ≤ c.toNat) →
        toAscii (utf16 other) = toAscii (utf16 (txt "пример")) → other = txt "пример" :=
  toAscii_decodes (by decide) ⟨'п', by decide, by decide⟩

end Ghostlane.App.Punycode
