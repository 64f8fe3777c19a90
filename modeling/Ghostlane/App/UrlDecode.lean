import Ghostlane.App.Decoding

/-!
# Ghostlane.App.UrlDecode

Percent-decoding (`net/LinkParser.kt`, `urlDecode`) against the format: runs of
`%XX` read as UTF-8 together, a plus sign for a blank, and every other
character for itself.

The decoder reads the two characters after a percent sign as a number, and a
number may have a sign or digits of another script.
-/

namespace Ghostlane.App

open Ghostlane.Lib

/-! ### How many characters bytes make -/

/-- The next byte of a character begun is a continuation byte. -/
def Continues (s : Utf8State) : Prop := 0x80 ≤ s.lower ∧ s.upper ≤ 0xBF

theorem continues_nothing : Continues {} := ⟨le_rfl, le_rfl⟩

theorem continues_lead (b : Nat) : Continues (utf8Lead b).2 := by
  unfold utf8Lead Continues
  split_ifs <;> simp

theorem utf8Lead_continuation {b : Nat} (hlo : 0x80 ≤ b) (hhi : b ≤ 0xBF) :
    utf8Lead b = ([replacement], {}) := by
  rw [utf8Lead, if_neg (by omega), if_neg (by omega), if_neg (by omega), if_neg (by omega)]

theorem decodeToString_cons (b : Nat) (bs : List Nat) :
    decodeToString (b :: bs) = (utf8Lead b).1 ++ utf8From (utf8Lead b).2 bs := by
  rw [decodeToString, utf8From_lead rfl]

/-- Bytes make no fewer characters by themselves than at the end of a character begun. -/
theorem length_utf8From_le {s : Utf8State} (hs : Continues s) (bs : List Nat) :
    (utf8From s bs).length ≤ (utf8From s []).length + (decodeToString bs).length := by
  induction bs generalizing s with
  | nil => exact Nat.le_add_right _ _
  | cons b bs ih =>
      by_cases hzero : s.needed = 0
      · rw [utf8From_lead hzero, decodeToString_cons]
        exact Nat.le_add_left _ _
      · have hend : utf8From s [] = [replacement] := by rw [utf8From, if_neg hzero]
        rw [hend, decodeToString_cons]
        by_cases hout : b < s.lower ∨ s.upper < b
        · rw [utf8From, if_neg hzero, if_pos hout]
          simp only [List.length_cons, List.length_append, List.length_nil]
          omega
        · obtain ⟨hlower, hupper⟩ := hs
          rw [not_or, not_lt, not_lt] at hout
          -- By itself the byte is a replacement, so that there is room for what it belongs to.
          rw [utf8Lead_continuation (by omega) (by omega)]
          by_cases hone : s.needed = 1
          · rw [utf8From_last hone hout.1 hout.2]
            simp
          · rw [utf8From_next (by omega) hout.1 hout.2]
            have hrest := ih (s := { needed := s.needed - 1, bits := s.bits * 64 + (b - 0x80) })
              continues_nothing
            rw [utf8From, if_neg (by dsimp only; omega)] at hrest
            simp only [List.length_cons, List.length_append, List.length_nil] at hrest ⊢
            rw [decodeToString] at hrest
            omega

theorem length_utf8From_append {s : Utf8State} (hs : Continues s) (xs ys : List Nat) :
    (utf8From s (xs ++ ys)).length ≤ (utf8From s xs).length + (decodeToString ys).length := by
  induction xs generalizing s with
  | nil => exact length_utf8From_le hs ys
  | cons x xs ih =>
      rw [List.cons_append]
      by_cases hzero : s.needed = 0
      · have hrest := ih (continues_lead x)
        rw [utf8From_lead hzero, utf8From_lead hzero, List.length_append, List.length_append]
        omega
      · by_cases hout : x < s.lower ∨ s.upper < x
        · have hrest := ih (continues_lead x)
          rw [utf8From, if_neg hzero, if_pos hout, utf8From, if_neg hzero, if_pos hout]
          simp only [List.length_cons, List.length_append]
          omega
        · rw [not_or, not_lt, not_lt] at hout
          by_cases hone : s.needed = 1
          · have hrest := ih continues_nothing
            rw [utf8From_last hone hout.1 hout.2, utf8From_last hone hout.1 hout.2,
              List.length_cons, List.length_cons]
            omega
          · rw [utf8From_next (by omega) hout.1 hout.2, utf8From_next (by omega) hout.1 hout.2]
            exact ih continues_nothing

/-- Cut anywhere, bytes make no fewer characters. -/
theorem length_decodeToString_append (xs ys : List Nat) :
    (decodeToString (xs ++ ys)).length ≤
      (decodeToString xs).length + (decodeToString ys).length :=
  length_utf8From_append continues_nothing xs ys

theorem length_decodeToString_singleton (b : Nat) : (decodeToString [b]).length ≤ 1 := by
  rw [decodeToString_cons]
  rcases utf8Lead_cases b with ⟨c, hlead, -⟩ | ⟨s, hlead, -⟩
  · rw [hlead]
    simp [utf8From]
  · rw [hlead, List.nil_append, utf8From]
    split <;> simp

/-! ### The format -/

/-- A hexadecimal digit, in either case. -/
def isHexadecimal (c : Char) : Bool :=
  ('0' ≤ c && c ≤ '9') || ('a' ≤ c && c ≤ 'f') || ('A' ≤ c && c ≤ 'F')

/-- A percent sign and two hexadecimal digits. -/
def startsEscape : Text → Bool
  | '%' :: high :: low :: _ => isHexadecimal high && isHexadecimal low
  | _ => false

/-- What a text stands for: the bytes of a whole run of escapes together, and every character
outside such runs for itself, a percent sign among them. -/
inductive StandsFor : Text → Text → Prop
  | nil : StandsFor [] []
  | run {bs : Bytes} {e t u : Text} (he : Escaped bs e) (hne : e ≠ [])
      (hend : startsEscape t = false) (h : StandsFor t u) :
      StandsFor (e ++ t) (decodeToString (bs.map UInt8.toNat) ++ u)
  | itself {c : Char} {t u : Text} (hc : startsEscape (c :: t) = false) (h : StandsFor t u) :
      StandsFor (c :: t) (blanked c :: u)

/-- A form of a text: each of its characters is itself, a percent or plus sign apart, or the
escapes of its UTF-8. -/
inductive FormOf : Text → Text → Prop
  | nil : FormOf [] []
  | itself {c : Char} {t u : Text} (hc : c ≠ '%' ∧ c ≠ '+') (h : FormOf t u) :
      FormOf (c :: t) (c :: u)
  | escaped {c : Char} {t e u : Text} (he : Escaped (String.utf8EncodeChar c) e)
      (h : FormOf t u) : FormOf (c :: t) (e ++ u)

theorem isHexadecimal_ascii : ∀ n < 0x80,
    isHexadecimal (Char.ofNat n) = (digitOf 16 (Char.ofNat n)).isSome := by
  decide

theorem digitOf_lt {radix d : Nat} {c : Char} (h : digitOf radix c = some d) : d < radix := by
  simpa using (Option.filter_eq_some_iff.mp h).2

theorem isHexadecimal_iff {c : Char} : isHexadecimal c = true ↔ ∃ d < 16, Hex d c := by
  have hascii : isHexadecimal c = true → c.toNat < 0x80 := by
    intro h
    simp [isHexadecimal, Char.le_def, UInt32.le_iff_toNat_le] at h
    omega
  constructor
  · intro h
    have hdigit := isHexadecimal_ascii c.toNat (hascii h)
    rw [Char.ofNat_toNat, h] at hdigit
    obtain ⟨d, hd⟩ := Option.isSome_iff_exists.mp hdigit.symm
    exact ⟨d, digitOf_lt hd, hascii h, hd⟩
  · rintro ⟨d, -, hc, hd⟩
    have hdigit := isHexadecimal_ascii c.toNat hc
    rw [Char.ofNat_toNat, hd] at hdigit
    exact hdigit

theorem startsEscape_iff {t : Text} :
    startsEscape t = true ↔ ∃ b e u, Escaped [b] e ∧ t = e ++ u := by
  constructor
  · intro h
    unfold startsEscape at h
    split at h
    · rename_i high low u
      rw [Bool.and_eq_true] at h
      obtain ⟨a, ha, hhigh⟩ := isHexadecimal_iff.mp h.1
      obtain ⟨b, hb, hlow⟩ := isHexadecimal_iff.mp h.2
      have hbyte : (UInt8.ofNat (a * 16 + b)).toNat = a * 16 + b := by
        rw [UInt8.toNat_ofNat']
        omega
      refine ⟨UInt8.ofNat (a * 16 + b), ['%', high, low], u, .cons ?_ ?_ .nil, rfl⟩
      · rw [hbyte, show (a * 16 + b) / 16 = a by omega]
        exact hhigh
      · rw [hbyte, show (a * 16 + b) % 16 = b by omega]
        exact hlow
    · cases h
  · rintro ⟨b, e, u, he, rfl⟩
    cases he with
    | cons hhigh hlow he =>
        have hb := b.toNat_lt
        rw [List.cons_append, List.cons_append, List.cons_append, startsEscape, Bool.and_eq_true]
        exact ⟨isHexadecimal_iff.mpr ⟨_, by omega, hhigh⟩,
          isHexadecimal_iff.mpr ⟨_, by omega, hlow⟩⟩

/-! ### What the decoder takes for an escape -/

/-- A percent sign and two characters that are read as a number. -/
def takenAsEscape : Text → Bool
  | '%' :: a :: b :: _ => (a == '+' || a == '-' || (digitOf 16 a).isSome) && (digitOf 16 b).isSome
  | _ => false

theorem digitsValue_singleton (radix : Nat) (c : Char) :
    digitsValue radix [c] = digitOf radix c := by
  rw [digitsValue, if_neg (List.cons_ne_nil _ _)]
  cases hc : digitOf radix c <;> simp [hc]

theorem isSome_toIntOrNull_pair (a b : Char) :
    (toIntOrNull 16 [a, b]).isSome =
      ((a == '+' || a == '-' || (digitOf 16 a).isSome) && (digitOf 16 b).isSome) := by
  unfold toIntOrNull
  split
  · rename_i ds heq
    cases heq
    rw [digitsValue_singleton]
    cases hb : digitOf 16 b with
    | none => rfl
    | some d =>
        have := digitOf_lt hb
        simp
        omega
  · rename_i ds heq
    cases heq
    rw [digitsValue_singleton]
    cases hb : digitOf 16 b with
    | none => rfl
    | some d =>
        have := digitOf_lt hb
        simp
        omega
  · rename_i hminus hplus
    have hsign : (a == '+' || a == '-') = false := by
      rw [Bool.or_eq_false_iff, beq_eq_false_iff_ne, beq_eq_false_iff_ne]
      exact ⟨fun h => hplus [b] (by rw [h]), fun h => hminus [b] (by rw [h])⟩
    rw [hsign, Bool.false_or, digitsValue, if_neg (List.cons_ne_nil _ _)]
    cases ha : digitOf 16 a with
    | none => simp [ha]
    | some d =>
        cases hb : digitOf 16 b with
        | none => simp [ha, hb]
        | some d' =>
            have := digitOf_lt ha
            have := digitOf_lt hb
            simp [ha, hb]
            omega

/-- What is not taken for an escape stands for itself. -/
theorem urlDecodeFrom_itself {c : Char} {t : Text} (h : takenAsEscape (c :: t) = false)
    (pending : List Nat) :
    urlDecodeFrom pending (c :: t) = decodeToString pending ++ blanked c :: urlDecode t := by
  rw [urlDecodeFrom.eq_def]
  split
  · rename_i heq
    cases heq
  · rename_i a b u heq
    cases heq
    have hnone : toIntOrNull 16 [a, b] = none := by
      rw [← Option.isNone_iff_eq_none, ← Option.not_isSome, isSome_toIntOrNull_pair]
      rw [takenAsEscape] at h
      rw [h]
      rfl
    rw [hnone]
    rfl
  · rename_i heq
    cases heq
    rfl

/-- What is taken for an escape is one byte. -/
theorem urlDecodeFrom_taken {a b : Char} {t : Text}
    (h : takenAsEscape ('%' :: a :: b :: t) = true) :
    ∃ x, ∀ pending, urlDecodeFrom pending ('%' :: a :: b :: t) =
      urlDecodeFrom (pending ++ [x]) t := by
  rw [takenAsEscape, ← isSome_toIntOrNull_pair] at h
  obtain ⟨n, hn⟩ := Option.isSome_iff_exists.mp h
  exact ⟨(n % 256).toNat, fun pending => by rw [urlDecodeFrom, hn]⟩

/-- A run of escapes ends where the next is not taken for one. -/
theorem urlDecodeFrom_flush {t : Text} (h : takenAsEscape t = false) (pending : List Nat) :
    urlDecodeFrom pending t = decodeToString pending ++ urlDecode t := by
  cases t with
  | nil => simp [urlDecode, urlDecodeFrom, decodeToString, utf8From]
  | cons c t =>
      rw [urlDecodeFrom_itself h, urlDecode.eq_1 (c :: t), urlDecodeFrom_itself h]
      simp [decodeToString, utf8From]

theorem takenAsEscape_cases {t : Text} (h : takenAsEscape t = true) :
    ∃ a b u, t = '%' :: a :: b :: u ∧ a ≠ '%' ∧ b ≠ '%' := by
  unfold takenAsEscape at h
  split at h
  · rename_i a b u
    refine ⟨a, b, u, rfl, ?_, ?_⟩
    · rintro rfl
      revert h
      simp [show digitOf 16 '%' = none by decide]
    · rintro rfl
      revert h
      simp [show digitOf 16 '%' = none by decide]
  · cases h

/-- Read on from bytes that wait, a text makes no more characters than apart from them. -/
theorem length_urlDecodeFrom_append (xs ys : List Nat) (t : Text) :
    (urlDecodeFrom (xs ++ ys) t).length ≤
      (decodeToString xs).length + (urlDecodeFrom ys t).length := by
  induction hn : t.length using Nat.strong_induction_on generalizing ys t with
  | h n ih =>
      by_cases htaken : takenAsEscape t = true
      · obtain ⟨a, b, u, rfl, -, -⟩ := takenAsEscape_cases htaken
        obtain ⟨x, hx⟩ := urlDecodeFrom_taken htaken
        rw [hx, hx, List.append_assoc]
        exact ih u.length (by simp only [List.length_cons] at hn; omega) _ u rfl
      · rw [Bool.not_eq_true] at htaken
        have happend := length_decodeToString_append xs ys
        rw [urlDecodeFrom_flush htaken, urlDecodeFrom_flush htaken, List.length_append,
          List.length_append]
        omega

theorem length_urlDecodeFrom_le (xs : List Nat) (t : Text) :
    (urlDecodeFrom xs t).length ≤ (decodeToString xs).length + (urlDecode t).length := by
  have happend := length_urlDecodeFrom_append xs [] t
  rwa [List.append_nil] at happend

/-! ### The decoder against the format -/

/-- A percent sign that no two hexadecimal digits follow is taken for an escape. -/
def Mistaken (s : Text) : Prop := ∃ t, t <:+ s ∧ takenAsEscape t = true ∧ startsEscape t = false

theorem mistaken_of_suffix {s t : Text} (h : t <:+ s) (ht : Mistaken t) : Mistaken s := by
  obtain ⟨u, hu, hread⟩ := ht
  exact ⟨u, hu.trans h, hread⟩

theorem mistaken_cons_iff {c : Char} {t : Text} :
    Mistaken (c :: t) ↔
      (takenAsEscape (c :: t) = true ∧ startsEscape (c :: t) = false) ∨ Mistaken t := by
  constructor
  · rintro ⟨u, hu, hread⟩
    rcases List.suffix_cons_iff.mp hu with rfl | hu
    · exact .inl hread
    · exact .inr ⟨u, hu, hread⟩
  · rintro (hread | ht)
    · exact ⟨c :: t, List.suffix_rfl, hread⟩
    · exact mistaken_of_suffix (List.suffix_cons c t) ht

theorem mistaken_cons_of_ne {c : Char} (hc : c ≠ '%') {t : Text} :
    Mistaken (c :: t) ↔ Mistaken t := by
  rw [mistaken_cons_iff, or_iff_right]
  rintro ⟨htaken, -⟩
  obtain ⟨a, b, u, heq, -⟩ := takenAsEscape_cases htaken
  exact hc (List.cons.inj heq).1

theorem Hex.ne_percent {d : Nat} {c : Char} (h : Hex d c) : c ≠ '%' := by
  rintro rfl
  cases (show digitOf 16 '%' = none by decide).symm.trans h.2

/-- The escapes of a run are none of them mistaken. -/
theorem mistaken_escaped {bs : Bytes} {e : Text} (he : Escaped bs e) {t : Text} :
    Mistaken (e ++ t) ↔ Mistaken t := by
  induction he with
  | nil => rfl
  | @cons b bs high low e hhigh hlow he ih =>
      have hescape : startsEscape ('%' :: high :: low :: (e ++ t)) = true :=
        startsEscape_iff.mpr ⟨b, ['%', high, low], e ++ t, .cons hhigh hlow .nil, rfl⟩
      rw [List.cons_append, List.cons_append, List.cons_append, mistaken_cons_iff, hescape,
        mistaken_cons_of_ne hhigh.ne_percent, mistaken_cons_of_ne hlow.ne_percent, ih]
      simp

/-- What the format makes of a text has no fewer characters than what the decoder does, and more
where the decoder mistakes something for an escape. -/
theorem length_of_standsFor {s u : Text} (h : StandsFor s u) :
    (urlDecode s).length ≤ u.length ∧ (Mistaken s → (urlDecode s).length < u.length) := by
  induction h with
  | nil => exact ⟨le_rfl, fun ⟨t, ht, htaken, _⟩ => by
      rw [List.suffix_nil.mp ht] at htaken
      cases htaken⟩
  | @run bs e t u he hne hend h ih =>
      have hrun : (urlDecode (e ++ t)).length ≤
          (decodeToString (bs.map UInt8.toNat)).length + (urlDecode t).length := by
        rw [urlDecode, urlDecodeFrom_escaped he, List.nil_append]
        exact length_urlDecodeFrom_le _ t
      rw [List.length_append, mistaken_escaped he]
      exact ⟨by omega, fun hmistaken => by have := ih.2 hmistaken; omega⟩
  | @itself c t u hc h ih =>
      by_cases htaken : takenAsEscape (c :: t) = true
      · obtain ⟨a, b, t', heq, ha, hb⟩ := takenAsEscape_cases htaken
        rw [heq] at htaken ⊢
        obtain ⟨x, hx⟩ := urlDecodeFrom_taken htaken
        have htail : (urlDecode (a :: b :: t')).length = (urlDecode t').length + 2 := by
          rw [urlDecode, urlDecodeFrom_raw ha, urlDecodeFrom_raw hb]
          simp [decodeToString, utf8From, urlDecode]
        have hhead : (urlDecode ('%' :: a :: b :: t')).length ≤ 1 + (urlDecode t').length := by
          rw [urlDecode, hx, List.nil_append]
          exact (length_urlDecodeFrom_le [x] t').trans
            (Nat.add_le_add_right (length_decodeToString_singleton x) _)
        have hrest := ih.1
        rw [(List.cons.inj heq).2, htail] at hrest
        -- One byte makes one character at most, and the format has three.
        rw [List.length_cons]
        exact ⟨by omega, fun _ => by omega⟩
      · rw [Bool.not_eq_true] at htaken
        rw [urlDecode, urlDecodeFrom_itself htaken, mistaken_cons_iff, htaken]
        simpa [decodeToString, utf8From] using ih

/-- A text is a run of escapes, perhaps empty, and what does not begin with one. -/
theorem exists_run (s : Text) :
    ∃ bs e t, s = e ++ t ∧ Escaped bs e ∧ startsEscape t = false := by
  induction hn : s.length using Nat.strong_induction_on generalizing s with
  | h n ih =>
      cases hescape : startsEscape s with
      | false => exact ⟨[], [], s, rfl, .nil, hescape⟩
      | true =>
          obtain ⟨b, e, u, he, rfl⟩ := startsEscape_iff.mp hescape
          cases he with
          | @cons _ _ high low _ hhigh hlow he =>
              cases he
              obtain ⟨bs, e', t, rfl, he', hend⟩ :=
                ih u.length (by simp at hn; omega) u rfl
              exact ⟨b :: bs, '%' :: high :: low :: e', t, rfl, .cons hhigh hlow he', hend⟩

theorem takenAsEscape_eq_false {s t : Text} (h : ¬ Mistaken s) (ht : t <:+ s)
    (hend : startsEscape t = false) : takenAsEscape t = false := by
  rw [← Bool.not_eq_true]
  exact fun htaken => h ⟨t, ht, htaken, hend⟩

/-- Where nothing is mistaken for an escape, the decoder gives what the format says. -/
theorem standsFor_urlDecode {s : Text} (h : ¬ Mistaken s) : StandsFor s (urlDecode s) := by
  induction hn : s.length using Nat.strong_induction_on generalizing s with
  | h n ih =>
      obtain ⟨bs, e, t, rfl, he, hend⟩ := exists_run s
      have hnext := takenAsEscape_eq_false h (List.suffix_append e t) hend
      cases e with
      | nil =>
          cases t with
          | nil => exact .nil
          | cons c t =>
              have hrest := ih t.length (by simp at hn; omega)
                (fun ht => h (mistaken_of_suffix (List.suffix_cons c t) ht)) rfl
              rw [List.nil_append, urlDecode, urlDecodeFrom_itself hnext]
              exact .itself hend hrest
      | cons c e =>
          have hrest := ih t.length (by simp at hn; omega)
            (fun ht => h (mistaken_of_suffix (List.suffix_append _ t) ht)) rfl
          rw [urlDecode, urlDecodeFrom_escaped he, urlDecodeFrom_flush hnext, List.nil_append]
          exact .run he (List.cons_ne_nil c e) hend hrest

/-- Every form of a text decodes to it. -/
theorem urlDecode_formOf {t u : Text} (h : FormOf t u) : urlDecode u = t := by
  -- A character's bytes may wait for those before it, so that any whole text may wait.
  have hpending : ∀ p : Text, urlDecodeFrom ((utf8 p).map UInt8.toNat) u = p ++ t := by
    induction h with
    | nil =>
        intro p
        rw [urlDecodeFrom, decodeToString_utf8, List.append_nil]
    | @itself c t u hc h ih =>
        intro p
        have hrest := ih []
        rw [urlDecodeFrom_raw hc.1, decodeToString_utf8, blanked, if_neg hc.2]
        exact congrArg (fun rest => p ++ c :: rest) hrest
    | @escaped c t e u he h ih =>
        intro p
        have hrest := ih (p ++ [c])
        rw [utf8, List.flatMap_append, List.map_append, List.flatMap_singleton] at hrest
        rw [urlDecodeFrom_escaped he, utf8, hrest, List.append_assoc, List.singleton_append]
  exact hpending []

/-- **The decoder gives what the format says exactly where no percent sign is followed by two
characters that are read as a number and are not hexadecimal digits.** Forms of texts are decoded
to them throughout. -/
theorem urlDecode_iff (s : Text) :
    ((∀ t, FormOf t s → urlDecode s = t) ∧ StandsFor s (urlDecode s)) ↔
      ∀ t, t <:+ s → takenAsEscape t = true → startsEscape t = true := by
  constructor
  · rintro ⟨-, hreads⟩ t ht htaken
    by_contra hend
    rw [Bool.not_eq_true] at hend
    exact lt_irrefl _ ((length_of_standsFor hreads).2 ⟨t, ht, htaken, hend⟩)
  · intro h
    refine ⟨fun t => urlDecode_formOf, standsFor_urlDecode ?_⟩
    rintro ⟨t, ht, htaken, hend⟩
    rw [h t ht htaken] at hend
    cases hend

/-- A sign and a digit after a percent sign are one byte, and the three characters are lost. -/
theorem urlDecode_takes_sign :
    urlDecode ['%', '+', '5'] = [Char.ofNat 5] ∧
      ¬ ((∀ t, FormOf t ['%', '+', '5'] → urlDecode ['%', '+', '5'] = t) ∧
        StandsFor ['%', '+', '5'] (urlDecode ['%', '+', '5'])) := by
  refine ⟨by decide, fun h => ?_⟩
  have hlength := (length_of_standsFor h.2).2
    ⟨['%', '+', '5'], List.suffix_rfl, by decide, by decide⟩
  exact lt_irrefl _ hlength

end Ghostlane.App
