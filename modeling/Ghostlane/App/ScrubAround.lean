import Ghostlane.Lib.Stretch
import Ghostlane.App.LogScrubber

/-!
# Ghostlane.App.ScrubAround

What stands around a name or an address in a line, and what of it the expressions leave as it is.
What is left of a slot is followed by `Left`, what is right of it by `Right`: relations between
what an expression makes of a text and the text, one for each thing a later expression looks at.
Both are kept by whatever is copied (`Sim`, `RSim` are closed under it), so that only what is put
for a match is left to be shown.
-/

namespace Ghostlane.App.LogScrubber

open Ghostlane.Lib

/-! ### Characters -/

theorem toNat_lt_of_isAlphanum {c : Char} (h : c.isAlphanum = true) : c.toNat < 128 := by
  delta Char.isAlphanum Char.isAlpha Char.isUpper Char.isLower Char.isDigit at h
  simp only [Bool.or_eq_true, decide_eq_true_eq, Bool.and_eq_true, ge_iff_le,
    UInt32.le_iff_toNat_le] at h
  have h9 : '9'.val.toNat = 57 := rfl
  have hZ : 'Z'.val.toNat = 90 := rfl
  have hz : 'z'.val.toNat = 122 := rfl
  have hc : c.toNat = c.val.toNat := rfl
  omega

theorem isAlphanum_of_isDigit {c : Char} (h : c.isDigit = true) : c.isAlphanum = true := by
  simp [Char.isAlphanum, h]

variable [CharTables]

open CharTables

/-- A character over which no name, address or word goes on. -/
def clear (c : Char) : Bool := !(alnum c || word c || c == '.' || c == '-' || c == '_')

theorem alnum_ascii {c : Char} (h : c.toNat < 128) : alnum c = c.isAlphanum := by
  rw [alnum, letter_ascii c h, number_ascii c h, Char.isAlphanum]

theorem clear_ascii {c : Char} (h : c.toNat < 128) :
    clear c = !(c.isAlphanum || c == '.' || c == '-' || c == '_') := by
  rw [clear, alnum_ascii h, word_ascii c h]
  cases c.isAlphanum <;> cases c == '.' <;> cases c == '-' <;> cases c == '_' <;> rfl

theorem alnum_of_isAlphanum {c : Char} (h : c.isAlphanum = true) : alnum c = true := by
  rw [alnum_ascii (toNat_lt_of_isAlphanum h), h]

theorem word_of_isAlphanum {c : Char} (h : c.isAlphanum = true) : word c = true := by
  rw [word_ascii c (toNat_lt_of_isAlphanum h), h]
  rfl

theorem clear_of_alnum {c : Char} (h : alnum c = true) : clear c = false := by
  simp [clear, h]

theorem word_of_clear {c : Char} (h : clear c = true) : word c = false := by
  simp only [clear, Bool.not_eq_true', Bool.or_eq_false_iff] at h
  exact h.1.1.1.2

theorem nameChar_of_clear {c : Char} (h : clear c = true) : nameChar c = false := by
  simp only [clear, Bool.not_eq_true', Bool.or_eq_false_iff] at h
  simp [nameChar, h]

theorem clear_of_blank {c : Char} (h : blank c = true) : clear c = true := by
  simp only [blank, List.contains_eq_mem, decide_eq_true_eq] at h
  have hascii : ∀ d ∈ txt " \t\n\x0b\x0c\r",
      d.toNat < 128 ∧ (!(d.isAlphanum || d == '.' || d == '-' || d == '_')) = true := by decide
  rw [clear_ascii (hascii c h).1]
  exact (hascii c h).2

/-- The text ends, or begins, with nothing that a name, an address or a word goes on over. -/
def EndsClear (t : Text) : Prop := ∀ c, t.getLast? = some c → clear c = true

def BeginsClear (t : Text) : Prop := ∀ c, t.head? = some c → clear c = true

/-! ### What is left of the slot -/

/-- Nothing that `tagIfPublicV6` takes for an address. -/
def Quiet (run : Text) : Prop := run.count ':' < 4 ∧ ¬ [':', ':'] <:+: run

/-- What only code has in it. -/
def codeChar (c : Char) : Bool := c == '(' || c == ')' || c == '\\'

/-- The place of a URL's host: after the scheme, or after credentials with a scheme before them. -/
def Authority (t : Text) : Prop :=
  [':', '/', '/'] <:+ t ∨
    (t.getLast? = some '@' ∧ [':', '/', '/'] <:+: t.rtakeWhile (fun c => !blank c))

/-- What an expression made of what is left of the slot is as harmless as that was. -/
structure Left (o i : Text) : Prop where
  clear : EndsClear i → EndsClear o
  run : Quiet (i.rtakeWhile colonOrHex) → Quiet (o.rtakeWhile colonOrHex)
  slash : '/' ∈ o.rtakeWhile (fun c => !tokenEnd c) → '/' ∈ i.rtakeWhile (fun c => !tokenEnd c)
  authority : Authority i → Authority o
  code : ∀ c ∈ o, codeChar c = true → c ∈ i

/-- And stays so whatever both go on by. -/
def Sim (o i : Text) : Prop := ∀ tail, Left (o ++ tail) (i ++ tail)

theorem Left.refl (t : Text) : Left t t := ⟨id, id, id, id, fun _ hc _ => hc⟩

theorem Left.trans {a b c : Text} (hab : Left a b) (hbc : Left b c) : Left a c :=
  ⟨hab.clear ∘ hbc.clear, hab.run ∘ hbc.run, hbc.slash ∘ hab.slash, hab.authority ∘ hbc.authority,
    fun x hx hcode => hbc.code x (hab.code x hx hcode) hcode⟩

theorem Sim.refl (t : Text) : Sim t t := fun _ => .refl _

theorem Sim.append {o i : Text} (h : Sim o i) (w : Text) : Sim (o ++ w) (i ++ w) := fun tail => by
  rw [List.append_assoc, List.append_assoc]
  exact h (w ++ tail)

theorem Sim.left {o i : Text} (h : Sim o i) : Left o i := by
  simpa using h []

omit [CharTables] in
theorem Quiet.of_part {run part : Text} (h : Quiet run) (hp : part <:+: run) : Quiet part :=
  ⟨lt_of_le_of_lt (hp.sublist.count_le ':') h.1, fun hc => h.2 (hc.trans hp)⟩

omit [CharTables] in
/-- Digits before a quiet run leave it quiet. -/
theorem Quiet.append_left {run digits : Text} (h : Quiet run) (hd : ':' ∉ digits) :
    Quiet (digits ++ run) := by
  refine ⟨?_, fun hc => ?_⟩
  · rw [List.count_append, List.count_eq_zero_of_not_mem hd, Nat.zero_add]
    exact h.1
  · refine absurd ((infix_append_of_seam (.inr fun c hc hmem => ?_)).mp hc) (not_or.mpr ⟨?_, h.2⟩)
    · simp only [List.mem_cons, List.not_mem_nil, or_false, or_self] at hmem
      subst hmem
      exact hd (List.mem_of_mem_getLast? hc)
    · intro hin
      exact hd (hin.subset (by simp))

omit [CharTables] in
/-- And digits after it. -/
theorem Quiet.append_right {run digits : Text} (h : Quiet run) (hd : ':' ∉ digits) :
    Quiet (run ++ digits) := by
  refine ⟨?_, fun hc => ?_⟩
  · rw [List.count_append, List.count_eq_zero_of_not_mem hd, Nat.add_zero]
    exact h.1
  · refine absurd ((infix_append_of_seam (.inl fun c hc hmem => ?_)).mp hc) (not_or.mpr ⟨h.2, ?_⟩)
    · simp only [List.mem_cons, List.not_mem_nil, or_false, or_self] at hmem
      subst hmem
      exact hd (List.mem_of_mem_head? hc)
    · intro hin
      exact hd (hin.subset (by simp))

omit [CharTables] in
theorem blank_of_tokenEnd {c : Char} (h : tokenEnd c = true) : blank c = true := by
  simp only [tokenEnd, List.contains_eq_mem, decide_eq_true_eq] at h
  have hall : ∀ d ∈ txt " \t\n\r", blank d = true := by decide
  exact hall c h

omit [CharTables] in
theorem tokenEnd_of_blank {c : Char} (h : blank c = false) : tokenEnd c = false := by
  by_contra hc
  rw [blank_of_tokenEnd (by simpa using hc)] at h
  cases h

/-- The characters of `://` are all clear. -/
theorem clear_of_mem_schemeEnd {c : Char} (h : c ∈ [':', '/', '/']) : clear c = true := by
  have hall : ∀ d ∈ [':', '/', '/'],
      d.toNat < 128 ∧ (!(d.isAlphanum || d == '.' || d == '-' || d == '_')) = true := by decide
  rw [clear_ascii (hall c h).1]
  exact (hall c h).2

theorem not_mem_schemeEnd {c : Char} (h : clear c = false) : c ∉ [':', '/', '/'] := fun hc => by
  rw [clear_of_mem_schemeEnd hc] at h
  cases h

omit [CharTables] in
theorem getLast?_append_cons (a : Text) (c : Char) (t : Text) :
    (a ++ c :: t).getLast? = (c :: t).getLast? := by
  rw [List.getLast?_append_of_ne_nil a (List.cons_ne_nil c t)]

/-- A match and what is put for it, as far as it matters to what comes after. -/
structure LeftOk (found out : Text) : Prop where
  nonempty : found ≠ []
  first : ∀ c, found.head? = some c → clear c = false
  last : ∀ c, found.getLast? = some c → clear c = false
  blank_found : ∀ c ∈ found, blank c = false
  blank_out : ∀ c ∈ out, blank c = false
  slash : '/' ∈ out → '/' ∈ found
  scheme : [':', '/', '/'] <:+: found → [':', '/', '/'] <:+: out
  broken : ∃ c ∈ out, colonOrHex c = false
  run : ':' ∉ out.rtakeWhile colonOrHex
  code : ∀ c ∈ out, codeChar c = true → c ∈ found

section Hit

variable {o i found out : Text}

omit [CharTables] in
/-- `Authority` after an `@` is that there is a scheme in the word. -/
theorem authority_concat_at {t : Text} :
    Authority (t ++ ['@']) ↔ [':', '/', '/'] <:+: t.rtakeWhile (fun c => !blank c) := by
  have hat : ∀ c ∈ ['@'], (!blank c) = true := by decide
  have hrun : (t ++ ['@']).rtakeWhile (fun c => !blank c) =
      t.rtakeWhile (fun c => !blank c) ++ ['@'] := rtakeWhile_append_of_forall hat
  constructor
  · rintro (h | ⟨-, h⟩)
    · obtain ⟨u, hu⟩ := h
      have := congrArg List.getLast? hu
      simp at this
    · rw [hrun, infix_append_of_seam (.inl (by simp))] at h
      refine h.resolve_right fun hc => ?_
      have := hc.length_le
      simp at this
  · intro h
    refine .inr ⟨by simp, ?_⟩
    rw [hrun]
    exact h.trans List.infix_append_left

/-- **A match is put in place** of what it was found for. -/
theorem Sim.hit (h : Sim o i) (hok : LeftOk found out) : Sim (o ++ out) (i ++ found) := by
  intro tail
  have hlast : ∀ c, (i ++ found).getLast? = some c → clear c = false := fun c hc => by
    rw [List.getLast?_append_of_ne_nil i hok.nonempty] at hc
    exact hok.last c hc
  constructor
  · intro hclear c hc
    cases tail with
    | nil =>
        rw [List.append_nil] at hclear
        obtain ⟨d, hd⟩ : ∃ d, (i ++ found).getLast? = some d :=
          ⟨_, List.getLast?_eq_some_getLast (by simp [hok.nonempty])⟩
        exact absurd (hlast d hd) (by simp [hclear d hd])
    | cons d tail =>
        rw [getLast?_append_cons] at hc
        exact hclear c (by rw [getLast?_append_cons]; exact hc)
  · intro hquiet
    rcases forall_or_exists_false colonOrHex tail with hall | hbreak
    · rw [rtakeWhile_append_of_forall hall] at hquiet ⊢
      rw [rtakeWhile_append_of_exists hok.broken]
      exact (hquiet.of_part List.infix_append_right).append_left hok.run
    · rw [rtakeWhile_append_of_exists hbreak] at hquiet ⊢
      exact hquiet
  · intro hslash
    rcases forall_or_exists_false (fun c => !tokenEnd c) tail with hall | hbreak
    · have hout : ∀ c ∈ out, (!tokenEnd c) = true := fun c hc => by
        rw [tokenEnd_of_blank (hok.blank_out c hc)]
        rfl
      have hfound : ∀ c ∈ found, (!tokenEnd c) = true := fun c hc => by
        rw [tokenEnd_of_blank (hok.blank_found c hc)]
        rfl
      rw [rtakeWhile_append_of_forall hall, rtakeWhile_append_of_forall hout] at hslash
      rw [rtakeWhile_append_of_forall hall, rtakeWhile_append_of_forall hfound]
      simp only [List.mem_append] at hslash ⊢
      rcases hslash with (ho | hout) | htail
      · exact .inl (.inl (h.left.slash ho))
      · exact .inl (.inr (hok.slash hout))
      · exact .inr htail
    · rw [rtakeWhile_append_of_exists hbreak] at hslash ⊢
      exact hslash
  · rintro (hend | ⟨hat, hscheme⟩)
    · left
      exact (suffix_append_of_seam (fun c hc => not_mem_schemeEnd (hlast c hc)) hend).trans
        (List.suffix_append ..)
    · right
      cases tail with
      | nil =>
          rw [List.append_nil] at hat
          exact absurd (hlast _ hat) (by rw [clear_ascii (by decide)]; decide)
      | cons d tail =>
          refine ⟨by rw [getLast?_append_cons] at hat ⊢; exact hat, ?_⟩
          rcases forall_or_exists_false (fun c => !blank c) (d :: tail) with hall | hbreak
          · have hout : ∀ c ∈ out, (!blank c) = true := fun c hc => by rw [hok.blank_out c hc]; rfl
            have hfound : ∀ c ∈ found, (!blank c) = true := fun c hc => by
              rw [hok.blank_found c hc]
              rfl
            rw [rtakeWhile_append_of_forall hall, rtakeWhile_append_of_forall hfound] at hscheme
            rw [rtakeWhile_append_of_forall hall, rtakeWhile_append_of_forall hout]
            rw [infix_append_of_seam (.inr fun c hc => not_mem_schemeEnd (hok.last c ?_)),
              infix_append_of_seam (.inl fun c hc => not_mem_schemeEnd (hok.first c hc))] at hscheme
            · rcases hscheme with (hi | hf) | ht
              · have ho := authority_concat_at.mp ((h ['@']).authority (authority_concat_at.mpr hi))
                exact ho.trans ((List.prefix_append ..).trans (List.prefix_append ..)).isInfix
              · exact (hok.scheme hf).trans
                  (List.infix_append_of_infix_left List.infix_append_right)
              · exact ht.trans List.infix_append_right
            · rw [List.getLast?_append_of_ne_nil _ hok.nonempty] at hc
              exact hc
          · rw [rtakeWhile_append_of_exists hbreak] at hscheme ⊢
            exact hscheme
  · intro c hc hcode
    simp only [List.mem_append] at hc ⊢
    rcases hc with (ho | hout) | htail
    · exact .inl (.inl (h.left.code c ho hcode))
    · exact .inl (.inr (hok.code c hout hcode))
    · exact .inr htail

/-- A match that goes to the end of its word, with the blank after it. -/
theorem Sim.hit_blank {c : Char} (h : Sim o i) (hslash : '/' ∈ found)
    (hfound : ∀ c ∈ found, blank c = false) (hcode : ∀ c ∈ out, codeChar c = true → c ∈ found)
    (hc : blank c = true) : Sim (o ++ (out ++ [c])) (i ++ (found ++ [c])) := by
  intro tail
  have hassoc : ∀ a b : Text, a ++ (b ++ [c]) ++ tail = a ++ b ++ c :: tail := fun a b => by simp
  rw [hassoc, hassoc]
  have hbreak : ∃ d ∈ c :: tail, (!blank d) = false := ⟨c, List.mem_cons_self .., by simp [hc]⟩
  constructor
  · intro hclear d hd
    rw [getLast?_append_cons] at hd
    exact hclear d (by rw [getLast?_append_cons]; exact hd)
  · have hrun : ∃ d ∈ c :: tail, colonOrHex d = false := by
      refine ⟨c, List.mem_cons_self .., ?_⟩
      simp only [blank, List.contains_eq_mem, decide_eq_true_eq] at hc
      have hall : ∀ d ∈ txt " \t\n\x0b\x0c\r", colonOrHex d = false := by decide
      exact hall c hc
    rw [rtakeWhile_append_of_exists hrun, rtakeWhile_append_of_exists hrun]
    exact id
  · intro hs
    rcases forall_or_exists_false (fun c => !tokenEnd c) (c :: tail) with hall | hend
    · have htoken : ∀ c ∈ found, (!tokenEnd c) = true := fun c hc => by
        rw [tokenEnd_of_blank (hfound c hc)]
        rfl
      rw [rtakeWhile_append_of_forall hall, rtakeWhile_append_of_forall htoken]
      simp [hslash]
    · rw [rtakeWhile_append_of_exists hend] at hs ⊢
      exact hs
  · rintro (hsuffix | ⟨hat, hscheme⟩)
    · left
      refine (?_ : [':', '/', '/'] <:+ c :: tail).trans (List.suffix_append ..)
      rw [show i ++ found ++ c :: tail = (i ++ found ++ [c]) ++ tail by simp] at hsuffix
      have hin : [':', '/', '/'] <:+ tail := by
        refine suffix_append_of_seam (fun d hd hmem => ?_) hsuffix
        rw [List.getLast?_concat, Option.some.injEq] at hd
        subst hd
        have hnot : ∀ d ∈ [':', '/', '/'], blank d = false := by decide
        rw [hnot c hmem] at hc
        cases hc
      exact hin.trans (List.suffix_cons ..)
    · right
      refine ⟨by rw [getLast?_append_cons] at hat ⊢; exact hat, ?_⟩
      rw [rtakeWhile_append_of_exists hbreak] at hscheme ⊢
      exact hscheme
  · intro d hd hdcode
    simp only [List.mem_append] at hd ⊢
    rcases hd with (ho | hout) | htail
    · exact .inl (.inl (h.left.code d ho hdcode))
    · exact .inl (.inr (hcode d hout hdcode))
    · exact .inr htail

end Hit

/-! ### What is right of the slot -/

/-- What an expression made of what is right of the slot is as harmless as that was. -/
structure Right (o i : Text) : Prop where
  clear : BeginsClear i → BeginsClear o
  run : o.takeWhile colonOrHex <+: i.takeWhile colonOrHex
  slash : '/' ∈ o.takeWhile (fun c => !tokenEnd c) → '/' ∈ i.takeWhile (fun c => !tokenEnd c)
  code : ∀ c ∈ o, codeChar c = true → c ∈ i

/-- And stays so whatever goes before both. -/
def RSim (o i : Text) : Prop := ∀ w, Right (w ++ o) (w ++ i)

theorem Right.refl (t : Text) : Right t t := ⟨id, List.prefix_refl _, id, fun _ hc _ => hc⟩

theorem Right.trans {a b c : Text} (hab : Right a b) (hbc : Right b c) : Right a c :=
  ⟨hab.clear ∘ hbc.clear, hab.run.trans hbc.run, hbc.slash ∘ hab.slash,
    fun x hx hcode => hbc.code x (hab.code x hx hcode) hcode⟩

theorem RSim.refl (t : Text) : RSim t t := fun _ => .refl _

theorem RSim.append {o i : Text} (h : RSim o i) (w : Text) : RSim (w ++ o) (w ++ i) := fun v => by
  rw [← List.append_assoc, ← List.append_assoc]
  exact h (v ++ w)

theorem RSim.right {o i : Text} (h : RSim o i) : Right o i := h []

/-- A match and what is put for it, as far as it matters to what goes before. -/
structure RightOk (found out : Text) : Prop where
  nonempty : found ≠ []
  first : BeginsClear found → BeginsClear out
  blank_found : ∀ c ∈ found, blank c = false
  blank_out : ∀ c ∈ out, blank c = false
  slash : '/' ∈ out → '/' ∈ found
  run : ∀ u' u : Text, u'.takeWhile colonOrHex <+: u.takeWhile colonOrHex →
    (out ++ u').takeWhile colonOrHex <+: (found ++ u).takeWhile colonOrHex
  out_nonempty : out ≠ []
  code : ∀ c ∈ out, codeChar c = true → c ∈ found

/-- **A match is put in place**, seen from before it. -/
theorem RSim.hit {o i found out : Text} (h : RSim o i) (hok : RightOk found out) :
    RSim (out ++ o) (found ++ i) := by
  intro w
  constructor
  · intro hclear c hc
    cases w with
    | nil =>
        have hfound : BeginsClear found := fun d hd => hclear d (by simp [List.head?_append, hd])
        obtain ⟨d, rest, hout⟩ := List.exists_cons_of_ne_nil hok.out_nonempty
        refine hok.first hfound c ?_
        rw [hout] at hc ⊢
        exact hc
    | cons d w => exact hclear c hc
  · rcases forall_or_exists_false colonOrHex w with hall | hbreak
    · rw [List.takeWhile_append_of_pos hall, List.takeWhile_append_of_pos hall]
      exact (List.prefix_append_right_inj _).mpr (hok.run _ _ h.right.run)
    · rw [takeWhile_append_of_exists hbreak, takeWhile_append_of_exists hbreak]
  · intro hslash
    rcases forall_or_exists_false (fun c => !tokenEnd c) w with hall | hbreak
    · have hout : ∀ c ∈ out, (!tokenEnd c) = true := fun c hc => by
        rw [tokenEnd_of_blank (hok.blank_out c hc)]
        rfl
      have hfound : ∀ c ∈ found, (!tokenEnd c) = true := fun c hc => by
        rw [tokenEnd_of_blank (hok.blank_found c hc)]
        rfl
      rw [List.takeWhile_append_of_pos hall, List.takeWhile_append_of_pos hout] at hslash
      rw [List.takeWhile_append_of_pos hall, List.takeWhile_append_of_pos hfound]
      simp only [List.mem_append] at hslash ⊢
      rcases hslash with hw | hout | ho
      · exact .inl hw
      · exact .inr (.inl (hok.slash hout))
      · exact .inr (.inr (h.right.slash ho))
    · rw [takeWhile_append_of_exists hbreak] at hslash ⊢
      exact hslash
  · intro c hc hcode
    simp only [List.mem_append] at hc ⊢
    rcases hc with hw | hout | ho
    · exact .inl hw
    · exact .inr (.inl (hok.code c hout hcode))
    · exact .inr (.inr (h.right.code c ho hcode))

omit [CharTables] in
/-- What is put for a match begins with a character of no address. -/
theorem takeWhile_colonOrHex_prefix {out : Text}
    (h : ∀ c, out.head? = some c → colonOrHex c = false) (hne : out ≠ []) (found u' u : Text) :
    (out ++ u').takeWhile colonOrHex <+: (found ++ u).takeWhile colonOrHex := by
  obtain ⟨c, rest, rfl⟩ := List.exists_cons_of_ne_nil hne
  simp [h c rfl]

/-! ### Passes that look at the next character only -/

/-- The pass looks at the character before a match and no further back. -/
def LooksBackOne (P : Pass Char) : Prop := ∀ l l' t, l.head? = l'.head? → P l t = P l' t

/-- And never begins a match with a clear character. -/
def BeginsUnclear (P : Pass Char) : Prop := ∀ l c t, clear c = true → P l (c :: t) = none

omit [CharTables] in
theorem LooksBackOne.go {P : Pass Char} (hP : LooksBackOne P) {l l' : Text} (h : l.head? = l'.head?)
    (k : Nat) (t : Text) : P.go k l t = P.go k l' t := by
  refine Pass.go_congr (fun a b _ _ => hP _ _ _ ?_) k
  rw [List.head?_append, List.head?_append, h]

/-- What begins clear is gone through as if nothing stood before it. -/
theorem LooksBackOne.go_clear {P : Pass Char} (hP : LooksBackOne P) (hclear : BeginsUnclear P)
    {t : Text} (ht : BeginsClear t) (l : Text) : P.go 0 l t = P.apply t := by
  cases t with
  | nil => simp [Pass.apply]
  | cons c t =>
      rw [Pass.apply, Pass.go_of_none (hclear l c t (ht c rfl)),
        Pass.go_of_none (hclear [] c t (ht c rfl))]
      exact congrArg (c :: ·) (hP.go (show (c :: l).head? = [c].head? from rfl) 0 t)

/-! ### Names -/

/-- A name in ASCII, of two labels or more. A dotted address is one. -/
structure Name (s : Text) : Prop where
  ascii : ∀ c ∈ s, plainChar c = true ∨ c = '.'
  labels : ∀ l ∈ s.splitOn '.', label l = true
  two : 2 ≤ (s.splitOn '.').length

namespace Name

variable {s : Text}

theorem toNat_lt (h : Name s) {c : Char} (hc : c ∈ s) : c.toNat < 128 := by
  rcases h.ascii c hc with hp | rfl
  · simp only [plainChar, Bool.or_eq_true, beq_iff_eq] at hp
    rcases hp with hp | rfl
    · exact toNat_lt_of_isAlphanum hp
    · decide
  · decide

/-- What a character of a name is, for every class the expressions have. -/
theorem char (h : Name s) {c : Char} (hc : c ∈ s) :
    nameChar c = true ∧ schemeChar c = true ∧ credentialChar c = true ∧ blank c = false := by
  have hkind : c.isAlphanum = true ∨ c = '-' ∨ c = '.' := by
    rcases h.ascii c hc with hp | rfl
    · simp only [plainChar, Bool.or_eq_true, beq_iff_eq] at hp
      exact hp.elim .inl fun hp => .inr (.inl hp)
    · exact .inr (.inr rfl)
  rcases hkind with hal | rfl | rfl
  · have hb : blank c = false := by
      by_contra hb
      have := clear_of_blank (by simpa using hb : blank c = true)
      rw [clear_of_alnum (alnum_of_isAlphanum hal)] at this
      cases this
    have hne : ∀ d : Char, d.isAlphanum = false → c ≠ d := fun d hd he => by
      rw [← he, hal] at hd
      cases hd
    refine ⟨by simp [nameChar, alnum_of_isAlphanum hal], by simp [schemeChar, hal], ?_, hb⟩
    simp [credentialChar, hb, hne '/' (by decide), hne '@' (by decide)]
  · exact ⟨by simp [nameChar], by decide, by decide, by decide⟩
  · exact ⟨by simp [nameChar], by decide, by decide, by decide⟩

theorem label_spec {l : Text} (h : label l = true) :
    (∃ c, l.head? = some c ∧ alnum c = true) ∧ (∃ c, l.getLast? = some c ∧ alnum c = true) ∧
      l.length ≤ 63 ∧ ∀ c ∈ l, alnum c = true ∨ c = '-' := by
  simp only [label, Bool.and_eq_true, Option.any_eq_true, decide_eq_true_eq, List.all_eq_true,
    Bool.or_eq_true, beq_iff_eq] at h
  exact ⟨h.1.1.1, h.1.1.2, h.1.2, h.2⟩

/-- A name is cut at its first dot and at its last. -/
theorem cut_first (h : Name s) : ∃ w rest, s = w ++ '.' :: rest ∧ '.' ∉ w ∧ label w = true := by
  have hdot : '.' ∈ s := by
    by_contra hdot
    have := h.two
    rw [List.splitOn_eq_singleton hdot] at this
    simp at this
  obtain ⟨w, rest, rfl, hw⟩ := List.eq_append_cons_of_mem hdot
  refine ⟨w, rest, rfl, hw, h.labels w ?_⟩
  rw [List.splitOn_append_cons_self, List.splitOn_eq_singleton hw]
  simp

theorem cut_last (h : Name s) : ∃ u v, s = u ++ '.' :: v ∧ '.' ∉ v ∧ label v = true ∧
    s.splitOn '.' = u.splitOn '.' ++ [v] := by
  obtain ⟨w, rest, hs, -, -⟩ := h.cut_first
  have hdot : '.' ∈ s.reverse := by
    rw [List.mem_reverse, hs]
    simp
  obtain ⟨v, u, hrev, hv⟩ := List.eq_append_cons_of_mem hdot
  have hs' : s = u.reverse ++ '.' :: v.reverse := by
    have := congrArg List.reverse hrev
    simpa using this
  have hv' : '.' ∉ v.reverse := by simpa using hv
  have hsplit : s.splitOn '.' = u.reverse.splitOn '.' ++ [v.reverse] := by
    rw [hs', List.splitOn_append_cons_self, List.splitOn_eq_singleton hv']
  exact ⟨u.reverse, v.reverse, hs', hv', h.labels _ (by simp [hsplit]), hsplit⟩

theorem head? (h : Name s) : ∃ c, s.head? = some c ∧ alnum c = true := by
  obtain ⟨w, rest, rfl, -, hw⟩ := h.cut_first
  obtain ⟨⟨c, hc, hal⟩, -⟩ := label_spec hw
  exact ⟨c, by simp [List.head?_append, hc], hal⟩

theorem getLast? (h : Name s) : ∃ c, s.getLast? = some c ∧ alnum c = true := by
  obtain ⟨u, v, rfl, -, hv, -⟩ := h.cut_last
  obtain ⟨-, ⟨c, hc, hal⟩, -⟩ := label_spec hv
  refine ⟨c, ?_, hal⟩
  have hne : v ≠ [] := by
    rintro rfl
    cases hc
  rw [List.getLast?_append_of_ne_nil u (List.cons_ne_nil _ v), List.getLast?_cons_of_ne_nil hne, hc]

theorem ne_nil (h : Name s) : s ≠ [] := by
  obtain ⟨c, hc, -⟩ := h.head?
  rintro rfl
  cases hc

/-- A name at the front of what goes on clear is the whole run of name characters. -/
theorem takeWhile (h : Name s) {q : Text} (hq : BeginsClear q) : (s ++ q).takeWhile nameChar = s :=
  takeWhile_append_of_head (fun _ hc => (h.char hc).1) fun c hc => nameChar_of_clear (hq c hc)

theorem frontLabels (h : Name s) {q : Text} (hq : BeginsClear q) :
    LogScrubber.frontLabels (s ++ q) = s.splitOn '.' := by
  rw [LogScrubber.frontLabels, h.takeWhile hq]

theorem dottedLabels (h : Name s) {q : Text} (hq : BeginsClear q) :
    LogScrubber.dottedLabels (s ++ q) = (s.splitOn '.').dropLast := by
  rw [LogScrubber.dottedLabels, h.frontLabels hq, List.takeWhile_eq_self_iff]
  exact fun l hl => h.labels l (List.dropLast_subset _ hl)

/-- The longest label of a label is the label. -/
theorem longestLabel {v : Text} (hv : label v = true) : LogScrubber.longestLabel v = v := by
  obtain ⟨⟨c, hc, hal⟩, ⟨d, hd, hdal⟩, hlen, hall⟩ := label_spec hv
  rw [LogScrubber.longestLabel, if_pos (by simp [hc, hal]),
    List.takeWhile_eq_self_iff.mpr (fun c hc => by simpa using hall c hc),
      List.take_of_length_le hlen,
    List.rdropWhile_eq_self_iff]
  intro hne
  rw [List.getLast?_eq_some_getLast hne, Option.some.injEq] at hd
  simp [hd, hdal]

omit [CharTables] in
theorem joined_splitOn (t : Text) : joined (t.splitOn '.') = t := List.intercalate_splitOn '.'

/-- **A name is the host** a URL has at its front. -/
theorem urlHost (h : Name s) {q : Text} (hq : BeginsClear q) :
    LogScrubber.urlHost (s ++ q) = s := by
  obtain ⟨u, v, hs, -, hv, hsplit⟩ := h.cut_last
  have hdotted : LogScrubber.dottedLabels (s ++ q) = u.splitOn '.' := by
    rw [h.dottedLabels hq, hsplit, List.dropLast_concat]
  have hlast : (LogScrubber.frontLabels (s ++ q)).getD (u.splitOn '.').length [] = v := by
    rw [h.frontLabels hq, hsplit]
    simp
  have hvne : v ≠ [] := by
    rintro rfl
    cases hv
  have hune : u.splitOn '.' ≠ [] := List.splitOn_ne_nil '.' u
  simp only [LogScrubber.urlHost, hdotted, hlast, longestLabel hv]
  rw [if_pos (by simp [hvne, hune]), ← hsplit, joined_splitOn]

/-- And the whole host a bare name has. -/
theorem wholeHost (h : Name s) {q : Text} (hq : BeginsClear q) :
    LogScrubber.wholeHost (s ++ q) = s := by
  obtain ⟨u, v, hs, -, -, hsplit⟩ := h.cut_last
  have hdotted : LogScrubber.dottedLabels (s ++ q) ≠ [] := by
    rw [h.dottedLabels hq, hsplit, List.dropLast_concat]
    exact List.splitOn_ne_nil '.' u
  have hafter : ((s ++ q)[s.length]?).any (· == '_') = false := by
    rw [List.getElem?_append_right (Nat.le_refl _), Nat.sub_self, ← List.head?_eq_getElem?]
    cases hc : q.head? with
    | none => rfl
    | some c =>
        have := hq c hc
        simp only [clear, Bool.not_eq_true', Bool.or_eq_false_iff] at this
        simpa using this.2
  simp only [LogScrubber.wholeHost, h.takeWhile hq, h.frontLabels hq]
  rw [if_pos, joined_splitOn]
  simp only [hafter, Bool.and_eq_true, bne_iff_ne, List.all_eq_true, Bool.not_false, and_true]
  exact ⟨hdotted, h.labels⟩

end Name

end Ghostlane.App.LogScrubber
