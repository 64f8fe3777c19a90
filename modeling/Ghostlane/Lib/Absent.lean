import Ghostlane.Lib.Fields
import Ghostlane.Lib.Scan
import Ghostlane.Lib.Utf8

/-!
# Ghostlane.Lib.Absent

Bytes in which no character of a kind is written: its UTF-8 stands nowhere in them, whether they
are UTF-8 themselves or not. A part of such bytes is one again. Two that are put together are one
where the second does not begin in the midst of a character (`Absent.append`), and with it what a
replacement leaves (`Absent.replaceAll`).
-/

namespace Ghostlane.Lib

open Bytes

/-- A byte that a character goes on with. -/
def isContinuation (b : UInt8) : Bool := 0x80 ≤ b && b < 0xC0

/-- The bytes do not begin in the midst of a character. -/
def Aligned (b : Bytes) : Prop := ∀ x ∈ b.head?, isContinuation x = false

/-- No character of the kind is written in the bytes. -/
def Absent (p : Char → Prop) (b : Bytes) : Prop := ∀ c, p c → ¬ String.utf8EncodeChar c <:+: b

variable {p : Char → Prop} {a b : Bytes} {c d : Char} {x : UInt8}

theorem isContinuation_ofNat {n : Nat} (hn : n < 256) :
    isContinuation (UInt8.ofNat n) = true ↔ 0x80 ≤ n ∧ n < 0xC0 := by
  have hval : (UInt8.ofNat n).toNat = n := by rw [UInt8.toNat_ofNat', Nat.mod_eq_of_lt hn]
  have hlow : (0x80 : UInt8).toNat = 0x80 := rfl
  have hhigh : (0xC0 : UInt8).toNat = 0xC0 := rfl
  rw [isContinuation, Bool.and_eq_true, decide_eq_true_eq, decide_eq_true_eq,
    UInt8.le_iff_toNat_le, UInt8.lt_iff_toNat_lt, hval, hlow, hhigh]

/-- A character begins with a byte of its own and goes on with continuations. -/
theorem exists_utf8EncodeChar (c : Char) : ∃ x t, String.utf8EncodeChar c = x :: t ∧
    isContinuation x = false ∧ ∀ y ∈ t, isContinuation y = true := by
  have hval : c.val.toNat = c.toNat := rfl
  have hvalid : c.toNat < 0xD800 ∨ 0xDFFF < c.toNat ∧ c.toNat < 0x110000 := c.valid
  have hfirst : ∀ n, n < 256 → ¬ (0x80 ≤ n ∧ n < 0xC0) → isContinuation (UInt8.ofNat n) = false :=
    fun n hn hnot => Bool.eq_false_iff.mpr fun h => hnot ((isContinuation_ofNat hn).mp h)
  have hlater : ∀ n, 0x80 ≤ n → n < 0xC0 → isContinuation (UInt8.ofNat n) = true :=
    fun n hle hlt => (isContinuation_ofNat (by omega)).mpr ⟨hle, hlt⟩
  unfold String.utf8EncodeChar
  dsimp only
  rw [hval]
  split
  · exact ⟨_, _, rfl, hfirst _ (by omega) (by omega), List.forall_mem_nil _⟩
  · split
    · refine ⟨_, _, rfl, hfirst _ (by omega) (by omega), ?_⟩
      rw [List.forall_mem_singleton]
      exact hlater _ (by omega) (by omega)
    · split
      · refine ⟨_, _, rfl, hfirst _ (by omega) (by omega), ?_⟩
        rw [List.forall_mem_cons, List.forall_mem_singleton]
        exact ⟨hlater _ (by omega) (by omega), hlater _ (by omega) (by omega)⟩
      · refine ⟨_, _, rfl, hfirst _ (by omega) (by omega), ?_⟩
        rw [List.forall_mem_cons, List.forall_mem_cons, List.forall_mem_singleton]
        exact ⟨hlater _ (by omega) (by omega), hlater _ (by omega) (by omega),
          hlater _ (by omega) (by omega)⟩

theorem aligned_utf8 (t : Text) : Aligned (utf8 t) := by
  cases t with
  | nil => exact fun x hx => nomatch hx
  | cons c t =>
      obtain ⟨x, rest, hx, hfirst, -⟩ := exists_utf8EncodeChar c
      rw [utf8_cons, hx]
      rintro _ ⟨⟩
      exact hfirst

theorem Aligned.append_of_ne_nil (ha : Aligned a) (hne : a ≠ []) (b : Bytes) :
    Aligned (a ++ b) := by
  obtain ⟨x, a, rfl⟩ := List.exists_cons_of_ne_nil hne
  exact ha

theorem aligned_cons (hx : x < 0x80) (b : Bytes) : Aligned (x :: b) := by
  rintro _ ⟨⟩
  have hnot : ¬ 0x80 ≤ x := UInt8.not_le.mpr hx
  rw [isContinuation, decide_eq_false hnot, Bool.false_and]

theorem Aligned.of_prefix (hb : Aligned b) (ha : a <+: b) : Aligned a := by
  obtain ⟨t, rfl⟩ := ha
  cases a with
  | nil => exact fun x hx => nomatch hx
  | cons y a => exact hb

theorem Aligned.append_cons (ha : Aligned a) (hx : x < 0x80) (b : Bytes) :
    Aligned (a ++ x :: b) := by
  cases a with
  | nil => exact aligned_cons hx b
  | cons y a => exact ha

/-! ### Parts -/

theorem Absent.part (h : Absent p b) (ha : a <:+: b) : Absent p a :=
  fun c hc hin => h c hc (hin.trans ha)

theorem absent_nil : Absent p [] :=
  fun c _ hin => utf8EncodeChar_ne_nil c (List.infix_nil.mp hin)

/-- A character that reaches over a seam goes on behind it. -/
theorem Absent.append (ha : Absent p a) (hb : Absent p b) (hseam : Aligned b) :
    Absent p (a ++ b) := by
  intro c hc hin
  obtain ⟨x, t, hx, -, hlater⟩ := exists_utf8EncodeChar c
  rcases List.infix_append_iff.mp hin with hin | hin | ⟨u, v, heq, hu, hv⟩
  · exact ha c hc hin
  · exact hb c hc hin
  · cases u with
    | nil =>
        rw [List.nil_append] at heq
        exact hb c hc (heq ▸ hv.isInfix)
    | cons y u =>
        cases v with
        | nil =>
            rw [List.append_nil] at heq
            exact ha c hc (heq ▸ hu.isInfix)
        | cons z v =>
            rw [hx, List.cons_append] at heq
            have hz : z ∈ t := (List.cons.inj heq).2 ▸ List.mem_append_right u List.mem_cons_self
            obtain ⟨rest, rfl⟩ := hv
            have hfirst : isContinuation z = false := hseam z rfl
            rw [hlater z hz] at hfirst
            cases hfirst

/-- One character is written in another only as itself. -/
theorem eq_of_infix_utf8EncodeChar
    (h : String.utf8EncodeChar c <:+: String.utf8EncodeChar d) : c = d := by
  obtain ⟨u, v, heq⟩ := h
  cases u with
  | nil =>
      have hread := decodeRune_append c v
      rw [List.nil_append] at heq
      rw [heq, ← List.append_nil (String.utf8EncodeChar d), decodeRune_append] at hread
      exact (Option.some.inj hread).symm
  | cons y u =>
      obtain ⟨x, s, hx, hfirst, -⟩ := exists_utf8EncodeChar c
      obtain ⟨z, t, hz, -, hlater⟩ := exists_utf8EncodeChar d
      rw [hx, hz, List.cons_append, List.cons_append] at heq
      have hmem : x ∈ t := (List.cons.inj heq).2 ▸
        List.mem_append_left v (List.mem_append_right u List.mem_cons_self)
      rw [hlater x hmem] at hfirst
      cases hfirst

/-- **In a text's bytes its characters are written, and no other.** -/
theorem absent_utf8_iff {t : Text} : Absent p (utf8 t) ↔ ∀ c ∈ t, ¬ p c := by
  constructor
  · intro h c hc hp
    obtain ⟨u, v, rfl⟩ := List.append_of_mem hc
    refine h c hp ?_
    rw [utf8_append, utf8_cons]
    exact (List.prefix_append _ _).isInfix.trans (List.suffix_append _ _).isInfix
  · intro h
    induction t with
    | nil => exact absent_nil
    | cons d t ih =>
        rw [List.forall_mem_cons] at h
        rw [utf8_cons]
        refine Absent.append ?_ (ih h.2) (aligned_utf8 t)
        intro c hc hin
        exact h.1 (eq_of_infix_utf8EncodeChar hin ▸ hc)

/-- Between what goes before and what follows, an ASCII byte is a seam. -/
theorem Absent.append_cons (ha : Absent p a) (hb : Absent p b) (hx : x < 0x80)
    (hnot : ¬ p (Char.ofUInt8 x)) : Absent p (a ++ x :: b) := by
  refine ha.append ?_ (aligned_cons hx b)
  intro c hc hin
  rcases List.infix_cons_iff.mp hin with hprefix | hin
  · obtain ⟨rest, heq⟩ := hprefix
    have hread := decodeRune_append c rest
    have hself : x :: b = String.utf8EncodeChar (Char.ofUInt8 x) ++ b := by
      rw [utf8EncodeChar_ofUInt8 hx]
      rfl
    rw [heq, hself, decodeRune_append] at hread
    exact hnot (Option.some.inj hread ▸ hc)
  · exact hb c hc hin

theorem Absent.cons (hb : Absent p b) (hx : x < 0x80) (hnot : ¬ p (Char.ofUInt8 x)) :
    Absent p (x :: b) := Absent.append_cons absent_nil hb hx hnot

/-- Before an ASCII byte the next begins anew. -/
theorem Absent.ascii_append (h : ∀ x ∈ a, x < 0x80 ∧ ¬ p (Char.ofUInt8 x)) (hb : Absent p b) :
    Absent p (a ++ b) := by
  induction a with
  | nil => exact hb
  | cons x a ih =>
      rw [List.forall_mem_cons] at h
      exact (ih h.2).cons h.1.1 h.1.2

theorem Absent.intercalate {l : List Bytes} (h : ∀ b ∈ l, Absent p b) (hx : x < 0x80)
    (hnot : ¬ p (Char.ofUInt8 x)) : Absent p ([x].intercalate l) := by
  induction l with
  | nil => exact absent_nil
  | cons b l ih =>
      rw [List.forall_mem_cons] at h
      by_cases hnil : l = []
      · rw [hnil, List.intercalate_singleton]
        exact h.1
      · rw [List.intercalate_cons_of_ne_nil hnil, List.append_assoc]
        exact h.1.append_cons (ih h.2) hx hnot

theorem Absent.notMem (h : Absent p b) (hc : c.toNat < 0x80) (hp : p c) : byte c ∉ b := by
  intro hmem
  obtain ⟨u, v, rfl⟩ := List.append_of_mem hmem
  refine h c hp ⟨u, v, ?_⟩
  rw [utf8EncodeChar_ascii hc, List.append_assoc, List.singleton_append]

/-- A character that is read is written. -/
theorem infix_of_mem_runes (h : .char c ∈ runes b) : String.utf8EncodeChar c <:+: b := by
  obtain ⟨r, s, hrs⟩ := List.append_of_mem h
  have hb := bytes_runes b
  rw [hrs, bytesOf, List.flatMap_append, List.flatMap_cons] at hb
  exact ⟨_, _, by rw [List.append_assoc]; exact hb⟩

/-! ### Replacements -/

/-- **A replacement writes no character of a kind** in bytes that have none, when no match is
replaced by one that has, and nothing is torn at its end. -/
theorem Absent.replaceAll {m : Matcher UInt8} {f : Bytes → Bytes} (hb : Absent p b)
    (hhit : ∀ t rest, m t ≠ 0 → Absent p t → Absent p rest →
      (Aligned (t.drop (m t)) → Aligned rest) →
        Absent p (f (t.take (m t)) ++ rest) ∧ Aligned (f (t.take (m t)) ++ rest)) :
    Absent p (replaceAll m f b) := by
  -- what was passed since the last match goes along, for it may end in the midst of a character
  have hgo : ∀ n (a b : Bytes), b.length = n → Absent p (a ++ b) →
      Absent p (a ++ Lib.replaceAll m f b) ∧ (Aligned b → Aligned (Lib.replaceAll m f b)) := by
    intro n
    induction n using Nat.strong_induction_on with
    | h n ih =>
        intro a b hn hab
        cases b with
        | nil => exact ⟨hab, id⟩
        | cons x b =>
            have hlength : b.length < n := by rw [← hn]; exact Nat.lt_succ_self _
            by_cases hm : m (x :: b) = 0
            · rw [replaceAll_cons f hm]
              have hpassed := ih b.length hlength (a ++ [x]) b rfl (by
                rw [List.append_assoc]
                exact hab)
              rw [List.append_assoc] at hpassed
              exact ⟨hpassed.1, id⟩
            · have hdrop : ((x :: b).drop (m (x :: b))).length < n := by
                rw [List.length_drop, ← hn]
                have hpos : 0 < (x :: b).length := Nat.succ_pos _
                omega
              have hrest := ih _ hdrop [] _ rfl
                (hab.part ((List.drop_suffix _ _).trans (List.suffix_append a _)).isInfix)
              rw [List.nil_append] at hrest
              have hone := hhit (x :: b) _ hm (hab.part (List.suffix_append a _).isInfix)
                hrest.1 hrest.2
              rw [replaceAll_of_match f hm]
              exact ⟨(hab.part (List.prefix_append a _).isInfix).append hone.1 hone.2,
                fun _ => hone.2⟩
  exact (hgo _ [] b rfl hb).1

end Ghostlane.Lib
