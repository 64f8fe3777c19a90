import Ghostlane.Lib.Cut
import Ghostlane.Lib.Bytes
import Mathlib.Data.List.Forall2

/-!
# Ghostlane.Lib.Fields

Fields of a line: a text that is split at a separator and trimmed part by part. Trimming the line
first makes no difference (`map_trimBy_splitOn`). A line in UTF-8 is split at an ASCII byte where
the text is split at its character (`splitOn_utf8`).
-/

namespace Ghostlane.Lib

/-! ### Trimming -/

section Trim

variable {α : Type*} {p : α → Bool} {t u : List α}

theorem trimBy_append_left (h : u.all p = true) (t : List α) : trimBy p (u ++ t) = trimBy p t := by
  rw [trimBy, List.dropWhile_append_of_pos (List.all_eq_true.mp h), trimBy]

/-- What is cut at a character that is kept is trimmed at its outer ends. -/
theorem trimBy_around {c : α} (hc : p c = false) (t u : List α) :
    trimBy p (t ++ c :: u) = t.dropWhile p ++ c :: u.rdropWhile p := by
  have hfront : (t ++ c :: u).dropWhile p = t.dropWhile p ++ c :: u := by
    rw [List.dropWhile_append]
    split
    · rename_i hempty
      rw [List.isEmpty_iff.mp hempty, List.dropWhile_cons_of_neg (by simp [hc]), List.nil_append]
    · rfl
  have hback : ∀ t : List α, (t ++ c :: u).rdropWhile p = t ++ c :: u.rdropWhile p := by
    intro t
    rw [List.rdropWhile, List.reverse_append, List.reverse_cons, List.append_assoc,
      List.dropWhile_append]
    split
    · rename_i hempty
      have hnil : u.rdropWhile p = [] := by
        rw [List.rdropWhile, List.isEmpty_iff.mp hempty, List.reverse_nil]
      rw [hnil, List.singleton_append, List.dropWhile_cons_of_neg (by simp [hc]),
        List.reverse_cons, List.reverse_reverse]
    · rw [List.reverse_append, List.reverse_append, List.reverse_reverse, List.reverse_singleton,
        List.append_assoc, List.singleton_append, List.rdropWhile]
  rw [trimBy, hfront, hback]

theorem trimBy_dropWhile (t : List α) : trimBy p (t.dropWhile p) = trimBy p t := by
  rw [trimBy, List.dropWhile_idempotent, trimBy]

theorem trimBy_map {β : Type*} (f : β → α) (t : List β) :
    trimBy p (t.map f) = (trimBy (p ∘ f) t).map f := by
  rw [trimBy, List.dropWhile_map, List.rdropWhile, ← List.map_reverse, List.dropWhile_map,
    ← List.map_reverse]
  rfl

theorem trimBy_congr {q : α → Bool} (h : ∀ c ∈ t, p c = q c) :
    trimBy p t = trimBy q t := by
  have hdrop : t.dropWhile p = t.dropWhile q := by
    induction t with
    | nil => rfl
    | cons c t ih =>
        rw [List.dropWhile_cons, List.dropWhile_cons, h c (List.mem_cons_self ..),
          ih fun d hd => h d (List.mem_cons_of_mem c hd)]
  have hrdrop : ∀ s : List α, (∀ c ∈ s, p c = q c) → s.rdropWhile p = s.rdropWhile q := by
    intro s
    induction s using List.reverseRecOn with
    | nil => exact fun _ => rfl
    | append_singleton s c ih =>
        intro hs
        rw [List.rdropWhile_concat, List.rdropWhile_concat, hs c (by simp),
          ih fun d hd => hs d (List.mem_append_left _ hd)]
  rw [trimBy, trimBy, hdrop]
  exact hrdrop _ fun c hc => h c ((List.dropWhile_suffix q).subset hc)

end Trim

/-! ### Splitting -/

section Split

variable {α : Type*} [DecidableEq α] {c : α} {p : α → Bool} {t u : List α}

theorem splitOn_cons (c d : α) (t : List α) : (d :: t).splitOn c =
    if d = c then [] :: t.splitOn c else (t.splitOn c).modifyHead (d :: ·) := by
  rw [List.splitOn, List.splitOnP_cons_eq_if_modifyHead]
  by_cases hd : d = c <;> simp [hd, List.splitOn]

theorem splitOn_of_notMem (h : c ∉ t) : t.splitOn c = [t] := by
  induction t with
  | nil => rfl
  | cons d t ih =>
      rw [List.mem_cons, not_or] at h
      rw [splitOn_cons, if_neg (Ne.symm h.1), ih h.2]
      rfl

/-- What is not split goes with the first part. -/
theorem splitOn_append_left (h : c ∉ u) (t : List α) :
    (u ++ t).splitOn c = (t.splitOn c).modifyHead (u ++ ·) := by
  induction u with
  | nil =>
      rw [List.nil_append]
      exact (congrFun List.modifyHead_id _).symm
  | cons d u ih =>
      rw [List.mem_cons, not_or] at h
      rw [List.cons_append, splitOn_cons, if_neg (Ne.symm h.1), ih h.2, List.modifyHead_modifyHead]
      rfl

/-- And with the last, where it stands behind. -/
theorem splitOn_append_right (h : c ∉ u) (t : List α) :
    List.Forall₂ (fun x y => x = y ∨ x = y ++ u) ((t ++ u).splitOn c) (t.splitOn c) := by
  induction t with
  | nil =>
      rw [List.nil_append, splitOn_of_notMem h]
      exact .cons (.inr rfl) .nil
  | cons d t ih =>
      rw [List.cons_append, splitOn_cons, splitOn_cons]
      split
      · exact .cons (.inl rfl) ih
      · generalize (t ++ u).splitOn c = xs at ih ⊢
        generalize t.splitOn c = ys at ih ⊢
        cases ih with
        | nil => exact .nil
        | cons hhead hrest =>
            exact .cons (hhead.imp (congrArg (d :: ·)) (congrArg (d :: ·))) hrest

/-- **Trimming the line first trims no part more.** -/
theorem map_trimBy_splitOn (hc : p c = false) (t : List α) :
    ((trimBy p t).splitOn c).map (trimBy p) = (t.splitOn c).map (trimBy p) := by
  have hno : ∀ u : List α, u.all p = true → c ∉ u := by
    intro u hu hmem
    rw [List.all_eq_true.mp hu c hmem] at hc
    cases hc
  have hfront : ((t.dropWhile p).splitOn c).map (trimBy p) = (t.splitOn c).map (trimBy p) := by
    have htake : (t.takeWhile p).all p = true := List.all_takeWhile
    conv_rhs => rw [← List.takeWhile_append_dropWhile (p := p) (l := t),
      splitOn_append_left (hno _ htake)]
    cases (t.dropWhile p).splitOn c with
    | nil => rfl
    | cons first rest =>
        rw [List.modifyHead_cons, List.map_cons, List.map_cons, trimBy_append_left htake]
  have hback : ∀ t : List α,
      ((t.rdropWhile p).splitOn c).map (trimBy p) = (t.splitOn c).map (trimBy p) := by
    intro t
    have htake : (t.rtakeWhile p).all p = true :=
      List.all_eq_true.mpr fun c hc => List.mem_rtakeWhile_imp hc
    have hparts := splitOn_append_right (hno _ htake) (t.rdropWhile p)
    rw [List.rdropWhile_append_rtakeWhile] at hparts
    refine (List.forall₂_eq_eq_eq ▸ List.forall₂_map_left_iff.mpr
      (List.forall₂_map_right_iff.mpr (hparts.imp fun x y hxy => ?_)) :
        (t.splitOn c).map (trimBy p) = _).symm
    rcases hxy with rfl | rfl
    · rfl
    · exact trimBy_append_right htake
  rw [trimBy, hback, hfront]

end Split

/-! ### UTF-8 -/

section Utf8

variable {c d : Char} {t : Text}

@[simp] theorem utf8_nil : utf8 [] = [] := rfl

@[simp] theorem utf8_append (t u : Text) : utf8 (t ++ u) = utf8 t ++ utf8 u := List.flatMap_append

theorem utf8_cons (c : Char) (t : Text) : utf8 (c :: t) = String.utf8EncodeChar c ++ utf8 t := rfl

theorem utf8EncodeChar_ascii (h : c.toNat < 0x80) : String.utf8EncodeChar c = [byte c] := by
  have hall : ∀ n ∈ List.range 0x80,
      String.utf8EncodeChar (Char.ofNat n) = [byte (Char.ofNat n)] := by decide +kernel
  have hc := hall c.toNat (List.mem_range.mpr h)
  rwa [Char.ofNat_toNat] at hc

/-- The bytes of a character outside ASCII are outside ASCII. -/
theorem le_of_mem_utf8EncodeChar (h : 0x80 ≤ c.toNat) {b : UInt8}
    (hb : b ∈ String.utf8EncodeChar c) : 0x80 ≤ b.toNat := by
  have hbyte : ∀ n : Nat, n < 256 → (UInt8.ofNat n).toNat = n := fun n hn => by
    rw [UInt8.toNat_ofNat', Nat.mod_eq_of_lt hn]
  have hval : c.val.toNat = c.toNat := rfl
  have hvalid : c.toNat < 0xD800 ∨ 0xDFFF < c.toNat ∧ c.toNat < 0x110000 := c.valid
  unfold String.utf8EncodeChar at hb
  dsimp only at hb
  rw [hval, if_neg (by omega)] at hb
  split at hb
  · simp only [List.mem_cons, List.not_mem_nil, or_false] at hb
    rcases hb with rfl | rfl <;> rw [hbyte _ (by omega)] <;> omega
  · split at hb
    · simp only [List.mem_cons, List.not_mem_nil, or_false] at hb
      rcases hb with rfl | rfl | rfl <;> rw [hbyte _ (by omega)] <;> omega
    · simp only [List.mem_cons, List.not_mem_nil, or_false] at hb
      rcases hb with rfl | rfl | rfl | rfl <;> rw [hbyte _ (by omega)] <;> omega

theorem toNat_byte (h : c.toNat < 0x80) : (byte c).toNat = c.toNat := by
  have hval : (byte c).toNat = c.toNat % 256 := UInt32.toNat_toUInt8 c.val
  omega

theorem byte_inj (hc : c.toNat < 0x80) (hd : d.toNat < 0x80) (h : byte c = byte d) : c = d := by
  have hnat := congrArg UInt8.toNat h
  rw [toNat_byte hc, toNat_byte hd] at hnat
  exact Char.toNat_inj.mp hnat

/-- An ASCII byte is its own character's. -/
theorem byte_mem_utf8EncodeChar (hd : d.toNat < 0x80) :
    byte d ∈ String.utf8EncodeChar c ↔ c = d := by
  by_cases hc : c.toNat < 0x80
  · rw [utf8EncodeChar_ascii hc, List.mem_singleton]
    exact ⟨fun h => (byte_inj hd hc h).symm, fun h => by rw [h]⟩
  · constructor
    · intro h
      have hle := le_of_mem_utf8EncodeChar (Nat.not_lt.mp hc) h
      rw [toNat_byte hd] at hle
      omega
    · rintro rfl
      exact absurd hd hc

theorem byte_mem_utf8 (hd : d.toNat < 0x80) : byte d ∈ utf8 t ↔ d ∈ t := by
  rw [utf8, List.mem_flatMap]
  constructor
  · rintro ⟨c, hc, hmem⟩
    rwa [(byte_mem_utf8EncodeChar hd).mp hmem] at hc
  · exact fun h => ⟨d, h, (byte_mem_utf8EncodeChar hd).mpr rfl⟩

/-- **A text is split where its bytes are.** -/
theorem splitOn_utf8 (hd : d.toNat < 0x80) (t : Text) :
    (utf8 t).splitOn (byte d) = (t.splitOn d).map utf8 := by
  induction t with
  | nil => rfl
  | cons c t ih =>
      rw [utf8_cons, splitOn_cons]
      by_cases hc : c = d
      · rw [if_pos hc, hc, utf8EncodeChar_ascii hd, List.singleton_append, splitOn_cons, if_pos rfl,
          ih, List.map_cons, utf8_nil]
      · rw [if_neg hc, splitOn_append_left fun h => hc ((byte_mem_utf8EncodeChar hd).mp h), ih]
        cases t.splitOn d with
        | nil => rfl
        | cons first rest => rfl

/-- And cut. -/
theorem cut_utf8 (hd : d.toNat < 0x80) (t : Text) :
    Bytes.before (byte d) (utf8 t) = utf8 (t.takeWhile (· != d)) ∧
      Bytes.after (byte d) (utf8 t) = utf8 ((t.dropWhile (· != d)).drop 1) := by
  have hkept : ∀ c, c ≠ d → ∀ b ∈ String.utf8EncodeChar c, (b != byte d) = true := by
    intro c hc b hb
    rw [bne_iff_ne]
    rintro rfl
    exact hc ((byte_mem_utf8EncodeChar hd).mp hb)
  induction t with
  | nil => exact ⟨rfl, rfl⟩
  | cons c t ih =>
      rw [Bytes.before, Bytes.after] at ih ⊢
      rw [utf8_cons]
      by_cases hc : c = d
      · rw [hc, utf8EncodeChar_ascii hd]
        constructor <;> simp
      · rw [List.takeWhile_append_of_pos (hkept c hc), List.dropWhile_append_of_pos (hkept c hc),
          ih.1, ih.2, List.takeWhile_cons_of_pos (by simpa using hc),
          List.dropWhile_cons_of_pos (by simpa using hc), utf8_cons]
        exact ⟨rfl, rfl⟩

end Utf8

/-! ### The first cut and the last -/

namespace Bytes

theorem before_eq_of_cutFirst {c : UInt8} {t a b : Bytes} (h : cutFirst c t = some (a, b)) :
    before c t = a ∧ after c t = b := by
  obtain ⟨rfl, hnot⟩ := cutFirst_eq_some_iff.mp h
  have hpos : ∀ x ∈ a, (x != c) = true := by
    intro x hx
    rw [bne_iff_ne]
    rintro rfl
    exact hnot hx
  have hstop : (c != c) = false := bne_self_eq_false c
  constructor
  · rw [before, List.takeWhile_append_of_pos hpos, List.takeWhile_cons, hstop]
    exact List.append_nil a
  · rw [after, List.dropWhile_append_of_pos hpos, List.dropWhile_cons, hstop]
    rfl

theorem cutLast_append {c : UInt8} {b : Bytes} (h : c ∉ b) (a : Bytes) :
    cutLast c (a ++ c :: b) = some (a, b) := by
  obtain ⟨hbefore, hafter⟩ := before_eq_of_cutFirst
    (cutFirst_append (fun hmem => h (List.mem_reverse.mp hmem)) a.reverse)
  have hreverse : (a ++ c :: b).reverse = b.reverse ++ c :: a.reverse := by
    rw [List.reverse_append, List.reverse_cons, List.append_assoc, List.singleton_append]
  rw [cutLast, if_pos (List.mem_append_right _ List.mem_cons_self), hreverse]
  change some ((after c _).reverse, (before c _).reverse) = _
  rw [hbefore, hafter, List.reverse_reverse, List.reverse_reverse]

theorem exists_last {c : UInt8} {t : Bytes} (h : c ∈ t) : ∃ a b, t = a ++ c :: b ∧ c ∉ b := by
  obtain ⟨b, a, heq, hnot⟩ := List.eq_append_cons_of_mem (List.mem_reverse.mpr h)
  refine ⟨a.reverse, b.reverse, ?_, fun hmem => hnot (List.mem_reverse.mp hmem)⟩
  rw [← List.reverse_reverse t, heq, List.reverse_append, List.reverse_cons, List.append_assoc,
    List.singleton_append]

theorem eq_of_cutLast {c : UInt8} {t a b : Bytes} (h : cutLast c t = some (a, b)) :
    t = a ++ c :: b := by
  by_cases hmem : c ∈ t
  · obtain ⟨a', b', rfl, hnot⟩ := exists_last hmem
    rw [cutLast_append hnot] at h
    cases h
    rfl
  · rw [cutLast, if_neg hmem] at h
    cases h

end Bytes

end Ghostlane.Lib
