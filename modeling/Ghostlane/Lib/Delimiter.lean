import Mathlib.Data.List.Infix
import Mathlib.Data.Nat.Find

/-!
# Ghostlane.Lib.Delimiter

**Reading up to a delimiter.** A reader that takes its input one element at a time, and keeps no
more of it than a number: how much of the delimiter the input read so far ends in. `overlap` is that
number, defined by the input alone, and `overlap_concat` says that the next one follows from it and
the next element. A reader whose table has that number at each element (`Advances`) therefore stops
at the end of the first delimiter, and nowhere else (`scanFor_eq_some_iff`).
-/

namespace Ghostlane.Lib

section Delimiter

variable {α : Type*} [DecidableEq α] (p : List α)

/-- How much of `p` the list ends in: the longest prefix of `p` that is a suffix of it. -/
def overlap (t : List α) : Nat := Nat.findGreatest (fun n => p.take n <:+ t) p.length

variable {p} {t : List α}

theorem overlap_le : overlap p t ≤ p.length := Nat.findGreatest_le p.length

theorem take_overlap_suffix : p.take (overlap p t) <:+ t :=
  Nat.findGreatest_spec (P := fun n => p.take n <:+ t) (Nat.zero_le _) (by simp)

theorem le_overlap {n : Nat} (hn : n ≤ p.length) (h : p.take n <:+ t) : n ≤ overlap p t :=
  Nat.le_findGreatest hn h

theorem overlap_nil : overlap p [] = 0 := by
  have hsuffix := take_overlap_suffix (p := p) (t := [])
  rw [List.suffix_nil, List.take_eq_nil_iff] at hsuffix
  rcases hsuffix with hzero | hnil
  · exact hzero
  · subst hnil
    exact Nat.le_zero.mp overlap_le

theorem overlap_eq_length_iff : overlap p t = p.length ↔ p <:+ t := by
  constructor
  · intro h
    have hsuffix := take_overlap_suffix (p := p) (t := t)
    rwa [h, List.take_length] at hsuffix
  · intro h
    exact le_antisymm overlap_le (le_overlap le_rfl (by rwa [List.take_length]))

/-- What a list ends in with one more element depends on what it ended in before. -/
theorem take_suffix_concat_iff {n : Nat} (hn : n ≤ p.length) (a : α) :
    p.take n <:+ t ++ [a] ↔ p.take n <:+ p.take (overlap p t) ++ [a] := by
  cases n with
  | zero => simp
  | succ n =>
      rw [List.take_succ_eq_append_getElem (by omega)]
      have hlast : ∀ u : List α, p.take n ++ [p[n]] <:+ u ++ [a] ↔ p[n] = a ∧ p.take n <:+ u := by
        intro u
        rw [← List.reverse_prefix, List.reverse_append, List.reverse_append, List.reverse_singleton,
          List.reverse_singleton, List.singleton_append, List.singleton_append,
            List.cons_prefix_cons,
          List.reverse_prefix]
      rw [hlast, hlast, and_congr_right_iff]
      intro _
      constructor
      · intro h
        -- two suffixes of one list, the shorter of the longer
        apply List.suffix_of_suffix_length_le h take_overlap_suffix
        rw [List.length_take_of_le (by omega), List.length_take_of_le overlap_le]
        exact le_overlap (by omega) h
      · intro h
        exact h.trans take_overlap_suffix

theorem overlap_concat (a : α) :
    overlap p (t ++ [a]) = overlap p (p.take (overlap p t) ++ [a]) := by
  apply le_antisymm
  · exact le_overlap overlap_le ((take_suffix_concat_iff overlap_le a).mp take_overlap_suffix)
  · exact le_overlap overlap_le ((take_suffix_concat_iff overlap_le a).mpr take_overlap_suffix)

/-- An element that is not in `p` ends in nothing of it. -/
theorem overlap_concat_of_notMem {a : α} (ha : a ∉ p) : overlap p (t ++ [a]) = 0 := by
  by_contra hne
  have hsuffix := take_overlap_suffix (p := p) (t := t ++ [a])
  have hnonempty : p.take (overlap p (t ++ [a])) ≠ [] := by
    rw [ne_eq, List.take_eq_nil_iff, not_or]
    refine ⟨hne, ?_⟩
    rintro rfl
    exact hne (Nat.le_zero.mp overlap_le)
  obtain ⟨u, hu⟩ := hsuffix
  have hlast := congrArg List.getLast? hu
  rw [List.getLast?_append_of_ne_nil _ hnonempty, List.getLast?_concat] at hlast
  exact ha (List.mem_of_mem_take (List.mem_of_getLast? hlast))

/-! ### The reader -/

/-- A table that keeps the number, for as long as the delimiter is not complete. -/
def Advances (p : List α) (advance : Nat → α → Nat) : Prop :=
  ∀ m < p.length, ∀ a, advance m a = overlap p (p.take m ++ [a])

/-- Reads up to the delimiter's end, at most `room` elements: what was read and what is left. None
where there is no such end. -/
def scanFor (advance : Nat → α → Nat) (goal : Nat) :
    (room matched : Nat) → List α → Option (List α × List α)
  | 0, _, _ => none
  | _, _, [] => none
  | room + 1, matched, a :: t =>
      if advance matched a = goal then some ([a], t)
      else (scanFor advance goal room (advance matched a) t).map fun (read, left) =>
        (a :: read, left)

variable {advance : Nat → α → Nat} (hadvance : Advances p advance)

include hadvance

theorem advance_overlap (ht : ¬ p <:+ t) (a : α) :
    advance (overlap p t) a = overlap p (t ++ [a]) := by
  have hlt : overlap p t < p.length :=
    lt_of_le_of_ne overlap_le (fun h => ht (overlap_eq_length_iff.mp h))
  rw [hadvance _ hlt, ← overlap_concat]

/-- The reader in the middle of its input, `u` being what it read before. -/
theorem scanFor_eq_some {room : Nat} {u t read left : List α} (hu : ¬ p <:+ u) :
    scanFor advance p.length room (overlap p u) t = some (read, left) ↔
      t = read ++ left ∧ read.length ≤ room ∧ read ≠ [] ∧ p <:+ u ++ read ∧
        ∀ v, v <+: read → v ≠ read → ¬ p <:+ u ++ v := by
  induction t generalizing room u read with
  | nil =>
      have hnone : scanFor advance p.length room (overlap p u) [] = none := by
        cases room <;> rfl
      rw [hnone]
      simp only [reduceCtorEq, false_iff, not_and]
      intro h _ hne
      simp_all
  | cons a t ih =>
      cases room with
      | zero =>
          simp only [scanFor, reduceCtorEq, false_iff, not_and]
          intro _ hlen hne
          exact absurd (List.length_eq_zero_iff.mp (Nat.le_zero.mp hlen)) hne
      | succ room =>
          rw [scanFor, advance_overlap hadvance hu]
          by_cases hend : overlap p (u ++ [a]) = p.length
          · rw [if_pos hend]
            rw [overlap_eq_length_iff] at hend
            constructor
            · intro h
              obtain ⟨rfl, rfl⟩ := Prod.mk.inj (Option.some.inj h)
              refine ⟨rfl, by simp, by simp, hend, ?_⟩
              intro v hv hne
              -- nothing stands before a first element
              obtain rfl | ⟨w, rfl, hw⟩ := List.prefix_cons_iff.mp hv
              · rwa [List.append_nil]
              · exact absurd (by rw [List.prefix_nil.mp hw]) hne
            · rintro ⟨ht, -, hne, -, hfirst⟩
              obtain ⟨rest, rfl⟩ : ∃ rest, read = a :: rest := by
                cases read with
                | nil => exact absurd rfl hne
                | cons b rest => exact ⟨rest, by rw [(List.cons.inj ht).1]⟩
              cases rest with
              | nil =>
                  rw [(List.cons.inj ht).2]
                  rfl
              | cons b rest => exact absurd hend (hfirst [a] ⟨b :: rest, rfl⟩ (by simp))
          · rw [if_neg hend]
            rw [overlap_eq_length_iff] at hend
            rw [Option.map_eq_some_iff]
            constructor
            · rintro ⟨⟨rest, left⟩, hrest, h⟩
              obtain ⟨rfl, rfl⟩ := Prod.mk.inj h
              obtain ⟨ht, hlen, -, hends, hfirst⟩ := (ih hend).mp hrest
              rw [List.append_assoc, List.singleton_append] at hends
              refine ⟨by rw [ht, List.cons_append], by simpa using hlen, by simp, hends, ?_⟩
              intro v hv hne
              obtain rfl | ⟨w, rfl, hw⟩ := List.prefix_cons_iff.mp hv
              · rwa [List.append_nil]
              · have hbefore := hfirst w hw (fun h => hne (by rw [h]))
                rwa [List.append_assoc, List.singleton_append] at hbefore
            · rintro ⟨ht, hlen, hne, hends, hfirst⟩
              obtain ⟨rest, rfl⟩ : ∃ rest, read = a :: rest := by
                cases read with
                | nil => exact absurd rfl hne
                | cons b rest => exact ⟨rest, by rw [(List.cons.inj ht).1]⟩
              have hrest : rest ≠ [] := by
                intro h
                exact hend (by rwa [h] at hends)
              refine ⟨(rest, left),
                (ih hend).mpr ⟨(List.cons.inj ht).2, by simpa using hlen, hrest, ?_, ?_⟩, rfl⟩
              · rwa [List.append_assoc, List.singleton_append]
              · intro v hv hv'
                rw [List.append_assoc, List.singleton_append]
                exact hfirst (a :: v) ((List.prefix_cons_inj a).mpr hv)
                  (fun h => hv' (List.cons.inj h).2)

/-- **The reader stops at the end of the first delimiter**, and nowhere else. -/
theorem scanFor_eq_some_iff (hp : p ≠ []) {room : Nat} {t read left : List α} :
    scanFor advance p.length room 0 t = some (read, left) ↔
      t = read ++ left ∧ read.length ≤ room ∧ p <:+ read ∧ ∀ v, v <+: read → v ≠ read →
        ¬ p <:+ v := by
  have hempty : ¬ p <:+ [] := by rwa [List.suffix_nil]
  have hread := @scanFor_eq_some α _ p advance hadvance room [] t read left hempty
  rw [overlap_nil] at hread
  rw [hread]
  simp only [List.nil_append]
  constructor
  · rintro ⟨ht, hlen, -, hends, hfirst⟩
    exact ⟨ht, hlen, hends, hfirst⟩
  · rintro ⟨ht, hlen, hends, hfirst⟩
    refine ⟨ht, hlen, ?_, hends, hfirst⟩
    rintro rfl
    exact hempty hends

end Delimiter

end Ghostlane.Lib
