import Ghostlane.Lib.Text

/-!
# Ghostlane.Lib.Cut

Cutting a list at the first or the last place a separator stands, and splitting it
at all of them, with what each says about the whole: a cut is the two parts with
the separator between them, and which of them is free of it.
-/

namespace Ghostlane.Lib

variable {α : Type*} {c : α} {a b t : List α}

section

variable [DecidableEq α]

/-! ### At the first -/

/-- What stands before and after the first `c`. -/
def cutFirst (c : α) : List α → Option (List α × List α)
  | [] => none
  | d :: t => if d = c then some ([], t) else (cutFirst c t).map fun p => (d :: p.1, p.2)

theorem cutFirst_append (h : c ∉ a) (b : List α) : cutFirst c (a ++ c :: b) = some (a, b) := by
  induction a with
  | nil => exact if_pos rfl
  | cons d a ih =>
      have hd : d ≠ c := fun hd => h (hd ▸ List.mem_cons_self ..)
      rw [List.cons_append, cutFirst, if_neg hd, ih fun hc => h (List.mem_cons_of_mem d hc)]
      rfl

theorem cutFirst_eq_none_iff : cutFirst c t = none ↔ c ∉ t := by
  induction t with
  | nil => simp [cutFirst]
  | cons d t ih =>
      rw [cutFirst, List.mem_cons]
      by_cases hd : d = c
      · simp [hd]
      · rw [if_neg hd, Option.map_eq_none_iff, ih]
        simp [Ne.symm hd]

theorem cutFirst_eq_some_iff : cutFirst c t = some (a, b) ↔ t = a ++ c :: b ∧ c ∉ a := by
  constructor
  · intro h
    induction t generalizing a with
    | nil => cases h
    | cons d t ih =>
        rw [cutFirst] at h
        by_cases hd : d = c
        · rw [if_pos hd] at h
          cases h
          exact ⟨by rw [hd, List.nil_append], List.not_mem_nil⟩
        · rw [if_neg hd] at h
          obtain ⟨p, hp, hpair⟩ := Option.map_eq_some_iff.mp h
          cases hpair
          obtain ⟨ht, hnot⟩ := ih hp
          refine ⟨by rw [ht, List.cons_append], ?_⟩
          rw [List.mem_cons, not_or]
          exact ⟨Ne.symm hd, hnot⟩
  · rintro ⟨rfl, h⟩
    exact cutFirst_append h b

/-- What stands before and after the first element that satisfies `p`. -/
def cutWhere (p : α → Bool) : List α → Option (List α × List α)
  | [] => none
  | d :: t => if p d then some ([], t) else (cutWhere p t).map fun q => (d :: q.1, q.2)

theorem cutWhere_beq (c : α) (t : List α) : cutWhere (· == c) t = cutFirst c t := by
  induction t with
  | nil => rfl
  | cons d t ih =>
      rw [cutWhere, cutFirst, ih]
      by_cases hd : d = c <;> simp [hd]

omit [DecidableEq α] in
/-- What stands before the cut, all of it where there is none. -/
theorem getD_cutWhere (p : α → Bool) (t : List α) :
    ((cutWhere p t).map Prod.fst).getD t = t.takeWhile (!p ·) := by
  induction t with
  | nil => rfl
  | cons d t ih =>
      rw [cutWhere, List.takeWhile_cons]
      cases hd : p d with
      | true => rfl
      | false =>
          rw [← ih]
          cases cutWhere p t <;> rfl

/-! ### At each -/

/-- The first part of a list that is split. -/
theorem head?_splitOn (c : α) (t : List α) :
    (t.splitOn c).head? = some (t.takeWhile (· != c)) := by
  induction t with
  | nil => rfl
  | cons d t ih =>
      rw [List.splitOn] at ih ⊢
      rw [List.splitOnP_cons_eq_if_modifyHead]
      by_cases hd : d = c
      · simp [hd]
      · simp [hd, ih, List.head?_modifyHead]

end

/-- The parts of a list between its separators, without the empty ones. -/
def parts (p : α → Bool) (t : List α) : List (List α) := (t.splitOnP p).filter (!·.isEmpty)

theorem parts_cons {p : α → Bool} (hc : p c = true) (t : List α) :
    parts p (c :: t) = parts p t := by
  rw [parts, List.splitOnP_cons_eq_if_modifyHead, if_pos hc]
  rfl

theorem parts_eq_nil {p : α → Bool} (h : t.all p = true) : parts p t = [] := by
  induction t with
  | nil => rfl
  | cons c t ih =>
      rw [List.all_cons, Bool.and_eq_true] at h
      rw [parts_cons h.1, ih h.2]

/-- A part is of the list, and holds no separator. -/
theorem mem_of_mem_splitOnP {p : α → Bool} {part : List α} (h : part ∈ t.splitOnP p) :
    ∀ c ∈ part, c ∈ t ∧ p c = false := by
  induction t generalizing part with
  | nil =>
      rw [List.splitOnP_nil, List.mem_singleton] at h
      rw [h]
      exact fun c hc => absurd hc List.not_mem_nil
  | cons d t ih =>
      have hlater : ∀ {part}, part ∈ t.splitOnP p → ∀ c ∈ part, c ∈ d :: t ∧ p c = false :=
        fun hpart c hc => ⟨List.mem_cons_of_mem d (ih hpart c hc).1, (ih hpart c hc).2⟩
      rw [List.splitOnP_cons_eq_if_modifyHead] at h
      split at h
      · rcases List.mem_cons.mp h with rfl | h
        · exact fun c hc => absurd hc List.not_mem_nil
        · exact hlater h
      · rename_i hd
        cases hsplit : t.splitOnP p with
        | nil => exact absurd hsplit (List.splitOnP_ne_nil _ _)
        | cons first rest =>
            rw [hsplit, List.modifyHead_cons] at h
            rcases List.mem_cons.mp h with rfl | h
            · intro c hc
              rcases List.mem_cons.mp hc with rfl | hc
              · exact ⟨List.mem_cons_self .., Bool.not_eq_true _ ▸ hd⟩
              · exact hlater (hsplit ▸ List.mem_cons_self ..) c hc
            · exact hlater (hsplit ▸ List.mem_cons_of_mem first h)

theorem splitOnP_congr {p q : α → Bool} (h : ∀ c ∈ t, p c = q c) : t.splitOnP p = t.splitOnP q := by
  induction t with
  | nil => rfl
  | cons d t ih =>
      rw [List.splitOnP_cons_eq_if_modifyHead, List.splitOnP_cons_eq_if_modifyHead,
        h d (List.mem_cons_self ..), ih fun c hc => h c (List.mem_cons_of_mem d hc)]

theorem parts_concat {p : α → Bool} (hc : p c = true) (t : List α) :
    parts p (t ++ [c]) = parts p t := by
  rw [parts, List.splitOnP_append_cons t [] hc, List.filter_append]
  exact List.append_nil _

/-- Separators at the ends make no part. -/
theorem parts_trimBy {p w : α → Bool} (h : ∀ c ∈ t, w c = true → p c = true) :
    parts p (trimBy w t) = parts p t := by
  have hleft : ∀ t : List α, (∀ c ∈ t, w c = true → p c = true) →
      parts p (t.dropWhile w) = parts p t := by
    intro t
    induction t with
    | nil => exact fun _ => rfl
    | cons c t ih =>
        intro h
        rw [List.dropWhile_cons]
        cases hc : w c with
        | false => rfl
        | true =>
            rw [parts_cons (h c (List.mem_cons_self ..) hc)]
            exact ih fun d hd => h d (List.mem_cons_of_mem c hd)
  have hright : ∀ t : List α, (∀ c ∈ t, w c = true → p c = true) →
      parts p (t.rdropWhile w) = parts p t := by
    intro t
    induction t using List.reverseRecOn with
    | nil => exact fun _ => rfl
    | append_singleton t c ih =>
        intro h
        by_cases hc : w c = true
        · rw [List.rdropWhile_concat_pos _ _ _ hc, parts_concat (h c (by simp) hc)]
          exact ih fun d hd => h d (List.mem_append_left _ hd)
        · rw [List.rdropWhile_concat_neg _ _ _ hc]
  rw [trimBy, hright _ fun c hc => h c ((List.dropWhile_suffix w).subset hc), hleft t h]

/-- A list may first be broken at some of the separators. -/
theorem splitOnP_eq_flatMap {p q : α → Bool} (h : ∀ c, q c = true → p c = true) (t : List α) :
    t.splitOnP p = (t.splitOnP q).flatMap (List.splitOnP p) := by
  induction t with
  | nil => rfl
  | cons c t ih =>
      rw [List.splitOnP_cons_eq_if_modifyHead, List.splitOnP_cons_eq_if_modifyHead, ih]
      cases hq : q c with
      | true =>
          rw [if_pos (h c hq), if_pos rfl]
          rfl
      | false =>
          rw [if_neg Bool.false_ne_true]
          cases hsplit : t.splitOnP q with
          | nil => exact absurd hsplit (List.splitOnP_ne_nil _ _)
          | cons first rest =>
              rw [List.modifyHead_cons, List.flatMap_cons, List.flatMap_cons,
                List.splitOnP_cons_eq_if_modifyHead]
              split
              · rfl
              · cases hfirst : first.splitOnP p with
                | nil => exact absurd hfirst (List.splitOnP_ne_nil _ _)
                | cons part parts => rfl

theorem parts_eq_flatMap {p q : α → Bool} (h : ∀ c, q c = true → p c = true) (t : List α) :
    parts p t = (parts q t).flatMap (parts p) := by
  rw [parts, splitOnP_eq_flatMap h, List.filter_flatMap, parts]
  induction t.splitOnP q with
  | nil => rfl
  | cons part rest ih =>
      rw [List.flatMap_cons, ih]
      cases part with
      | nil => rfl
      | cons c part => rfl

/-- What holds no separator but at its ends is one part, or none. -/
theorem parts_eq_trimBy {p : α → Bool} (h : ∀ c ∈ trimBy p t, p c = false) :
    parts p t = [trimBy p t].filter (!·.isEmpty) := by
  have hone : (trimBy p t).splitOnP p = [trimBy p t] :=
    List.splitOnP_eq_singleton h
  rw [← parts_trimBy (w := p) fun _ _ hc => hc, parts, hone]

/-! ### Joining -/

/-- What is in a joined list is the separator or in one of the parts. -/
theorem mem_of_mem_intercalate {d : α} {ls : List (List α)} (h : d ∈ [c].intercalate ls) :
    d = c ∨ ∃ l ∈ ls, d ∈ l := by
  induction ls with
  | nil => simp at h
  | cons l ls ih =>
      cases ls with
      | nil =>
          rw [List.intercalate_singleton] at h
          exact .inr ⟨l, List.mem_singleton_self l, h⟩
      | cons m ls =>
          rw [List.intercalate_cons_cons, List.mem_append, List.mem_append,
            List.mem_singleton] at h
          rcases h with (hl | rfl) | hrest
          · exact .inr ⟨l, List.mem_cons_self, hl⟩
          · exact .inl rfl
          · refine (ih hrest).imp_right ?_
            rintro ⟨l', hl', hd⟩
            exact ⟨l', List.mem_cons_of_mem l hl', hd⟩

/-- Parts that hold no separator are told by what they are joined to. -/
theorem intercalate_inj [DecidableEq α] {ls ls' : List (List α)} (h : ∀ l ∈ ls, c ∉ l)
    (h' : ∀ l ∈ ls', c ∉ l) (hne : ls ≠ []) (hne' : ls' ≠ []) :
    [c].intercalate ls = [c].intercalate ls' ↔ ls = ls' := by
  constructor
  · intro heq
    have hsplit := congrArg (List.splitOn c) heq
    rwa [List.splitOn_intercalate c h hne, List.splitOn_intercalate c h' hne'] at hsplit
  · intro heq
    rw [heq]

/-! ### Trimming around a separator -/

variable {p : α → Bool}

/-- What is not trimmed stays. -/
theorem mem_trimBy (hc : c ∈ t) (hp : p c = false) : c ∈ trimBy p t := by
  have hdrop : c ∈ t.dropWhile p := by
    have hsplit := List.takeWhile_append_dropWhile (p := p) (l := t)
    rw [← hsplit, List.mem_append] at hc
    rcases hc with hc | hc
    · have htrue := List.mem_takeWhile_imp hc
      rw [hp] at htrue
      cases htrue
    · exact hc
  rw [trimBy, List.rdropWhile, List.mem_reverse]
  have hrev := List.takeWhile_append_dropWhile (p := p) (l := (t.dropWhile p).reverse)
  rw [← List.mem_reverse, ← hrev, List.mem_append] at hdrop
  rcases hdrop with hc | hc
  · have htrue := List.mem_takeWhile_imp hc
    rw [hp] at htrue
    cases htrue
  · exact hc

/-- The end of a list is trimmed no further than to an element that stays. -/
theorem trimBy_append_cons (hhead : ∀ d, a.head? = some d → p d = false) (hne : a ≠ [])
    (hc : p c = false) (b : List α) :
    trimBy p (a ++ c :: b) = a ++ c :: b.rdropWhile p := by
  have hdrop : (a ++ c :: b).dropWhile p = a ++ c :: b := by
    cases a with
    | nil => exact absurd rfl hne
    | cons d a =>
        rw [List.cons_append, List.dropWhile_cons, hhead d rfl]
        rfl
  rw [trimBy, hdrop]
  induction b using List.reverseRecOn with
  | nil =>
      rw [List.rdropWhile_concat_neg _ _ _ (by rw [hc]; exact Bool.false_ne_true)]
      rfl
  | append_singleton b d ih =>
      rw [← List.cons_append, ← List.append_assoc]
      by_cases hd : p d = true
      · rw [List.rdropWhile_concat_pos _ _ _ hd, List.rdropWhile_concat_pos _ _ _ hd, ih]
        cases a with
        | nil => exact absurd rfl hne
        | cons e a =>
            rw [List.cons_append, List.dropWhile_cons, hhead e rfl]
            rfl
      · rw [List.rdropWhile_concat_neg _ _ _ hd, List.rdropWhile_concat_neg _ _ _ hd,
          List.append_assoc, List.cons_append]

/-- What leads a list and stays is not trimmed. -/
theorem trimBy_append_of_forall (h : ∀ c ∈ a, p c = false) (hne : a ≠ []) (b : List α) :
    ∃ t, trimBy p (a ++ b) = a ++ t := by
  have hdrop : (a ++ b).dropWhile p = a ++ b := by
    obtain ⟨c, a, rfl⟩ := List.exists_cons_of_ne_nil hne
    rw [List.cons_append, List.dropWhile_cons, h c List.mem_cons_self]
    rfl
  rw [trimBy, hdrop]
  clear hdrop
  induction b using List.reverseRecOn with
  | nil =>
      refine ⟨[], ?_⟩
      rw [List.append_nil, List.rdropWhile_eq_self_iff]
      intro hl hlast
      rw [h _ (List.getLast_mem hl)] at hlast
      cases hlast
  | append_singleton b d ih =>
      rw [← List.append_assoc]
      by_cases hd : p d = true
      · rw [List.rdropWhile_concat_pos _ _ _ hd]
        exact ih
      · rw [List.rdropWhile_concat_neg _ _ _ hd]
        exact ⟨b ++ [d], List.append_assoc _ _ _⟩

/-- What is left out anyway may be trimmed first. -/
theorem filter_trimBy {q : α → Bool} (h : ∀ c ∈ t, p c = true → q c = false) :
    (trimBy p t).filter q = t.filter q := by
  have hleft : ∀ t : List α, (∀ c ∈ t, p c = true → q c = false) →
      (t.dropWhile p).filter q = t.filter q := by
    intro t h
    induction t with
    | nil => rfl
    | cons c t ih =>
        obtain ⟨hc, ht⟩ := List.forall_mem_cons.mp h
        rw [List.dropWhile_cons]
        split
        · rename_i hp
          rw [ih ht, List.filter_cons_of_neg (by rw [hc hp]; exact Bool.false_ne_true)]
        · rfl
  rw [trimBy, List.rdropWhile, List.filter_reverse, hleft, List.filter_reverse,
    List.reverse_reverse, hleft t h]
  intro c hc
  exact h c ((List.dropWhile_suffix p).subset (List.mem_reverse.mp hc))

theorem trimBy_append_right (hb : b.all p = true) : trimBy p (t ++ b) = trimBy p t := by
  rw [List.all_eq_true] at hb
  by_cases ht : t.all p = true
  · rw [trimBy_eq_nil_iff.mpr ht, trimBy_eq_nil_iff, List.all_append, ht, List.all_eq_true.mpr hb]
    rfl
  · have hdrop : (t ++ b).dropWhile p = t.dropWhile p ++ b := by
      rw [List.dropWhile_append, List.isEmpty_eq_false_iff.mpr]
      · rfl
      · rw [ne_eq, List.dropWhile_eq_nil_iff, ← List.all_eq_true]
        exact ht
    rw [trimBy, trimBy, hdrop, List.rdropWhile, List.rdropWhile, List.reverse_append,
      List.dropWhile_append_of_pos fun x hx => hb x (List.mem_reverse.mp hx)]

/-- Trimming the end first changes nothing. -/
theorem trimBy_rdropWhile (t : List α) : trimBy p (t.rdropWhile p) = trimBy p t := by
  conv_rhs => rw [← List.rdropWhile_append_rtakeWhile (p := p) (l := t)]
  exact (trimBy_append_right (List.all_eq_true.mpr fun x hx => List.mem_rtakeWhile_imp hx)).symm

end Ghostlane.Lib
