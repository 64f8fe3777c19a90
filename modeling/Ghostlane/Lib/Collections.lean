import Mathlib.Data.List.Nodup
import Mathlib.Data.List.Perm.Subperm
import Mathlib.Data.List.Sort

/-!
# Ghostlane.Lib.Collections

**Keyed lists.** The collection functions of a language with insertion-ordered
sets and maps, over lists:

* `distinctBy`: one element to a key, the first;
* `associateBy`: the values of a map, in the order its keys were first met;
* `firstFree`: the first of a sequence of candidates that is not taken;
* `numberFrom`: each element with its number among its equals.

What the developments above use of them is when nothing is lost
(`distinctBy_eq_self_iff`) and that a name found free is free
(`firstFree_not_mem`).
-/

namespace Ghostlane.Lib

variable {α κ : Type*} [DecidableEq κ]

/-! ### One element to a key -/

/-- The elements whose key is neither in `used` nor that of an earlier one. -/
def distinctFrom (key : α → κ) : List κ → List α → List α
  | _, [] => []
  | used, a :: as =>
      if key a ∈ used then distinctFrom key used as else a :: distinctFrom key (key a :: used) as

/-- Keep the first element of each key. -/
def distinctBy (key : α → κ) (as : List α) : List α := distinctFrom key [] as

/-- Keep the first of equal elements. -/
abbrev distinct (ks : List κ) : List κ := distinctBy (fun k => k) ks

/-- The elements of each key together, the keys in the order they were first met. -/
def groupBy (key : α → κ) (as : List α) : List (List α) :=
  (distinct (as.map key)).map fun k => as.filter fun a => key a = k

section Distinct

variable {key : α → κ}

/-- Where no key is repeated, what is found under one is what has it. -/
theorem find?_key_eq_some_iff {as : List α} (hnodup : (as.map key).Nodup) {k : κ} {a : α} :
    as.find? (key · = k) = some a ↔ a ∈ as ∧ key a = k := by
  induction as with
  | nil => simp
  | cons first as ih =>
      rw [List.map_cons, List.nodup_cons] at hnodup
      rw [List.mem_cons]
      by_cases hkey : key first = k
      · -- nothing behind the first has its key
        have hbehind : ¬ (a ∈ as ∧ key a = k) := fun h =>
          hnodup.1 (hkey.trans h.2.symm ▸ List.mem_map_of_mem h.1)
        rw [List.find?_cons_of_pos (by simpa using hkey), Option.some_inj, or_and_right,
          or_iff_left hbehind, eq_comm (a := first)]
        exact ⟨fun heq => ⟨heq, heq ▸ hkey⟩, And.left⟩
      · rw [List.find?_cons_of_neg (by simpa using hkey), ih hnodup.2]
        refine and_congr_left fun ha => (or_iff_right fun heq => hkey ?_).symm
        rw [← heq, ha]

theorem distinctFrom_sublist (used : List κ) (as : List α) :
    List.Sublist (distinctFrom key used as) as := by
  induction as generalizing used with
  | nil => exact List.Sublist.refl _
  | cons a as ih =>
      simp only [distinctFrom]
      split
      · exact (ih used).cons a
      · exact (ih _).cons_cons a

theorem distinctBy_sublist (as : List α) : List.Sublist (distinctBy key as) as :=
  distinctFrom_sublist [] as

theorem not_mem_of_mem_distinctFrom {used : List κ} {as : List α} {a : α}
    (ha : a ∈ distinctFrom key used as) : key a ∉ used := by
  induction as generalizing used with
  | nil => cases ha
  | cons b as ih =>
      simp only [distinctFrom] at ha
      split at ha
      · exact ih ha
      · rename_i hb
        rcases List.mem_cons.mp ha with rfl | ha
        · exact hb
        · exact fun h => ih ha (List.mem_cons_of_mem _ h)

theorem distinctFrom_nodup (used : List κ) (as : List α) :
    ((distinctFrom key used as).map key).Nodup := by
  induction as generalizing used with
  | nil => exact List.nodup_nil
  | cons a as ih =>
      simp only [distinctFrom]
      split
      · exact ih used
      · refine List.nodup_cons.mpr ⟨fun hmem => ?_, ih _⟩
        obtain ⟨b, hb, hab⟩ := List.mem_map.mp hmem
        exact not_mem_of_mem_distinctFrom hb (hab ▸ List.mem_cons_self)

/-- The keys left are distinct. -/
theorem distinctBy_nodup (as : List α) : ((distinctBy key as).map key).Nodup :=
  distinctFrom_nodup [] as

theorem distinctFrom_eq_self {used : List κ} {as : List α} (hnodup : (as.map key).Nodup)
    (hused : ∀ a ∈ as, key a ∉ used) : distinctFrom key used as = as := by
  induction as generalizing used with
  | nil => rfl
  | cons a as ih =>
      obtain ⟨ha, hrest⟩ := List.nodup_cons.mp hnodup
      rw [distinctFrom, if_neg (hused a List.mem_cons_self), ih hrest]
      intro b hb hmem
      rcases List.mem_cons.mp hmem with heq | hmem
      · exact ha (List.mem_map.mpr ⟨b, hb, heq⟩)
      · exact hused b (List.mem_cons_of_mem _ hb) hmem

/-- **Nothing is lost exactly when the keys were distinct already.** -/
theorem distinctBy_eq_self_iff {as : List α} : distinctBy key as = as ↔ (as.map key).Nodup := by
  constructor
  · intro h
    exact h ▸ distinctBy_nodup as
  · intro h
    exact distinctFrom_eq_self h (fun _ _ => List.not_mem_nil)

theorem mem_map_distinctFrom {used : List κ} {as : List α} {k : κ} (hk : k ∈ as.map key)
    (hused : k ∉ used) : k ∈ (distinctFrom key used as).map key := by
  induction as generalizing used with
  | nil => exact hk
  | cons a as ih =>
      simp only [distinctFrom]
      rcases List.mem_cons.mp hk with rfl | hk
      · rw [if_neg hused]
        exact List.mem_cons_self
      · split
        · exact ih hk hused
        · by_cases hka : k = key a
          · subst hka
            exact List.mem_cons_self
          · refine List.mem_cons_of_mem _ (ih hk ?_)
            rintro h
            rcases List.mem_cons.mp h with h | h
            · exact hka h
            · exact hused h

/-- No key is lost. -/
theorem mem_map_distinctBy {as : List α} {k : κ} :
    k ∈ (distinctBy key as).map key ↔ k ∈ as.map key :=
  ⟨fun h => ((distinctBy_sublist as).map key).subset h,
    fun h => mem_map_distinctFrom h List.not_mem_nil⟩

theorem mem_distinct {ks : List κ} {k : κ} : k ∈ distinct ks ↔ k ∈ ks := by
  have hkeys : k ∈ (distinct ks).map (fun k => k) ↔ k ∈ ks.map (fun k => k) := mem_map_distinctBy
  rwa [List.map_id', List.map_id'] at hkeys

theorem nodup_distinct (ks : List κ) : (distinct ks).Nodup := by
  have hkeys : ((distinct ks).map (fun k => k)).Nodup := distinctBy_nodup ks
  rwa [List.map_id'] at hkeys

theorem find?_distinctFrom {used : List κ} {k : κ} (hk : k ∉ used) (as : List α) :
    (distinctFrom key used as).find? (key · = k) = as.find? (key · = k) := by
  induction as generalizing used with
  | nil => rfl
  | cons a as ih =>
      simp only [distinctFrom]
      split
      · rename_i hused
        have hne : key a ≠ k := fun heq => hk (heq ▸ hused)
        rw [ih hk, List.find?_cons_of_neg (by simpa using hne)]
      · by_cases heq : key a = k
        · rw [List.find?_cons_of_pos (by simpa using heq),
            List.find?_cons_of_pos (by simpa using heq)]
        · rw [List.find?_cons_of_neg (by simpa using heq),
            List.find?_cons_of_neg (by simpa using heq)]
          refine ih fun hmem => ?_
          rcases List.mem_cons.mp hmem with hmem | hmem
          · exact heq hmem.symm
          · exact hk hmem

/-- The element found under a key is still found under it. -/
theorem find?_distinctBy (k : κ) (as : List α) :
    (distinctBy key as).find? (key · = k) = as.find? (key · = k) :=
  find?_distinctFrom List.not_mem_nil as

/-- Two selections that share nothing are one. -/
theorem filter_append_filter_perm {p q : α → Bool} {as : List α}
    (hpq : ∀ a ∈ as, p a = true → q a = false) :
    List.Perm (as.filter p ++ as.filter q) (as.filter fun a => p a || q a) := by
  induction as with
  | nil => exact List.Perm.refl _
  | cons a as ih =>
      have ih' := ih fun b hb => hpq b (List.mem_cons_of_mem a hb)
      cases hp : p a with
      | true =>
          have hq := hpq a List.mem_cons_self hp
          simpa [hp, hq] using ih'
      | false =>
          cases hq : q a with
          | true =>
              simp only [List.filter_cons, hp, hq, Bool.false_or, Bool.false_eq_true, if_true,
                if_false]
              exact List.perm_middle.trans (ih'.cons a)
          | false => simpa [hp, hq] using ih'

/-- The elements of each of some distinct keys are the elements with one of the keys. -/
theorem flatMap_filter_key_perm {ks : List κ} (hks : ks.Nodup) (as : List α) :
    List.Perm (ks.flatMap fun k => as.filter fun a => key a = k)
      (as.filter fun a => key a ∈ ks) := by
  induction ks with
  | nil => simp
  | cons k ks ih =>
      obtain ⟨hk, hks⟩ := List.nodup_cons.mp hks
      rw [List.flatMap_cons]
      refine (List.Perm.append_left _ (ih hks)).trans ?_
      refine (filter_append_filter_perm ?_).trans ?_
      · intro a _ ha
        rw [decide_eq_true_eq] at ha
        simp [ha, hk]
      · refine List.Perm.of_eq (List.filter_congr fun a _ => ?_)
        simp

/-- Grouping loses nothing and repeats nothing. -/
theorem flatten_groupBy_perm (key : α → κ) (as : List α) :
    List.Perm (groupBy key as).flatten as := by
  rw [groupBy, ← List.flatMap_def]
  refine (flatMap_filter_key_perm (nodup_distinct _) as).trans (List.Perm.of_eq ?_)
  rw [List.filter_eq_self]
  intro a ha
  simpa [mem_distinct] using ⟨a, ha, rfl⟩

/-- A key already used is a key to leave out. -/
theorem distinctFrom_filter {k : κ} {used used' : List κ}
    (hused : ∀ c, c ∈ used' ↔ c = k ∨ c ∈ used) (as : List α) :
    distinctFrom key used' as = distinctFrom key used (as.filter fun a => key a ≠ k) := by
  induction as generalizing used used' with
  | nil => rfl
  | cons a as ih =>
      rw [distinctFrom, List.filter_cons]
      by_cases hk : key a = k
      · rw [if_pos ((hused _).mpr (Or.inl hk)),
          if_neg (show ¬ decide (key a ≠ k) = true by simp [hk]), ih hused]
      · rw [if_pos (show decide (key a ≠ k) = true by simp [hk]), distinctFrom]
        by_cases hmem : key a ∈ used
        · rw [if_pos ((hused _).mpr (Or.inr hmem)), if_pos hmem, ih hused]
        · have hmem' : key a ∉ used' := fun h => ((hused _).mp h).elim hk hmem
          rw [if_neg hmem', if_neg hmem]
          refine congrArg (a :: ·) (ih fun c => ?_)
          rw [List.mem_cons, List.mem_cons, hused]
          exact or_left_comm

/-- The first of a list, then the others without it. -/
theorem distinct_cons_distinct (k : κ) (ks : List κ) :
    distinct (k :: distinct (ks.filter (· ≠ k))) = distinct (k :: ks) := by
  have hcons : ∀ ks : List κ, distinct (k :: ks) = k :: distinct (ks.filter (· ≠ k)) := fun ks =>
    congrArg (k :: ·) (@distinctFrom_filter _ _ _ _ k [] [k] (fun c => by simp) ks)
  rw [hcons, hcons]
  congr 1
  have hnodup : ((distinct (ks.filter (· ≠ k))).map fun c => c).Nodup := distinctBy_nodup _
  have hkeep : (distinct (ks.filter (· ≠ k))).filter (· ≠ k) = distinct (ks.filter (· ≠ k)) :=
    List.filter_eq_self.mpr fun c hc =>
      (List.mem_filter.mp ((distinctBy_sublist (ks.filter (· ≠ k))).subset hc)).2
  rw [hkeep]
  exact distinctBy_eq_self_iff.mpr hnodup

/-- A key that tells the elements apart keeps what equality keeps. -/
theorem distinctFrom_of_injective {f : κ → α} [DecidableEq α] {used ks : List κ}
    (hinj : ∀ a ∈ used ++ ks, ∀ b ∈ used ++ ks, f a = f b → a = b) :
    distinctFrom f (used.map f) ks = distinctFrom (fun k => k) used ks := by
  induction ks generalizing used with
  | nil => rfl
  | cons k ks ih =>
      have hmem : f k ∈ used.map f ↔ k ∈ used := by
        refine ⟨fun h => ?_, List.mem_map_of_mem⟩
        obtain ⟨a, ha, heq⟩ := List.mem_map.mp h
        rw [← hinj a (List.mem_append_left _ ha) k (by simp) heq]
        exact ha
      have hskip : ∀ a ∈ used ++ ks, ∀ b ∈ used ++ ks, f a = f b → a = b := by
        have hsub : ∀ a, a ∈ used ++ ks → a ∈ used ++ k :: ks := by
          intro a ha
          rw [List.mem_append] at ha ⊢
          exact ha.imp_right (List.mem_cons_of_mem k)
        exact fun a ha b hb => hinj a (hsub a ha) b (hsub b hb)
      have htake : ∀ a ∈ k :: used ++ ks, ∀ b ∈ k :: used ++ ks, f a = f b → a = b := by
        have hsub : ∀ a, a ∈ k :: used ++ ks → a ∈ used ++ k :: ks := by
          intro a ha
          simp only [List.cons_append, List.mem_cons, List.mem_append] at ha ⊢
          exact or_left_comm.mp ha
        exact fun a ha b hb => hinj a (hsub a ha) b (hsub b hb)
      simp only [distinctFrom, hmem]
      split
      · exact ih hskip
      · rw [← List.map_cons, ih htake]

/-- Of the elements kept, those whose key is used are left out. -/
theorem distinctFrom_eq_filter (used : List κ) (as : List α) :
    distinctFrom key used as = (distinctBy key as).filter fun a => key a ∉ used := by
  induction as generalizing used with
  | nil => rfl
  | cons a as ih =>
      have hcons : distinctBy key (a :: as) =
          a :: (distinctBy key as).filter fun b => key b ∉ [key a] := by
        rw [distinctBy, distinctFrom, if_neg List.not_mem_nil, ih]
      rw [hcons, distinctFrom]
      split
      · rename_i hused
        rw [List.filter_cons_of_neg (by simpa using hused), List.filter_filter, ih]
        refine List.filter_congr fun b _ => ?_
        rw [← Bool.decide_and, decide_eq_decide, List.mem_singleton]
        exact ⟨fun hb => ⟨hb, fun heq => hb (heq ▸ hused)⟩, And.left⟩
      · rename_i hused
        rw [List.filter_cons_of_pos (by simpa using hused), List.filter_filter, ih]
        refine congrArg (a :: ·) (List.filter_congr fun b _ => ?_)
        rw [← Bool.decide_and, decide_eq_decide, List.mem_cons, not_or, List.mem_singleton]
        exact and_comm

/-- Of what follows, only the keys that did not come before are kept. -/
theorem distinctFrom_append (used : List κ) (as bs : List α) :
    distinctFrom key used (as ++ bs) = distinctFrom key used as ++
      (distinctBy key bs).filter fun b => key b ∉ used ∧ key b ∉ as.map key := by
  induction as generalizing used with
  | nil =>
      rw [List.nil_append, distinctFrom_eq_filter]
      simp [distinctFrom]
  | cons a as ih =>
      rw [List.cons_append, distinctFrom, distinctFrom]
      split
      · rename_i hused
        rw [ih]
        refine congrArg _ (List.filter_congr fun b _ => decide_eq_decide.mpr ?_)
        rw [List.map_cons, List.mem_cons, not_or]
        exact ⟨fun h => ⟨h.1, fun heq => h.1 (heq ▸ hused), h.2⟩, fun h => ⟨h.1, h.2.2⟩⟩
      · rw [ih, List.cons_append]
        refine congrArg (a :: distinctFrom key (key a :: used) as ++ ·)
          (List.filter_congr fun b _ => decide_eq_decide.mpr ?_)
        rw [List.map_cons, List.mem_cons, not_or, List.mem_cons, not_or]
        exact ⟨fun h => ⟨h.1.2, h.1.1, h.2⟩, fun h => ⟨⟨h.2.1, h.1⟩, h.2.2⟩⟩

/-- **What comes between is not missed** exactly when the rest begins with it. -/
theorem distinct_between_iff (k : κ) (as bs : List κ) :
    distinct (k :: (as ++ bs)) = distinct (k :: bs) ↔
      distinct (k :: as) <+: distinct (k :: bs) := by
  have happend : distinct (k :: (as ++ bs)) =
      distinct (k :: as) ++ (distinct bs).filter (· ∉ k :: as) := by
    refine (@distinctFrom_append κ κ _ (fun c => c) [] (k :: as) bs).trans ?_
    simp only [List.not_mem_nil, not_false_eq_true, true_and, List.map_id']
    rfl
  rw [happend]
  constructor
  · intro heq
    exact ⟨_, heq⟩
  · intro ⟨rest, hrest⟩
    have hcons : distinct (k :: bs) = k :: (distinct bs).filter (· ∉ [k]) :=
      congrArg (k :: ·) (@distinctFrom_eq_filter κ κ _ (fun c => c) [k] bs)
    have hnodup : (distinct (k :: as) ++ rest).Nodup := hrest ▸ nodup_distinct (k :: bs)
    -- of the rest's firsts, those not between are what is left after the front
    have hfront : (distinct (k :: as)).filter (· ∉ k :: as) = [] := by
      refine List.filter_eq_nil_iff.mpr fun c hc hnot => ?_
      exact (of_decide_eq_true hnot) (mem_distinct.mp hc)
    have hback : rest.filter (· ∉ k :: as) = rest := by
      refine List.filter_eq_self.mpr fun c hc => ?_
      have hnot : c ∉ distinct (k :: as) := fun hmem =>
        (List.nodup_append.mp hnodup).2.2 c hmem c hc rfl
      simpa using fun h => hnot (mem_distinct.mpr h)
    have hrestEq : rest = (distinct bs).filter (· ∉ k :: as) := by
      have hcut := congrArg (List.filter (· ∉ k :: as)) (hrest.trans hcons)
      rw [List.filter_append, hfront, hback, List.nil_append, List.filter_cons_of_neg (by simp),
        List.filter_filter] at hcut
      refine hcut.trans (List.filter_congr fun c _ => ?_)
      rw [← Bool.decide_and, decide_eq_decide, List.mem_cons, not_or, List.mem_singleton]
      exact ⟨And.left, fun h => ⟨h, h.1⟩⟩
    rw [← hrestEq, hrest]

theorem distinctFrom_map {β : Type*} (f : β → α) (used : List κ) (as : List β) :
    distinctFrom key used (as.map f) = (distinctFrom (fun a => key (f a)) used as).map f := by
  induction as generalizing used with
  | nil => rfl
  | cons a as ih =>
      simp only [List.map_cons, distinctFrom]
      split
      · exact ih used
      · rw [List.map_cons, ih]

/-- Keys asked of the images are keys of the elements. -/
theorem distinctBy_map {β : Type*} (f : β → α) (as : List β) :
    distinctBy key (as.map f) = (distinctBy (fun a => key (f a)) as).map f :=
  distinctFrom_map f [] as

end Distinct

/-! ### Sorting by a key -/

/-- A stable sort by a key keeps the order of elements with one key. -/
theorem pairwise_insertionSort_key (rank : α → Nat) {R : α → α → Prop} {as : List α}
    (h : as.Pairwise R) : (as.insertionSort fun a b => rank a ≤ rank b).Pairwise
      fun a b => rank a < rank b ∨ rank a = rank b ∧ R a b := by
  have hinsert : ∀ (a : α) (bs : List α), (∀ b ∈ bs, R a b) →
      bs.Pairwise (fun a b => rank a < rank b ∨ rank a = rank b ∧ R a b) →
      (bs.orderedInsert (fun a b => rank a ≤ rank b) a).Pairwise
        fun a b => rank a < rank b ∨ rank a = rank b ∧ R a b := by
    intro a bs hR hbs
    induction bs with
    | nil => exact List.pairwise_singleton _ _
    | cons b bs ih =>
        obtain ⟨hb, hrest⟩ := List.pairwise_cons.mp hbs
        rw [List.orderedInsert_cons]
        split
        · rename_i hle
          refine List.pairwise_cons.mpr ⟨fun c hc => ?_, hbs⟩
          have hrank : rank b ≤ rank c := by
            rcases List.mem_cons.mp hc with rfl | hc
            · exact le_rfl
            · exact (hb c hc).elim le_of_lt fun h => le_of_eq h.1
          rcases Nat.lt_or_ge (rank a) (rank c) with hlt | hge
          · exact .inl hlt
          · exact .inr ⟨by omega, hR c hc⟩
        · rename_i hgt
          refine List.pairwise_cons.mpr ⟨fun c hc => ?_, ih (fun c hc => hR c ?_) hrest⟩
          · rcases (List.mem_orderedInsert _).mp hc with rfl | hc
            · exact .inl (by omega)
            · exact hb c hc
          · exact List.mem_cons_of_mem b hc
  induction as with
  | nil => exact List.Pairwise.nil
  | cons a as ih =>
      obtain ⟨ha, hrest⟩ := List.pairwise_cons.mp h
      refine hinsert a _ (fun b hb => ha b ?_) (ih hrest)
      exact (List.mem_insertionSort _).mp hb

/-! ### Maps in insertion order -/

/-- The last element of each key, in the order the keys were first met. -/
def associateBy (key : α → κ) (as : List α) : List α :=
  (distinctBy key as).filterMap fun a => (as.filter fun b => key b = key a).getLast?

section Maps

variable {key : α → κ}

theorem mem_of_mem_associateBy {as : List α} {a : α} (h : a ∈ associateBy key as) : a ∈ as := by
  obtain ⟨b, -, hb⟩ := List.mem_filterMap.mp h
  exact (List.mem_filter.mp (List.mem_of_getLast? hb)).1

omit [DecidableEq κ] in
/-- What picks for every element one of its key keeps the keys. -/
theorem map_filterMap_of_keyed {f : α → Option α} {as : List α}
    (h : ∀ a ∈ as, ∃ b, f a = some b ∧ key b = key a) : (as.filterMap f).map key = as.map key := by
  induction as with
  | nil => rfl
  | cons a as ih =>
      obtain ⟨b, hb, hkey⟩ := h a List.mem_cons_self
      rw [List.filterMap_cons_some hb, List.map_cons, List.map_cons, hkey,
        ih fun a' ha' => h a' (List.mem_cons_of_mem _ ha')]

/-- One value to a key. -/
theorem associateBy_nodup (as : List α) : ((associateBy key as).map key).Nodup := by
  rw [associateBy, map_filterMap_of_keyed]
  · exact distinctBy_nodup as
  · intro a ha
    have hmem : a ∈ as.filter fun b => key b = key a :=
      List.mem_filter.mpr ⟨(distinctBy_sublist as).subset ha, by simp⟩
    have hb := List.getLast?_eq_some_getLast (List.ne_nil_of_mem hmem)
    exact ⟨_, hb, by simpa using (List.mem_filter.mp (List.mem_of_getLast? hb)).2⟩

theorem associateBy_map {β : Type*} (f : β → α) (as : List β) :
    associateBy key (as.map f) = (associateBy (fun a => key (f a)) as).map f := by
  rw [associateBy, associateBy, distinctBy_map, List.filterMap_map, List.map_filterMap]
  refine List.filterMap_congr fun a _ => ?_
  rw [Function.comp_apply, List.filter_map, List.getLast?_map]
  rfl

/-- Values under distinct keys stay. -/
theorem associateBy_eq_self {as : List α} (h : (as.map key).Nodup) : associateBy key as = as := by
  have hself : ∀ a ∈ as, (as.filter fun b => key b = key a).getLast? = some a := by
    intro a ha
    have hall : ∀ b ∈ as.filter fun b => key b = key a, b = a := by
      intro b hb
      obtain ⟨hmem, hkey⟩ := List.mem_filter.mp hb
      exact List.inj_on_of_nodup_map h hmem ha (of_decide_eq_true hkey)
    have hne : a ∈ as.filter fun b => key b = key a := List.mem_filter.mpr ⟨ha, by simp⟩
    obtain ⟨b, hb⟩ :=
      Option.isSome_iff_exists.mp (List.getLast?_isSome.mpr (List.ne_nil_of_mem hne))
    rw [hb, hall b (List.mem_of_getLast? hb)]
  rw [associateBy, distinctBy_eq_self_iff.mpr h, List.filterMap_congr hself]
  exact List.filterMap_some

end Maps

/-! ### Parts of a list -/

/-- A part of a list that has as many elements of every key as the list is all
of it. -/
theorem eq_of_sublist_of_filter_length (key : α → κ) {as bs : List α} (hsub : List.Sublist as bs)
    (hlen : ∀ k, (bs.filter (key · = k)).length ≤ (as.filter (key · = k)).length) : as = bs := by
  induction hsub with
  | slnil => rfl
  | @cons as bs b hsub ih =>
      -- The key of an element left out would be one short.
      have hle := (hsub.filter (key · = key b)).length_le
      have hkey := hlen (key b)
      rw [List.filter_cons_of_pos (by simp), List.length_cons] at hkey
      omega
  | @cons_cons as bs b hsub ih =>
      refine congrArg (b :: ·) (ih fun k => ?_)
      have hkey := hlen k
      by_cases hk : key b = k
      · rw [List.filter_cons_of_pos (by simpa using hk),
          List.filter_cons_of_pos (by simpa using hk), List.length_cons, List.length_cons] at hkey
        omega
      · rwa [List.filter_cons_of_neg (by simpa using hk),
          List.filter_cons_of_neg (by simpa using hk)]
          at hkey

theorem filter_eraseP_self (p : α → Bool) (as : List α) :
    (as.eraseP p).filter p = (as.filter p).tail := by
  induction as with
  | nil => rfl
  | cons a as ih =>
      cases ha : p a with
      | true => rw [List.eraseP_cons_of_pos ha, List.filter_cons_of_pos ha, List.tail_cons]
      | false =>
          rw [List.eraseP_cons_of_neg (by simp [ha]), List.filter_cons_of_neg (by simp [ha]), ih,
            List.filter_cons_of_neg (by simp [ha])]

theorem filter_eraseP_of_disjoint {p q : α → Bool} (hpq : ∀ a, p a = true → q a = false)
    (as : List α) : (as.eraseP p).filter q = as.filter q := by
  induction as with
  | nil => rfl
  | cons a as ih =>
      cases ha : p a with
      | true => rw [List.eraseP_cons_of_pos ha, List.filter_cons_of_neg (by simp [hpq a ha])]
      | false =>
          rw [List.eraseP_cons_of_neg (by simp [ha])]
          cases hq : q a with
          | true => rw [List.filter_cons_of_pos hq, List.filter_cons_of_pos hq, ih]
          | false =>
              rw [List.filter_cons_of_neg (by simp [hq]), List.filter_cons_of_neg (by simp [hq]),
                ih]

/-! ### Lists side by side -/

section Pairing

variable {β γ δ : Type*} {g : α → β → γ} {f : γ → δ} {as : List α} {bs : List β}

theorem exists_of_mem_zipWith {c : γ} (h : c ∈ List.zipWith g as bs) :
    ∃ a ∈ as, ∃ b ∈ bs, c = g a b := by
  induction as generalizing bs with
  | nil => simp at h
  | cons a as ih =>
      cases bs with
      | nil => simp at h
      | cons b bs =>
          rw [List.zipWith_cons_cons] at h
          rcases List.mem_cons.mp h with rfl | h
          · exact ⟨a, List.mem_cons_self, b, List.mem_cons_self, rfl⟩
          · obtain ⟨a', ha', b', hb', heq⟩ := ih h
            exact ⟨a', List.mem_cons_of_mem _ ha', b', List.mem_cons_of_mem _ hb', heq⟩

/-- What each pair takes from its left is what the left list has. -/
theorem map_zipWith_left {k : α → δ} (hlen : as.length ≤ bs.length)
    (hf : ∀ a ∈ as, ∀ b, f (g a b) = k a) : (List.zipWith g as bs).map f = as.map k := by
  induction as generalizing bs with
  | nil => simp
  | cons a as ih =>
      cases bs with
      | nil => simp at hlen
      | cons b bs =>
          rw [List.zipWith_cons_cons, List.map_cons, List.map_cons, hf a List.mem_cons_self,
            ih (by simpa using hlen) fun a' ha' => hf a' (List.mem_cons_of_mem _ ha')]

/-- What each pair takes from its right is what the right list has. -/
theorem map_zipWith_right {k : β → δ} (hlen : bs.length ≤ as.length)
    (hf : ∀ a, ∀ b ∈ bs, f (g a b) = k b) : (List.zipWith g as bs).map f = bs.map k := by
  rw [List.zipWith_comm]
  exact map_zipWith_left hlen fun b hb a => hf a b hb

end Pairing

/-! ### Names not taken -/

/-- The first candidate that is not taken. The candidates tried are one more
than the names taken, so when they differ one of them is free. -/
def firstFree (cand : Nat → κ) (used : List κ) : κ :=
  cand ((List.range (used.length + 1)).findIdx fun i => cand i ∉ used)

/-- **A name found free is free**: candidates that differ cannot all be taken. -/
theorem firstFree_not_mem {cand : Nat → κ} (hinj : Function.Injective cand) (used : List κ) :
    firstFree cand used ∉ used := by
  have hfound : ∃ i ∈ List.range (used.length + 1), decide (cand i ∉ used) = true := by
    by_contra hnone
    simp only [decide_eq_true_eq, not_exists, not_and, not_not] at hnone
    -- Otherwise `used.length + 1` different names lie in `used`.
    have hsub : (List.range (used.length + 1)).map cand ⊆ used := by
      intro k hk
      obtain ⟨i, hi, rfl⟩ := List.mem_map.mp hk
      exact hnone i hi
    have hlen := (List.subperm_of_subset (List.nodup_range.map hinj) hsub).length_le
    simp only [List.length_map, List.length_range] at hlen
    omega
  have hlt := List.findIdx_lt_length_of_exists hfound
  have hfree := List.findIdx_getElem (w := hlt)
  simpa [firstFree] using hfree

/-- A candidate that is free and comes after taken ones alone. -/
def IsFirstFree (cand : Nat → κ) (used : List κ) (k : κ) : Prop :=
  ∃ n, cand n = k ∧ k ∉ used ∧ ∀ m < n, cand m ∈ used

theorem isFirstFree_firstFree {cand : Nat → κ} (hinj : Function.Injective cand) (used : List κ) :
    IsFirstFree cand used (firstFree cand used) := by
  refine ⟨_, rfl, firstFree_not_mem hinj used, fun m hm => ?_⟩
  have hlt := Nat.lt_of_lt_of_le hm List.findIdx_le_length
  have hnot := List.not_of_lt_findIdx hm
  simpa using hnot

/-- **There is one such candidate.** -/
theorem firstFree_eq_iff {cand : Nat → κ} (hinj : Function.Injective cand) {used : List κ} {k : κ} :
    firstFree cand used = k ↔ IsFirstFree cand used k := by
  constructor
  · intro h
    exact h ▸ isFirstFree_firstFree hinj used
  · intro ⟨n, hn, hfree, hbelow⟩
    obtain ⟨n', hn', hfree', hbelow'⟩ := isFirstFree_firstFree hinj used
    rcases Nat.lt_trichotomy n n' with hlt | rfl | hlt
    · exact absurd (hn ▸ hbelow' n hlt) hfree
    · rw [← hn', hn]
    · exact absurd (hn' ▸ hbelow n' hlt) hfree'

/-! ### Repeats counted -/

/-- Each element with its number among its equals; `seen` of each were met before. -/
def numberFrom (seen : κ → Nat) : List κ → List (κ × Nat)
  | [] => []
  | k :: ks => (k, seen k + 1) :: numberFrom (Function.update seen k (seen k + 1)) ks

/-- An element's number is told by its equals before it. -/
theorem getElem?_numberFrom (seen : κ → Nat) (ks : List κ) (i : Nat) :
    (numberFrom seen ks)[i]? = ks[i]?.map fun k => (k, seen k + (ks.take i).count k + 1) := by
  induction ks generalizing seen i with
  | nil => rfl
  | cons a ks ih =>
      cases i with
      | zero => rfl
      | succ i =>
          rw [numberFrom, List.getElem?_cons_succ, List.getElem?_cons_succ, ih]
          refine Option.map_congr fun k _ => ?_
          rw [List.take_succ_cons, List.count_cons, Function.update_apply]
          by_cases hk : k = a
          · subst hk
            simp only [if_true, beq_self_eq_true]
            congr 1
            omega
          · rw [if_neg hk, if_neg (by simpa using Ne.symm hk)]
            rfl

theorem lt_of_mem_numberFrom {seen : κ → Nat} {ks : List κ} {p : κ × Nat}
    (h : p ∈ numberFrom seen ks) : seen p.1 < p.2 := by
  obtain ⟨i, hi⟩ := List.mem_iff_getElem?.mp h
  rw [getElem?_numberFrom] at hi
  obtain ⟨k, -, rfl⟩ := Option.map_eq_some_iff.mp hi
  dsimp only
  omega

/-- **No two elements are numbered alike.** -/
theorem nodup_numberFrom (seen : κ → Nat) (ks : List κ) : (numberFrom seen ks).Nodup := by
  induction ks generalizing seen with
  | nil => exact List.nodup_nil
  | cons k ks ih =>
      refine List.nodup_cons.mpr ⟨fun hmem => ?_, ih _⟩
      have hlt := lt_of_mem_numberFrom hmem
      rw [Function.update_self] at hlt
      exact absurd hlt (Nat.lt_irrefl _)

end Ghostlane.Lib
