import Mathlib.Data.List.Infix

/-!
# Ghostlane.Lib.Scan

Replacing every match of an expression, as a regular expression library does
it: from the left, each match as long as the expression takes it, the next search
after its end. An expression is a matcher: how many elements it takes at the
front of what it is given, none when it does not match there.

A scan of `a ++ b` is the scan of `a` and then that of `b` when no match begun in
`a` looks at `b` (`scan_append`).
-/

namespace Ghostlane.Lib

variable {α : Type*}

/-- The length of the match at the front; `0` is no match. -/
abbrev Matcher (α : Type*) := List α → Nat

/-- A part of what was scanned. -/
inductive Piece (α : Type*)
  | plain (c : α)
  | hit (found : List α)

/-- Scan, with `k` elements of the last match still to pass. -/
def scanFrom (m : Matcher α) : Nat → List α → List (Piece α)
  | _, [] => []
  | k + 1, _ :: t => scanFrom m k t
  | 0, c :: t =>
      match m (c :: t) with
      | 0 => .plain c :: scanFrom m 0 t
      | n + 1 => .hit (c :: t.take n) :: scanFrom m n t

def scan (m : Matcher α) (t : List α) : List (Piece α) := scanFrom m 0 t

/-- What stands for a piece when `f` replaces each match. -/
def Piece.replaced (f : List α → List α) : Piece α → List α
  | plain c => [c]
  | hit found => f found

def replaceAll (m : Matcher α) (f : List α → List α) (t : List α) : List α :=
  (scan m t).flatMap (·.replaced f)

/-- What stands for a piece when the replacement may fail. -/
def Piece.replacedM (f : List α → Option (List α)) : Piece α → Option (List α)
  | plain c => some [c]
  | hit found => f found

/-- A replacement that may fail; the first failure is the whole's. -/
def replaceAllM (m : Matcher α) (f : List α → Option (List α)) (t : List α) : Option (List α) :=
  ((scan m t).mapM (Piece.replacedM f)).map List.flatten

/-- What is replaced in a text. -/
def hits (m : Matcher α) (t : List α) : List (List α) :=
  (scan m t).flatMap fun piece =>
    match piece with
    | .plain _ => []
    | .hit found => [found]

/-- No match begun in `a` is decided by what follows it. -/
def Separates (m : Matcher α) (a b : List α) : Prop :=
  ∀ x, x <:+ a → x ≠ [] → m (x ++ b) = m x ∧ m x ≤ x.length

theorem Separates.tail {m : Matcher α} {c : α} {a b : List α} (h : Separates m (c :: a) b) :
    Separates m a b := fun x hx hne => h x (hx.trans (List.suffix_cons c a)) hne

theorem scanFrom_append {m : Matcher α} {a b : List α} (h : Separates m a b) :
    ∀ {k : Nat}, k ≤ a.length → scanFrom m k (a ++ b) = scanFrom m k a ++ scan m b := by
  induction a with
  | nil =>
      intro k hk
      obtain rfl : k = 0 := Nat.le_zero.mp hk
      rfl
  | cons c a ih =>
      intro k hk
      cases k with
      | succ k => exact ih h.tail (Nat.le_of_succ_le_succ hk)
      | zero =>
          obtain ⟨hsame, hle⟩ := h (c :: a) (List.suffix_refl _) (List.cons_ne_nil c a)
          rw [List.cons_append] at hsame
          simp only [List.cons_append, scanFrom, hsame]
          split
          · rw [ih h.tail (Nat.zero_le _), List.cons_append]
          · rename_i n hn
            have hn' : n ≤ a.length := by
              rw [hn, List.length_cons] at hle
              omega
            rw [ih h.tail hn', List.cons_append, List.take_append_of_le_length hn']

theorem scan_append {m : Matcher α} {a b : List α} (h : Separates m a b) :
    scan m (a ++ b) = scan m a ++ scan m b :=
  scanFrom_append h (Nat.zero_le _)

theorem replaceAll_append {m : Matcher α} {a b : List α} (h : Separates m a b)
    (f : List α → List α) : replaceAll m f (a ++ b) = replaceAll m f a ++ replaceAll m f b := by
  simp only [replaceAll, scan_append h, List.flatMap_append]

/-- Where nothing matches, nothing is replaced. -/
theorem replaceAll_eq_self {m : Matcher α} (f : List α → List α) {a : List α}
    (h : ∀ x, x <:+ a → m x = 0) : replaceAll m f a = a := by
  induction a with
  | nil => rfl
  | cons c a ih =>
      have htail : replaceAll m f a = a := ih fun x hx => h x (hx.trans (List.suffix_cons c a))
      have hhead : m (c :: a) = 0 := h _ (List.suffix_refl _)
      simp only [replaceAll, scan, scanFrom, hhead, List.flatMap_cons]
      exact congrArg (c :: ·) htail

/-- The first element of a text that no match begins with stays first. -/
theorem replaceAll_cons {m : Matcher α} (f : List α → List α) {c : α} {a : List α}
    (h : m (c :: a) = 0) : replaceAll m f (c :: a) = c :: replaceAll m f a := by
  simp only [replaceAll, scan, scanFrom, h, List.flatMap_cons]
  rfl

theorem scanFrom_eq_drop (m : Matcher α) (k : Nat) (t : List α) :
    scanFrom m k t = scan m (t.drop k) := by
  induction k generalizing t with
  | zero => rfl
  | succ k ih =>
      cases t with
      | nil => rfl
      | cons c t => exact ih t

/-- A match is replaced, and the next search begins after it. -/
theorem replaceAll_of_match {m : Matcher α} (f : List α → List α) {c : α} {a : List α}
    (h : m (c :: a) ≠ 0) : replaceAll m f (c :: a) =
      f ((c :: a).take (m (c :: a))) ++ replaceAll m f ((c :: a).drop (m (c :: a))) := by
  obtain ⟨n, hn⟩ := Nat.exists_eq_succ_of_ne_zero h
  rw [replaceAll, scan, scanFrom, hn]
  dsimp only
  rw [scanFrom_eq_drop]
  rfl

/-- A match of the whole text is its only piece. -/
theorem replaceAll_of_whole {m : Matcher α} (f : List α → List α) {a : List α} (hne : a ≠ [])
    (h : m a = a.length) : replaceAll m f a = f a := by
  obtain ⟨c, a, rfl⟩ := List.exists_cons_of_ne_nil hne
  have hm : m (c :: a) ≠ 0 := by
    rw [h]
    exact Nat.succ_ne_zero _
  rw [replaceAll_of_match f hm, h, List.take_length, List.drop_length]
  exact List.append_nil _

/-- What is replaced stands in the text, as long as the expression takes it. -/
theorem mem_hits {m : Matcher α} {t found : List α} (h : found ∈ hits m t) :
    ∃ x, x <:+ t ∧ m x ≠ 0 ∧ found = x.take (m x) := by
  have hscan : ∀ k, .hit found ∈ scanFrom m k t →
      ∃ x, x <:+ t ∧ m x ≠ 0 ∧ found = x.take (m x) := by
    clear h
    induction t with
    | nil =>
        intro k hk
        cases k <;> cases hk
    | cons c t ih =>
        have hrest : ∀ k, .hit found ∈ scanFrom m k t →
            ∃ x, x <:+ c :: t ∧ m x ≠ 0 ∧ found = x.take (m x) := by
          intro k hk
          obtain ⟨x, hx, hfound⟩ := ih k hk
          exact ⟨x, hx.trans (List.suffix_cons c t), hfound⟩
        intro k hk
        cases k with
        | succ k => exact hrest k hk
        | zero =>
            rw [scanFrom] at hk
            split at hk
            · rcases List.mem_cons.mp hk with hfound | hk
              · cases hfound
              · exact hrest 0 hk
            · rename_i n hn
              rcases List.mem_cons.mp hk with hfound | hk
              · cases hfound
                exact ⟨c :: t, List.suffix_refl _, by rw [hn]; nofun, by rw [hn]; rfl⟩
              · exact hrest n hk
  obtain ⟨piece, hpiece, hfound⟩ := List.mem_flatMap.mp h
  cases piece with
  | plain c => cases hfound
  | hit other =>
      obtain rfl := List.mem_singleton.mp hfound
      exact hscan 0 hpiece

/-- A replacement is one where none of its matches fails. -/
theorem exists_replaceAllM_iff {m : Matcher α} {f : List α → Option (List α)} {t : List α} :
    (∃ out, replaceAllM m f t = some out) ↔ ∀ found ∈ hits m t, ∃ out, f found = some out := by
  have hpieces : ∀ pieces : List (Piece α),
      (∃ outs, pieces.mapM (Piece.replacedM f) = some outs) ↔
        ∀ piece ∈ pieces, ∃ out, piece.replacedM f = some out := by
    intro pieces
    induction pieces with
    | nil => exact iff_of_true ⟨[], rfl⟩ (List.forall_mem_nil _)
    | cons piece pieces ih =>
        rw [List.forall_mem_cons, ← ih, List.mapM_cons]
        cases piece.replacedM f with
        | none => simp
        | some first => cases pieces.mapM (Piece.replacedM f) <;> simp
  have hmap : (∃ out, replaceAllM m f t = some out) ↔
      ∃ outs, (scan m t).mapM (Piece.replacedM f) = some outs := by
    unfold replaceAllM
    cases (scan m t).mapM (Piece.replacedM f) <;> simp
  rw [hmap, hpieces, hits, List.forall_mem_flatMap]
  refine forall₂_congr fun piece _ => ?_
  cases piece with
  | plain c => exact iff_of_true ⟨[c], rfl⟩ (List.forall_mem_nil _)
  | hit found =>
      dsimp only
      rw [List.forall_mem_singleton]
      rfl

/-- A replacement that does not fail is one that cannot. -/
theorem replaceAll_of_replaceAllM {m : Matcher α} {f : List α → Option (List α)} {t out : List α}
    (h : replaceAllM m f t = some out) : replaceAll m (fun found => (f found).getD []) t = out := by
  have hpieces : ∀ (pieces : List (Piece α)) (outs : List (List α)),
      pieces.mapM (Piece.replacedM f) = some outs →
        pieces.flatMap (Piece.replaced fun found => (f found).getD []) = outs.flatten := by
    intro pieces
    induction pieces with
    | nil =>
        rintro _ ⟨⟩
        rfl
    | cons piece pieces ih =>
        intro outs houts
        rw [List.mapM_cons] at houts
        obtain ⟨first, hfirst, houts⟩ := Option.bind_eq_some_iff.mp houts
        obtain ⟨rest, hrest, houts⟩ := Option.bind_eq_some_iff.mp houts
        cases houts
        rw [List.flatMap_cons, List.flatten_cons, ih rest hrest]
        cases piece with
        | plain c =>
            cases hfirst
            rfl
        | hit found =>
            rw [Piece.replacedM] at hfirst
            rw [Piece.replaced, hfirst]
            rfl
  obtain ⟨outs, houts, rfl⟩ := Option.map_eq_some_iff.mp h
  exact hpieces _ outs houts

end Ghostlane.Lib
