import Mathlib.Data.List.Basic
import Mathlib.Data.List.Infix

/-!
# Ghostlane.Lib.Rewrite

Replacing every match of an expression that also looks at what stands around the match: a
boundary, a lookbehind, the word it is in. A `Pass` says, at a place of the text, how far a match
that begins there goes and what stands for it; matches are taken from the left, the next search
begins after the last one's end.

The rules are about one text in another, a *slot*: what a pass makes of `p ++ (s ++ q)` as a
function of `s`, for every `s` of a kind. Up to the slot a pass either goes on by some of `p`, with
the same output whatever the slot holds, or settles the rest at once (`apply_slot`); after it, what
comes out is related to what goes in by any relation that the single steps keep (`go_right`).
-/

namespace Ghostlane.Lib

variable {α : Type*}

/-- At a place: what was passed, nearest first, and what follows. How many elements the match takes
beside the first, and what is put for it. -/
abbrev Pass (α : Type*) := List α → List α → Option (Nat × List α)

/-- The pass, with `k` elements of the last match still to skip. -/
def Pass.go (P : Pass α) : Nat → List α → List α → List α
  | _, _, [] => []
  | k + 1, l, c :: t => go P k (c :: l) t
  | 0, l, c :: t =>
      match P l (c :: t) with
      | none => c :: go P 0 (c :: l) t
      | some (n, out) => out ++ go P n (c :: l) t

def Pass.apply (P : Pass α) (t : List α) : List α := P.go 0 [] t

/-- Something matches somewhere. -/
def Pass.finds (P : Pass α) : List α → List α → Bool
  | _, [] => false
  | l, c :: t => (P l (c :: t)).isSome || finds P (c :: l) t

namespace Pass

variable {P : Pass α} {l t : List α} {c : α} {n : Nat} {out : List α}

@[simp] theorem go_nil (P : Pass α) (k : Nat) (l : List α) : P.go k l [] = [] := by
  cases k <;> rfl

theorem go_skip (P : Pass α) (k : Nat) (l t : List α) :
    P.go k l t = P.go 0 ((t.take k).reverse ++ l) (t.drop k) := by
  induction k generalizing l t with
  | zero => simp
  | succ k ih =>
      cases t with
      | nil => simp
      | cons c t =>
          simp only [go, List.take_succ_cons, List.drop_succ_cons, List.reverse_cons,
            List.append_assoc, List.singleton_append]
          exact ih (c :: l) t

theorem go_of_none (h : P l (c :: t) = none) : P.go 0 l (c :: t) = c :: P.go 0 (c :: l) t := by
  simp only [go, h]

theorem go_of_some (hne : t ≠ []) (h : P l t = some (n, out)) :
    P.go 0 l t = out ++ P.go 0 ((t.take (n + 1)).reverse ++ l) (t.drop (n + 1)) := by
  cases t with
  | nil => exact absurd rfl hne
  | cons c t =>
      simp only [go, h, go_skip P n (c :: l) t, List.take_succ_cons, List.drop_succ_cons,
        List.reverse_cons, List.append_assoc, List.singleton_append]

/-- The same where the match is known as a text. -/
theorem go_of_found {found rest : List α} (hne : found ≠ [])
    (h : P l (found ++ rest) = some (found.length - 1, out)) :
    P.go 0 l (found ++ rest) = out ++ P.go 0 (found.reverse ++ l) rest := by
  rw [go_of_some (by simp [hne]) h, Nat.sub_add_cancel (List.length_pos_iff.mpr hne)]
  simp

/-- A text none of whose places matches goes through. -/
theorem go_append_of_none {u : List α}
    (h : ∀ a b, t = a ++ b → b ≠ [] → P (a.reverse ++ l) (b ++ u) = none) :
    P.go 0 l (t ++ u) = t ++ P.go 0 (t.reverse ++ l) u := by
  induction t generalizing l with
  | nil => simp
  | cons c t ih =>
      have hhead : P l (c :: (t ++ u)) = none := h [] (c :: t) rfl (List.cons_ne_nil c t)
      rw [List.cons_append, go_of_none hhead, ih fun a b hab hne => ?_]
      · simp
      · have := h (c :: a) b (by rw [hab, List.cons_append]) hne
        simpa using this

/-- A text whose matches end in it and are put back as they were goes through. -/
theorem go_append_of_inert {u : List α}
    (h : ∀ a b, t = a ++ b → b ≠ [] → ∀ n out, P (a.reverse ++ l) (b ++ u) = some (n, out) →
      n + 1 ≤ b.length ∧ out = b.take (n + 1)) :
    P.go 0 l (t ++ u) = t ++ P.go 0 (t.reverse ++ l) u := by
  induction hlen : t.length using Nat.strong_induction_on generalizing l t with
  | _ len ih =>
      cases t with
      | nil => simp
      | cons c t =>
          subst hlen
          cases hhit : P l (c :: t ++ u) with
          | none =>
              rw [List.cons_append] at hhit ⊢
              rw [go_of_none hhit, ih t.length (by simp) (fun a b hab hb => ?_) rfl]
              · simp
              · have := h (c :: a) b (by rw [hab, List.cons_append]) hb
                simpa using this
          | some hit =>
              obtain ⟨n, out⟩ := hit
              obtain ⟨hn, rfl⟩ := h [] (c :: t) rfl (List.cons_ne_nil c t) n out hhit
              rw [go_of_some (by simp) hhit, List.take_append_of_le_length hn,
                List.drop_append_of_le_length hn,
                ih ((c :: t).drop (n + 1)).length
                  (by rw [List.length_drop, List.length_cons]; omega)
                  (fun a b hab hb => ?_) rfl]
              · rw [← List.append_assoc, ← List.append_assoc, ← List.reverse_append,
                  List.take_append_drop]
              · have := h ((c :: t).take (n + 1) ++ a) b
                  (by rw [List.append_assoc, ← hab, List.take_append_drop]) hb
                simpa using this

/-- Where nothing is found, no place matches. -/
theorem none_of_finds {a b : List α} (h : P.finds l t = false) (hab : t = a ++ b) (hb : b ≠ []) :
    P (a.reverse ++ l) b = none := by
  induction a generalizing l t with
  | nil =>
      obtain ⟨c, b, rfl⟩ := List.exists_cons_of_ne_nil hb
      rw [hab, List.nil_append, finds, Bool.or_eq_false_iff, Option.isSome_eq_false_iff,
        Option.isNone_iff_eq_none] at h
      exact h.1
  | cons c a ih =>
      rw [hab, List.cons_append, finds, Bool.or_eq_false_iff] at h
      simpa using ih h.2 rfl

theorem finds_of_none (h : ∀ a b, t = a ++ b → b ≠ [] → P (a.reverse ++ l) b = none) :
    P.finds l t = false := by
  induction t generalizing l with
  | nil => rfl
  | cons c t ih =>
      have hhead : P l (c :: t) = none := h [] (c :: t) rfl (List.cons_ne_nil c t)
      rw [finds, hhead, Option.isSome_none, Bool.false_or]
      refine ih fun a b hab hne => ?_
      have := h (c :: a) b (by rw [hab, List.cons_append]) hne
      simpa using this

/-- What a pass makes of a text hangs on what stands before it only as the places of the text do. -/
theorem go_congr {l' : List α}
    (h : ∀ a b, t = a ++ b → b ≠ [] → P (a.reverse ++ l) b = P (a.reverse ++ l') b) (k : Nat) :
    P.go k l t = P.go k l' t := by
  induction t generalizing k l l' with
  | nil => simp
  | cons c t ih =>
      have htail : ∀ k, P.go k (c :: l) t = P.go k (c :: l') t := fun k => by
        refine ih (fun a b hab hne => ?_) k
        have := h (c :: a) b (by rw [hab, List.cons_append]) hne
        simpa using this
      cases k with
      | succ k => exact htail k
      | zero =>
          have hhead : P l (c :: t) = P l' (c :: t) := h [] (c :: t) rfl (List.cons_ne_nil c t)
          simp only [go, hhead, htail]

/-- **After the slot.** A relation between output and input that every single step keeps. -/
theorem go_right {R : List α → List α → Prop} (hnil : R [] [])
    (hplain : ∀ c u' u, R u' u → R (c :: u') (c :: u))
    (hhit : ∀ l t n out u', t ≠ [] → P l t = some (n, out) → R u' (t.drop (n + 1)) →
      R (out ++ u') t)
    (l t : List α) : R (P.go 0 l t) t := by
  induction hlen : t.length using Nat.strong_induction_on generalizing l t with
  | _ len ih =>
      cases t with
      | nil => simpa using hnil
      | cons c t =>
          subst hlen
          cases h : P l (c :: t) with
          | none =>
              rw [go_of_none h]
              exact hplain _ _ _ (ih t.length (by simp) _ t rfl)
          | some hit =>
              obtain ⟨n, out⟩ := hit
              rw [go_of_some (List.cons_ne_nil c t) h]
              refine hhit _ _ n out _ (List.cons_ne_nil c t) h (ih _ ?_ _ _ rfl)
              simp only [List.drop_succ_cons, List.length_drop, List.length_cons]
              omega

/-- **Up to the slot.** `Sim` relates the output so far to what of `p` it is for. At each place of
`p` the pass goes on, by the same output whatever the slot holds, or the whole is settled; what
arrives at the slot is settled there. -/
theorem apply_slot {K : List α → Prop} {p q : List α} {Sim : List α → List α → Prop}
    {Settled : (List α → List α) → Prop}
    (hcongr : ∀ f g, Settled f → (∀ s, K s → g s = f s) → Settled g)
    (hstep : ∀ o i b, i ++ b = p → b ≠ [] → Sim o i →
      (∃ k out, 0 < k ∧ k ≤ b.length ∧ Sim (o ++ out) (i ++ b.take k) ∧
        ∀ s, K s → P.go 0 i.reverse (b ++ (s ++ q)) =
          out ++ P.go 0 (i ++ b.take k).reverse (b.drop k ++ (s ++ q))) ∨
      Settled fun s => o ++ P.go 0 i.reverse (b ++ (s ++ q)))
    (hslot : ∀ o, Sim o p → Settled fun s => o ++ P.go 0 p.reverse (s ++ q))
    (hstart : Sim [] []) : Settled fun s => P.apply (p ++ (s ++ q)) := by
  suffices h : ∀ len o i b, b.length = len → i ++ b = p → Sim o i →
      Settled fun s => o ++ P.go 0 i.reverse (b ++ (s ++ q)) from h p.length [] [] p rfl rfl hstart
  intro len
  induction len using Nat.strong_induction_on with
  | _ len ih =>
      intro o i b hlen hib hsim
      by_cases hb : b = []
      · subst hb
        rw [List.append_nil] at hib
        subst hib
        exact hslot o hsim
      · rcases hstep o i b hib hb hsim with ⟨k, out, hk, hkb, hnext, heq⟩ | hdone
        · have hrest := ih (b.drop k).length (by rw [List.length_drop]; omega) (o ++ out)
            (i ++ b.take k) (b.drop k) rfl (by simpa using hib) hnext
          refine hcongr _ _ hrest fun s hs => ?_
          rw [heq s hs, List.append_assoc]
        · exact hdone

end Pass

end Ghostlane.Lib
