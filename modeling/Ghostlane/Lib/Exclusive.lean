import Mathlib.Data.List.Nodup
import Mathlib.Data.List.Perm.Basic
import Mathlib.Tactic.Common

/-!
# Ghostlane.Lib.Exclusive

A set whose edits are exclusive: what is in it is not put in again, and what is not in it is
not taken out. Edits are tried one after another, each may be refused for a reason of its own,
and what failed is noted while the rest is tried all the same (`addEach`, `delEach`).
-/

namespace Ghostlane.Lib

/-- The elements in the order they came, each once. -/
structure Exclusive (β : Type*) where
  elems : List β
  nodup : elems.Nodup

namespace Exclusive

variable {α β ε : Type*} [DecidableEq β]

def empty : Exclusive β := ⟨[], List.nodup_nil⟩

def add (s : Exclusive β) (b : β) : Option (Exclusive β) :=
  if h : b ∈ s.elems then none
  else some ⟨s.elems ++ [b], List.nodup_append'.mpr ⟨s.nodup, List.nodup_singleton b, by
    rintro x hx hb
    exact h (List.mem_singleton.mp hb ▸ hx)⟩⟩

def del (s : Exclusive β) (b : β) : Option (Exclusive β) :=
  if b ∈ s.elems then some ⟨s.elems.erase b, s.nodup.erase b⟩ else none

theorem add_of_mem {s : Exclusive β} {b : β} (h : b ∈ s.elems) : s.add b = none := dif_pos h

theorem add_of_not_mem {s : Exclusive β} {b : β} (h : b ∉ s.elems) :
    ∃ t, s.add b = some t ∧ t.elems = s.elems ++ [b] := ⟨_, dif_neg h, rfl⟩

theorem del_of_not_mem {s : Exclusive β} {b : β} (h : b ∉ s.elems) : s.del b = none := if_neg h

theorem del_of_mem {s : Exclusive β} {b : β} (h : b ∈ s.elems) :
    ∃ t, s.del b = some t ∧ t.elems = s.elems.erase b := ⟨_, if_pos h, rfl⟩

/-! ### One edit after another -/

section Each

variable (f : α → β) (refuse : α → Option ε) (clash : ε)

/-- An edit that may be refused, and otherwise fails where it is not possible. -/
def attempt (edit : Option (Exclusive β)) (refused : Option ε) : Except ε (Exclusive β) :=
  match refused, edit with
  | some e, _ => .error e
  | none, some s => .ok s
  | none, none => .error clash

def addEach : Exclusive β → List α → Exclusive β × List (α × ε)
  | s, [] => (s, [])
  | s, a :: as =>
      match attempt clash (s.add (f a)) (refuse a) with
      | .ok s => addEach s as
      | .error e => ((addEach s as).1, (a, e) :: (addEach s as).2)

def delEach : Exclusive β → List α → Exclusive β × List (α × ε)
  | s, [] => (s, [])
  | s, a :: as =>
      match attempt clash (s.del (f a)) (refuse a) with
      | .ok s => delEach s as
      | .error e => ((delEach s as).1, (a, e) :: (delEach s as).2)

variable {f refuse clash} {s : Exclusive β} {as : List α} {b : β}

/-- What is in the set after some were put in. -/
theorem mem_addEach : b ∈ (addEach f refuse clash s as).1.elems ↔
    b ∈ s.elems ∨ ∃ a ∈ as, refuse a = none ∧ f a = b := by
  induction as generalizing s with
  | nil => simp [addEach]
  | cons a as ih =>
      rw [addEach, List.exists_mem_cons_iff]
      cases hrefuse : refuse a with
      | some e => simp [attempt, ih]
      | none =>
          by_cases hmem : f a ∈ s.elems
          · rw [add_of_mem hmem]
            simp only [attempt, ih, true_and]
            constructor
            · exact fun h => h.imp_right .inr
            · rintro (h | rfl | h)
              · exact .inl h
              · exact .inl hmem
              · exact .inr h
          · obtain ⟨t, hadd, ht⟩ := add_of_not_mem hmem
            rw [hadd]
            simp only [attempt, ih, ht, List.mem_append, List.mem_singleton, true_and, or_assoc,
              eq_comm (a := b)]

/-- Nothing fails exactly when nothing is refused, in the set already or put in twice. -/
theorem addEach_errors_eq_nil : (addEach f refuse clash s as).2 = [] ↔
    (∀ a ∈ as, refuse a = none ∧ f a ∉ s.elems) ∧ (as.map f).Nodup := by
  induction as generalizing s with
  | nil => simp [addEach]
  | cons a as ih =>
      rw [addEach, List.forall_mem_cons, List.map_cons, List.nodup_cons]
      cases hrefuse : refuse a with
      | some e => simp [attempt]
      | none =>
          by_cases hmem : f a ∈ s.elems
          · rw [add_of_mem hmem]
            simp [attempt, hmem]
          · obtain ⟨t, hadd, ht⟩ := add_of_not_mem hmem
            rw [hadd]
            simp only [attempt, ih, ht, List.mem_append, List.mem_singleton, not_or, true_and,
              hmem, not_false_eq_true, List.mem_map, not_exists, not_and]
            constructor
            · rintro ⟨hall, hnodup⟩
              exact ⟨fun x hx => ⟨(hall x hx).1, (hall x hx).2.1⟩,
                fun x hx => (hall x hx).2.2, hnodup⟩
            · rintro ⟨hall, hfresh, hnodup⟩
              exact ⟨fun x hx => ⟨(hall x hx).1, (hall x hx).2, hfresh x hx⟩, hnodup⟩

theorem mem_delEach : b ∈ (delEach f refuse clash s as).1.elems ↔
    b ∈ s.elems ∧ ¬ ∃ a ∈ as, refuse a = none ∧ f a = b := by
  induction as generalizing s with
  | nil => simp [delEach]
  | cons a as ih =>
      rw [delEach, List.exists_mem_cons_iff]
      cases hrefuse : refuse a with
      | some e => simp [attempt, ih]
      | none =>
          by_cases hmem : f a ∈ s.elems
          · obtain ⟨t, hdel, ht⟩ := del_of_mem hmem
            rw [hdel]
            simp only [attempt, ih, ht, s.nodup.mem_erase_iff, true_and, not_or]
            constructor
            · rintro ⟨⟨hne, hb⟩, hrest⟩
              exact ⟨hb, hne.symm, hrest⟩
            · rintro ⟨hb, hne, hrest⟩
              exact ⟨⟨Ne.symm hne, hb⟩, hrest⟩
          · rw [del_of_not_mem hmem]
            simp only [attempt, ih, true_and, not_or]
            constructor
            · rintro ⟨hb, hrest⟩
              exact ⟨hb, fun heq => hmem (heq ▸ hb), hrest⟩
            · rintro ⟨hb, -, hrest⟩
              exact ⟨hb, hrest⟩

/-- Nothing fails exactly when nothing is refused, missing or taken out twice. -/
theorem delEach_errors_eq_nil : (delEach f refuse clash s as).2 = [] ↔
    (∀ a ∈ as, refuse a = none ∧ f a ∈ s.elems) ∧ (as.map f).Nodup := by
  induction as generalizing s with
  | nil => simp [delEach]
  | cons a as ih =>
      rw [delEach, List.forall_mem_cons, List.map_cons, List.nodup_cons]
      cases hrefuse : refuse a with
      | some e => simp [attempt]
      | none =>
          by_cases hmem : f a ∈ s.elems
          · obtain ⟨t, hdel, ht⟩ := del_of_mem hmem
            rw [hdel]
            simp only [attempt, ih, ht, s.nodup.mem_erase_iff, hmem, true_and, List.mem_map,
              not_exists, not_and]
            constructor
            · rintro ⟨hall, hnodup⟩
              exact ⟨fun x hx => ⟨(hall x hx).1, (hall x hx).2.2⟩,
                fun x hx => (hall x hx).2.1, hnodup⟩
            · rintro ⟨hall, hfresh, hnodup⟩
              exact ⟨fun x hx => ⟨(hall x hx).1, hfresh x hx, (hall x hx).2⟩, hnodup⟩
          · rw [del_of_not_mem hmem]
            simp [attempt, hmem]

theorem filter_delEach (p : β → Bool) (h : ∀ a ∈ as, p (f a) = false) :
    (delEach f refuse clash s as).1.elems.filter p = s.elems.filter p := by
  induction as generalizing s with
  | nil => rfl
  | cons a as ih =>
      have hrest := fun a' ha' => h a' (List.mem_cons_of_mem _ ha')
      rw [delEach]
      cases hrefuse : refuse a with
      | some e => exact ih hrest
      | none =>
          by_cases hmem : f a ∈ s.elems
          · obtain ⟨t, hdel, ht⟩ := del_of_mem hmem
            rw [hdel]
            refine (ih hrest).trans ?_
            rw [ht, s.nodup.erase_eq_filter, List.filter_filter]
            refine List.filter_congr fun x _ => ?_
            by_cases hx : x = f a
            · rw [hx, h a List.mem_cons_self]
              rfl
            · simp [hx]
          · rw [del_of_not_mem hmem]
            exact ih hrest

end Each

end Exclusive

end Ghostlane.Lib
