import Ghostlane.Lib.Text
import Mathlib.Data.List.Count
import Mathlib.Data.List.Basic
import Mathlib.Tactic.SplitIfs

/-!
# Ghostlane.Lib.Quoting

Two ways to put a text into another so that it is read back.

* Between quotes, each of its own doubled (`doubled`). A reader that knows more quotes than the
  writer doubles is misled by exactly the texts that have one of them (`readQuoted_doubled_iff`).
* As one of the arguments of a command line, under the rules Windows programs split theirs by
  (`splitArguments`): blanks separate, quotes keep them, and a backslash is one but before a quote.
-/

namespace Ghostlane.Lib

section Quotes

variable {α : Type*}

/-! ### Doubled quotes -/

/-- The text of a quoted part, and what stands behind it, from behind the quote that opens it. Any
quote ends it; of two in a row the second belongs to the text. -/
def readQuoted (quote : α → Bool) : List α → Option (List α × List α)
  | [] => none
  | [c] => if quote c then some ([], []) else none
  | c :: d :: t =>
      if quote c then
        if quote d then (readQuoted quote t).map fun p => (d :: p.1, p.2) else some ([], d :: t)
      else (readQuoted quote (d :: t)).map fun p => (c :: p.1, p.2)

variable {quote : α → Bool} {c d q mark : α} {t v rest after : List α}

theorem readQuoted_of_not (hc : quote c = false) (t : List α) :
    readQuoted quote (c :: t) = (readQuoted quote t).map fun p => (c :: p.1, p.2) := by
  cases t <;> simp [readQuoted, hc]

theorem readQuoted_pair (hc : quote c = true) (hd : quote d = true) (t : List α) :
    readQuoted quote (c :: d :: t) = (readQuoted quote t).map fun p => (d :: p.1, p.2) := by
  simp [readQuoted, hc, hd]

theorem readQuoted_end (hc : quote c = true) (hd : quote d = false) (t : List α) :
    readQuoted quote (c :: d :: t) = some ([], d :: t) := by
  simp [readQuoted, hc, hd]

/-- What is read on from a character that is no quote has it in it. -/
theorem mem_of_readQuoted_of_not (hc : quote c = false)
    (h : readQuoted quote (c :: t) = some (v, after)) : c ∈ v := by
  rw [readQuoted_of_not hc] at h
  obtain ⟨p, -, hp⟩ := Option.map_eq_some_iff.mp h
  cases hp
  exact List.mem_cons_self

variable [DecidableEq α]

/-- Every `q` twice. -/
def doubled (q : α) (t : List α) : List α := t.flatMap fun c => if c = q then [q, q] else [c]

theorem doubled_self (q : α) (t : List α) : doubled q (q :: t) = q :: q :: doubled q t := by
  simp [doubled]

theorem doubled_of_ne (h : c ≠ q) (t : List α) : doubled q (c :: t) = c :: doubled q t := by
  simp [doubled, h]

/-- A text is read back where its only quotes are those doubled. -/
theorem readQuoted_doubled (hq : quote q = true) (ht : ∀ c ∈ t, quote c = true → c = q)
    (hmark : quote mark = false) (rest : List α) :
    readQuoted quote (doubled q t ++ q :: mark :: rest) = some (t, mark :: rest) := by
  induction t with
  | nil => exact readQuoted_end hq hmark rest
  | cons c t ih =>
      obtain ⟨hc, ht⟩ := List.forall_mem_cons.mp ht
      by_cases hcq : c = q
      · rw [hcq, doubled_self, List.cons_append, List.cons_append, readQuoted_pair hq hq, ih ht]
        rfl
      · have hquote : quote c = false := by
          rw [← Bool.not_eq_true]
          exact fun h => hcq (hc h)
        rw [doubled_of_ne hcq, List.cons_append, readQuoted_of_not hquote, ih ht]
        rfl

/-- A text has a quote that is not doubled. -/
def HasOther (quote : α → Bool) (q : α) (t : List α) : Prop := ∃ c ∈ t, quote c = true ∧ c ≠ q

omit [DecidableEq α] in
theorem hasOther_cons_of_not (h : ¬ (quote c = true ∧ c ≠ q)) :
    HasOther quote q (c :: t) ↔ HasOther quote q t := by
  simp [HasOther, h]

/-- What is read instead of a text, if it does not run on to the mark behind it, has no more
quotes, also where the reader comes to the text with a quote before it; and it has fewer where the
text has a quote that is not doubled. -/
theorem countP_readQuoted (hq : quote q = true) (hmark : quote mark = false) (t : List α) :
    (∀ v after, readQuoted quote (doubled q t ++ q :: mark :: rest) = some (v, after) → mark ∉ v →
      v.countP quote ≤ t.countP quote ∧ (HasOther quote q t → v.countP quote < t.countP quote)) ∧
    ∀ d, quote d = true → ∀ v after,
      readQuoted quote (d :: (doubled q t ++ q :: mark :: rest)) = some (v, after) → mark ∉ v →
        v.countP quote ≤ t.countP quote := by
  have hpair : ∀ {c d : α} {u v after : List α}, quote c = true → quote d = true →
      readQuoted quote (c :: d :: u) = some (v, after) →
        ∃ v', v = d :: v' ∧ readQuoted quote u = some (v', after) := by
    intro c d u v after hc hd h
    rw [readQuoted_pair hc hd] at h
    obtain ⟨p, hp, heq⟩ := Option.map_eq_some_iff.mp h
    cases heq
    exact ⟨p.1, rfl, hp⟩
  have hend : ∀ {c d : α} {u v after : List α}, quote c = true → quote d = false →
      readQuoted quote (c :: d :: u) = some (v, after) → v = [] := by
    intro c d u v after hc hd h
    rw [readQuoted_end hc hd] at h
    cases h
    rfl
  induction t with
  | nil =>
      refine ⟨fun v after h _ => ?_, fun d hd v after h hv => ?_⟩
      · rw [hend hq hmark h]
        exact ⟨le_rfl, fun ⟨c, hc, _⟩ => absurd hc List.not_mem_nil⟩
      · obtain ⟨v', rfl, hrest⟩ := hpair hd hq h
        exact absurd (List.mem_cons_of_mem q (mem_of_readQuoted_of_not hmark hrest)) hv
  | cons c t ih =>
      obtain ⟨ihRead, ihBehind⟩ := ih
      by_cases hcq : c = q
      · subst hcq
        rw [doubled_self, hasOther_cons_of_not (by simp), List.countP_cons_of_pos hq]
        refine ⟨fun v after h hv => ?_, fun d hd v after h hv => ?_⟩
        · obtain ⟨v', rfl, hrest⟩ := hpair hq hq h
          rw [List.mem_cons, not_or] at hv
          obtain ⟨hle, hlt⟩ := ihRead v' after hrest hv.2
          rw [List.countP_cons_of_pos hq]
          exact ⟨Nat.succ_le_succ hle, fun hother => Nat.succ_lt_succ (hlt hother)⟩
        · obtain ⟨v', rfl, hrest⟩ := hpair hd hq h
          rw [List.mem_cons, not_or] at hv
          rw [List.countP_cons_of_pos hq]
          exact Nat.succ_le_succ (ihBehind c hq v' after hrest hv.2)
      · rw [doubled_of_ne hcq]
        cases hquote : quote c with
        | false =>
            rw [hasOther_cons_of_not (by simp [hquote]), List.countP_cons_of_neg (by simp [hquote])]
            refine ⟨fun v after h hv => ?_, fun d hd v after h _ => ?_⟩
            · rw [List.cons_append, readQuoted_of_not hquote] at h
              obtain ⟨⟨v', u⟩, hrest, heq⟩ := Option.map_eq_some_iff.mp h
              cases heq
              rw [List.mem_cons, not_or] at hv
              rw [List.countP_cons_of_neg (by simp [hquote])]
              exact ihRead v' u hrest hv.2
            · rw [hend hd hquote h]
              exact Nat.zero_le _
        | true =>
            -- The quote is one half of a pair, or it ends the part.
            rw [List.countP_cons_of_pos hquote]
            refine ⟨fun v after h hv => ?_, fun d hd v after h hv => ?_⟩
            · have hle := ihBehind c hquote v after h hv
              exact ⟨Nat.le_succ_of_le hle, fun _ => Nat.lt_succ_of_le hle⟩
            · obtain ⟨v', rfl, hrest⟩ := hpair hd hquote h
              rw [List.mem_cons, not_or] at hv
              rw [List.countP_cons_of_pos hquote]
              exact Nat.succ_le_succ (ihRead v' after hrest hv.2).1

/-- **A text is read back exactly where its only quotes are those doubled,** if no mark behind a
part is in it. -/
theorem readQuoted_doubled_iff (hq : quote q = true) (hmark : quote mark = false) (ht : mark ∉ t)
    (rest : List α) :
    (∃ u, readQuoted quote (doubled q t ++ q :: mark :: rest) = some (t, u)) ↔
      ∀ c ∈ t, quote c = true → c = q := by
  constructor
  · rintro ⟨u, h⟩ c hc hquote
    by_contra hne
    exact lt_irrefl _ (((countP_readQuoted hq hmark t).1 t u h ht).2 ⟨c, hc, hquote, hne⟩)
  · intro h
    exact ⟨_, readQuoted_doubled hq h hmark rest⟩

end Quotes

/-! ### Arguments of a command line -/

/-- A blank between arguments. -/
def isSeparator (c : Char) : Bool := c == ' ' || c == '\t'

def backslashes (n : Nat) : Text := List.replicate n '\\'

/-- Where in an argument a character stands: outside quotes, inside, or behind a quote that ends
them unless another follows. -/
inductive Quoted
  | bare
  | within
  | ended
  deriving DecidableEq, Repr

/-- Where the next character stands, if this is no quote. -/
def Quoted.next : Quoted → Quoted
  | .within => .within
  | .bare => .bare
  | .ended => .bare

/-- The arguments of a command line from somewhere in it: the argument begun, whether quoted, and
the backslashes read that may yet belong to a quote. Of those before a quote half count, and an odd
one makes the quote a character. -/
def argumentsFrom (word : Option Text) (quoted : Quoted) (slashes : Nat) : Text → List Text
  | [] => (word.map (· ++ backslashes slashes)).toList
  | c :: t =>
      if c = '\\' then argumentsFrom (some (word.getD [])) quoted.next (slashes + 1) t
      else if c = '"' then
        let halved := word.getD [] ++ backslashes (slashes / 2)
        if slashes % 2 = 1 then argumentsFrom (some (halved ++ ['"'])) quoted 0 t
        else
          match quoted with
          | .bare => argumentsFrom (some halved) .within 0 t
          | .within => argumentsFrom (some halved) .ended 0 t
          | .ended => argumentsFrom (some (halved ++ ['"'])) .within 0 t
      else if quoted ≠ .within ∧ isSeparator c then
        (word.map (· ++ backslashes slashes)).toList ++ argumentsFrom none .bare 0 t
      else argumentsFrom (some (word.getD [] ++ backslashes slashes ++ [c])) quoted.next 0 t

def splitArguments (line : Text) : List Text := argumentsFrom none .bare 0 line

/-- A text to stand in quotes, from behind the opening one to behind the closing one, with as many
backslashes before it. -/
def quotedFrom (slashes : Nat) : Text → Text
  | [] => backslashes (2 * slashes) ++ ['"']
  | c :: t =>
      if c = '\\' then quotedFrom (slashes + 1) t
      else if c = '"' then backslashes (2 * slashes + 1) ++ '"' :: quotedFrom 0 t
      else backslashes slashes ++ c :: quotedFrom 0 t

/-- An argument ends here: the line does, or a blank follows. -/
def EndsArgument (rest : Text) : Prop := ∀ c, rest.head? = some c → isSeparator c = true

variable {w t rest : Text} {quoted : Quoted}

theorem argumentsFrom_backslashes (m n : Nat) :
    argumentsFrom (some w) .within m (backslashes n ++ t) =
      argumentsFrom (some w) .within (m + n) t := by
  induction n generalizing m with
  | zero => rfl
  | succ n ih =>
      rw [backslashes, List.replicate_succ, List.cons_append, argumentsFrom, if_pos rfl]
      have hrest := ih (m + 1)
      rw [Nat.add_right_comm] at hrest
      exact hrest

theorem isSeparator_cases {c : Char} (h : isSeparator c = true) : c = ' ' ∨ c = '\t' := by
  simpa [isSeparator] using h

theorem argumentsFrom_end (hrest : EndsArgument rest) (hquoted : quoted ≠ .within) (n : Nat) :
    argumentsFrom (some w) quoted n rest = (w ++ backslashes n) :: splitArguments rest := by
  cases rest with
  | nil => rfl
  | cons c rest =>
      have hc := hrest c rfl
      have hslash : c ≠ '\\' := by
        rintro rfl
        cases hc
      have hquote : c ≠ '"' := by
        rintro rfl
        cases hc
      rw [argumentsFrom, if_neg hslash, if_neg hquote, if_pos ⟨hquoted, hc⟩, splitArguments,
        argumentsFrom, if_neg hslash, if_neg hquote, if_pos ⟨by decide, hc⟩]
      rfl

/-- An argument without blanks and quotes stands for itself. -/
theorem argumentsFrom_bare (ht : ∀ c ∈ t, isSeparator c = false ∧ c ≠ '"')
    (hrest : EndsArgument rest) (n : Nat) : argumentsFrom (some w) .bare n (t ++ rest) =
      (w ++ backslashes n ++ t) :: splitArguments rest := by
  induction t generalizing w n with
  | nil =>
      rw [List.nil_append, List.append_nil]
      exact argumentsFrom_end hrest (by decide) n
  | cons c t ih =>
      obtain ⟨⟨hblank, hquote⟩, ht⟩ := List.forall_mem_cons.mp ht
      rw [List.cons_append, argumentsFrom]
      by_cases hslash : c = '\\'
      · rw [if_pos hslash, Option.getD_some, Quoted.next, ih ht, hslash, backslashes, backslashes,
          List.replicate_succ', List.append_assoc, List.append_assoc, List.append_assoc]
        rfl
      · rw [if_neg hslash, if_neg hquote, if_neg (by simp [hblank]), Option.getD_some, Quoted.next,
          ih ht]
        simp [backslashes]

/-- What is written in quotes is read back. -/
theorem argumentsFrom_quotedFrom (hrest : EndsArgument rest) (n : Nat) :
    argumentsFrom (some w) .within 0 (quotedFrom n t ++ rest) =
      (w ++ backslashes n ++ t) :: splitArguments rest := by
  induction t generalizing w n with
  | nil =>
      rw [quotedFrom, List.append_assoc, argumentsFrom_backslashes, List.singleton_append,
        argumentsFrom, if_neg (by decide), if_pos rfl]
      dsimp only
      rw [if_neg (by omega), argumentsFrom_end hrest (by decide), Option.getD_some,
        show (0 + 2 * n) / 2 = n by omega]
      simp [backslashes]
  | cons c t ih =>
      rw [quotedFrom]
      split_ifs with hslash hquote
      · rw [ih, hslash, backslashes, backslashes, List.replicate_succ', List.append_assoc,
          List.append_assoc, List.append_assoc]
        rfl
      · rw [List.append_assoc, argumentsFrom_backslashes, List.cons_append, argumentsFrom,
          if_neg (by decide), if_pos rfl]
        dsimp only
        rw [if_pos (by omega), Option.getD_some, ih, hquote,
          show (0 + (2 * n + 1)) / 2 = n by omega]
        simp [backslashes]
      · rw [List.append_assoc, argumentsFrom_backslashes, List.cons_append, argumentsFrom,
          if_neg hslash, if_neg hquote, if_neg (by simp), Option.getD_some, Quoted.next, ih]
        simp [backslashes]

/-- Splitting loses and makes none of the characters that have no part in quoting. -/
theorem countP_argumentsFrom {p : Char → Bool}
    (hp : p '\\' = false ∧ p '"' = false ∧ p ' ' = false ∧ p '\t' = false) (word : Option Text)
    (quoted : Quoted) (n : Nat) (t : Text) :
    (argumentsFrom word quoted n t).flatten.countP p = (word.getD []).countP p + t.countP p := by
  have hslashes : ∀ n, (backslashes n).countP p = 0 := fun n =>
    List.countP_eq_zero.mpr fun c hc => by
      rw [List.eq_of_mem_replicate hc, hp.1]
      exact Bool.false_ne_true
  have hword : ∀ (word : Option Text) (n : Nat),
      (word.map (· ++ backslashes n)).toList.flatten.countP p = (word.getD []).countP p := by
    intro word n
    cases word with
    | none => rfl
    | some w => simp [hslashes]
  induction t generalizing word quoted n with
  | nil => rw [argumentsFrom, hword, List.countP_nil, Nat.add_zero]
  | cons c t ih =>
      rw [argumentsFrom]
      split_ifs with hslash hquote hodd hblank
      · rw [ih, hslash, List.countP_cons_of_neg (by simp [hp.1])]
        rfl
      · rw [ih, hquote, List.countP_cons_of_neg (by simp [hp.2.1])]
        simp [hslashes, hp.2.1]
      · rw [hquote, List.countP_cons_of_neg (by simp [hp.2.1])]
        cases quoted <;> simp [ih, hslashes, hp.2.1]
      · have hc : p c = false := by
          rcases isSeparator_cases hblank.2 with rfl | rfl
          · exact hp.2.2.1
          · exact hp.2.2.2
        rw [List.flatten_append, List.countP_append, hword, ih,
          List.countP_cons_of_neg (by simp [hc])]
        simp
      · rw [ih, Option.getD_some, List.countP_append, List.countP_append, hslashes, Nat.add_zero,
          List.countP_cons, List.countP_nil, List.countP_cons]
        omega

end Ghostlane.Lib
