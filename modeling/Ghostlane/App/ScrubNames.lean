import Ghostlane.App.ScrubAround

/-!
# Ghostlane.App.ScrubNames

The expressions whose matches are names and addresses: identifiers, our own hosts, destination
names, IPv4. Their matches lie in runs of name characters (`ForNames`), so a slot between clear
characters is looked at by itself; what a later expression sees of the rest is as harmless as it
was. `ipv6` has another alphabet, and a run of it may go over the end of the slot: where that run
is quiet, it leaves everything in it as it is.
-/

namespace Ghostlane.App.LogScrubber

open Ghostlane.Lib CharTables

variable [CharTables]

/-! ### Passes that go through names -/

/-- What stands in the slot becomes `g` of it, between what is as harmless as what was there. -/
def Gives (P : Pass Char) (K : Text → Prop) (g : Text → Text) (p q : Text) : Prop :=
  ∃ p' q', Left p' p ∧ Right q' q ∧ ∀ s, K s → P.apply (p ++ (s ++ q)) = p' ++ (g s ++ q')

/-- What is put for a name. -/
structure Put (out : Text) : Prop where
  nonempty : out ≠ []
  first : ∀ c, out.head? = some c → colonOrHex c = false
  blank : ∀ c ∈ out, blank c = false
  slash : '/' ∉ out
  run : ':' ∉ out.rtakeWhile colonOrHex
  code : ∀ c ∈ out, codeChar c = false

theorem clear_of_nameChar {c : Char} (h : nameChar c = true) : clear c = false := by
  by_contra hc
  rw [nameChar_of_clear (by simpa using hc)] at h
  cases h

theorem blank_of_nameChar {c : Char} (h : nameChar c = true) : blank c = false := by
  by_contra hc
  rw [nameChar_of_clear (clear_of_blank (by simpa using hc))] at h
  cases h

theorem colon_not_nameChar : nameChar ':' = false :=
  nameChar_of_clear (clear_of_mem_schemeEnd (by simp))

theorem Put.leftOk {found out : Text} (h : Put out) (hne : found ≠ [])
    (hname : ∀ c ∈ found, nameChar c = true) : LeftOk found out where
  nonempty := hne
  first c hc := clear_of_nameChar (hname c (List.mem_of_mem_head? hc))
  last c hc := clear_of_nameChar (hname c (List.mem_of_mem_getLast? hc))
  blank_found c hc := blank_of_nameChar (hname c hc)
  blank_out := h.blank
  slash hs := absurd hs h.slash
  scheme hs := by
    have := hname ':' (hs.subset (by simp))
    rw [colon_not_nameChar] at this
    cases this
  broken := by
    obtain ⟨c, rest, hout⟩ := List.exists_cons_of_ne_nil h.nonempty
    exact ⟨c, by simp [hout], h.first c (by simp [hout])⟩
  run := h.run
  code c hc hcode := by
    rw [h.code c hc] at hcode
    cases hcode

theorem Put.rightOk {found out : Text} (h : Put out) (hne : found ≠ [])
    (hname : ∀ c ∈ found, nameChar c = true) : RightOk found out where
  nonempty := hne
  first hclear := by
    obtain ⟨c, rest, hf⟩ := List.exists_cons_of_ne_nil hne
    have hc : found.head? = some c := by rw [hf]; rfl
    rw [BeginsClear] at hclear
    have := clear_of_nameChar (hname c (by simp [hf]))
    rw [hclear c hc] at this
    cases this
  blank_found c hc := blank_of_nameChar (hname c hc)
  blank_out := h.blank
  slash hs := absurd hs h.slash
  run u' u _ := takeWhile_colonOrHex_prefix h.first h.nonempty found u' u
  out_nonempty := h.nonempty
  code c hc hcode := by
    rw [h.code c hc] at hcode
    cases hcode

/-- Every match is of name characters and stays as it is or has a tag or a mark put for it. -/
def ForNames (P : Pass Char) : Prop :=
  ∀ l t n out, P l t = some (n, out) →
    n + 1 ≤ t.length ∧ (∀ c ∈ t.take (n + 1), nameChar c = true) ∧ (out = t.take (n + 1) ∨ Put out)

namespace ForNames

variable {P : Pass Char} {K : Text → Prop} {g : Text → Text} {p q : Text}

omit [CharTables] in
theorem take_ne_nil {t : Text} {n : Nat} (hn : n + 1 ≤ t.length) : t.take (n + 1) ≠ [] := by
  cases t with
  | nil => simp at hn
  | cons c t => simp

theorem rsim (hP : ForNames P) (l t : Text) : RSim (P.go 0 l t) t := by
  refine Pass.go_right (.refl []) (fun c u' u h => h.append [c])
    (fun l t n out u' _ hhit h => ?_) l t
  obtain ⟨hn, hname, rfl | hput⟩ := hP l t n out hhit
  · have := h.append (t.take (n + 1))
    rwa [List.take_append_drop] at this
  · have := h.hit (hput.rightOk (take_ne_nil hn) hname)
    rwa [List.take_append_drop] at this

/-- A match that begins in what ends clear ends in it. -/
theorem length_le (hP : ForNames P) {l b z : Text} {n : Nat} {out : Text} (hb : EndsClear b)
    (hne : b ≠ []) (h : P l (b ++ z) = some (n, out)) : n + 1 ≤ b.length := by
  by_contra hlt
  obtain ⟨c, hc⟩ : ∃ c, b.getLast? = some c := ⟨_, List.getLast?_eq_some_getLast hne⟩
  have hmem : c ∈ (b ++ z).take (n + 1) := by
    rw [List.take_append, List.take_of_length_le (by omega)]
    exact List.mem_append_left _ (List.mem_of_mem_getLast? hc)
  have := (hP l _ n out h).2.1 c hmem
  rw [nameChar_of_clear (hb c hc)] at this
  cases this

/-- **A pass through names changes the slot only**, when its places before the slot do not see what
is in it. -/
theorem gives (hP : ForNames P) (hp : EndsClear p) (s₀ l₀ : Text)
    (hsame : ∀ i b s, i ++ b = p → b ≠ [] → K s →
      P i.reverse (b ++ (s ++ q)) = P i.reverse (b ++ (s₀ ++ q)))
    (hslot : ∀ s, K s → P.go 0 p.reverse (s ++ q) = g s ++ P.go 0 l₀ q) : Gives P K g p q := by
  refine @Pass.apply_slot _ P K p q Sim (fun f => ∃ p' q', Left p' p ∧ Right q' q ∧
    ∀ s, K s → f s = p' ++ (g s ++ q')) ?_ ?_ ?_ (.refl [])
  · rintro f f' ⟨p', q', hl, hr, hf⟩ hff
    exact ⟨p', q', hl, hr, fun s hs => (hff s hs).trans (hf s hs)⟩
  · intro o i b hib hb hsim
    left
    have hbclear : EndsClear b := fun c hc => hp c (by
      rw [← hib, List.getLast?_append_of_ne_nil i hb, hc])
    cases hhit : P i.reverse (b ++ (s₀ ++ q)) with
    | none =>
        obtain ⟨c, b, rfl⟩ := List.exists_cons_of_ne_nil hb
        refine ⟨1, [c], Nat.one_pos, by simp, hsim.append [c], fun s hs => ?_⟩
        have hnone : P i.reverse (c :: (b ++ (s ++ q))) = none :=
          (hsame i (c :: b) s hib hb hs).trans hhit
        rw [List.cons_append, Pass.go_of_none hnone]
        simp
    | some hit =>
        obtain ⟨n, out⟩ := hit
        have hn := hP.length_le hbclear hb hhit
        have htake : (b ++ (s₀ ++ q)).take (n + 1) = b.take (n + 1) :=
          List.take_append_of_le_length hn
        refine ⟨n + 1, out, Nat.succ_pos n, hn, ?_, fun s hs => ?_⟩
        · obtain ⟨-, hname, hout⟩ := hP _ _ n out hhit
          rw [htake] at hname hout
          rcases hout with rfl | hput
          · exact hsim.append _
          · exact hsim.hit (hput.leftOk (take_ne_nil hn) hname)
        · have hsome := (hsame i b s hib hb hs).trans hhit
          rw [Pass.go_of_some (by simp [hb]) hsome, List.take_append_of_le_length hn,
            List.drop_append_of_le_length hn, List.reverse_append]
  · intro o hsim
    exact ⟨o, P.go 0 l₀ q, hsim.left, (hP.rsim l₀ q).right,
      fun s hs => congrArg (o ++ ·) (hslot s hs)⟩

end ForNames

/-- A pass for names that looks back at whether a word ends there, and ahead no further than a clear
character. -/
structure Local (P : Pass Char) : Prop where
  names : ForNames P
  back : ∀ l l' t, l.head?.any word = l'.head?.any word → P l t = P l' t
  ahead : ∀ l b q, BeginsClear q → P l (b ++ q) = P l b

namespace Local

variable {P : Pass Char} {K : Text → Prop} {g : Text → Text} {p q : Text}

theorem any_word_reverse (hp : EndsClear p) (a : Text) :
    (a.reverse ++ p.reverse).head?.any word = a.reverse.head?.any word := by
  rw [List.head?_append]
  cases ha : a.reverse.head? with
  | some c => rfl
  | none =>
      rw [List.head?_reverse]
      cases hc : p.getLast? with
      | none => rfl
      | some c => simp [word_of_clear (hp c hc)]

theorem nil (hP : Local P) (l : Text) : P l [] = none := by
  cases h : P l [] with
  | none => rfl
  | some hit =>
      have := (hP.names l [] hit.1 hit.2 h).1
      simp at this

/-- What begins clear is gone through as if nothing stood before it. -/
theorem go_clear (hP : Local P) (hq : BeginsClear q) (l : Text) : P.go 0 l q = P.apply q := by
  cases q with
  | nil => simp [Pass.apply]
  | cons c q =>
      have hnone : ∀ l, P l (c :: q) = none := fun l => by
        have := hP.ahead l [] (c :: q) hq
        rw [List.nil_append] at this
        rw [this, hP.nil]
      have hcongr : P.go 0 (c :: l) q = P.go 0 [c] q := by
        refine Pass.go_congr (fun a b _ _ => hP.back _ _ _ ?_) 0
        simp [List.head?_append]
      rw [Pass.apply, Pass.go_of_none (hnone l), Pass.go_of_none (hnone []), hcongr]

theorem same (hP : Local P) (hp : EndsClear p) (i b z z' : Text) (hib : i ++ b = p) (hb : b ≠ []) :
    P i.reverse (b ++ z) = P i.reverse (b ++ z') := by
  obtain ⟨b, c, rfl⟩ := List.eq_nil_or_concat b |>.resolve_left hb
  have hc : clear c = true := hp c (by rw [← hib]; simp)
  have hcut : ∀ z : Text, P i.reverse (b.concat c ++ z) = P i.reverse b := fun z => by
    rw [List.concat_eq_append, List.append_assoc]
    refine hP.ahead _ _ _ fun d hd => ?_
    simp only [List.singleton_append, List.head?_cons, Option.some.injEq] at hd
    exact hd ▸ hc
  rw [hcut, hcut]

/-- **What holds no match comes through.** -/
theorem keeps (hP : Local P) (hp : EndsClear p) (hq : BeginsClear q)
    (hK : ∀ s, K s → P.finds [] s = false) : Gives P K id p q := by
  refine hP.names.gives hp [] [] (fun i b s hib hb _ => hP.same hp i b _ _ hib hb) fun s hs => ?_
  have hnone : ∀ a b, s = a ++ b → b ≠ [] → P (a.reverse ++ p.reverse) (b ++ q) = none :=
    fun a b hab hb => by
      rw [hP.ahead _ _ _ hq, hP.back _ a.reverse _ (any_word_reverse hp a)]
      simpa using Pass.none_of_finds (hK s hs) hab hb
  rw [Pass.go_append_of_none hnone, hP.go_clear hq, hP.go_clear hq]
  rfl

end Local

/-! ### Identifiers and our own hosts -/

omit [CharTables] in
theorem fitsEach_append {classes : List (Char → Bool)} {q : Text}
    (hq : ∀ c, q.head? = some c → ∀ p ∈ classes, p c = false) (b : Text) :
    fitsEach classes (b ++ q) = fitsEach classes b := by
  induction classes generalizing b with
  | nil => simp [fitsEach]
  | cons p classes ih =>
      cases b with
      | cons c b =>
          simp only [List.cons_append, fitsEach]
          rw [ih (fun c hc p hp => hq c hc p (List.mem_cons_of_mem _ hp))]
      | nil =>
          cases q with
          | nil => rfl
          | cons c q => simp [fitsEach, hq c rfl p (List.mem_cons_self ..)]

omit [CharTables] in
theorem fitsEach_spec {classes : List (Char → Bool)} {t : Text} (h : fitsEach classes t = true) :
    classes.length ≤ t.length ∧ ∀ c ∈ t.take classes.length, ∃ p ∈ classes, p c = true := by
  induction classes generalizing t with
  | nil => simp
  | cons p classes ih =>
      cases t with
      | nil => cases h
      | cons c t =>
          simp only [fitsEach, Bool.and_eq_true] at h
          obtain ⟨hlen, hall⟩ := ih h.2
          refine ⟨by simpa using hlen, fun d hd => ?_⟩
          rcases List.mem_cons.mp (by simpa using hd) with rfl | hd
          · exact ⟨p, List.mem_cons_self .., h.1⟩
          · obtain ⟨p', hp', hd'⟩ := hall d hd
            exact ⟨p', List.mem_cons_of_mem _ hp', hd'⟩

omit [CharTables] in
theorem hexDigit_isAlphanum {c : Char} (h : hexDigit c = true) : c.isAlphanum = true := by
  simp only [hexDigit, Char.isDigit, Bool.or_eq_true, Bool.and_eq_true, decide_eq_true_eq,
    Char.le_def, ge_iff_le, UInt32.le_iff_toNat_le] at h
  delta Char.isAlphanum Char.isAlpha Char.isUpper Char.isLower Char.isDigit
  simp only [Bool.or_eq_true, Bool.and_eq_true, decide_eq_true_eq, ge_iff_le,
    UInt32.le_iff_toNat_le]
  have h1 : 'a'.val.toNat = 97 := rfl
  have h2 : 'f'.val.toNat = 102 := rfl
  have h3 : 'A'.val.toNat = 65 := rfl
  have h4 : 'F'.val.toNat = 70 := rfl
  have h5 : 'Z'.val.toNat = 90 := rfl
  have h6 : 'z'.val.toNat = 122 := rfl
  omega

/-- The classes of an identifier are of name characters. -/
theorem nameChar_of_uuidClass {p : Char → Bool} (hp : p ∈ uuidClasses) {c : Char} (h : p c = true) :
    nameChar c = true := by
  have hkind : p = hexDigit ∨ p = fun d => d == '-' := by
    simp [uuidClasses, literal] at hp
    tauto
  rcases hkind with rfl | rfl
  · simp [nameChar, alnum_of_isAlphanum (hexDigit_isAlphanum h)]
  · simp only [beq_iff_eq] at h
    simp [nameChar, h]

/-- At the end of the text, and before what begins clear, there is the same boundary. -/
theorem boundary_append (c : Option Char) {b q : Text} (hq : BeginsClear q) {n : Nat}
    (hn : n ≤ b.length) : boundary c (b ++ q)[n]? = boundary c b[n]? := by
  rcases Nat.lt_or_eq_of_le hn with hlt | rfl
  · rw [List.getElem?_append_left hlt]
  · rw [List.getElem?_append_right (Nat.le_refl _), Nat.sub_self, ← List.head?_eq_getElem?,
      List.getElem?_eq_none (Nat.le_refl _)]
    cases hc : q.head? with
    | none => rfl
    | some d => simp [boundary, word_of_clear (hq d hc)]

theorem boundary_head?_append (c : Option Char) {b q : Text} (hq : BeginsClear q) :
    boundary c (b ++ q).head? = boundary c b.head? := by
  rw [List.head?_eq_getElem?, List.head?_eq_getElem?]
  exact boundary_append c hq (Nat.zero_le _)

omit [CharTables] in
theorem put_id : Put (txt "<id>") :=
  ⟨by decide, fun _ hc => by cases hc; decide, by decide, by decide, by decide, by decide⟩

omit [CharTables] in
theorem put_host : Put (txt "<host>") :=
  ⟨by decide, fun _ hc => by cases hc; decide, by decide, by decide, by decide, by decide⟩

theorem uuid_local : Local uuid where
  names l t n out h := by
    simp only [uuid, Option.ite_none_right_eq_some, Bool.and_eq_true, Option.some.injEq,
      Prod.mk.injEq] at h
    obtain ⟨⟨⟨-, hfits⟩, -⟩, rfl, rfl⟩ := h
    obtain ⟨hlen, hall⟩ := fitsEach_spec hfits
    have hclasses : uuidClasses.length = 36 := by decide
    rw [hclasses] at hlen hall
    refine ⟨hlen, fun c hc => ?_, .inr put_id⟩
    obtain ⟨p, hp, hpc⟩ := hall c hc
    exact nameChar_of_uuidClass hp hpc
  back l l' t h := by
    have hb : boundary l.head? t.head? = boundary l'.head? t.head? := by rw [boundary, boundary, h]
    rw [uuid, uuid, hb]
  ahead l b q hq := by
    have hfits : fitsEach uuidClasses (b ++ q) = fitsEach uuidClasses b :=
      fitsEach_append (fun c hc p hp => by
        by_contra hpc
        have := nameChar_of_uuidClass hp (by simpa using hpc : p c = true)
        rw [nameChar_of_clear (hq c hc)] at this
        cases this) b
    simp only [uuid, hfits, boundary_head?_append _ hq]
    cases hf : fitsEach uuidClasses b with
    | false => simp
    | true =>
        have hlen := (fitsEach_spec hf).1
        have hclasses : uuidClasses.length = 36 := by decide
        rw [hclasses] at hlen
        rw [boundary_append _ hq hlen, List.getElem?_append_left (by omega)]

omit [CharTables] in
theorem startsWith_append {needle q : Text} (hq : ∀ c, q.head? = some c → c ∉ needle) (b : Text) :
    startsWith (b ++ q) needle = startsWith b needle := by
  simp only [startsWith]
  induction needle generalizing b with
  | nil => simp
  | cons d needle ih =>
      cases b with
      | cons c b =>
          simp only [List.cons_append, List.isPrefixOf_cons_cons]
          rw [ih fun c hc hmem => hq c hc (List.mem_cons_of_mem d hmem)]
      | nil =>
          cases q with
          | nil => rfl
          | cons c q =>
              have hne : (d == c) = false := by
                simpa using fun he : d = c => hq c rfl (by simp [he])
              rw [List.nil_append, List.isPrefixOf_cons_cons, hne]
              rfl

theorem nameChar_of_plainChar {c : Char} (h : plainChar c = true) : nameChar c = true := by
  simp only [plainChar, Bool.or_eq_true, beq_iff_eq] at h
  rcases h with h | rfl
  · simp [nameChar, alnum_of_isAlphanum h]
  · simp [nameChar]

theorem nameChar_of_mem_ourName {c : Char} (h : c ∈ ourName) : nameChar c = true := by
  have hall : ∀ d ∈ ourName, plainChar d = true ∨ d = '.' := by decide
  rcases hall c h with hp | rfl
  · exact nameChar_of_plainChar hp
  · simp [nameChar]

/-- What `ourHostFrom` finds is of name characters. -/
theorem ourHostFrom_spec (pos : Nat) (fresh : Bool) (best : Nat) (t : Text) :
    ourHostFrom pos fresh best t = best ∨
      ∃ k, ourHostFrom pos fresh best t = pos + k ∧ k ≤ t.length ∧ ∀ c ∈ t.take k,
        nameChar c = true := by
  induction t generalizing pos fresh best with
  | nil => exact .inl rfl
  | cons c t ih =>
      -- the last match so far, when a new one begins here
      have hhere : ∀ best', best' = (if fresh && startsWith (c :: t) ourName &&
          boundary (some 'g') (c :: t)[12]? then pos + 12 else best) →
          best' = best ∨ ∃ k, best' = pos + k ∧ k ≤ (c :: t).length ∧
            ∀ d ∈ (c :: t).take k, nameChar d = true := by
        rintro best' rfl
        split
        · rename_i hours
          simp only [Bool.and_eq_true] at hours
          obtain ⟨rest, hrest⟩ := List.isPrefixOf_iff_prefix.mp hours.1.2
          refine .inr ⟨12, rfl, ?_, fun d hd => nameChar_of_mem_ourName ?_⟩
          · rw [← hrest, List.length_append]
            exact Nat.le_add_right 12 _
          · rw [← hrest] at hd
            rw [List.take_append_of_le_length (by decide)] at hd
            exact List.mem_of_mem_take hd
        · exact .inl rfl
      have hnext : ∀ fresh' best', nameChar c = true →
          (best' = best ∨ ∃ k, best' = pos + k ∧ k ≤ (c :: t).length ∧
            ∀ d ∈ (c :: t).take k, nameChar d = true) →
          ourHostFrom (pos + 1) fresh' best' t = best ∨
            ∃ k, ourHostFrom (pos + 1) fresh' best' t = pos + k ∧ k ≤ (c :: t).length ∧
              ∀ d ∈ (c :: t).take k, nameChar d = true := by
        intro fresh' best' hc hbest
        rcases ih (pos + 1) fresh' best' with hsame | ⟨k, hk, hlen, hall⟩
        · rw [hsame]
          exact hbest
        · refine .inr ⟨k + 1, by rw [hk]; omega, by simpa using hlen, fun d hd => ?_⟩
          rcases List.mem_cons.mp (by simpa using hd) with rfl | hd
          · exact hc
          · exact hall d hd
      simp only [ourHostFrom]
      split
      · rename_i hp
        exact hnext _ _ (nameChar_of_plainChar hp) (hhere _ rfl)
      · split
        · rename_i hdot
          simp only [Bool.and_eq_true, beq_iff_eq] at hdot
          exact hnext _ _ (by simp [nameChar, hdot.1]) (hhere _ rfl)
        · exact hhere _ rfl

theorem ourHostFrom_append {q : Text} (hq : BeginsClear q) (pos : Nat) (fresh : Bool) (best : Nat)
    (b : Text) : ourHostFrom pos fresh best (b ++ q) = ourHostFrom pos fresh best b := by
  have hname : ∀ c, q.head? = some c → c ∉ ourName := fun c hc hmem => by
    have := nameChar_of_mem_ourName hmem
    rw [nameChar_of_clear (hq c hc)] at this
    cases this
  induction b generalizing pos fresh best with
  | nil =>
      cases q with
      | nil => rfl
      | cons c q =>
          have hc := nameChar_of_clear (hq c rfl)
          have hours : startsWith (c :: q) ourName = false := startsWith_append hname []
          have hplain : plainChar c = false := by
            by_contra hp
            rw [nameChar_of_plainChar (by simpa using hp)] at hc
            cases hc
          have hdot : (c == '.') = false := by
            simp only [nameChar, Bool.or_eq_false_iff] at hc
            exact hc.1.2
          simp [ourHostFrom, hours, hplain, hdot]
  | cons c b ih =>
      have hours : startsWith (c :: (b ++ q)) ourName = startsWith (c :: b) ourName :=
        startsWith_append hname (c :: b)
      have hboundary : startsWith (c :: b) ourName = true →
          boundary (some 'g') (c :: (b ++ q))[12]? = boundary (some 'g') (c :: b)[12]? :=
            fun hs => by
        obtain ⟨rest, hrest⟩ := List.isPrefixOf_iff_prefix.mp hs
        refine @boundary_append _ _ (c :: b) q hq 12 ?_
        rw [← hrest, List.length_append]
        exact Nat.le_add_right 12 _
      simp only [List.cons_append, ourHostFrom, ih, hours]
      cases hs : startsWith (c :: b) ourName with
      | false => simp only [Bool.and_false, Bool.false_and]
      | true => rw [hboundary hs]

theorem ourHost_local : Local ourHost where
  names l t n out h := by
    unfold ourHost at h
    split at h
    · cases h
    · rename_i k hk
      simp only [Option.ite_none_right_eq_some, Option.some.injEq, Prod.mk.injEq] at h
      obtain ⟨-, rfl, rfl⟩ := h
      rcases ourHostFrom_spec 0 true 0 t with h0 | ⟨j, hj, hlen, hall⟩
      · rw [h0] at hk
        cases hk
      · rw [hk, Nat.zero_add] at hj
        subst hj
        exact ⟨hlen, hall, .inr put_host⟩
  back l l' t h := by
    have hb : boundary l.head? t.head? = boundary l'.head? t.head? := by rw [boundary, boundary, h]
    rw [ourHost, ourHost, hb]
  ahead l b q hq := by
    simp only [ourHost, ourHostFrom_append hq, boundary_head?_append _ hq]

/-! ### Tags -/

omit [CharTables] in
theorem shortHash_spec (h : UInt64) :
    (shortHash h).length = 12 ∧ ∀ c ∈ shortHash h, c.isDigit = true ∨ ('a' ≤ c ∧ c ≤ 'f') := by
  refine ⟨by simp [shortHash], fun c hc => ?_⟩
  obtain ⟨i, -, rfl⟩ := List.mem_map.mp hc
  have hall : ∀ n < 16, (Nat.digitChar n).isDigit = true ∨
      ('a' ≤ Nat.digitChar n ∧ Nat.digitChar n ≤ 'f') := by
    decide
  exact hall _ (Nat.mod_lt _ (by decide))

omit [CharTables] in
/-- What a character of a tag is not. -/
theorem tag_char {salt : UInt64} {value : Text} {c : Char} (hc : c ∈ tag salt value) :
    c.isAlphanum = true ∨ c = '#' := by
  rcases List.mem_append.mp hc with hc | hc
  · have hall : ∀ d ∈ txt "node#", d.isAlphanum = true ∨ d = '#' := by decide
    exact hall c hc
  · refine .inl (hexDigit_isAlphanum ?_)
    rcases (shortHash_spec _).2 c hc with hd | ⟨ha, hf⟩
    · simp [hexDigit, hd]
    · simp [hexDigit, ha, hf]

omit [CharTables] in
theorem tag_not_mem {salt : UInt64} {value : Text} {c : Char} (hc : c.isAlphanum = false)
    (hne : c ≠ '#') : c ∉ tag salt value := fun hmem => by
  rcases tag_char hmem with hal | rfl
  · rw [hal] at hc
    cases hc
  · exact hne rfl

theorem put_tag (salt : UInt64) (value : Text) : Put (tag salt value) where
  nonempty := by simp [tag]
  first c hc := by
    obtain rfl : 'n' = c := Option.some.inj hc
    decide
  blank c hc := by
    rcases tag_char hc with hal | rfl
    · exact blank_of_nameChar (by simp [nameChar, alnum_of_isAlphanum hal])
    · decide
  slash := tag_not_mem (by decide) (by decide)
  run hc := tag_not_mem (by decide) (by decide) ((List.rtakeWhile_suffix _ _).subset hc)
  code c hc := by
    rcases tag_char hc with hal | rfl
    · by_contra hcode
      simp only [codeChar, Bool.not_eq_false, Bool.or_eq_true, beq_iff_eq] at hcode
      rcases hcode with (rfl | rfl) | rfl <;> exact absurd hal (by decide)
    · decide

/-! ### Destination names -/

omit [CharTables] in
theorem joined_isPrefix {a b : List Text} (h : a <+: b) : joined a <+: joined b :=
  intercalate_isPrefix h

theorem joined_frontLabels (t : Text) : joined (frontLabels t) = t.takeWhile nameChar :=
  Name.joined_splitOn _

theorem dottedLabels_isPrefix (t : Text) : dottedLabels t <+: frontLabels t :=
  (List.takeWhile_prefix _).trans (List.dropLast_prefix _)

/-- A whole host is the front of the run of name characters. -/
theorem wholeHost_isPrefix (t : Text) : wholeHost t <+: t.takeWhile nameChar := by
  simp only [wholeHost]
  split
  · rw [joined_frontLabels]
  · split
    · rw [← joined_frontLabels]
      exact joined_isPrefix (dottedLabels_isPrefix t)
    · exact List.nil_prefix

theorem takeWhile_nameChar_append {q : Text} (hq : BeginsClear q) (b : Text) :
    (b ++ q).takeWhile nameChar = b.takeWhile nameChar := by
  rcases forall_or_exists_false nameChar b with hall | hbreak
  · rw [takeWhile_append_of_head hall fun c hc => nameChar_of_clear (hq c hc),
      List.takeWhile_eq_self_iff.mpr hall]
  · exact takeWhile_append_of_exists hbreak q

theorem wholeHost_append {q : Text} (hq : BeginsClear q) (b : Text) :
    wholeHost (b ++ q) = wholeHost b := by
  have hrun := takeWhile_nameChar_append hq b
  have hlabels : frontLabels (b ++ q) = frontLabels b := by rw [frontLabels, hrun, frontLabels]
  have hdotted : dottedLabels (b ++ q) = dottedLabels b := by
    rw [dottedLabels, hlabels, dottedLabels]
  have hafter : ((b ++ q)[(b.takeWhile nameChar).length]?).any (· == '_') =
      (b[(b.takeWhile nameChar).length]?).any (· == '_') := by
    rcases Nat.lt_or_eq_of_le (@List.takeWhile_prefix _ b nameChar).length_le with hlt | heq
    · rw [List.getElem?_append_left hlt]
    · rw [heq, List.getElem?_append_right (Nat.le_refl _), Nat.sub_self, ← List.head?_eq_getElem?,
        List.getElem?_eq_none (Nat.le_refl _)]
      cases hc : q.head? with
      | none => rfl
      | some c =>
          have := hq c hc
          simp only [clear, Bool.not_eq_true', Bool.or_eq_false_iff] at this
          simpa using this.2
  simp only [wholeHost, hrun, hlabels, hdotted, hafter]

theorem hostname_forNames (salt : UInt64) : ForNames (hostname salt) := by
  intro l t n out h
  simp only [hostname] at h
  split at h
  · cases h
  · rename_i hne
    simp only [Option.some.injEq, Prod.mk.injEq] at h
    obtain ⟨rfl, rfl⟩ := h
    simp only [Bool.or_eq_true, decide_eq_true_eq, not_or] at hne
    have hpos : 0 < (wholeHost t).length := List.length_pos_iff.mpr hne.1
    rw [Nat.sub_add_cancel hpos]
    have hpre := (wholeHost_isPrefix t).trans (List.takeWhile_prefix nameChar)
    have htake : t.take (wholeHost t).length = wholeHost t := (List.prefix_iff_eq_take.mp hpre).symm
    refine ⟨hpre.length_le, fun c hc => ?_, ?_⟩
    · rw [htake] at hc
      exact List.mem_takeWhile_imp ((wholeHost_isPrefix t).subset hc)
    · split
      · exact .inr (put_tag salt _)
      · exact .inl htake.symm

/-! ### Tokens with a slot in them -/

omit [CharTables] in
theorem contains_iff {t needle : Text} : contains t needle = true ↔ needle <:+: t := by
  induction t with
  | nil => simp [contains]
  | cons c t ih =>
      simp only [contains, Bool.or_eq_true, ih, startsWith, List.isPrefixOf_iff_prefix,
        List.infix_cons_iff]

/-- Nothing in it ends a token, and nothing in it is looked for in one. -/
structure Mild (s : Text) : Prop where
  nonempty : s ≠ []
  token : ∀ c ∈ s, tokenEnd c = false
  plain : ∀ c ∈ s, c ∉ ['(', ')', '/', '\\', ':']

namespace Mild

variable {s : Text}

omit [CharTables] in
theorem mem_around (h : Mild s) {c : Char} (hc : c ∈ ['(', ')', '/', '\\', ':']) (a b : Text) :
    c ∈ a ++ (s ++ b) ↔ c ∈ a ∨ c ∈ b := by
  have hs : c ∉ s := fun hmem => h.plain c hmem hc
  simp [hs]

omit [CharTables] in
theorem scheme_around (h : Mild s) (a b : Text) :
    [':', '/', '/'] <:+: a ++ (s ++ b) ↔ [':', '/', '/'] <:+: a ∨ [':', '/', '/'] <:+: b := by
  have hnot : ∀ c ∈ s, c ∉ [':', '/', '/'] := fun c hc hmem => h.plain c hc (by
    simp only [List.mem_cons, List.not_mem_nil, or_false] at hmem ⊢
    tauto)
  have hs : ¬ [':', '/', '/'] <:+: s := fun hin =>
    hnot ':' (hin.subset (by simp)) (by simp)
  obtain ⟨c, rest, hcons⟩ := List.exists_cons_of_ne_nil h.nonempty
  rw [infix_append_of_seam (.inl fun d hd => hnot d ?_),
    infix_append_of_seam (.inr fun d hd => hnot d (List.mem_of_mem_getLast? hd)), or_iff_right hs]
  rw [hcons, List.cons_append, List.head?_cons, Option.some.injEq] at hd
  rw [hcons, ← hd]
  exact List.mem_cons_self ..

end Mild

omit [CharTables] in
/-- What `hostPlaced` asks hangs on what is in the token and on what stands right before. -/
theorem hostPlaced_congr {l l' v r r' : Text}
    (hmem : ∀ c ∈ ['(', ')', '/', '\\', ':'], c ∈ tokenAround l v r ↔ c ∈ tokenAround l' v r')
    (hscheme : [':', '/', '/'] <:+: tokenAround l v r ↔ [':', '/', '/'] <:+: tokenAround l' v r')
    (hhead : l.head? = l'.head?) (hstart : startsWith l (txt "//:") = startsWith l' (txt "//:")) :
    hostPlaced l v r = hostPlaced l' v r' := by
  have hcontains : contains (tokenAround l v r) (txt "://") =
      contains (tokenAround l' v r') (txt "://") := by
    rw [Bool.eq_iff_iff, contains_iff, contains_iff]
    exact hscheme
  have helem : ∀ c ∈ ['(', ')', '/', '\\', ':'],
      (tokenAround l v r).contains c = (tokenAround l' v r').contains c := fun c hc => by
    rw [Bool.eq_iff_iff, List.contains_iff_mem, List.contains_iff_mem]
    exact hmem c hc
  simp only [hostPlaced, hcontains, hhead, hstart, helem '(' (by simp), helem ')' (by simp),
    helem '/' (by simp), helem '\\' (by simp)]

omit [CharTables] in
/-- A token holds a slot between two texts, or none of it. -/
theorem mem_token_congr {s s' : Text} (hs : Mild s) (hs' : Mild s') {token : Text → Text}
    (h : (∃ a b, ∀ s, Mild s → token s = a ++ (s ++ b)) ∨ ∃ t, ∀ s, token s = t) :
    (∀ c ∈ ['(', ')', '/', '\\', ':'], c ∈ token s ↔ c ∈ token s') ∧
      ([':', '/', '/'] <:+: token s ↔ [':', '/', '/'] <:+: token s') := by
  rcases h with ⟨a, b, h⟩ | ⟨t, h⟩
  · rw [h s hs, h s' hs']
    refine ⟨fun c hc => ?_, ?_⟩
    · rw [hs.mem_around hc, hs'.mem_around hc]
    · rw [hs.scheme_around, hs'.scheme_around]
  · rw [h s, h s']
    exact ⟨fun _ _ => Iff.rfl, Iff.rfl⟩

omit [CharTables] in
/-- A slot after the match. -/
theorem hostPlaced_slot_right {s s' : Text} (hs : Mild s) (hs' : Mild s') (l v b q : Text) :
    hostPlaced l v (b ++ (s ++ q)) = hostPlaced l v (b ++ (s' ++ q)) := by
  obtain ⟨hmem, hscheme⟩ := @mem_token_congr s s' hs hs' (fun s => tokenAround l v (b ++ (s ++ q)))
    (by
    rcases forall_or_exists_false (fun c => !tokenEnd c) b with hall | hbreak
    · refine .inl ⟨(l.takeWhile fun c => !tokenEnd c).reverse ++ v ++ b,
        q.takeWhile fun c => !tokenEnd c, fun s hs => ?_⟩
      rw [tokenAround, List.takeWhile_append_of_pos hall,
        List.takeWhile_append_of_pos (fun c hc => by simp [hs.token c hc])]
      simp only [List.append_assoc]
    · refine .inr ⟨tokenAround l v b, fun s => ?_⟩
      rw [tokenAround, takeWhile_append_of_exists hbreak, tokenAround])
  exact hostPlaced_congr hmem hscheme rfl rfl

omit [CharTables] in
/-- A slot before it. -/
theorem hostPlaced_slot_left {s s' : Text} (hs : Mild s) (hs' : Mild s') {a : Text} (ha : a ≠ [])
    (l v r : Text) : hostPlaced (a.reverse ++ (s.reverse ++ l)) v r =
      hostPlaced (a.reverse ++ (s'.reverse ++ l)) v r := by
  have hhead : ∀ z : Text, (a.reverse ++ z).head? = a.reverse.head? := fun z => by
    rw [List.head?_append]
    cases hc : a.reverse.head? with
    | none => exact absurd (List.reverse_eq_nil_iff.mp (List.head?_eq_none_iff.mp hc)) ha
    | some c => rfl
  have hstart : ∀ s : Text, Mild s →
      startsWith (a.reverse ++ (s.reverse ++ l)) (txt "//:") =
        startsWith a.reverse (txt "//:") := by
    refine fun s hs => startsWith_append (fun c hc hmem => ?_) _
    obtain ⟨d, hd⟩ : ∃ d, s.getLast? = some d := ⟨_, List.getLast?_eq_some_getLast hs.nonempty⟩
    rw [List.head?_append, List.head?_reverse, hd, Option.some_or, Option.some.injEq] at hc
    subst hc
    refine hs.plain d (List.mem_of_mem_getLast? hd) ?_
    have hall : ∀ c ∈ txt "//:", c ∈ ['(', ')', '/', '\\', ':'] := by decide
    exact hall d hmem
  obtain ⟨hmem, hscheme⟩ := @mem_token_congr s s' hs hs'
    (fun s => tokenAround (a.reverse ++ (s.reverse ++ l)) v r) (by
      rcases forall_or_exists_false (fun c => !tokenEnd c) a.reverse with hall | hbreak
      · refine .inl ⟨(l.takeWhile fun c => !tokenEnd c).reverse,
          a ++ v ++ r.takeWhile fun c => !tokenEnd c, fun s hs => ?_⟩
        rw [tokenAround, List.takeWhile_append_of_pos hall,
          List.takeWhile_append_of_pos (fun c hc => by simp [hs.token c (List.mem_reverse.mp hc)])]
        simp
      · refine .inr ⟨tokenAround a.reverse v r, fun s => ?_⟩
        rw [tokenAround, takeWhile_append_of_exists hbreak, tokenAround])
  exact hostPlaced_congr hmem hscheme (by rw [hhead, hhead]) (by rw [hstart s hs, hstart s' hs'])

/-! ### The slot in `hostname` -/

/-- **`hostname` changes the slot only**, whatever in it is no token's business. -/
theorem hostname_gives {salt : UInt64} {K : Text → Prop} {g : Text → Text} {p q : Text}
    (hp : EndsClear p) (hq : BeginsClear q) (hmild : ∀ s, K s → Mild s)
    (hslot : ∀ s, K s → (hostname salt).go 0 p.reverse (s ++ q) =
      g s ++ (hostname salt).go 0 (s.reverse ++ p.reverse) q) : Gives (hostname salt) K g p q := by
  have hx : Mild ['x'] := ⟨by simp, by decide, by decide⟩
  refine (hostname_forNames salt).gives hp ['x'] (['x'].reverse ++ p.reverse) ?_ fun s hs => ?_
  · intro i b s hib hb hs
    obtain ⟨b, c, rfl⟩ := List.eq_nil_or_concat b |>.resolve_left hb
    have hc : clear c = true := hp c (by rw [← hib]; simp)
    have hwhole : ∀ z, wholeHost (b.concat c ++ z) = wholeHost b := fun z => by
      rw [List.concat_eq_append, List.append_assoc]
      refine wholeHost_append (fun d hd => ?_) b
      simp only [List.singleton_append, List.head?_cons, Option.some.injEq] at hd
      exact hd ▸ hc
    have hlen : (wholeHost b).length ≤ (b.concat c).length := by
      have := ((wholeHost_isPrefix b).trans (List.takeWhile_prefix _)).length_le
      simp only [List.concat_eq_append, List.length_append, List.length_cons, List.length_nil]
      omega
    simp only [hostname, hwhole, List.drop_append_of_le_length hlen,
      hostPlaced_slot_right (hmild s hs) hx]
  · rw [hslot s hs]
    refine congrArg (g s ++ ·) (Pass.go_congr (fun a b hab hb => ?_) 0)
    by_cases ha : a = []
    · subst ha
      rw [List.nil_append] at hab
      have hnone : wholeHost q = [] := wholeHost_append hq []
      simp only [hostname, ← hab, hnone, decide_true, Bool.true_or, ↓reduceIte]
    · have hhead : ∀ z : Text, (a.reverse ++ z).head? = a.reverse.head? := fun z => by
        rw [List.head?_append]
        cases hc : a.reverse.head? with
        | none => exact absurd (List.reverse_eq_nil_iff.mp (List.head?_eq_none_iff.mp hc)) ha
        | some c => rfl
      simp only [hostname, hhead, hostPlaced_slot_left (hmild s hs) hx ha]

/-- A name in the slot is found whole. -/
theorem hostname_at {salt : UInt64} {p q s : Text} (hp : EndsClear p) (hq : BeginsClear q)
    (hs : Name s) : (hostname salt).go 0 p.reverse (s ++ q) =
      (if hostShaped s && hostPlaced p.reverse s q then tag salt (CharTables.lowercase s) else s) ++
        (hostname salt).go 0 (s.reverse ++ p.reverse) q := by
  have hprev : (p.getLast?).any (fun c => alnum c || c == '_' || c == '-') = false := by
    cases hc : p.getLast? with
    | none => rfl
    | some c =>
        have := hp c hc
        simp only [clear, Bool.not_eq_true', Bool.or_eq_false_iff] at this
        simp [this]
  have hne : s ≠ [] := hs.ne_nil
  have hhit : hostname salt p.reverse (s ++ q) = some (s.length - 1,
      if hostShaped s && hostPlaced p.reverse s q then tag salt (CharTables.lowercase s)
      else s) := by
    simp [hostname, hs.wholeHost hq, hprev, hne]
  exact Pass.go_of_found hne hhit

/-- A text without a dot holds no name. -/
theorem wholeHost_of_dotless {t : Text} (h : '.' ∉ t) : wholeHost t = [] := by
  have hlabels : frontLabels t = [t.takeWhile nameChar] :=
    List.splitOn_eq_singleton fun hdot => h ((List.takeWhile_prefix _).subset hdot)
  have hdotted : dottedLabels t = [] := by rw [dottedLabels, hlabels]; rfl
  simp [wholeHost, hdotted]

/-! ### IPv4 -/

/-- `[0-9.]` -/
theorem nameChar_of_digitOrDot {c : Char} (h : (c.isDigit || c == '.') = true) :
    nameChar c = true := by
  simp only [Bool.or_eq_true, beq_iff_eq] at h
  rcases h with h | rfl
  · simp [nameChar, alnum_of_isAlphanum (isAlphanum_of_isDigit h)]
  · simp [nameChar]

theorem takeWhile_digitOrDot_append {q : Text} (hq : BeginsClear q) (b : Text) :
    (b ++ q).takeWhile (fun c => c.isDigit || c == '.') =
      b.takeWhile fun c => c.isDigit || c == '.' := by
  rcases forall_or_exists_false (fun c => c.isDigit || c == '.') b with hall | hbreak
  · rw [takeWhile_append_of_head hall fun c hc => ?_, List.takeWhile_eq_self_iff.mpr hall]
    by_contra hd
    have := nameChar_of_digitOrDot ((Bool.not_eq_false _).mp hd)
    rw [nameChar_of_clear (hq c hc)] at this
    cases this
  · exact takeWhile_append_of_exists hbreak q

omit [CharTables] in
/-- The front of a run of digits and dots that may be an address. -/
theorem joined_take_isPrefix (run : Text) (k : Nat) :
    joined ((run.splitOn '.').take k) <+: run := by
  have := joined_isPrefix (List.take_prefix k (run.splitOn '.'))
  rwa [Name.joined_splitOn] at this

theorem ipv4_local (salt : UInt64) : Local (ipv4 salt) where
  names l t n out h := by
    simp only [ipv4, Option.ite_none_right_eq_some, Bool.and_eq_true, Option.some.injEq,
      Prod.mk.injEq] at h
    obtain ⟨⟨⟨-, hv4⟩, -⟩, rfl, rfl⟩ := h
    have hpre := joined_take_isPrefix (t.takeWhile fun c => c.isDigit || c == '.') 4
    generalize joined ((t.takeWhile fun c => c.isDigit || c == '.').splitOn '.' |>.take 4) =
      found at hv4 hpre
    have hne : found ≠ [] := by
      rintro rfl
      cases hv4
    have hpos : found.length - 1 + 1 = found.length :=
      Nat.sub_add_cancel (List.length_pos_iff.mpr hne)
    have hprefix := hpre.trans (List.takeWhile_prefix _)
    have htake : t.take found.length = found := (List.prefix_iff_eq_take.mp hprefix).symm
    rw [hpos, htake]
    refine ⟨ hprefix.length_le, fun c hc => nameChar_of_digitOrDot ?_, ?_⟩
    · exact List.mem_takeWhile_imp (p := fun c => c.isDigit || c == '.') (hpre.subset hc)
    · rw [tagIfPublicV4]
      split
      · exact .inr (put_tag salt found)
      · exact .inl rfl
  back l l' t h := by
    have hb : boundary l.head? t.head? = boundary l'.head? t.head? := by rw [boundary, boundary, h]
    simp only [ipv4, hb]
  ahead l b q hq := by
    have hpre := (joined_take_isPrefix (b.takeWhile fun c => c.isDigit || c == '.') 4).trans
      (List.takeWhile_prefix _)
    simp only [ipv4, takeWhile_digitOrDot_append hq, boundary_head?_append _ hq,
      boundary_append _ hq hpre.length_le]

omit [CharTables] in
theorem isV4_spec {x : Text} (h : isV4 x = true) :
    (x.splitOn '.').length = 4 ∧ (∀ part ∈ x.splitOn '.', octet part = true) ∧
      ∀ c ∈ x, c.isDigit = true ∨ c = '.' := by
  simp only [isV4, Bool.and_eq_true, beq_iff_eq, List.all_eq_true] at h
  refine ⟨h.1, h.2, fun c hc => ?_⟩
  rw [← Name.joined_splitOn x] at hc
  rcases mem_of_mem_intercalate hc with rfl | ⟨part, hpart, hmem⟩
  · exact .inr rfl
  · have := h.2 part hpart
    simp only [octet, Bool.and_eq_true, List.all_eq_true] at this
    exact .inl (this.2 c hmem)

/-- A dotted address is a name. -/
theorem name_of_isV4 {x : Text} (h : isV4 x = true) : Name x := by
  obtain ⟨hlen, hoctets, hchars⟩ := isV4_spec h
  refine ⟨fun c hc => ?_, fun part hpart => ?_, by omega⟩
  · rcases hchars c hc with hd | rfl
    · exact .inl (by simp [plainChar, isAlphanum_of_isDigit hd])
    · exact .inr rfl
  · have hoctet := hoctets part hpart
    simp only [octet, Bool.and_eq_true, decide_eq_true_eq, List.all_eq_true] at hoctet
    obtain ⟨⟨hpos, hle⟩, hdigits⟩ := hoctet
    have hne : part ≠ [] := List.length_pos_iff.mp hpos
    have halnum : ∀ c ∈ part, alnum c = true := fun c hc =>
      alnum_of_isAlphanum (isAlphanum_of_isDigit (hdigits c hc))
    have hhead : part.head?.any alnum = true := by
      rw [List.head?_eq_some_head hne]
      exact halnum _ (List.head_mem hne)
    have hlast : part.getLast?.any alnum = true := by
      rw [List.getLast?_eq_some_getLast hne]
      exact halnum _ (List.getLast_mem hne)
    have hall : part.all (fun c => alnum c || c == '-') = true :=
      List.all_eq_true.mpr fun c hc => by simp [halnum c hc]
    simp only [label, hhead, hlast, hall, Bool.true_and, Bool.and_true, decide_eq_true_eq]
    omega

/-- An address in the slot is found whole. -/
theorem ipv4_at {salt : UInt64} {p q x : Text} (hp : EndsClear p) (hq : BeginsClear q)
    (hx : isV4 x = true) : (ipv4 salt).go 0 p.reverse (x ++ q) =
      tagIfPublicV4 salt x ++ (ipv4 salt).go 0 (x.reverse ++ p.reverse) q := by
  obtain ⟨hlen, -, hchars⟩ := isV4_spec hx
  have hne : x ≠ [] := (name_of_isV4 hx).ne_nil
  have hrun : (x ++ q).takeWhile (fun c => c.isDigit || c == '.') = x := by
    rw [takeWhile_digitOrDot_append hq, List.takeWhile_eq_self_iff]
    exact fun c hc => by simpa using hchars c hc
  have hfound : joined (((x ++ q).takeWhile fun c => c.isDigit || c == '.').splitOn '.' |>.take 4) =
      x := by
    rw [hrun, List.take_of_length_le (by omega), Name.joined_splitOn]
  have hfirst : boundary p.reverse.head? (x ++ q).head? = true := by
    obtain ⟨c, hc, -⟩ := (name_of_isV4 hx).head?
    have hdigit : c.isDigit = true := by
      refine (hchars c (List.mem_of_mem_head? hc)).resolve_right fun hdot => ?_
      obtain ⟨w, rest, hcut, hw, hlabel⟩ := (name_of_isV4 hx).cut_first
      obtain ⟨⟨d, hd, -⟩, -⟩ := Name.label_spec hlabel
      rw [hcut, List.head?_append, hd, Option.some_or, Option.some.injEq] at hc
      exact hw (hdot ▸ hc ▸ List.mem_of_mem_head? hd)
    have hprev := Local.any_word_reverse hp []
    simp only [List.reverse_nil, List.nil_append, List.head?_nil, Option.any_none] at hprev
    rw [boundary, hprev, List.head?_append, hc, Option.some_or, Option.any_some,
      word_of_isAlphanum (isAlphanum_of_isDigit hdigit)]
    rfl
  have hlast : boundary (some '0') (x ++ q)[x.length]? = true := by
    rw [boundary_append _ hq (Nat.le_refl _), List.getElem?_eq_none (Nat.le_refl _), boundary,
      Option.any_some, word_of_isAlphanum (by decide)]
    rfl
  have hhit : ipv4 salt p.reverse (x ++ q) = some (x.length - 1, tagIfPublicV4 salt x) := by
    simp only [ipv4, hfound, hfirst, hlast, hx, Bool.and_self, ↓reduceIte]
  exact Pass.go_of_found hne hhit

theorem ipv4_gives {salt : UInt64} {K : Text → Prop} {p q : Text} (hp : EndsClear p)
    (hq : BeginsClear q) (hK : ∀ x, K x → isV4 x = true) :
    Gives (ipv4 salt) K (tagIfPublicV4 salt) p q :=
  (ipv4_local salt).names.gives hp [] []
    (fun i b _ hib hb _ => (ipv4_local salt).same hp i b _ _ hib hb)
    fun x hx => by rw [ipv4_at hp hq (hK x hx), (ipv4_local salt).go_clear hq,
      (ipv4_local salt).go_clear hq]

/-- A text without a dot holds no address. -/
theorem ipv4_of_dotless {salt : UInt64} {l t : Text} (h : '.' ∉ t) : ipv4 salt l t = none := by
  have hrun : '.' ∉ t.takeWhile fun c => c.isDigit || c == '.' := fun hdot =>
    h ((List.takeWhile_prefix _).subset hdot)
  have hfound : isV4 (joined (((t.takeWhile fun c => c.isDigit || c == '.').splitOn '.').take 4)) =
      false := by
    rw [List.splitOn_eq_singleton hrun, List.take_of_length_le (by simp), joined,
      List.intercalate_singleton, isV4, List.splitOn_eq_singleton hrun]
    rfl
  simp only [ipv4, hfound, Bool.and_false, Bool.false_and, Bool.false_eq_true, ↓reduceIte]

/-! ### IPv6 -/

omit [CharTables] in
/-- The groups taken are the first ones, the last perhaps cut short. -/
theorem groups_spec (k : Nat) (gs : List Text) : groups k gs <+: gs ∨
    ∃ a x rest, gs = a ++ x :: rest ∧ groups k gs = a ++ [x.take 4] := by
  induction gs generalizing k with
  | nil =>
      left
      cases k <;> exact List.nil_prefix
  | cons g gs ih =>
      cases k with
      | zero => exact .inl List.nil_prefix
      | succ k =>
          simp only [groups]
          split
          · rcases ih k with hpre | ⟨a, x, rest, rfl, hcut⟩
            · exact .inl (List.cons_prefix_cons.mpr ⟨rfl, hpre⟩)
            · exact .inr ⟨g :: a, x, rest, rfl, by rw [hcut, List.cons_append]⟩
          · exact .inr ⟨[], g, gs, rfl, rfl⟩

/-- What `ipv6` finds is the front of a run of its characters. -/
theorem ipv6_spec {salt : UInt64} {l t : Text} {n : Nat} {out : Text}
    (h : ipv6 salt l t = some (n, out)) :
    ∃ found, found <+: t.takeWhile colonOrHex ∧ n + 1 = found.length ∧
      out = tagIfPublicV6 salt found := by
  unfold ipv6 at h
  split at h
  · cases h
  · rename_i first rest hsplit
    simp only [Option.ite_none_right_eq_some, Bool.and_eq_true, decide_eq_true_eq,
      Option.some.injEq, Prod.mk.injEq] at h
    obtain ⟨⟨-, htwo⟩, rfl, rfl⟩ := h
    refine ⟨(txt ":").intercalate (first :: groups 7 rest), ?_, ?_, rfl⟩
    · have hrun : [':'].intercalate (first :: rest) = t.takeWhile colonOrHex := by
        rw [← hsplit]
        exact List.intercalate_splitOn ':'
      rw [← hrun]
      rcases groups_spec 7 rest with hpre | ⟨a, x, rest', rfl, hcut⟩
      · exact intercalate_isPrefix (List.cons_prefix_cons.mpr ⟨rfl, hpre⟩)
      · rw [hcut]
        exact intercalate_append_isPrefix (List.take_prefix 4 x) (first :: a) rest'
    · obtain ⟨g, gs, hgs⟩ := List.exists_cons_of_ne_nil
        (List.length_pos_iff.mp (Nat.lt_of_lt_of_le Nat.two_pos htwo))
      refine Nat.sub_add_cancel (List.length_pos_iff.mpr ?_)
      rw [hgs, List.intercalate_cons_cons]
      simp

theorem tagIfPublicV6_of_quiet {salt : UInt64} {found : Text} (h : Quiet found) :
    tagIfPublicV6 salt found = found := by
  have hcolons : contains found (txt "::") = false := by
    rw [← Bool.not_eq_true, contains_iff]
    exact h.2
  simp only [tagIfPublicV6, hcolons, h.1, Bool.not_false, decide_true, Bool.and_self, ↓reduceIte]

omit [CharTables] in
theorem quiet_of_colonless {t : Text} (h : ':' ∉ t) : Quiet t :=
  ⟨by rw [List.count_eq_zero_of_not_mem h]; decide, fun hin => h (hin.subset (by simp))⟩

/-- Where every run is quiet, nothing changes. -/
theorem ipv6_inert {salt : UInt64} {t u : Text} (hu : ∀ c, u.head? = some c → colonOrHex c = false)
    (hquiet : ∀ v, v <:+ t → Quiet (v.takeWhile colonOrHex)) (l : Text) :
    (ipv6 salt).go 0 l (t ++ u) = t ++ (ipv6 salt).go 0 (t.reverse ++ l) u := by
  refine Pass.go_append_of_inert fun a b hab hb n out hhit => ?_
  obtain ⟨found, hpre, hn, rfl⟩ := ipv6_spec hhit
  have hrun : (b ++ u).takeWhile colonOrHex = b.takeWhile colonOrHex := by
    rcases forall_or_exists_false colonOrHex b with hall | hbreak
    · rw [takeWhile_append_of_head hall hu, List.takeWhile_eq_self_iff.mpr hall]
    · exact takeWhile_append_of_exists hbreak u
  rw [hrun] at hpre
  have hfound := hpre.trans (List.takeWhile_prefix _)
  rw [hn, tagIfPublicV6_of_quiet ((hquiet b ⟨a, hab.symm⟩).of_part hpre.isInfix)]
  exact ⟨hfound.length_le, List.prefix_iff_eq_take.mp hfound⟩

omit [CharTables] in
/-- Around a slot without a colon, which breaks the run, the runs are quiet when what is on either
side is. -/
theorem quiet_around {b s r : Text} (hb : ∀ c ∈ b, colonOrHex c = true) (hbq : Quiet b)
    (hs : ':' ∉ s) (hbreak : ∃ c ∈ s, colonOrHex c = false) (hr : ∀ c ∈ r, colonOrHex c = true)
    (hrq : Quiet r) {v : Text} (hv : v <:+ b ++ (s ++ r)) : Quiet (v.takeWhile colonOrHex) := by
  have hslot : ∀ v, v <:+ s ++ r → Quiet (v.takeWhile colonOrHex) := fun v hv => by
    rcases suffix_append_cases hv with hv | ⟨s', hs', rfl⟩
    · exact (hrq.of_part hv.isInfix).of_part (List.takeWhile_prefix _).isInfix
    · have hcolon : ':' ∉ s' := fun hc => hs (hs'.subset hc)
      rcases forall_or_exists_false colonOrHex s' with hall | hex
      · rw [List.takeWhile_append_of_pos hall, List.takeWhile_eq_self_iff.mpr hr]
        exact hrq.append_left hcolon
      · rw [takeWhile_append_of_exists hex]
        exact quiet_of_colonless fun hc => hcolon ((List.takeWhile_prefix _).subset hc)
  rcases suffix_append_cases hv with hv | ⟨b', hb', rfl⟩
  · exact hslot v hv
  · rw [List.takeWhile_append_of_pos fun c hc => hb c (hb'.subset hc),
      takeWhile_append_of_exists hbreak]
    exact (hbq.of_part hb'.isInfix).append_right fun hc => hs ((List.takeWhile_prefix _).subset hc)

theorem ipv6_go_congr (salt : UInt64) (k : Nat) (l l' t : Text) :
    (ipv6 salt).go k l t = (ipv6 salt).go k l' t := by
  refine Pass.go_congr (fun a b _ _ => ?_) k
  simp only [ipv6]

/-- **`ipv6` leaves a slot without a colon alone** between quiet runs. -/
theorem ipv6_keeps {salt : UInt64} {K : Text → Prop} {p q : Text} (hp : EndsClear p)
    (hq : BeginsClear q) (hpq : Quiet (p.rtakeWhile colonOrHex))
    (hqq : Quiet (q.takeWhile colonOrHex))
    (hK : ∀ s, K s → ':' ∉ s ∧ ∃ c ∈ s, colonOrHex c = false) :
    ∃ p' q', EndsClear p' ∧ BeginsClear q' ∧
      ∀ s, K s → (ipv6 salt).apply (p ++ (s ++ q)) = p' ++ (s ++ q') := by
  have hrest : ∀ c, (q.dropWhile colonOrHex).head? = some c → colonOrHex c = false := fun c hc => by
    have := List.head?_dropWhile_not colonOrHex q
    rw [hc] at this
    exact this
  -- from a place after which `p` has only address characters on, everything is as it was
  have hdone : ∀ o b l : Text, (∀ c ∈ b, colonOrHex c = true) → b <:+ p → EndsClear (o ++ b) →
      ∃ p' q', EndsClear p' ∧ BeginsClear q' ∧
        ∀ s, K s → o ++ (ipv6 salt).go 0 l (b ++ (s ++ q)) = p' ++ (s ++ q') := by
    intro o b l hb hsuffix hclear
    refine ⟨o ++ b, q.takeWhile colonOrHex ++ (ipv6 salt).apply (q.dropWhile colonOrHex), hclear,
      ?_,
      fun s hs => ?_⟩
    · cases hc : q with
      | nil => simp [Pass.apply, BeginsClear]
      | cons c q' =>
          have hcclear := hq c (by rw [hc]; rfl)
          cases hhex : colonOrHex c with
          | true => simpa [BeginsClear, hhex] using hcclear
          | false =>
              have hnone : ipv6 salt [] (c :: q') = none := by
                cases hhit : ipv6 salt [] (c :: q') with
                | none => rfl
                | some hit =>
                    obtain ⟨found, hpre, hn, -⟩ := ipv6_spec hhit
                    have hnil : found = [] := by simpa [hhex] using hpre
                    rw [hnil] at hn
                    cases hn
              rw [List.takeWhile_cons_of_neg (by simp [hhex]),
                List.dropWhile_cons_of_neg (by simp [hhex]), List.nil_append, Pass.apply,
                Pass.go_of_none hnone]
              simpa [BeginsClear] using hcclear
    · have hbq : Quiet b := by
        refine hpq.of_part (List.IsSuffix.isInfix ?_)
        obtain ⟨i, rfl⟩ := hsuffix
        rw [rtakeWhile_append_of_forall hb]
        exact List.suffix_append ..
      have hinert := @ipv6_inert _ salt (b ++ (s ++ q.takeWhile colonOrHex))
          (q.dropWhile colonOrHex) hrest
        (fun v hv => quiet_around hb hbq (hK s hs).1 (hK s hs).2
          (fun c hc => List.mem_takeWhile_imp hc) hqq hv) l
      have hsplit : b ++ (s ++ q) =
          (b ++ (s ++ q.takeWhile colonOrHex)) ++ q.dropWhile colonOrHex := by
        simp [List.takeWhile_append_dropWhile]
      rw [hsplit, hinert, ipv6_go_congr salt 0 _ [] _]
      simp [Pass.apply]
  refine @Pass.apply_slot _ (ipv6 salt) K p q
    (fun o i => o = i ∨ (∃ c, i.getLast? = some c ∧ o.getLast? = some c) ∨
      ∃ rest, i ++ rest = p ∧ ∃ c ∈ rest, colonOrHex c = false)
    (fun f => ∃ p' q', EndsClear p' ∧ BeginsClear q' ∧ ∀ s, K s → f s = p' ++ (s ++ q')) ?_ ?_ ?_
      (.inl rfl)
  · rintro f f' ⟨p', q', hp', hq', hf⟩ hff
    exact ⟨p', q', hp', hq', fun s hs => (hff s hs).trans (hf s hs)⟩
  · intro o i b hib hb hsim
    have hlast : ∀ c, b.getLast? = some c → clear c = true := fun c hc => hp c (by
      rw [← hib, List.getLast?_append_of_ne_nil i hb, hc])
    rcases forall_or_exists_false colonOrHex b with hall | hbreak
    · refine .inr (hdone o b i.reverse hall ⟨i, hib⟩ fun c hc => hlast c ?_)
      rwa [List.getLast?_append_of_ne_nil o hb] at hc
    · left
      have hsame : ∀ z, ipv6 salt i.reverse (b ++ z) = ipv6 salt i.reverse b := fun z => by
        simp only [ipv6, takeWhile_append_of_exists hbreak]
      cases hhit : ipv6 salt i.reverse b with
      | none =>
          obtain ⟨c, b, rfl⟩ := List.exists_cons_of_ne_nil hb
          refine ⟨1, [c], Nat.one_pos, by simp, .inr (.inl ⟨c, by simp, by simp⟩), fun s _ => ?_⟩
          have hnone : ipv6 salt i.reverse (c :: (b ++ (s ++ q))) = none := (hsame _).trans hhit
          rw [List.cons_append, Pass.go_of_none hnone]
          simp
      | some hit =>
          obtain ⟨n, out⟩ := hit
          obtain ⟨found, hpre, hn, -⟩ := ipv6_spec hhit
          have hle : n + 1 ≤ (b.takeWhile colonOrHex).length := hn ▸ hpre.length_le
          have hnb : n + 1 ≤ b.length := hle.trans (List.takeWhile_prefix _).length_le
          refine ⟨n + 1, out, Nat.succ_pos n, hnb,
            .inr (.inr ⟨b.drop (n + 1), by simpa using hib, ?_⟩),
            fun s _ => ?_⟩
          · -- what breaks the run stands after the match
            obtain ⟨c, hc, hhex⟩ := hbreak
            refine ⟨c, ?_, hhex⟩
            rw [← List.take_append_drop (n + 1) b] at hc
            refine (List.mem_append.mp hc).resolve_left fun htake => ?_
            have hmem : c ∈ b.takeWhile colonOrHex := by
              rw [← List.takeWhile_append_dropWhile (p := colonOrHex) (l := b),
                List.take_append_of_le_length hle] at htake
              exact List.mem_of_mem_take htake
            rw [List.mem_takeWhile_imp hmem] at hhex
            cases hhex
          · rw [Pass.go_of_some (by simp [hb]) ((hsame _).trans hhit),
              List.take_append_of_le_length hnb, List.drop_append_of_le_length hnb,
              List.reverse_append]
  · intro o hsim
    have hclear : EndsClear o := by
      rcases hsim with rfl | ⟨c, hpc, hoc⟩ | ⟨rest, hrest, c, hc, -⟩
      · exact hp
      · intro d hd
        rw [hoc, Option.some.injEq] at hd
        exact hd ▸ hp c hpc
      · obtain rfl : rest = [] := by simpa using hrest
        cases hc
    simpa using hdone o [] p.reverse (by simp) List.nil_suffix (by simpa using hclear)

end Ghostlane.App.LogScrubber
