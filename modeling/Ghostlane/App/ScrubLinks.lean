import Ghostlane.App.ScrubNames

/-!
# Ghostlane.App.ScrubLinks

Encrypted links and a slot. A link goes to the end of its word, so a slot in that word goes with it
and one elsewhere is left alone (`cryptLink_fate`).
-/

namespace Ghostlane.App.LogScrubber

open Ghostlane.Lib CharTables

variable [CharTables]

/-! ### Encrypted links -/

omit [CharTables] in
theorem fitsEach_literal (w : Text) (classes : List (Char → Bool)) (t : Text) :
    fitsEach (w.map (fun c d => d == c) ++ classes) t = true ↔
      ∃ rest, t = w ++ rest ∧ fitsEach classes rest = true := by
  induction w generalizing t with
  | nil => simp
  | cons c w ih =>
      cases t with
      | nil => simp [fitsEach]
      | cons d t =>
          simp only [List.map_cons, List.cons_append, fitsEach, Bool.and_eq_true, beq_iff_eq, ih,
            List.cons.injEq]
          constructor
          · rintro ⟨rfl, rest, rfl, h⟩
            exact ⟨rest, ⟨rfl, rfl⟩, h⟩
          · rintro ⟨rest, ⟨rfl, rfl⟩, h⟩
            exact ⟨rfl, rest, rfl, h⟩

/-- An encrypted link, up to the slash. -/
def linkHead (proto : Text) (d : Char) : Text :=
  proto ++ ([':', '/', '/'] ++ (['c', 'r', 'y', 'p', 't', d] ++ ['/']))

def linkProtos : List Text := [['o', 'l', 'c', 'r', 't', 'c'], ['h', 'a', 'p', 'p']]

omit [CharTables] in
/-- The heads of `cryptLink` are those. -/
theorem cryptHeads_any (t : Text) :
    cryptHeads.any (fun head => fitsEach (head ++ [fun c => !blank c]) t) = true ↔
      ∃ proto ∈ linkProtos, ∃ d, d.isDigit = true ∧ ∃ c rest, blank c = false ∧
        t = linkHead proto d ++ c :: rest := by
  have hhead : ∀ proto : Text, ∀ t : Text,
      fitsEach ((proto ++ [':', '/', '/', 'c', 'r', 'y', 'p', 't']).map (fun c d => d == c) ++
        (Char.isDigit :: (['/'].map (fun c d => d == c) ++ [fun c => !blank c]))) t = true ↔
      ∃ d, d.isDigit = true ∧ ∃ c rest, blank c = false ∧ t = linkHead proto d ++ c :: rest := by
    intro proto t
    rw [fitsEach_literal]
    constructor
    · rintro ⟨rest, rfl, h⟩
      cases rest with
      | nil => cases h
      | cons d rest =>
          simp only [fitsEach, Bool.and_eq_true] at h
          obtain ⟨hd, h⟩ := h
          rw [fitsEach_literal] at h
          obtain ⟨rest, rfl, h⟩ := h
          cases rest with
          | nil => cases h
          | cons c rest =>
              simp only [fitsEach, Bool.and_true, Bool.not_eq_true'] at h
              exact ⟨d, hd, c, rest, h, by simp [linkHead]⟩
    · rintro ⟨d, hd, c, rest, hc, rfl⟩
      refine ⟨d :: '/' :: c :: rest, by simp [linkHead], ?_⟩
      simp [fitsEach, hd, hc]
  simp only [cryptHeads, List.any_cons, List.any_nil, Bool.or_false, Bool.or_eq_true, linkProtos,
    List.mem_cons, List.not_mem_nil, or_false, exists_eq_or_imp, exists_eq_left]
  exact or_congr (hhead ['o', 'l', 'c', 'r', 't', 'c'] t) (hhead ['h', 'a', 'p', 'p'] t)

theorem nameChar_of_mem_proto {proto : Text} (h : proto ∈ linkProtos) {c : Char} (hc : c ∈ proto) :
    nameChar c = true := by
  have hall : ∀ w ∈ linkProtos, ∀ d ∈ w, plainChar d = true := by decide
  exact nameChar_of_plainChar (hall proto h c hc)

theorem nameChar_of_mem_crypt {d : Char} (hd : d.isDigit = true) {c : Char}
    (hc : c ∈ ['c', 'r', 'y', 'p', 't', d]) : nameChar c = true := by
  refine nameChar_of_plainChar ?_
  have hall : ∀ e ∈ ['c', 'r', 'y', 'p', 't'], plainChar e = true := by decide
  rcases List.mem_append.mp (show c ∈ ['c', 'r', 'y', 'p', 't'] ++ [d] from hc) with hmem | hmem
  · exact hall c hmem
  · rw [List.mem_singleton.mp hmem]
    simp [plainChar, isAlphanum_of_isDigit hd]

theorem clear_slash : clear '/' = true := clear_of_mem_schemeEnd (by simp)

/-- What is before the slot ends at the only seam of a link head: after `://`. -/
theorem linkHead_seam {proto b w : Text} {d : Char} (hproto : proto ∈ linkProtos)
    (hd : d.isDigit = true) (hb : EndsClear b) (hbne : b ≠ [])
    (hw : ∃ c, w.head? = some c ∧ clear c = false) (h : b ++ w = linkHead proto d) :
    w = ['c', 'r', 'y', 'p', 't', d] ++ ['/'] := by
  obtain ⟨first, hfirst, hunclear⟩ := hw
  -- `b` does not end with a name character
  have hends : ∀ a : Text, a ≠ [] → (∀ c ∈ a, nameChar c = true) → ∀ i, b ≠ i ++ a := by
    intro a ha hname i heq
    have hlast : b.getLast? = some (a.getLast ha) := by
      rw [heq, List.getLast?_append_of_ne_nil i ha, List.getLast?_eq_some_getLast ha]
    have := hb _ hlast
    rw [clear_of_nameChar (hname _ (List.getLast_mem ha))] at this
    cases this
  have hsep : ∀ a z : Text, a ≠ [] → (∀ c ∈ a, c ∈ [':', '/', '/']) → w ≠ a ++ z := by
    intro a z ha hall heq
    obtain ⟨c, a, rfl⟩ := List.exists_cons_of_ne_nil ha
    rw [heq, List.cons_append, List.head?_cons, Option.some.injEq] at hfirst
    rw [← hfirst, clear_of_mem_schemeEnd (hall c (List.mem_cons_self ..))] at hunclear
    cases hunclear
  rw [linkHead] at h
  rcases List.append_eq_append_iff.mp h with ⟨a, hpa, -⟩ | ⟨a, hba, hrest⟩
  · exact absurd (List.nil_append b).symm
      (hends b hbne
        (fun c hc => nameChar_of_mem_proto hproto
          (by rw [hpa]; exact List.mem_append_left _ hc)) [])
  · rcases List.append_eq_append_iff.mp hrest with ⟨a', ha', hw'⟩ | ⟨a', ha', hw'⟩
    · rcases List.append_eq_append_iff.mp hw' with ⟨c, -, hslash⟩ | ⟨c, hcrypt, -⟩
      · obtain ⟨-, hw⟩ | ⟨-, hw⟩ := List.singleton_eq_append_iff.mp hslash
        · exact absurd (by rw [hw, List.append_nil]) (hsep ['/'] [] (by simp) (by simp))
        · rw [hw] at hfirst
          cases hfirst
      · by_cases hnil : a' = []
        · rw [hw', hnil, List.nil_append]
        · refine absurd (?_ : b = (proto ++ [':', '/', '/']) ++ a')
            (hends a' hnil (fun c hc => ?_) _)
          · rw [hba, ha', List.append_assoc]
          · exact nameChar_of_mem_crypt hd (by rw [hcrypt]; exact List.mem_append_left _ hc)
    · by_cases hnil : a' = []
      · rw [hw', hnil, List.nil_append]
      · exact absurd hw' (hsep a' _ hnil fun c hc => by rw [ha']; exact List.mem_append_right _ hc)

/-- A link head that begins before the slot ends before it. -/
theorem linkHead_before {proto b s q : Text} {d : Char} (hproto : proto ∈ linkProtos)
    (hd : d.isDigit = true) (hb : EndsClear b) (hbne : b ≠ []) (hs : Name s) (hq : BeginsClear q)
    (h : linkHead proto d <+: b ++ (s ++ q)) : linkHead proto d <+: b := by
  rcases List.prefix_or_prefix_of_prefix h (List.prefix_append b (s ++ q)) with hin | ⟨w, hw⟩
  · exact hin
  · by_cases hnil : w = []
    · rw [← hw, hnil, List.append_nil]
    · rw [← hw, List.prefix_append_right_inj] at h
      have hsfirst : ∃ c, w.head? = some c ∧ clear c = false := by
        obtain ⟨c, w, rfl⟩ := List.exists_cons_of_ne_nil hnil
        obtain ⟨e, he, hal⟩ := hs.head?
        obtain ⟨rest, hrest⟩ := h
        have hsame : (c :: w ++ rest).head? = (s ++ q).head? := congrArg List.head? hrest
        simp only [List.cons_append, List.head?_cons, List.head?_append, he, Option.some_or,
          Option.some.injEq] at hsame
        exact ⟨c, rfl, hsame ▸ clear_of_alnum hal⟩
      -- then the slot would be a name without a dot
      obtain rfl := linkHead_seam hproto hd hb hbne hsfirst hw
      obtain ⟨rest, hrest⟩ := h
      have hrun := hs.takeWhile hq
      rw [← hrest, List.append_assoc, takeWhile_append_of_head
        (fun c hc => nameChar_of_mem_crypt hd hc) (fun c hc => ?_)] at hrun
      · obtain ⟨u, v, hsplit, -, -⟩ := hs.cut_first
        have hdot : '.' ∈ ['c', 'r', 'y', 'p', 't', d] := by
          rw [hrun, hsplit]
          simp
        have hne : ∀ e ∈ ['c', 'r', 'y', 'p', 't', d], e ≠ '.' := by
          intro e he
          simp only [List.mem_cons, List.not_mem_nil, or_false] at he
          rcases he with rfl | rfl | rfl | rfl | rfl | rfl
          all_goals first | decide | exact fun heq => absurd hd (by rw [heq]; decide)
        exact absurd rfl (hne _ hdot)
      · obtain rfl : '/' = c := Option.some.inj hc
        exact nameChar_of_clear clear_slash

/-- One that begins in the slot is one of the words, with `://` after the slot. -/
theorem linkHead_in {proto v q : Text} {d : Char} (hproto : proto ∈ linkProtos)
    (hv : ∀ c ∈ v, nameChar c = true) (hq : BeginsClear q) (h : linkHead proto d <+: v ++ q) :
    v = proto ∧ [':', '/', '/'] <+: q := by
  obtain ⟨rest, hrest⟩ := h
  have hproto' : (linkHead proto d ++ rest).takeWhile nameChar = proto := by
    rw [linkHead, List.append_assoc]
    refine takeWhile_append_of_head (fun c hc => nameChar_of_mem_proto hproto hc) fun c hc => ?_
    obtain rfl : ':' = c := Option.some.inj hc
    exact colon_not_nameChar
  rw [hrest, takeWhile_append_of_head hv fun c hc => nameChar_of_clear (hq c hc)] at hproto'
  subst hproto'
  rw [linkHead, List.append_assoc, List.append_cancel_left_eq] at hrest
  exact ⟨rfl, by rw [← hrest, List.append_assoc]; exact List.prefix_append ..⟩

/-- A link at a place, its boundary aside. -/
def isLink (t : Text) : Bool := cryptHeads.any fun head => fitsEach (head ++ [fun c => !blank c]) t

theorem cryptLink_eq (l t : Text) : cryptLink l t =
    if boundary l.head? t.head? && isLink t then
      some ((t.takeWhile fun c => !blank c).length - 1, txt "<link>") else none := rfl

omit [CharTables] in
theorem isLink_iff {t : Text} : isLink t = true ↔ ∃ proto ∈ linkProtos, ∃ d, d.isDigit = true ∧
    ∃ c rest, blank c = false ∧ t = linkHead proto d ++ c :: rest := cryptHeads_any t

theorem blank_of_mem_linkHead {proto : Text} {d : Char} (hproto : proto ∈ linkProtos)
    (hd : d.isDigit = true) {c : Char} (hc : c ∈ linkHead proto d) : blank c = false := by
  simp only [linkHead, List.mem_append] at hc
  rcases hc with hc | hc | hc | hc
  · exact blank_of_nameChar (nameChar_of_mem_proto hproto hc)
  · have hall : ∀ e ∈ [':', '/', '/'], blank e = false := by decide
    exact hall c hc
  · exact blank_of_nameChar (nameChar_of_mem_crypt hd hc)
  · obtain rfl := List.mem_singleton.mp hc
    decide

/-- What a link takes: the head is in it, so that it is not empty and has a slash. -/
theorem isLink_run {t : Text} (h : isLink t = true) :
    '/' ∈ t.takeWhile (fun c => !blank c) ∧ ∃ c, t.head? = some c ∧ clear c = false := by
  obtain ⟨proto, hproto, d, hd, c, rest, -, rfl⟩ := isLink_iff.mp h
  constructor
  · rw [List.takeWhile_append_of_pos fun c hc => by simp [blank_of_mem_linkHead hproto hd hc]]
    exact List.mem_append_left _ (by simp [linkHead])
  · have hne : proto ≠ [] := by
      rintro rfl
      revert hproto
      decide
    obtain ⟨e, w, rfl⟩ := List.exists_cons_of_ne_nil hne
    exact ⟨e, rfl, clear_of_nameChar (nameChar_of_mem_proto hproto (List.mem_cons_self ..))⟩

/-- Whether a link begins before the slot is not the slot's business. -/
theorem isLink_before {b s s' q : Text} (hb : EndsClear b) (hbne : b ≠ []) (hs : Name s)
    (hs' : Name s') (hq : BeginsClear q) (h : isLink (b ++ (s ++ q)) = true) :
    isLink (b ++ (s' ++ q)) = true := by
  obtain ⟨proto, hproto, d, hd, c, rest, hc, heq⟩ := isLink_iff.mp h
  obtain ⟨b', rfl⟩ := linkHead_before hproto hd hb hbne hs hq
    (by rw [heq]; exact List.prefix_append ..)
  rw [List.append_assoc, List.append_cancel_left_eq] at heq
  refine isLink_iff.mpr ⟨proto, hproto, d, hd, ?_⟩
  rw [List.append_assoc]
  cases b' with
  | nil =>
      obtain ⟨e, z, hz⟩ := List.exists_cons_of_ne_nil hs'.ne_nil
      exact ⟨e, z ++ q, (hs'.char (by simp [hz])).2.2.2, by simp [hz]⟩
  | cons e b' =>
      simp only [List.cons_append, List.cons.injEq] at heq
      exact ⟨e, b' ++ (s' ++ q), heq.1 ▸ hc, by simp⟩

theorem cryptLink_looksBackOne : LooksBackOne cryptLink := fun l l' t h => by
  rw [cryptLink_eq, cryptLink_eq, h]

theorem cryptLink_beginsUnclear : BeginsUnclear cryptLink := fun l c t hc => by
  rw [cryptLink_eq, if_neg]
  intro h
  simp only [Bool.and_eq_true] at h
  obtain ⟨d, hd, hunclear⟩ := (isLink_run h.2).2
  obtain rfl : c = d := Option.some.inj hd
  rw [hc] at hunclear
  cases hunclear

theorem cryptLink_hit {l t rest : Text} (hrest : ∀ c, rest.head? = some c → blank c = true)
    (ht : ∀ c ∈ t, blank c = false) (hboundary : boundary l.head? (t ++ rest).head? = true)
    (hlink : isLink (t ++ rest) = true) : cryptLink.go 0 l (t ++ rest) =
      txt "<link>" ++ cryptLink.go 0 (t.reverse ++ l) rest := by
  have hrun : (t ++ rest).takeWhile (fun c => !blank c) = t :=
    takeWhile_append_of_head (fun c hc => by simp [ht c hc]) fun c hc => by simp [hrest c hc]
  have hne : t ≠ [] := by
    have := (isLink_run hlink).1
    rintro rfl
    rw [hrun] at this
    cases this
  refine Pass.go_of_found hne ?_
  rw [cryptLink_eq, hboundary, hlink, hrun]
  rfl

/-- A mark that is put for what goes to the end of a word. -/
theorem rightOk_mark {found out : Text} (hout : Put out) (hclear : BeginsClear out)
    (hblank : ∀ c ∈ found, blank c = false) (hne : found ≠ []) : RightOk found out where
  nonempty := hne
  first _ := hclear
  blank_found := hblank
  blank_out := hout.blank
  slash hs := absurd hs hout.slash
  run u' u _ := takeWhile_colonOrHex_prefix hout.first hout.nonempty found u' u
  out_nonempty := hout.nonempty
  code c hc hcode := by
    rw [hout.code c hc] at hcode
    cases hcode

omit [CharTables] in
theorem put_link : Put (txt "<link>") :=
  ⟨by decide, fun _ hc => by cases hc; decide, by decide, by decide, by decide, by decide⟩

theorem cryptLink_rsim (l t : Text) : RSim (cryptLink.go 0 l t) t := by
  refine Pass.go_right (.refl []) (fun c u' u h => h.append [c])
    (fun l t n out u' _ hhit h => ?_) l t
  rw [cryptLink_eq, Option.ite_none_right_eq_some, Bool.and_eq_true, Option.some.injEq,
    Prod.mk.injEq] at hhit
  obtain ⟨⟨-, hlink⟩, rfl, rfl⟩ := hhit
  have hne : t.takeWhile (fun c => !blank c) ≠ [] := List.ne_nil_of_mem (isLink_run hlink).1
  have hblank : ∀ c ∈ t.takeWhile (fun c => !blank c), blank c = false := fun c hc => by
    simpa using List.mem_takeWhile_imp hc
  have hclear : BeginsClear (txt "<link>") := fun c hc => by
    obtain rfl : '<' = c := Option.some.inj hc
    rw [clear_ascii (by decide)]
    decide
  rw [Nat.sub_add_cancel (List.length_pos_iff.mpr hne)] at h
  have := h.hit (rightOk_mark put_link hclear hblank hne)
  rwa [List.prefix_iff_eq_append.mp (List.takeWhile_prefix fun c => !blank c)] at this

/-- **Encrypted links and a slot.** It goes with one, or stays. -/
theorem cryptLink_fate {K : Text → Prop} {p q : Text} (hK : ∀ s, K s → Name s)
    (hp : EndsClear p) (hq : BeginsClear q)
    (hin : (∀ s, K s → ∀ c ∈ s, c.isAlpha = false) ∨ ¬ [':', '/', '/'] <+: q) :
    (∃ out, ∀ s, K s → cryptLink.apply (p ++ (s ++ q)) = out) ∨ Gives cryptLink K id p q := by
  refine @Pass.apply_slot _ cryptLink K p q Sim (fun f => (∃ out, ∀ s, K s → f s = out) ∨
    ∃ p' q', Left p' p ∧ Right q' q ∧ ∀ s, K s → f s = p' ++ (s ++ q')) ?_ ?_ ?_ (Sim.refl [])
  · rintro f g (⟨out, hout⟩ | ⟨p', q', hl, hr, hout⟩) h
    · exact .inl ⟨out, fun s hs => (h s hs).trans (hout s hs)⟩
    · exact .inr ⟨p', q', hl, hr, fun s hs => (h s hs).trans (hout s hs)⟩
  · intro o i b hib hb hsim
    have hbclear : EndsClear b := fun c hc => hp c (by
      rw [← hib, List.getLast?_append_of_ne_nil i hb, hc])
    rcases Classical.em (∃ s, K s ∧ boundary i.reverse.head? b.head? = true ∧
        isLink (b ++ (s ++ q)) = true) with ⟨s₀, hs₀, hbound, hlink₀⟩ | hno
    · have hlink : ∀ s, K s → isLink (b ++ (s ++ q)) = true := fun s hs =>
        isLink_before hbclear hb (hK s₀ hs₀) (hK s hs) hq hlink₀
      have hbound' : ∀ z, boundary i.reverse.head? (b ++ z).head? = true := fun z => by
        obtain ⟨c, b, rfl⟩ := List.exists_cons_of_ne_nil hb
        exact hbound
      rcases forall_or_exists_false (fun c => !blank c) b with hall | hbreak
      · right
        refine .inl ⟨o ++ (txt "<link>" ++ cryptLink.apply (q.dropWhile fun c => !blank c)),
          fun s hs => ?_⟩
        have hsplit : b ++ (s ++ q) = (b ++ (s ++ q.takeWhile fun c => !blank c)) ++
            q.dropWhile fun c => !blank c := by
          simp [List.takeWhile_append_dropWhile]
        have hrest : ∀ c, (q.dropWhile fun c => !blank c).head? = some c → blank c = true :=
          fun c hc => by
          have := List.head?_dropWhile_not (fun c => !blank c) q
          rw [hc] at this
          simpa using this
        have hmatch := hlink s hs
        have hfront := hbound' (s ++ q)
        beta_reduce
        rw [hsplit] at hmatch hfront ⊢
        rw [cryptLink_hit hrest (fun c hc => ?_) hfront hmatch,
          cryptLink_looksBackOne.go_clear cryptLink_beginsUnclear fun c hc =>
            clear_of_blank (hrest c hc)]
        simp only [List.mem_append] at hc
        rcases hc with hc | hc | hc
        · simpa using hall c hc
        · exact ((hK s hs).char hc).2.2.2
        · simpa using List.mem_takeWhile_imp hc
      · left
        obtain ⟨found, c, rest, rfl, hfound, hc⟩ := cut_of_exists hbreak
        have hblank : blank c = true := by simpa using hc
        have hfound' : ∀ d ∈ found, blank d = false := fun d hd => by simpa using hfound d hd
        have hsplit : ∀ z, found ++ c :: rest ++ z = found ++ (c :: (rest ++ z)) := fun z => by simp
        have htake : (found ++ c :: rest).take (found.length + 1) = found ++ [c] := by
          simp [List.take_append]
        refine ⟨found.length + 1, txt "<link>" ++ [c], Nat.succ_pos _, by simp, ?_, fun s hs => ?_⟩
        · rw [htake]
          refine hsim.hit_blank ?_ hfound' (fun d hd hcode => ?_) hblank
          · have := (isLink_run hlink₀).1
            rwa [hsplit, takeWhile_append_of_head hfound (fun d hd => ?_)] at this
            obtain rfl : c = d := Option.some.inj hd
            exact hc
          · rw [put_link.code d hd] at hcode
            cases hcode
        · have hmatch := hlink s hs
          have hfront := hbound' (s ++ q)
          rw [hsplit] at hmatch hfront ⊢
          rw [cryptLink_hit (fun d hd => ?_) hfound' hfront hmatch,
            Pass.go_of_none (cryptLink_beginsUnclear _ c _ (clear_of_blank hblank)), htake]
          · simp
          · obtain rfl : c = d := Option.some.inj hd
            exact hblank
    · left
      obtain ⟨c, b, rfl⟩ := List.exists_cons_of_ne_nil hb
      refine ⟨1, [c], Nat.one_pos, by simp, hsim.append [c], fun s hs => ?_⟩
      have hnone : cryptLink i.reverse (c :: (b ++ (s ++ q))) = none := by
        rw [cryptLink_eq, if_neg]
        intro h
        simp only [Bool.and_eq_true] at h
        exact hno ⟨s, hs, h.1, h.2⟩
      rw [List.cons_append, Pass.go_of_none hnone]
      simp
  · intro o hsim
    refine .inr ⟨o, cryptLink.apply q, hsim.left, (cryptLink_rsim [] q).right, fun s hs => ?_⟩
    have hnone : ∀ a b, s = a ++ b → b ≠ [] → cryptLink (a.reverse ++ p.reverse) (b ++ q) =
        none := by
      intro a b hab hb
      rw [cryptLink_eq, if_neg]
      intro h
      simp only [Bool.and_eq_true] at h
      obtain ⟨proto, hproto, d, hd, c, rest, -, heq⟩ := isLink_iff.mp h.2
      obtain ⟨rfl, hscheme⟩ := @linkHead_in _ proto b q d hproto
        (fun c hc => ((hK s hs).char (by rw [hab]; exact List.mem_append_right _ hc)).1) hq
        (by rw [heq]; exact List.prefix_append ..)
      rcases hin with halpha | hno
      · obtain ⟨e, b, rfl⟩ := List.exists_cons_of_ne_nil hb
        have hall : ∀ w ∈ linkProtos, ∀ d ∈ w, d.isAlpha = true := by decide
        have := halpha s hs e (by simp [hab])
        rw [hall _ hproto e (List.mem_cons_self ..)] at this
        cases this
      · exact hno hscheme
    beta_reduce
    rw [Pass.go_append_of_none hnone, cryptLink_looksBackOne.go_clear cryptLink_beginsUnclear hq]

end Ghostlane.App.LogScrubber
